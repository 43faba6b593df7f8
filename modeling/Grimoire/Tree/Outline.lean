import Grimoire.Tree.Grammar

/-!
# Outlines

An indented listing of nested records and lists, and the outline of a spell tree. Each level is
indented by two blanks; a field that is a record or a list starts on the line after its key. A tree
that is nested too deeply has no outline.
-/

namespace Grimoire

/-- Something that can be listed: a word, a list, or a record with keys in order. -/
inductive Outline where
  | word (text : Text)
  | items (members : List Outline)
  | fields (members : List (Text × Outline))

namespace Outline

/-- Sets a key of a record. A key that is there already keeps its place. -/
def setField (fields : List (Text × Outline)) (key : Text) (value : Outline) :
    List (Text × Outline) :=
  match fields with
  | [] => [(key, value)]
  | (k, v) :: rest => if k = key then (k, value) :: rest else (k, v) :: setField rest key value

/-- The record with the given keys. Of a key that occurs more than once the last value counts. -/
def record (fields : List (Text × Outline)) : Outline :=
  .fields (fields.foldl (fun acc (key, value) => setField acc key value) [])

/-- The blanks in front of a line. A level below zero has none. -/
def margin (indent : Int) : Text := List.replicate (2 * indent.toNat) ' '

/-- The lines of a listing. A listing without any is a single empty line. -/
def orBlank : List Text → List Text
  | [] => [[]]
  | lines => lines

mutual

/-- The lines of an outline whose own level is `indent`. Everything inside stands further in. -/
def lines (indent : Int) : Outline → List Text
  | .word text => [margin indent ++ text]
  | .items members => orBlank (itemLines indent members)
  | .fields members => orBlank (fieldLines indent members)

/-- The members of a list, each under a dash. -/
def itemLines (indent : Int) : List Outline → List Text
  | [] => []
  | o :: os => (margin indent ++ "-") :: (lines (indent + 1) o ++ itemLines indent os)

/-- The fields of a record, each after its key. -/
def fieldLines (indent : Int) : List (Text × Outline) → List Text
  | [] => []
  -- A word stands on the line of its key, everything else below it.
  | (key, .word text) :: rest =>
    (margin indent ++ key ++ ": " ++ text) :: fieldLines indent rest
  | (key, o) :: rest =>
    (margin indent ++ key ++ ":") :: (lines (indent + 1) o ++ fieldLines indent rest)

end

/-- The text of an outline that starts at the given level. -/
def render (indent : Int) (o : Outline) : Text := Text.join "\n" (o.lines indent)

end Outline

namespace Node

/-- The field that names the kind of a node. A node without a kind says so. -/
def typeField (kind : Option Text) : Text × Outline := ("type", .word (kind.getD "None"))

/-- The outline of a spell tree of at most `depth` levels: the kind of each node and its parts. -/
def outlineWithin : (depth : Nat) → Node → Except Fault Outline
  | 0, _ => .error .tooDeep
  | _ + 1, .missing => .ok (.word "None")
  | depth + 1, .program ss =>
    return .fields
      [("type", .word "Program"), ("statements", .items (← ss.mapM (outlineWithin depth)))]
  | depth + 1, .block _ ss =>
    return .fields
      [("type", .word "Block"), ("statements", .items (← ss.mapM (outlineWithin depth)))]
  | _ + 1, .literal _ value kind =>
    return .fields [typeField kind, ("value", .word (← value.display))]
  | _ + 1, .name _ text => .ok (.fields [typeField (some "IDENTIFIER"), ("name", .word text)])
  | depth + 1, .create _ target value =>
    return .fields
      [typeField (some "CREATE"), ("name", ← outlineWithin depth target),
        ("value", ← outlineWithin depth value)]
  | depth + 1, .assign _ target value =>
    return .fields
      [typeField (some "SET"), ("name", ← outlineWithin depth target),
        ("value", ← outlineWithin depth value)]
  | depth + 1, .shout _ value =>
    return .fields [typeField (some "PRINT"), ("value", ← outlineWithin depth value)]
  | depth + 1, .binary line left op right => do
    let kind ← kind? (.binary line left op right)
    return .fields
      [typeField kind, ("left", ← outlineWithin depth left), ("right", ← outlineWithin depth right)]
  | depth + 1, .unary _ op operand =>
    return .fields [typeField (some op.kind), ("value", ← outlineWithin depth operand)]
  | _ + 1, .ask _ => .ok (.fields [typeField (some "INPUT")])
  | depth + 1, .branch _ condition thenBlock elseBlock =>
    return .fields
      [typeField (some "IF"), ("condition", ← outlineWithin depth condition),
        ("then_block", ← outlineWithin depth thenBlock),
        ("else_block", ← outlineWithin depth elseBlock)]
  | depth + 1, .loop _ condition body =>
    return .fields
      [typeField (some "WHILE"), ("condition", ← outlineWithin depth condition),
        ("body", ← outlineWithin depth body)]
  | _ + 1, .bare => .ok (.fields [typeField none])

/-- How many levels of nodes an outline may have. Each level of a spell that can be read puts at
most two nodes on top of each other, a statement and its block, and one node holds the whole spell:
no such spell is too deep. -/
def outlineLimit : Nat := 2 * nestingLimit + 1

/-- The outline of a tree, unless it is nested too deeply. -/
def outline (node : Node) : Except Fault Outline := outlineWithin outlineLimit node

end Node
end Grimoire
