import Grimoire.Proofs.Number.Decimal
import Grimoire.Proofs.Text.Quoted
import Grimoire.Proofs.Tree.Grammatical
import Grimoire.Proofs.Tree.Likeness
import Grimoire.Proofs.Tree.Lenient
import Grimoire.Proofs.Tree.Listing

/-!
# The outline of a spell says it all

The outline of a tree leaves out its line numbers and nothing else.

* **`Node.sketch`** is the outline without any limit. A tree of the grammar that is not nested
  beyond the limit of the reader has this outline (`Grammatical.outlineWithin_eq`), and it is tidy.
* **`Outline.toNode`** reads a tree off an outline. It finds the tree of the grammar that was
  sketched, with all line numbers zero (`Grammatical.toNode_sketch`).
* **`outline_determines_spell`** puts this together with the lines of outlines.
-/

namespace Grimoire

/-- The text by which a value is shown in an outline, if it has one. -/
def Value.shown (v : Value) : Text := v.display.toOption.getD []

/-! ## The outline of a tree, however deep -/

namespace Node

mutual

/-- The outline of a node with no bound on its depth. Numbers too long to be written are the matter
of `Value.shown`. -/
def sketch : Node → Outline
  | .missing => .word "None"
  | .program ss => .fields [typeField (some "Program"), ("statements", .items (sketchAll ss))]
  | .block _ ss => .fields [typeField (some "Block"), ("statements", .items (sketchAll ss))]
  | .literal _ value kind => .fields [typeField kind, ("value", .word value.shown)]
  | .name _ text => .fields [typeField (some "IDENTIFIER"), ("name", .word text)]
  | .create _ target value =>
    .fields [typeField (some "CREATE"), ("name", target.sketch), ("value", value.sketch)]
  | .assign _ target value =>
    .fields [typeField (some "SET"), ("name", target.sketch), ("value", value.sketch)]
  | .shout _ value => .fields [typeField (some "PRINT"), ("value", value.sketch)]
  | .binary _ left op right =>
    .fields [typeField op.kind?, ("left", left.sketch), ("right", right.sketch)]
  | .unary _ op operand => .fields [typeField (some op.kind), ("value", operand.sketch)]
  | .ask _ => .fields [typeField (some "INPUT")]
  | .branch _ condition thenBlock elseBlock =>
    .fields [typeField (some "IF"), ("condition", condition.sketch),
      ("then_block", thenBlock.sketch), ("else_block", elseBlock.sketch)]
  | .loop _ condition body =>
    .fields [typeField (some "WHILE"), ("condition", condition.sketch), ("body", body.sketch)]
  | .bare => .fields [typeField none]

def sketchAll : List Node → List Outline
  | [] => []
  | s :: ss => s.sketch :: sketchAll ss

end

mutual

/-- Line numbers are not shown. -/
theorem sketch_mapLine (f : Nat → Nat) : (node : Node) → (node.mapLine f).sketch = node.sketch
  | .literal .. | .name .. | .ask _ | .bare | .missing => rfl
  | .create _ a b | .assign _ a b | .binary _ a _ b | .loop _ a b => by
    simp only [mapLine, sketch, sketch_mapLine f a, sketch_mapLine f b]
  | .shout _ a | .unary _ _ a => by simp only [mapLine, sketch, sketch_mapLine f a]
  | .branch _ a b c => by
    simp only [mapLine, sketch, sketch_mapLine f a, sketch_mapLine f b, sketch_mapLine f c]
  | .block _ ss | .program ss => by simp only [mapLine, sketch, sketchAll_mapLine f ss]

theorem sketchAll_mapLine (f : Nat → Nat) : (ss : List Node) →
    sketchAll (mapLineOfAll f ss) = sketchAll ss
  | [] => rfl
  | s :: ss => by simp only [mapLineOfAll, sketchAll, sketch_mapLine f s, sketchAll_mapLine f ss]

end

/-- How many levels of an outline are enough for a tree with the given levels of phrases. -/
def outlineDepth (role : Role) (levels : Nat) : Nat :=
  match role with
  | .expression | .statement => 2 * levels
  | .block | .program => 2 * levels + 1

/-- A block and a whole spell have an outline if their statements have. -/
theorem outlineWithin_statements {d : Nat} {ss : List Node}
    (h : ss.mapM (outlineWithin d) = .ok (sketchAll ss)) (line : Option Nat) :
    outlineWithin (d + 1) (.program ss) = .ok (sketch (.program ss)) ∧
      outlineWithin (d + 1) (.block line ss) = .ok (sketch (.block line ss)) := by
  simp only [outlineWithin, h]
  exact ⟨rfl, rfl⟩

/-- If the outline of a spell is its sketch, its statements have been sketched one level below. -/
theorem mapM_of_outlineWithin {d : Nat} {ss : List Node}
    (h : outlineWithin (d + 1) (.program ss) = .ok (sketch (.program ss))) :
    ss.mapM (outlineWithin d) = .ok (sketchAll ss) := by
  simp only [outlineWithin] at h
  cases hss : ss.mapM (outlineWithin d) with
  | error e =>
    rw [hss] at h
    cases h
  | ok os =>
    rw [hss] at h
    cases h
    rfl

end Node

open Node

/-- A number within the digit limit is written as its digits. -/
theorem Value.display_int {n : Nat} (h : n < Numeral.tenTo Numeral.digitLimit) :
    (Value.int n).display = .ok (Numeral.digits n) := by
  have hwrite : Numeral.write? n = some (Numeral.digits n) := if_pos h
  rw [Value.display, Value.writeInt, hwrite]
  rfl

/-- **A tree of the grammar has its sketch for an outline**, if enough levels are allowed. -/
theorem Grammatical.outlineWithin_eq {role : Role} {node : Node} (h : Grammatical role node)
    {d : Nat} (hd : outlineDepth role node.levels ≤ d) :
    node.outlineWithin d = .ok node.sketch := by
  induction h generalizing d with
  | text | float | name | ask =>
    cases d with
    | zero => simp [outlineDepth, Node.levels] at hd
    | succ d => rfl
  | integer hn =>
    cases d with
    | zero => simp [outlineDepth, Node.levels] at hd
    | succ d =>
      simp only [outlineWithin, sketch, Value.shown, Value.display_int hn]
      rfl
  | binary hop _ _ iha ihb =>
    simp only [outlineDepth, Node.levels] at hd iha ihb
    cases d with
    | zero => omega
    | succ d =>
      obtain ⟨kind, hkind⟩ := Option.isSome_iff_exists.mp hop
      simp only [outlineWithin, sketch, kind?, hkind, @iha d (by omega), @ihb d (by omega)]
      rfl
  | unary _ _ ih | shout _ ih =>
    simp only [outlineDepth, Node.levels] at hd ih
    cases d with
    | zero => omega
    | succ d =>
      simp only [outlineWithin, sketch, @ih d (by omega)]
      rfl
  | create _ _ _ iha ihb | assign _ _ _ iha ihb | loop _ _ iha ihb =>
    simp only [outlineDepth, Node.levels] at hd iha ihb
    cases d with
    | zero => omega
    | succ d =>
      simp only [outlineWithin, sketch, @iha d (by omega), @ihb d (by omega)]
      rfl
  -- The missing alternative has an outline as well, and takes a level for it.
  | branch _ _ iha ihb =>
    simp only [outlineDepth, Node.levels] at hd iha ihb
    cases d with
    | zero => omega
    | succ d =>
      cases d with
      | zero => omega
      | succ d =>
        simp only [outlineWithin, sketch, @iha (d + 1) (by omega), @ihb (d + 1) (by omega)]
        rfl
  | branchElse _ _ _ iha ihb ihc =>
    simp only [outlineDepth, Node.levels] at hd iha ihb ihc
    cases d with
    | zero => omega
    | succ d =>
      simp only [outlineWithin, sketch, @iha d (by omega), @ihb d (by omega), @ihc d (by omega)]
      rfl
  | @block line ss _ ih =>
    cases d with
    | zero => simp [outlineDepth] at hd
    | succ d => exact (outlineWithin_statements (mapM_of_outlineWithin (ih hd)) (some line)).2
  | nil =>
    cases d with
    | zero => simp [outlineDepth] at hd
    | succ d => rfl
  | @cons s ss _ _ ihs ihss =>
    simp only [outlineDepth, Node.levels, Node.levelsOfAll] at hd ihs ihss
    cases d with
    | zero => omega
    | succ d =>
      have hss := mapM_of_outlineWithin (@ihss (d + 1) (by omega))
      have hall : (s :: ss).mapM (outlineWithin d) = .ok (sketchAll (s :: ss)) := by
        rw [List.mapM_cons, @ihs d (by omega), hss]
        rfl
      exact (outlineWithin_statements hall none).1

/-! ## Sketches are tidy -/

/-- The name of an operator is one line. -/
theorem BinaryOp.newline_notMem_kind {op : BinaryOp} (h : op.kind?.isSome) :
    ('\n' : CodePoint) ∉ op.kind?.getD "None" := by
  cases op with
  | unknown => cases h
  | _ => decide

theorem UnaryOp.newline_notMem_kind {op : UnaryOp} (h : op = .ord ∨ op = .chr) :
    ('\n' : CodePoint) ∉ op.kind := by
  rcases h with rfl | rfl <;> decide

/-- A record that starts with its kind is tidy if its other fields are. -/
theorem Outline.tidy_record {kind : Text} (hkind : ('\n' : CodePoint) ∉ kind)
    {fs : List (Text × Outline)} (hfs : TidyFields fs) :
    (Outline.fields (typeField (some kind) :: fs)).Tidy :=
  ⟨nofun, rfl, hkind, hfs⟩

/-- The sketch of a tree is a record, and tidy. -/
theorem Grammatical.tidy_sketch {role : Role} {node : Node} (h : Grammatical role node) :
    node.sketch.Tidy ∧ node.sketch.isWord = false := by
  have hliteral (line : Option Nat) {v : Value} {kind : Text} (hkind : ('\n' : CodePoint) ∉ kind)
      (hv : ('\n' : CodePoint) ∉ v.shown) : (sketch (.literal line v (some kind))).Tidy :=
    Outline.tidy_record hkind ⟨rfl, hv, trivial⟩
  induction h with
  | @text _ t => exact ⟨hliteral _ (by decide) (Text.newline_notMem_quoted t), rfl⟩
  | @integer _ n hn =>
    have hdigits := Decimal.newline_notMem_of_digits (Numeral.all_isDigit_digits n)
    have hshown : (Value.int n).shown = Numeral.digits n := by
      rw [Value.shown, Value.display_int hn]
      rfl
    exact ⟨hliteral _ (by decide) (by rwa [hshown]), rfl⟩
  | float => exact ⟨hliteral _ (by decide) (Binary64.newline_notMem_text _), rfl⟩
  | name ht =>
    have htext := Outline.notMem_of_isName ht (show CodePoint.isNamePart '\n' = false by decide)
    exact ⟨Outline.tidy_record (by decide) ⟨rfl, htext, trivial⟩, rfl⟩
  | binary hop _ _ iha ihb =>
    exact ⟨⟨nofun, rfl, BinaryOp.newline_notMem_kind hop, rfl, iha.1, rfl, ihb.1, trivial⟩, rfl⟩
  | unary hop _ ih =>
    exact ⟨Outline.tidy_record (UnaryOp.newline_notMem_kind hop) ⟨rfl, ih.1, trivial⟩, rfl⟩
  | ask => exact ⟨Outline.tidy_record (by decide) trivial, rfl⟩
  | shout _ ih => exact ⟨Outline.tidy_record (by decide) ⟨rfl, ih.1, trivial⟩, rfl⟩
  | create _ _ _ iha ihb | assign _ _ _ iha ihb | loop _ _ iha ihb =>
    exact ⟨Outline.tidy_record (by decide) ⟨rfl, iha.1, rfl, ihb.1, trivial⟩, rfl⟩
  | branch _ _ iha ihb =>
    have hnone : ('\n' : CodePoint) ∉ ("None" : Text) := by decide
    exact ⟨Outline.tidy_record (by decide) ⟨rfl, iha.1, rfl, ihb.1, rfl, hnone, trivial⟩, rfl⟩
  | branchElse _ _ _ iha ihb ihc =>
    exact ⟨Outline.tidy_record (by decide) ⟨rfl, iha.1, rfl, ihb.1, rfl, ihc.1, trivial⟩, rfl⟩
  -- A block has the statements of the spell in it, and the outline of that spell is tidy.
  | block _ ih =>
    obtain ⟨⟨-, -, -, -, hitems, -⟩, -⟩ := ih
    exact ⟨Outline.tidy_record (by decide) ⟨rfl, hitems, trivial⟩, rfl⟩
  | nil => exact ⟨Outline.tidy_record (by decide) ⟨rfl, trivial, trivial⟩, rfl⟩
  | cons _ _ ihs ihss =>
    obtain ⟨⟨-, -, -, -, hitems, -⟩, -⟩ := ihss
    exact ⟨Outline.tidy_record (by decide) ⟨rfl, ⟨ihs.2, ihs.1, hitems⟩, trivial⟩, rfl⟩

/-! ## Reading a tree off an outline -/

/-- The value that a literal of the given kind shows. -/
def Value.ofShown (kind shown : Text) : Value :=
  if kind = "STRING" then .text shown.unquote
  else if kind = "INTEGER" then .int (Numeral.value shown)
  else .float ((Binary64.ofText? shown).getD .nan)

/-- The operator of the given kind. -/
def BinaryOp.ofKind (kind : Text) : BinaryOp :=
  ([add, subtract, multiply, divide, equal, unequal, greater, less].find?
    (·.kind? = some kind)).getD (unknown kind)

namespace Outline

/-- The tree of which the record with these words and these parts is the sketch. -/
def assemble : List Text → List Node → Node
  | [_], _ => .ask (some 0)
  | [kind, shown], [_, a] =>
    if kind = "Program" then a
    else if kind = "Block" then .block (some 0) a.statements
    else if kind = "IDENTIFIER" then .name (some 0) shown
    else if kind = "PRINT" then .shout (some 0) a
    else if kind = "ORD" then .unary (some 0) .ord a
    else if kind = "CHR" then .unary (some 0) .chr a
    else .literal (some 0) (Value.ofShown kind shown) (some kind)
  | [kind, _, _], [_, a, b] =>
    if kind = "CREATE" then .create (some 0) a b
    else if kind = "SET" then .assign (some 0) a b
    else if kind = "WHILE" then .loop (some 0) a b
    else .binary (some 0) a (BinaryOp.ofKind kind) b
  | _, [_, a, b, c] => .branch (some 0) a b c
  | _, _ => .missing

/-- The text of an outline that is one. -/
def wordText : Outline → Text
  | .word text => text
  | .items _ | .fields _ => []

mutual

/-- The tree of which an outline is the sketch, with all line numbers zero. A list of trees stands
for a spell. -/
def toNode : Outline → Node
  | .word _ => .missing
  | .items members => .program (toNodes members)
  | .fields members => assemble (members.map fun member => member.2.wordText) (partNodes members)

def toNodes : List Outline → List Node
  | [] => []
  | o :: os => o.toNode :: toNodes os

/-- The nodes in the fields of a record, whatever their keys are. -/
def partNodes : List (Text × Outline) → List Node
  | [] => []
  | (_, o) :: fs => o.toNode :: partNodes fs

end

end Outline

/-- The sketch of a literal tells its kind and how its value is shown. -/
theorem toNode_literal {kind : Text} (h : kind = "STRING" ∨ kind = "INTEGER" ∨ kind = "FLOAT")
    (line : Option Nat) (v : Value) : (sketch (.literal line v (some kind))).toNode =
      .literal (some 0) (Value.ofShown kind v.shown) (some kind) := by
  rcases h with rfl | rfl | rfl <;> rfl

/-- **A tree can be read off its sketch**, but for its line numbers. -/
theorem Grammatical.toNode_sketch {role : Role} {node : Node} (h : Grammatical role node) :
    node.sketch.toNode = node.mapLine fun _ => 0 := by
  induction h with
  | @text _ t =>
    have hvalue : Value.ofShown "STRING" (Value.text t).shown = .text t :=
      congrArg Value.text t.unquote_quoted
    rw [toNode_literal (.inl rfl), hvalue]
    rfl
  | @integer _ n hn =>
    have hvalue : Value.ofShown "INTEGER" (Value.int n).shown = .int n := by
      rw [Value.shown, Value.display_int hn]
      exact congrArg (fun n : Nat => Value.int n) (Numeral.value_digits n)
    rw [toNode_literal (.inr (.inl rfl)), hvalue]
    rfl
  | @float _ t =>
    have hvalue : Value.ofShown "FLOAT" (Value.float (Grammar.floatValue t)).shown =
        .float (Grammar.floatValue t) :=
      congrArg (fun x? : Option Binary64 => Value.float (x?.getD .nan)) (Binary64.ofText?_text _)
    rw [toNode_literal (.inr (.inr rfl)), hvalue]
    rfl
  | name | ask | nil => rfl
  | @binary _ _ _ op hop _ _ iha ihb =>
    simp only [sketch, typeField, Outline.toNode, Outline.partNodes, iha, ihb, mapLine]
    cases op with
    | unknown => cases hop
    | _ => rfl
  | unary hop _ ih =>
    simp only [sketch, typeField, Outline.toNode, Outline.partNodes, ih, mapLine]
    rcases hop with rfl | rfl <;> rfl
  | shout _ ih =>
    simp only [sketch, typeField, Outline.toNode, Outline.partNodes, ih, mapLine]
    rfl
  | create _ _ _ iha ihb | assign _ _ _ iha ihb | loop _ _ iha ihb | branch _ _ iha ihb =>
    simp only [sketch, typeField, Outline.toNode, Outline.partNodes, iha, ihb, mapLine]
    rfl
  | branchElse _ _ _ iha ihb ihc =>
    simp only [sketch, typeField, Outline.toNode, Outline.partNodes, iha, ihb, ihc, mapLine]
    rfl
  -- What is read off the sketch of a whole spell is the list of its statements.
  | @block _ ss _ ih =>
    have hss : Outline.toNodes (sketchAll ss) = mapLineOfAll (fun _ => 0) ss := Node.program.inj ih
    simp only [sketch, typeField, Outline.toNode, Outline.partNodes, hss, mapLine]
    rfl
  | @cons s ss _ _ ihs ihss =>
    have hss : Outline.toNodes (sketchAll ss) = mapLineOfAll (fun _ => 0) ss :=
      Node.program.inj ihss
    simp only [sketch, sketchAll, typeField, Outline.toNode, Outline.toNodes, Outline.partNodes,
      hss, ihs, mapLine, mapLineOfAll]
    rfl

/-! ## Spells that have been read -/

/-- What a reader makes of tokens of the right shape is a tree of the grammar, and not nested beyond
the limit, whether the reader is strict or lenient. -/
theorem parse_grammatical {lenient : Bool} {ts : Tokens} (hshape : ∀ t ∈ ts.body, t.isShaped)
    {spell : List Node} (h : parse lenient ts = .ok spell) :
    Grammatical .program (.program spell) ∧ (Node.program spell).levels ≤ nestingLimit := by
  have hne : ∀ t ∈ ts.body, t.kind ≠ .eof := fun t ht => Token.kind_ne_eof_of_isShaped (hshape t ht)
  cases lenient with
  | false =>
    obtain ⟨hspells, hlevels⟩ := (parse_strict_eq_ok hne).mp h
    exact ⟨hspells.grammatical hshape, hlevels⟩
  | true =>
    obtain ⟨k, -, hstrict⟩ := (parse_lenient_eq_ok hne ts.stop).mp h
    have htake : ∀ t ∈ ts.body.take k, t ∈ ts.body := fun t => List.mem_of_mem_take
    obtain ⟨hspells, hlevels⟩ := (parse_strict_eq_ok fun t ht => hne t (htake t ht)).mp hstrict
    exact ⟨hspells.grammatical fun t ht => hshape t (htake t ht), hlevels⟩

/-- A spell within the nesting limit has its sketch for an outline. -/
theorem Grammatical.outline_eq {spell : List Node} (h : Grammatical .program (.program spell))
    (hlevels : (Node.program spell).levels ≤ nestingLimit) :
    (Node.program spell).outline = .ok (Node.program spell).sketch := by
  apply h.outlineWithin_eq
  show 2 * (Node.program spell).levels + 1 ≤ 2 * nestingLimit + 1
  omega

/-- **The outline of a spell determines the spell.** Whatever two spells are read, strictly or not,
from tokens of the shape that tokens of a text have: both have an outline, and the two outlines have
the same text exactly if the spells are the same but for their line numbers. -/
theorem outline_determines_spell {ts us : Tokens} (hts : ∀ t ∈ ts.body, t.isShaped)
    (hus : ∀ u ∈ us.body, u.isShaped) {lenient lenient' : Bool} {spell spell' : List Node}
    (h : parse lenient ts = .ok spell) (h' : parse lenient' us = .ok spell') :
    ∃ o o', (Node.program spell).outline = .ok o ∧ (Node.program spell').outline = .ok o' ∧
      (o.render 0 = o'.render 0 ↔ (Node.program spell).Alike (.program spell')) := by
  obtain ⟨hspell, hlevels⟩ := parse_grammatical hts h
  obtain ⟨hspell', hlevels'⟩ := parse_grammatical hus h'
  refine ⟨_, _, hspell.outline_eq hlevels, hspell'.outline_eq hlevels', ?_⟩
  constructor
  · intro hrender
    have hsketch := Outline.render_injective hspell.tidy_sketch.2 hspell'.tidy_sketch.2
      hspell.tidy_sketch.1 hspell'.tidy_sketch.1 hrender
    show Node.mapLine _ _ = Node.mapLine _ _
    rw [← hspell.toNode_sketch, ← hspell'.toNode_sketch, hsketch]
  · intro halike
    rw [← sketch_mapLine (fun _ => 0), show Node.mapLine _ _ = Node.mapLine _ _ from halike,
      sketch_mapLine]

/-- Blocks without statements, and a text that looks like some lines of an outline. The second words
stand on the given line. -/
def hollowBranch (line : Nat) : Tokens :=
  ⟨⟨.identifier, "cast", ⟨0, 1, 1⟩⟩ ::
    ((Text.words "only if the spell").map (Token.ofWord line) ++
      ⟨.string, "-\n  type: Block", ⟨0, line, 1⟩⟩ ::
      (Text.words "is true do else do done").map (Token.ofWord line)), Mark.start⟩

/-- A branch without statements, on text with a line break that looks like lines of an outline. -/
def hollowSpell (line : Nat) : List Node :=
  [.branch (some 1) (.literal (some line) (.text "-\n  type: Block") (some "STRING"))
    (.block (some line) []) (.block (some line) [])]

/-- The line numbers of the two spells differ, and their outlines do not. -/
theorem hollowBranch_outline :
    (∀ t ∈ (hollowBranch 1).body, t.isShaped) ∧ (∀ t ∈ (hollowBranch 2).body, t.isShaped) ∧
    parse false (hollowBranch 1) = .ok (hollowSpell 1) ∧
    parse true (hollowBranch 2) = .ok (hollowSpell 2) ∧
    ∃ o o', (Node.program (hollowSpell 1)).outline = .ok o ∧
      (Node.program (hollowSpell 2)).outline = .ok o' ∧ o.render 0 = o'.render 0 := by
  have hshape : ∀ t ∈ (hollowBranch 1).body, t.isShaped := by decide
  have hshape' : ∀ t ∈ (hollowBranch 2).body, t.isShaped := by decide
  have h : parse false (hollowBranch 1) = .ok (hollowSpell 1) := rfl
  have h' : parse true (hollowBranch 2) = .ok (hollowSpell 2) := rfl
  obtain ⟨o, o', ho, ho', hiff⟩ := outline_determines_spell hshape hshape' h h'
  exact ⟨hshape, hshape', h, h', o, o', ho, ho', hiff.mpr rfl⟩

end Grimoire
