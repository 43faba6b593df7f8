import Grimoire.Value.Operator

/-!
# Spell trees

A spell as a tree. There is one type of nodes for statements, expressions and blocks: a tree put
together by hand may hold any node in any place, and running it finds out what has no meaning there.
Each node may carry the line of the spell that it comes from.
-/

namespace Grimoire

/-- The trees of the language. Those that are read off a spell have lines; a tree built by hand may
have anything anywhere. -/
inductive Node where
  /-- A value written in the spell, and the kind of token it was written as. -/
  | literal (line : Option Nat) (value : Value) (kind : Option Text)
  /-- A name, standing for the value that it is bound to. -/
  | name (line : Option Nat) (text : Text)
  /-- Binds a new name in the innermost scope. -/
  | create (line : Option Nat) (target value : Node)
  /-- Binds a name anew in the scope that has it. -/
  | assign (line : Option Nat) (target value : Node)
  | shout (line : Option Nat) (value : Node)
  | binary (line : Option Nat) (left : Node) (op : BinaryOp) (right : Node)
  | unary (line : Option Nat) (op : UnaryOp) (operand : Node)
  | ask (line : Option Nat)
  /-- Runs one of two blocks; the second one is `missing` when there is no alternative. -/
  | branch (line : Option Nat) (condition thenBlock elseBlock : Node)
  | loop (line : Option Nat) (condition body : Node)
  /-- Statements with a scope of their own. -/
  | block (line : Option Nat) (statements : List Node)
  | program (statements : List Node)
  /-- A node without any meaning. -/
  | bare
  /-- No node at all. -/
  | missing

namespace Node

instance : Inhabited Node := ⟨.missing⟩

/-- The line that a node is from, if it has one. -/
def line? : Node → Option Nat
  | .literal line .. | .name line _ | .create line .. | .assign line .. | .shout line _
  | .binary line .. | .unary line .. | .ask line | .branch line .. | .loop line ..
  | .block line _ => line
  | .program _ | .bare | .missing => none

/-- The statements that a node holds as a block. -/
def statements : Node → List Node
  | .block _ ss | .program ss => ss
  | _ => []

/-- The name of a node's form, by which the machinery speaks of it. -/
def formName : Node → Text
  | .literal .. => "Literal"
  | .name .. => "Var"
  | .create .. => "Create"
  | .assign .. => "Set"
  | .shout .. => "Print"
  | .binary .. => "Binary"
  | .unary .. => "Unary"
  | .ask _ => "Input"
  | .branch .. => "If"
  | .loop .. => "While"
  | .block .. => "Block"
  | .program _ => "Program"
  | .bare => "ASTNode"
  | .missing => "NoneType"

/-- The statements of a block. Only blocks and whole spells hold statements. -/
def body : Node → Except Fault (List Node)
  | .block _ ss | .program ss => .ok ss
  | node => .error (.noStatements node.formName)

/-- The block to run for an alternative: a missing one is a block without statements. -/
def orEmpty : Node → Node
  | .missing => .block none []
  | node => node

/-- The kind of a node, if it has one. The kind of a binary node is that of its operator, and an
unknown operator has none to give. -/
def kind? : Node → Except Fault (Option Text)
  | .literal _ _ kind => .ok kind
  | .name .. => .ok (some "IDENTIFIER")
  | .create .. => .ok (some "CREATE")
  | .assign .. => .ok (some "SET")
  | .shout .. => .ok (some "PRINT")
  | .binary _ _ op _ => (op.kind?).elim (.error (.noKind op.symbol)) (.ok ∘ some)
  | .unary _ op _ => .ok (some op.kind)
  | .ask _ => .ok (some "INPUT")
  | .branch .. => .ok (some "IF")
  | .loop .. => .ok (some "WHILE")
  | .block .. | .program _ | .bare | .missing => .ok none

/-- What a node is called in a fault: its kind, or the name of its form if the kind is missing or
empty. -/
def label (node : Node) : Except Fault Text := do
  match ← node.kind? with
  | some (c :: cs) => return c :: cs
  | _ => return node.formName

end Node
end Grimoire
