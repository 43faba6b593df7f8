import Grimoire.Text.Capital
import Grimoire.Value

/-!
# Operators

The operators of the language and what they do to values. A tree built by hand may name an operator
that does not exist; such a node has no meaning, and no kind either if the operator is binary.
-/

namespace Grimoire

/-- The operators with two operands. -/
inductive BinaryOp where
  | add
  | subtract
  | multiply
  | divide
  | equal
  | unequal
  | greater
  | less
  | unknown (symbol : Text)
deriving DecidableEq

namespace BinaryOp

/-- The symbol by which a tree names an operator. -/
def symbol : BinaryOp → Text
  | add => "+"
  | subtract => "-"
  | multiply => "*"
  | divide => "/"
  | equal => "=="
  | unequal => "!="
  | greater => ">"
  | less => "<"
  | unknown symbol => symbol

/-- The operator of a symbol. Any other symbol is an operator without a meaning. -/
def ofSymbol (s : Text) : BinaryOp :=
  ([add, subtract, multiply, divide, equal, unequal, greater, less].find? (·.symbol = s)).getD
    (unknown s)

/-- The kind of a node with the operator, which shows in outlines. -/
def kind? : BinaryOp → Option Text
  | add => some "ADD"
  | subtract => some "SUBTRACT"
  | multiply => some "MULTIPLY"
  | divide => some "DIVIDE"
  | equal => some "EQUAL"
  | unequal => some "NOTEQUAL"
  | greater => some "GREATER"
  | less => some "LESS"
  | unknown _ => none

/-- What an operator makes of two values. The operands are in the order of the tree. -/
def apply : BinaryOp → Value → Value → Except Fault Value
  | add, a, b => a.combine b
  | subtract, a, b => a.arithmetic "remove" Number.sub b
  | multiply, a, b => a.arithmetic "duplicate" Number.mul b
  | divide, a, b => a.arithmetic "split" Number.div b
  | equal, a, b => .ok (.bool (a.equals b))
  | unequal, a, b => .ok (.bool !(a.equals b))
  | greater, a, b => .ok (.bool (b.less a))
  | less, a, b => .ok (.bool (a.less b))
  | unknown symbol, _, _ => .error (.unknownOperator symbol)

end BinaryOp

/-- The operators with one operand. -/
inductive UnaryOp where
  | ord
  | chr
  | unknown (word : Text)
deriving DecidableEq

namespace UnaryOp

/-- The word by which a tree names an operator. -/
def word : UnaryOp → Text
  | ord => "ord"
  | chr => "chr"
  | unknown word => word

/-- The operator of a word. Any other word is an operator without a meaning. -/
def ofWord (w : Text) : UnaryOp := ([ord, chr].find? (·.word = w)).getD (unknown w)

/-- The kind of a node with the operator: its word in capitals. -/
def kind (op : UnaryOp) : Text := op.word.upper

/-- What an operator makes of a value. -/
def apply : UnaryOp → Value → Except Fault Value
  | ord, v => v.ord
  | chr, v => v.chr
  | unknown word, _ => .error (.unknownUnary word)

end UnaryOp
end Grimoire
