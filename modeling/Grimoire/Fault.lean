import Grimoire.Diagnostic
import Grimoire.Text.Utf8

/-!
# Faults

The causes for which a running spell can fail, and their wording.
-/

namespace Grimoire

/-- What can end a run: the faults of a spell, the limits of the machinery, and the limits of the
texts that are read and written. -/
inductive Fault where
  /-- No scope in reach binds the name. -/
  | undefined (name : Text)
  /-- Arithmetic on operands that are not both numbers: the verb and the types of the operands. -/
  | notNumbers (verb left right : Text)
  /-- Only a text of one code point has a code. -/
  | notOneCharacter
  | notACode
  | noCharacter (code : Int)
  /-- Only a plain name can be created or set: the statement, and what stands there instead. -/
  | notAName (statement label : Text)
  | divisionByZero
  | unknownOperator (symbol : Text)
  | unknownUnary (word : Text)
  /-- The node is neither a statement nor an expression. -/
  | unknownNode (label : Text)
  /-- A node of this form stands where a block should, and holds no statements. -/
  | noStatements (form : Text)
  /-- The operator has no kind by which the node could be called. -/
  | noKind (symbol : Text)
  | stepLimit
  | tooDeep
  | integerTooLarge
  | quotientTooLarge
  | tooLongToWrite
  | tooLongToRead (digits : Nat)
  | outOfReplies
  /-- The text cannot be printed because it holds surrogates. -/
  | unprintable (flaw : Utf8.Unencodable)
deriving DecidableEq

/-- What is said of bytes that are not UTF-8: one byte is named, several are counted. -/
def Utf8.Undecodable.message (u : Utf8.Undecodable) : Text :=
  let reason : Text := match u.flaw with
    | .start => "invalid start byte"
    | .continuation => "invalid continuation byte"
    | .ending => "unexpected end of data"
  let place : Text :=
    if u.count = 1 then
      "byte 0x" ++ Text.hex 2 u.byte ++ " in position " ++ Numeral.digits u.position
    else
      "bytes in position " ++ Numeral.digits u.position ++ "-"
        ++ Numeral.digits (u.position + u.count - 1)
  "'utf-8' codec can't decode " ++ place ++ ": " ++ reason

/-- What is said of surrogates that cannot be written: one is named, several are counted. -/
def Utf8.Unencodable.message (u : Utf8.Unencodable) : Text :=
  let place : Text :=
    if u.count = 1 then
      "character '" ++ Text.escapeNumber u.first ++ "' in position " ++ Numeral.digits u.position
    else
      "characters in position " ++ Numeral.digits u.position ++ "-"
        ++ Numeral.digits (u.position + u.count - 1)
  "'utf-8' codec can't encode " ++ place ++ ": surrogates not allowed"

namespace Fault

def limitAdvice : Text := "; use sys.set_int_max_str_digits() to increase the limit"

/-- The message of a fault. Those of the limits are the words of the machinery that has them. -/
def message : Fault → Text
  | undefined name => "Undefined variable '" ++ name ++ "'"
  | notNumbers verb left right =>
    "Cannot " ++ verb ++ " the power of " ++ left ++ " and " ++ right
  | notOneCharacter => "The 'ord' spell requires a single character string."
  | notACode => "The 'chr' spell requires an integer code."
  | noCharacter code => "The 'chr' spell has no character for code " ++ Numeral.ofInt code ++ "."
  | notAName statement label => statement ++ " expects an identifier name, got " ++ label
  | divisionByZero => "Division by zero is forbidden magic!"
  | unknownOperator symbol => "Unknown operator: " ++ symbol
  | unknownUnary word => "Unknown unary operator: " ++ word
  | unknownNode label => "Unknown AST node type: " ++ label
  | noStatements form => "'" ++ form ++ "' object has no attribute 'statements'"
  | noKind symbol => Text.quoted symbol
  | stepLimit => "Step limit exceeded (possible infinite loop)"
  | tooDeep => "maximum recursion depth exceeded"
  | integerTooLarge => "int too large to convert to float"
  | quotientTooLarge => "integer division result too large for a float"
  | tooLongToWrite =>
    "Exceeds the limit (" ++ Numeral.digits Numeral.digitLimit
      ++ " digits) for integer string conversion" ++ limitAdvice
  | tooLongToRead count =>
    "Exceeds the limit (" ++ Numeral.digits Numeral.digitLimit
      ++ " digits) for integer string conversion: value has " ++ Numeral.digits count ++ " digits"
      ++ limitAdvice
  | outOfReplies => "out of replies"
  | unprintable flaw => flaw.message

/-- The line by which a run reports the fault that ended it. -/
def report (fault : Fault) : Text :=
  "Runtime Error: " ++ (match fault with
    | tooDeep => "spell nested too deeply (" ++ fault.message ++ ")"
    | _ => fault.message)

/-- The category of a fault, for those that are a spell's own and not a limit of the machinery. -/
def category? : Fault → Option Category
  | undefined _ => some .name
  | notNumbers .. | notOneCharacter | notACode | noCharacter _ | notAName .. => some .type
  | divisionByZero => some .arithmetic
  | unknownOperator _ | unknownUnary _ | unknownNode _ | stepLimit => some .runtime
  | _ => none

end Fault
end Grimoire
