import Grimoire.Number
import Grimoire.Number.Decimal
import Grimoire.Text.Blank

/-!
# Values

What names are bound to and expressions evaluate to. A spell can only make integers, floating-point
numbers, texts and truth values; `nothing` is what a statement yields, and the empty list stands for
a foreign value handed in from outside.
-/

namespace Grimoire

/-- The values that a spell can come across. Only a tree that is built by hand holds the last
two. -/
inductive Value where
  | int (n : Int)
  | float (x : Binary64)
  | text (t : Text)
  | bool (b : Bool)
  | nothing
  | emptyList
deriving DecidableEq

namespace Value

instance : Inhabited Value := ⟨.nothing⟩

/-- The type of a value, as faults name it. -/
def typeName : Value → Text
  | .int _ => "integer"
  | .float _ => "float"
  | .text _ => "string"
  | .bool _ => "boolean"
  | .nothing => "nothing"
  | .emptyList => "list"

/-- The number that a value counts as; a truth value counts as 0 or 1. -/
def number? : Value → Option Number
  | .int n => some (.int n)
  | .float x => some (.float x)
  | .bool b => some (.int b.toNat)
  | _ => none

/-- Whether a value counts as a number. Truth values do. -/
def isNumber (v : Value) : Bool := v.number?.isSome

/-- The value of a number. -/
def ofNumber : Number → Value
  | .int n => .int n
  | .float x => .float x

/-- Whether a value counts as true. Zero, "not a number", the empty text, the empty list and nothing
count as false. -/
def isTruthy : Value → Bool
  | .int n => n ≠ 0
  | .float .nan => false
  | .float x => !x.isZero
  | .text t => !t.isEmpty
  | .bool b => b
  | .nothing => false
  | .emptyList => false

/-- The text of an integer, unless it has too many digits. -/
def writeInt (n : Int) : Except Fault Text := (Numeral.write? n).elim (.error .tooLongToWrite) .ok

/-- The text that a spell prints for a value. A floating-point number that is an integer is shown as
that integer. -/
def format : Value → Except Fault Text
  | .int n => writeInt n
  | .float .nan => .ok "NaN"
  | .float (.infinity negative) => .ok (if negative then "-Infinity" else "Infinity")
  | .float x => (x.toInt?).elim (.ok x.text) writeInt
  | .text t => .ok t
  | .bool b => .ok (if b then "true" else "false")
  | .nothing => .ok "null"
  | .emptyList => .ok "[]"

/-- The text by which a value is shown in the outline of a spell. Unlike `format` it keeps the types
apart: texts are quoted and floating-point numbers have a point. -/
def display : Value → Except Fault Text
  | .int n => writeInt n
  | .float x => .ok x.text
  | .text t => .ok t.quoted
  | .bool b => .ok (if b then "True" else "False")
  | .nothing => .ok "None"
  | .emptyList => .ok "[]"

/-- Equality of values. Numbers are equal when their exact values are; nothing and foreign values
are equal to nothing at all. -/
def equals : Value → Value → Bool
  | .bool a, .bool b => a = b
  -- A truth value counts as a number, but is equal to truth values only.
  | .bool _, _ => false
  | _, .bool _ => false
  | .text a, .text b => a = b
  | a, b =>
    match a.number?, b.number? with
    | some x, some y => x.equals y
    | _, _ => false

/-- The order of values: numbers by their exact values, texts code point by code point. No other two
values are ordered. -/
def less : Value → Value → Bool
  | .text a, .text b => a < b
  | a, b =>
    match a.number?, b.number? with
    | some x, some y => x.less y
    | _, _ => false

/-- Applies an operation of numbers, named by a verb in case an operand is not a number. -/
def arithmetic (verb : Text) (op : Number → Number → Except Fault Number) (a b : Value) :
    Except Fault Value :=
  match a.number?, b.number? with
  | some x, some y => (op x y).map ofNumber
  | _, _ => .error (.notNumbers verb a.typeName b.typeName)

/-- Addition of numbers; if either operand is a text, the texts of both are joined. -/
def combine (a b : Value) : Except Fault Value :=
  match a, b with
  | .text _, _ | _, .text _ => do
    let s ← a.format
    let t ← b.format
    return .text (s ++ t)
  | a, b => arithmetic "combine" Number.add a b

/-- The number of the only code point of a text. -/
def ord : Value → Except Fault Value
  | .text [c] => .ok (.int c.value)
  | _ => .error .notOneCharacter

/-- The text with the only code point of the given number. -/
def chr (v : Value) : Except Fault Value :=
  let code? := match v with
    | .int n => some n
    | .float x => x.toInt?
    | _ => none
  match code? with
  | none => .error .notACode
  | some (.ofNat n) =>
    match CodePoint.ofNat? n with
    | some c => .ok (.text [c])
    | none => do
      -- The number is written into the message, if that is possible.
      let _ ← writeInt n
      .error (.noCharacter n)
  | some n => do
    let _ ← writeInt n
    .error (.noCharacter n)

/-- The value of a reply. A numeral or decimal in plain ASCII, with blanks around it, is read as a
number; every other reply is a text, and a missing reply the empty one. -/
def ofReply : Option Text → Except Fault Value
  | none => .ok (.text [])
  | some t =>
    let (negative, body) := Numeral.splitSign t.trim
    if body ≠ [] ∧ body.all CodePoint.isDigit then
      match Numeral.read? body with
      | some n => .ok (.int (Numeral.signed negative n))
      | none => .error (.tooLongToRead body.length)
    else match Decimal.ofText? body with
      | some d => .ok (.float (d.toBinary64 negative))
      | none => .ok (.text t)

end Value
end Grimoire
