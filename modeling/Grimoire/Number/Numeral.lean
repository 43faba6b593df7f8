import Grimoire.Text.CodePoint

/-!
# Decimal numerals

Integers as text and back. A numeral has at most `Numeral.digitLimit` digits, leading zeros
included and the sign not counted: longer ones are neither written nor read.
-/

namespace Grimoire.Numeral

/-- How many digits the text of an integer may have to be read or written. -/
def digitLimit : Nat := 4300

def tenTo (n : Nat) : Nat := Nat.pow 10 n

/-- The decimal digits of a number, without leading zeros. -/
def digits (n : Nat) : Text := (Nat.toDigits 10 n).map CodePoint.ofChar

/-- The number that a row of digits stands for. -/
def value (ds : Text) : Nat := ds.foldl (fun n d => 10 * n + d.digitValue) 0

/-- The text of an integer, however long. -/
def ofInt (n : Int) : Text :=
  if n < 0 then '-' :: digits n.natAbs else digits n.natAbs

/-- The text of an integer that the digit limit allows. -/
def write? (n : Int) : Option Text :=
  if n.natAbs < tenTo digitLimit then some (ofInt n) else none

/-- The number that a row of digits stands for, if the digit limit allows it. -/
def read? (ds : Text) : Option Nat :=
  if ds.length ≤ digitLimit then some (value ds) else none

/-- The sign in front of a text, `true` for minus, and what follows it. -/
def splitSign : Text → Bool × Text
  | [] => (false, [])
  | c :: cs => if c = '-' then (true, cs) else if c = '+' then (false, cs) else (false, c :: cs)

/-- The integer of a given sign and size. -/
def signed (negative : Bool) (n : Nat) : Int := if negative then -(n : Int) else n

end Grimoire.Numeral
