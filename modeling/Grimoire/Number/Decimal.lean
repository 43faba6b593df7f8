import Grimoire.Number.Binary64
import Grimoire.Number.Numeral

/-!
# Decimal notation of floating-point numbers

Reading rounds a decimal to the nearest number. Writing takes the fewest digits that read back as
the same number, and of those the nearest to it.
-/

namespace Grimoire

open Numeral (tenTo)

/-- The number `digits * 10 ^ exponent`. -/
structure Decimal where
  digits : Nat
  exponent : Int
deriving DecidableEq

namespace Decimal

/-- How many decimal digits a number has. -/
def length (n : Nat) : Nat := (Nat.toDigits 10 n).length

/-- The floating-point number nearest to a decimal. -/
def toBinary64 (negative : Bool) (d : Decimal) : Binary64 :=
  let magnitude := length d.digits + d.exponent
  -- A decimal of `10 ^ 310` or more is beyond the format, and one below `10 ^ -330` rounds to zero.
  -- Between these bounds the powers of ten are small enough to be worked out.
  if d.digits = 0 ∨ magnitude < -330 then .finite negative Magnitude.zero
  else if 310 < magnitude then .infinity negative
  else match d.exponent with
    | .ofNat e => .ofUnits negative (d.digits * tenTo e * unitsPerOne) 1
    | .negSucc e => .ofUnits negative (d.digits * unitsPerOne) (tenTo (e + 1))

/-- The exponent of the first decimal digit of a size above zero. The size is scaled up before its
digits are counted, so that it has digits in front of the point. -/
def leadingExponent (size : Magnitude) : Int :=
  length (size.units * tenTo 400 / unitsPerOne) - 401

/-- The two multiples of `10 ^ place` next to a size, the nearer first, and the even one first if
both are equally near. -/
def neighbours (size : Magnitude) (place : Int) : List Decimal :=
  let (num, den) := match place with
    | .ofNat p => (size.units, unitsPerOne * tenTo p)
    | .negSucc p => (size.units * tenTo (p + 1), unitsPerOne)
  let below := num / den
  let near := Magnitude.nearest num den
  let far := if near = below then below + 1 else below
  [⟨near, place⟩, ⟨far, place⟩]

/-- A size written out in full: one unit is `5 ^ 1074 * 10 ^ -1074`. -/
def exact (size : Magnitude) : Decimal := ⟨size.units * Nat.pow 5 1074, -1074⟩

/-- Whether a decimal reads as the number of this size. -/
def readsAs (size : Magnitude) (d : Decimal) : Bool := d.toBinary64 false = .finite false size

/-- Tries `count`, `count + 1`, … digits, as often as `tries` says, until a decimal reads back. -/
def search (size : Magnitude) (lead : Int) : (tries count : Nat) → Decimal
  | 0, _ => exact size
  | tries + 1, count =>
    match (neighbours size (lead - count + 1)).find? (readsAs size) with
    | some d => d
    | none => search size lead tries (count + 1)

/-- A decimal with the fewest digits that reads back as the number of this size. Seventeen digits
are always enough. -/
def shortest (size : Magnitude) : Decimal := search size (leadingExponent size) 17 1

def zeros (n : Nat) : Text := List.replicate n '0'

/-- The exponent of scientific notation: a sign and at least two digits. -/
def exponentText (e : Int) : Text :=
  let ds := Numeral.digits e.natAbs
  'e' :: (if e < 0 then '-' else '+') :: (zeros (2 - ds.length) ++ ds)

/-- The digits `ds` with the point after the first `point` of them. The notation is positional while
the exponent of the first digit is at least -4 and below 16, with a digit on each side of the point;
otherwise it is scientific. -/
def layOut (ds : Text) (point : Int) : Text :=
  if -4 < point ∧ point ≤ 16 then
    if point ≤ 0 then "0." ++ zeros point.natAbs ++ ds
    else if ds.length ≤ point.natAbs then ds ++ zeros (point.natAbs - ds.length) ++ ".0"
    else ds.take point.natAbs ++ "." ++ ds.drop point.natAbs
  else
    let rest : Text := if ds.length ≤ 1 then [] else '.' :: ds.drop 1
    ds.take 1 ++ rest ++ exponentText (point - 1)

/-- The text of a decimal above zero, without zeros at the end of its digits. -/
def text (d : Decimal) : Text :=
  let ds := Numeral.digits d.digits
  layOut (ds.reverse.dropWhile fun c : CodePoint => c = '0').reverse (ds.length + d.exponent)

end Decimal

/-- The text of a floating-point number: of all that read back, one with the fewest digits. -/
def Binary64.text : Binary64 → Text
  | .nan => "nan"
  | .infinity negative => if negative then "-inf" else "inf"
  | .finite negative size =>
    let unsigned : Text := if size.mantissa = 0 then "0.0" else (Decimal.shortest size).text
    if negative then '-' :: unsigned else unsigned

namespace Decimal

/-- Reads a row of digits with digits after a point, as they stand in a spell: `12.50`. -/
def ofPoint (whole fraction : Text) : Decimal :=
  ⟨Numeral.value (whole ++ fraction), -fraction.length⟩

/-- Digits, an optional point and optional digits after it, or a point and at least one digit: the
digits before and after the point, and the rest of the text. -/
def splitPoint? (t : Text) : Option (Text × Text × Text) :=
  let whole := t.takeWhile CodePoint.isDigit
  match t.dropWhile CodePoint.isDigit with
  | c :: cs =>
    if c = '.' then
      let fraction := cs.takeWhile CodePoint.isDigit
      if whole.isEmpty && fraction.isEmpty then none
      else some (whole, fraction, cs.dropWhile CodePoint.isDigit)
    else if whole.isEmpty then none else some (whole, [], c :: cs)
  | [] => if whole.isEmpty then none else some (whole, [], [])

/-- An optional exponent: `e` or `E`, an optional sign and at least one digit, and nothing more. -/
def exponent? : Text → Option Int
  | [] => some 0
  | c :: cs =>
    let (negative, ds) := Numeral.splitSign cs
    if (c = 'e' ∨ c = 'E') ∧ ds ≠ [] ∧ ds.all CodePoint.isDigit then
      some (Numeral.signed negative (Numeral.value ds))
    else none

/-- Reads an unsigned decimal with an optional point and an optional exponent. -/
def ofText? (t : Text) : Option Decimal := do
  let (whole, fraction, rest) ← splitPoint? t
  let e ← exponent? rest
  let d := ofPoint whole fraction
  return { d with exponent := d.exponent + e }

end Decimal
end Grimoire
