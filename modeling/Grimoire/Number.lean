import Grimoire.Fault
import Grimoire.Number.Binary64

/-!
# Numbers

A number is an integer of any size or a floating-point number. The two are compared by their exact
values. Integers stay integers under addition, subtraction, multiplication and exact division; an
integer that meets a floating-point number is rounded to one first.
-/

namespace Grimoire

/-- The numbers of the language: integers of any size, and double-precision numbers. -/
inductive Number where
  | int (n : Int)
  | float (x : Binary64)
deriving DecidableEq

/-- A point of the number line, measured in units, or one of its two ends. -/
inductive Extent where
  | below
  | units (n : Int)
  | above
deriving DecidableEq

/-- The order of the number line, its two ends included. -/
def Extent.less : Extent → Extent → Bool
  | .below, .below => false
  | .below, _ => true
  | .units _, .below => false
  | .units m, .units n => m < n
  | .units _, .above => true
  | .above, _ => false

namespace Number

/-- Where a number lies; "not a number" lies nowhere. -/
def extent? : Number → Option Extent
  | .int n => some (.units (n * unitsPerOne))
  | .float .nan => none
  | .float (.infinity negative) => some (if negative then .below else .above)
  | .float (.finite negative size) => some (.units (Binary64.signedUnits negative size))

/-- Numbers are equal when they lie at the same point. What is not a number equals nothing. -/
def equals (a b : Number) : Bool :=
  match a.extent?, b.extent? with
  | some x, some y => x = y
  | _, _ => false

/-- Numbers are compared by where they lie, and so exactly, also an integer with a float. -/
def less (a b : Number) : Bool :=
  match a.extent?, b.extent? with
  | some x, some y => x.less y
  | _, _ => false

/-- Whether a number is zero, of either sign. -/
def isZero : Number → Bool
  | .int n => n = 0
  | .float x => x.isZero

/-- The floating-point number nearest to a number. An integer can be too large for it. -/
def toBinary64 : Number → Except Fault Binary64
  | .int n => (Binary64.ofInt? n).elim (.error .integerTooLarge) .ok
  | .float x => .ok x

/-- Applies an operation of integers to two integers and one of floating-point numbers to any other
pair. -/
def lift (onInts : Int → Int → Int) (onFloats : Binary64 → Binary64 → Binary64) :
    Number → Number → Except Fault Number
  | .int a, .int b => .ok (.int (onInts a b))
  | a, b => do
    let x ← a.toBinary64
    let y ← b.toBinary64
    return .float (onFloats x y)

def add : Number → Number → Except Fault Number := lift (· + ·) Binary64.add

def sub : Number → Number → Except Fault Number := lift (· - ·) Binary64.sub

def mul : Number → Number → Except Fault Number := lift (· * ·) Binary64.mul

/-- Division. It is exact when both operands are integers and the divisor divides the dividend, and
rounded once otherwise. -/
def div (a b : Number) : Except Fault Number :=
  if b.isZero then .error .divisionByZero
  else match a, b with
    | .int m, .int n =>
      if n ∣ m then .ok (.int (m / n))
      else (Binary64.ofQuotient? m n).elim (.error .quotientTooLarge) (.ok ∘ .float)
    | a, b => do
      let x ← a.toBinary64
      let y ← b.toBinary64
      return .float (x.div y)

end Number
end Grimoire
