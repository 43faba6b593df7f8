/-!
# Double-precision floating point

The numbers of the binary64 format and their arithmetic, worked out exactly on integers and rounded
once at the end. Every finite number is a whole multiple of `2 ^ -1074`, the least positive one;
that multiple is its number of *units*, and all operations are stated on units. A result goes to the
nearest number of the format, a tie to the one with the even mantissa, and a result too large for
the format to infinity.
-/

namespace Grimoire

/-- How many units make up the number one. -/
def unitsPerOne : Nat := 1 <<< 1074

/-- The size of a finite number: `mantissa * 2 ^ shift` units. The mantissa has at most 53 bits, and
exactly 53 unless the shift is zero, so each size has one representation. -/
structure Magnitude where
  mantissa : Nat
  shift : Nat
  mantissa_lt : mantissa < 0x20000000000000
  shift_le : shift ≤ 2045
  normal : shift = 0 ∨ 0x10000000000000 ≤ mantissa
deriving DecidableEq

namespace Magnitude

/-- The size as a whole number of units. -/
def units (m : Magnitude) : Nat := m.mantissa <<< m.shift

def zero : Magnitude := ⟨0, 0, by decide, by decide, by decide⟩

/-- The quotient rounded to the nearest whole number, a half to the even one. -/
def nearest (num den : Nat) : Nat :=
  let q := num / den
  let r := num % den
  if den < 2 * r ∨ (den = 2 * r ∧ q % 2 = 1) then q + 1 else q

/-- The shift at which a whole number of units fits into 53 bits. -/
def shiftFor (units : Nat) : Nat := units.log2 - 52

/-- Rounding never falls below the quotient that is cut off. -/
theorem le_nearest (num den : Nat) : num / den ≤ nearest num den := by
  simp only [nearest]; split <;> omega

/-- Rounding goes up by one at most. -/
theorem nearest_le (num den : Nat) : nearest num den ≤ num / den + 1 := by
  simp only [nearest]; split <;> omega

/-- At its own shift a number of units has at most 53 bits. -/
theorem shiftRight_shiftFor_lt (q : Nat) : q >>> shiftFor q < 0x20000000000000 := by
  have hq := @Nat.lt_log2_self q
  have hle : q.log2 + 1 ≤ 53 + shiftFor q := by simp only [shiftFor]; omega
  have hpow := Nat.pow_le_pow_right Nat.two_pos hle
  rw [Nat.pow_add 2 53] at hpow
  rw [Nat.shiftRight_eq_div_pow, Nat.div_lt_iff_lt_mul (Nat.two_pow_pos _)]
  omega

/-- A shift that is not zero leaves 53 bits. -/
theorem shiftFor_eq_zero_or_le_shiftRight (q : Nat) :
    shiftFor q = 0 ∨ 0x10000000000000 ≤ q >>> shiftFor q := by
  by_cases h : shiftFor q = 0
  · exact Or.inl h
  · right
    have hlog : q.log2 = 52 + shiftFor q := by simp only [shiftFor] at h ⊢; omega
    have hne : q ≠ 0 := by
      intro hq
      subst hq
      exact h rfl
    have hle := Nat.log2_self_le hne
    rw [hlog, Nat.pow_add] at hle
    rw [Nat.shiftRight_eq_div_pow, Nat.le_div_iff_mul_le (Nat.two_pow_pos _)]
    omega

/-- To divide by a shifted number is to divide first and shift back afterwards. -/
theorem div_shiftLeft (num den shift : Nat) : num / (den <<< shift) = (num / den) >>> shift := by
  rw [Nat.shiftLeft_eq, Nat.shiftRight_eq_div_pow, Nat.div_div_eq_div_mul]

/-- The size nearest to `num / den` units, or none if that is beyond the format. -/
def round? (num den : Nat) : Option Magnitude :=
  let shift := shiftFor (num / den)
  let mantissa := nearest num (den <<< shift)
  have hlo : (num / den) >>> shift ≤ mantissa := div_shiftLeft num den shift ▸ le_nearest _ _
  have hhi : mantissa ≤ (num / den) >>> shift + 1 := div_shiftLeft num den shift ▸ nearest_le _ _
  have hlt : (num / den) >>> shift < 0x20000000000000 := shiftRight_shiftFor_lt _
  have hnormal : shift = 0 ∨ 0x10000000000000 ≤ (num / den) >>> shift :=
    shiftFor_eq_zero_or_le_shiftRight _
  if hm : mantissa < 0x20000000000000 then
    if hs : shift ≤ 2045 then some ⟨mantissa, shift, hm, hs, by omega⟩ else none
  else
    -- Rounding up has made a 54th bit, and all the others are zero.
    if hs : shift + 1 ≤ 2045 then
      some ⟨0x10000000000000, shift + 1, by decide, hs, Or.inr (Nat.le_refl _)⟩
    else none

end Magnitude

/-- A double-precision number. Zero has a sign, and there is one value for "not a number". -/
inductive Binary64 where
  | nan
  | infinity (negative : Bool)
  | finite (negative : Bool) (size : Magnitude)
deriving DecidableEq

namespace Binary64

/-- The number nearest to `num / den` units, with a sign. -/
def ofUnits (negative : Bool) (num den : Nat) : Binary64 :=
  match Magnitude.round? num den with
  | some size => .finite negative size
  | none => .infinity negative

/-- The number nearest to an integer, if the integer is in range. -/
def ofInt? (n : Int) : Option Binary64 :=
  (Magnitude.round? (n.natAbs * unitsPerOne) 1).map (.finite (decide (n < 0)))

/-- The number nearest to the quotient of two integers, if that is in range. -/
def ofQuotient? (a b : Int) : Option Binary64 :=
  (Magnitude.round? (a.natAbs * unitsPerOne) b.natAbs).map
    (.finite (decide (a < 0) != decide (b < 0)))

/-- A whole number of units with its sign. -/
def signedUnits (negative : Bool) (size : Magnitude) : Int :=
  if negative then -(size.units : Int) else size.units

/-- The number with the other sign. What is not a number stays so. -/
def neg : Binary64 → Binary64
  | .nan => .nan
  | .infinity s => .infinity !s
  | .finite s m => .finite (!s) m

/-- The sum. Both sizes are put in units, and the exact sum of the units is rounded once. -/
def add : Binary64 → Binary64 → Binary64
  | .nan, _ => .nan
  | _, .nan => .nan
  | .infinity s, .infinity t => if s = t then .infinity s else .nan
  | .infinity s, .finite _ _ => .infinity s
  | .finite _ _, .infinity t => .infinity t
  | .finite s m, .finite t n =>
    let sum := signedUnits s m + signedUnits t n
    -- A sum that is exactly zero is negative only if both terms are.
    if sum = 0 then .finite (s && t) Magnitude.zero
    else ofUnits (decide (sum < 0)) sum.natAbs 1

def sub (x y : Binary64) : Binary64 := x.add y.neg

/-- The product. The exact product of the units is rounded once, and the signs decide its sign. -/
def mul : Binary64 → Binary64 → Binary64
  | .nan, _ => .nan
  | _, .nan => .nan
  | .infinity s, .infinity t => .infinity (s != t)
  -- Infinity times zero is not a number.
  | .infinity s, .finite t n => if n.units = 0 then .nan else .infinity (s != t)
  | .finite s m, .infinity t => if m.units = 0 then .nan else .infinity (s != t)
  | .finite s m, .finite t n => ofUnits (s != t) (m.units * n.units) unitsPerOne

/-- Division by a number that is not zero. A zero divisor gives infinity, or not a number if the
dividend is zero too. -/
def div : Binary64 → Binary64 → Binary64
  | .nan, _ => .nan
  | _, .nan => .nan
  | .infinity _, .infinity _ => .nan
  | .infinity s, .finite t _ => .infinity (s != t)
  | .finite s _, .infinity t => .finite (s != t) Magnitude.zero
  | .finite s m, .finite t n =>
    if n.units = 0 then if m.units = 0 then .nan else .infinity (s != t)
    else ofUnits (s != t) (m.units * unitsPerOne) n.units

/-- The integer that a number is equal to, if there is one. -/
def toInt? : Binary64 → Option Int
  | .finite s m =>
    if m.units % unitsPerOne = 0 then
      let n := m.units / unitsPerOne
      some (if s then -(n : Int) else n)
    else none
  | _ => none

/-- Zero of either sign. -/
def isZero : Binary64 → Bool
  | .finite _ m => m.mantissa = 0
  | _ => false

end Binary64
end Grimoire
