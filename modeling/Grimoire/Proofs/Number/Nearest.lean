import Mathlib.Algebra.Order.Field.Basic
import Mathlib.Data.Rat.Cast.Order
import Mathlib.Tactic.FieldSimp
import Mathlib.Tactic.Linarith
import Mathlib.Tactic.NormNum
import Grimoire.Proofs.Number.Decimal

/-!
# Rounding to the nearest number

What is rounded goes to the nearest number of the format, a tie to the one with the even mantissa,
and what lies beyond the format to infinity. Here that is said of exact values: `Magnitude.value` is
the rational number that a size stands for.

* **`Magnitude.IsNearest`** compares a size with every other one: each is farther off, or as far off
  and has an odd mantissa where this one has an even one. So there is at most one such size.
* **`distance_nearest`** is the crux, on a grid of equal steps: the multiple of a step to which a
  number is rounded, compared with any other multiple. Sizes with a smaller step than the rounded
  one are all too small to compete (`units_cases`).
* **`Binary64.Rounds`** adds the sign and the two infinities, and `Decimal.toBinary64_rounds` says
  that reading a decimal rounds its exact value.
-/

namespace Grimoire

namespace Magnitude

/-! ## Exact values -/

/-- The number that a size stands for. -/
def value (m : Magnitude) : ℚ := m.mantissa * 2 ^ ((m.shift : ℤ) - 1074)

/-- The units in one, as a power of two. -/
theorem cast_unitsPerOne : (unitsPerOne : ℚ) = 2 ^ 1074 := by
  simp only [unitsPerOne, Nat.one_shiftLeft, Nat.cast_pow, Nat.cast_ofNat]

theorem unitsPerOne_pos : (0 : ℚ) < unitsPerOne := by
  rw [cast_unitsPerOne]
  exact pow_pos two_pos 1074

/-- The value of a size is its units, in ones. -/
theorem value_eq_div (m : Magnitude) : m.value = m.units / unitsPerOne := by
  rw [value, units, Nat.shiftLeft_eq, cast_unitsPerOne, zpow_sub₀ two_ne_zero, Nat.cast_mul,
    Nat.cast_pow, zpow_natCast, mul_div_assoc]
  rfl

/-- A size is known by its units. -/
theorem units_inj {m n : Magnitude} (h : m.units = n.units) : m = n := by
  have hround := m.round?_units
  rw [h, n.round?_units] at hround
  exact (Option.some.inj hround).symm

/-! ## The nearest multiple of a step -/

/-- How far two numbers are apart. -/
def distance (a b : Nat) : Nat := ((a : Int) - b).natAbs

/-- **The multiple of a step to which a number is rounded** is nearer to it than any other, or as
near and even where the other one is odd. -/
theorem distance_nearest {num den : Nat} (hden : 0 < den) {k : Nat} (hk : k ≠ nearest num den) :
    distance num (nearest num den * den) < distance num (k * den) ∨
      distance num (nearest num den * den) = distance num (k * den) ∧
        nearest num den % 2 = 0 ∧ k % 2 = 1 := by
  have hnum : num / den * den + num % den = num := Nat.div_add_mod' num den
  have hmod : num % den < den := Nat.mod_lt num hden
  have hnext : (num / den + 1) * den = num / den * den + den := Nat.succ_mul _ _
  -- Another multiple is one of the two next to the number, or a whole step beyond them.
  have hside : k = num / den ∨ k = num / den + 1 ∨ k * den + den ≤ num / den * den ∨
      num / den * den + 2 * den ≤ k * den := by
    rcases Nat.lt_or_ge k (num / den) with hlt | hge
    · have := Nat.mul_le_mul_right den hlt
      rw [Nat.succ_mul] at this
      omega
    · rcases Nat.lt_or_ge (num / den + 1) k with hgt | hle
      · have := Nat.mul_le_mul_right den hgt
        rw [Nat.succ_mul, hnext] at this
        omega
      · omega
  unfold nearest distance at *
  dsimp only at hk ⊢
  split at hk
  · -- The number is rounded up.
    rename_i hup
    rw [if_pos hup, hnext]
    rcases hside with rfl | rfl | hside | hside <;> omega
  · rename_i hup
    rw [if_neg hup]
    rcases hside with rfl | rfl | hside | hside
    · omega
    · rw [hnext]
      omega
    · omega
    · omega

/-! ## The nearest size -/

/-- A size is the one that a number is rounded to: every other size is farther from it, or as far
from it with an odd mantissa where this one has an even one. -/
def IsNearest (q : ℚ) (size : Magnitude) : Prop :=
  ∀ other ≠ size, |q - size.value| < |q - other.value| ∨
    |q - size.value| = |q - other.value| ∧ Even size.mantissa ∧ Odd other.mantissa

/-- At most one size is the nearest: of two at the same distance one would be even and odd. -/
theorem IsNearest.unique {q : ℚ} {m n : Magnitude} (hm : IsNearest q m) (hn : IsNearest q n) :
    m = n := by
  by_contra hne
  rcases hm n (Ne.symm hne) with hlt | ⟨heq, heven, -⟩
  · rcases hn m hne with hlt' | ⟨heq', -, -⟩
    · exact absurd hlt' (not_lt.mpr hlt.le)
    · exact absurd heq' hlt.ne'
  · rcases hn m hne with hlt' | ⟨-, -, hodd⟩
    · exact absurd heq hlt'.ne'
    · exact Nat.not_even_iff_odd.mpr hodd heven

/-- The distance of a quotient from a size, without fractions. -/
theorem abs_sub_value {num den : Nat} (hden : 0 < den) (m : Magnitude) :
    |(num : ℚ) / den / unitsPerOne - m.value| =
      distance num (m.units * den) / (den * unitsPerOne) := by
  have hden' : (0 : ℚ) < den := by exact_mod_cast hden
  have hunits := unitsPerOne_pos
  have hquotient : (num : ℚ) / den / unitsPerOne - m.value =
      ((num : ℤ) - (m.units * den : ℕ) : ℤ) / (den * unitsPerOne) := by
    rw [value_eq_div]
    push_cast
    field_simp
  rw [hquotient, abs_div, abs_of_pos (mul_pos hden' hunits), ← Int.cast_abs, Int.abs_eq_natAbs,
    Int.cast_natCast]
  rfl

/-- A size is a multiple of a step, or too small to have so large a step. -/
theorem units_cases (m : Magnitude) (shift : Nat) :
    (∃ k, m.units = k * 2 ^ shift ∧ (k % 2 = 1 → m.mantissa = k)) ∨
      0 < shift ∧ m.units < 0x10000000000000 * 2 ^ shift := by
  rw [units, Nat.shiftLeft_eq]
  rcases Nat.lt_or_ge m.shift shift with hlt | hge
  · refine .inr ⟨by omega, ?_⟩
    have hpow : 2 ^ (m.shift + 1) ≤ 2 ^ shift := Nat.pow_le_pow_right Nat.two_pos hlt
    calc m.mantissa * 2 ^ m.shift
        < 0x20000000000000 * 2 ^ m.shift :=
          Nat.mul_lt_mul_of_pos_right m.mantissa_lt (Nat.two_pow_pos _)
      _ = 0x10000000000000 * 2 ^ (m.shift + 1) := by rw [Nat.pow_succ]; omega
      _ ≤ 0x10000000000000 * 2 ^ shift := Nat.mul_le_mul_left _ hpow
  · obtain ⟨j, hj⟩ := Nat.exists_eq_add_of_le hge
    refine .inl ⟨m.mantissa * 2 ^ j, ?_, fun hodd => ?_⟩
    · rw [hj, Nat.pow_add, Nat.mul_comm (2 ^ shift), Nat.mul_assoc]
    · cases j with
      | zero => rw [Nat.pow_zero, Nat.mul_one]
      | succ j =>
        rw [Nat.pow_succ, ← Nat.mul_assoc, Nat.mul_mod_left] at hodd
        cases hodd

/-- What is rounded to a size: it is a multiple of the step, with or without a carry. -/
theorem units_of_round? {num den : Nat} {size : Magnitude} (h : round? num den = some size) :
    size.units = nearest num (den <<< shiftFor (num / den)) * 2 ^ shiftFor (num / den) ∧
      (nearest num (den <<< shiftFor (num / den)) % 2 = 0 → size.mantissa % 2 = 0) := by
  have hlo := le_nearest num (den <<< shiftFor (num / den))
  have hhi := nearest_le num (den <<< shiftFor (num / den))
  have hlt := shiftRight_shiftFor_lt (num / den)
  rw [← div_shiftLeft] at hlt
  have hmap := round?_map num den
  rw [h] at hmap
  dsimp only [Option.map_some] at hmap
  rw [units, Nat.shiftLeft_eq]
  split at hmap
  · split at hmap
    · obtain ⟨hmantissa, hshift⟩ := Prod.mk.inj (Option.some.inj hmap)
      rw [hmantissa, hshift]
      exact ⟨rfl, id⟩
    · cases hmap
  · -- The mantissa has become too large by one: it is full, and half of it is taken in the next
    -- binade.
    rename_i hcarry
    split at hmap
    · obtain ⟨hmantissa, hshift⟩ := Prod.mk.inj (Option.some.inj hmap)
      have hfull : nearest num (den <<< shiftFor (num / den)) = 0x20000000000000 := by omega
      rw [hmantissa, hshift, hfull, Nat.pow_succ]
      exact ⟨by omega, fun _ => rfl⟩
    · cases hmap

/-- **Rounding finds the nearest size.** -/
theorem round?_isNearest {num den : Nat} (hden : 0 < den) {size : Magnitude}
    (h : round? num den = some size) : IsNearest ((num : ℚ) / den / unitsPerOne) size := by
  obtain ⟨hunits, heven⟩ := units_of_round? h
  have hnormal := shiftFor_eq_zero_or_le_shiftRight (num / den)
  rw [← div_shiftLeft] at hnormal
  have hstep : den <<< shiftFor (num / den) = den * 2 ^ shiftFor (num / den) := Nat.shiftLeft_eq _ _
  have hpos : 0 < den <<< shiftFor (num / den) := by
    rw [hstep]
    exact Nat.mul_pos hden (Nat.two_pow_pos _)
  generalize shiftFor (num / den) = shift at *
  generalize den <<< shift = step at *
  have hsteps (k : Nat) : k * 2 ^ shift * den = k * step := by
    rw [hstep, Nat.mul_assoc, Nat.mul_comm (2 ^ shift)]
  have hscale : (0 : ℚ) < den * unitsPerOne :=
    mul_pos (by exact_mod_cast hden) unitsPerOne_pos
  intro other hother
  rw [abs_sub_value hden, abs_sub_value hden, div_lt_div_iff_of_pos_right hscale,
    div_left_inj' hscale.ne', Nat.cast_lt, Nat.cast_inj, hunits, hsteps]
  rcases other.units_cases shift with ⟨k, hk, hodd⟩ | ⟨hshift, hsmall⟩
  · have hne : k ≠ nearest num step := by
      rintro rfl
      exact hother (units_inj (hk.trans hunits.symm))
    rw [hk, hsteps]
    rcases distance_nearest hpos hne with hlt | ⟨heq, hmult, hk2⟩
    · exact .inl hlt
    · refine .inr ⟨heq, Nat.even_iff.mpr (heven hmult), Nat.odd_iff.mpr ?_⟩
      rw [hodd hk2, hk2]
  · -- The other size lies below all sizes with the step of this one, and the number does not.
    have hnum : 0x10000000000000 * step ≤ num :=
      (Nat.le_div_iff_mul_le hpos).mp (hnormal.resolve_left (by omega))
    have hbelow : other.units * den < 0x10000000000000 * step := by
      rw [← hsteps]
      exact Nat.mul_lt_mul_of_pos_right hsmall hden
    have hle : distance num (nearest num step * step) ≤ distance num (0x10000000000000 * step) := by
      by_cases heq : 0x10000000000000 = nearest num step
      · rw [heq]
      · rcases distance_nearest hpos heq with hlt | ⟨heq, -⟩
        · exact hlt.le
        · exact heq.le
    left
    unfold distance at *
    omega

/-! ## The end of the format -/

/-- The middle between the greatest size and the one that would come after it, in units. What lies
there or above is beyond the format. -/
def limit : Nat := 0x3fffffffffffff * 2 ^ 2044

/-- Rounding fails where the shift is too large, before or after the carry. -/
theorem round?_eq_none {num den : Nat} :
    round? num den = none ↔ 2045 < shiftFor (num / den) ∨
      shiftFor (num / den) = 2045 ∧
        nearest num (den <<< shiftFor (num / den)) = 0x20000000000000 := by
  have hhi := nearest_le num (den <<< shiftFor (num / den))
  have hlt := shiftRight_shiftFor_lt (num / den)
  rw [← div_shiftLeft] at hlt
  rw [← Option.map_eq_none_iff, round?_map]
  dsimp only
  split
  · split <;> simp <;> omega
  · split <;> simp <;> omega

/-- Less than half a step is cut off. -/
theorem nearest_of_lt {num den : Nat} (h : 2 * (num % den) < den) : nearest num den = num / den :=
  if_neg (by omega)

/-- Half a step above an odd multiple is rounded up. -/
theorem nearest_of_odd {num den : Nat} (h : den ≤ 2 * (num % den)) (hodd : num / den % 2 = 1) :
    nearest num den = num / den + 1 :=
  if_pos (by omega)

/-- Rounding makes a 54th bit from half a step below it on. -/
theorem nearest_eq_carry_iff {num step : Nat} (hstep : 0 < step)
    (hlt : num / step < 0x20000000000000) :
    nearest num step = 0x20000000000000 ↔ 0x3fffffffffffff * step ≤ 2 * num := by
  have hnum : num / step * step + num % step = num := Nat.div_add_mod' num step
  -- Only the last number of 53 bits can be rounded up to one of 54.
  by_cases hlast : num / step = 0x1fffffffffffff
  · rw [hlast] at hnum
    rcases Nat.lt_or_ge (2 * (num % step)) step with hdown | hup
    · rw [nearest_of_lt hdown, hlast]
      exact iff_of_false (by decide) (by omega)
    · rw [nearest_of_odd hup (by rw [hlast]), hlast]
      exact iff_of_true rfl (by omega)
  · have hle := nearest_le num step
    have hmod : num % step < step := Nat.mod_lt num hstep
    have hsmall : (num / step + 1) * step ≤ 0x1fffffffffffff * step :=
      Nat.mul_le_mul_right step (by omega)
    rw [Nat.add_mul, Nat.one_mul] at hsmall
    exact iff_of_false (by omega) (by omega)

/-- **Rounding fails from the limit on**, and only there. -/
theorem round?_eq_none_iff {num den : Nat} (hden : 0 < den) :
    round? num den = none ↔ limit * den ≤ num := by
  rw [round?_eq_none]
  have hlt := shiftRight_shiftFor_lt (num / den)
  have hnormal := shiftFor_eq_zero_or_le_shiftRight (num / den)
  rw [← div_shiftLeft] at hlt hnormal
  have hstep : den <<< shiftFor (num / den) = den * 2 ^ shiftFor (num / den) := Nat.shiftLeft_eq _ _
  have hpos : 0 < den <<< shiftFor (num / den) := by
    rw [hstep]
    exact Nat.mul_pos hden (Nat.two_pow_pos _)
  generalize shiftFor (num / den) = shift at *
  generalize den <<< shift = step at *
  have hlimit : limit * den = 0x3fffffffffffff * (den * 2 ^ 2044) := by
    rw [limit, Nat.mul_assoc, Nat.mul_comm (2 ^ 2044)]
  rw [hlimit]
  -- The step is compared with half of the last step of the format.
  rcases Nat.lt_or_ge 2044 shift with hshift | hshift
  · obtain ⟨j, rfl⟩ := Nat.exists_eq_add_of_le hshift.le
    have hsplit (last : Nat) : den * 2 ^ (last + j) = den * 2 ^ last * 2 ^ j := by
      rw [Nat.pow_add, Nat.mul_assoc]
    rw [hsplit] at hstep
    generalize den * 2 ^ 2044 = half at *
    -- With two shifts beyond it, a number is too large before it is rounded.
    rcases Nat.lt_or_ge 1 j with hj | hj
    · have hfour : 2 ^ 2 ≤ 2 ^ j := Nat.pow_le_pow_right Nat.two_pos hj
      have hge : half * 2 ^ 2 ≤ step := hstep ▸ Nat.mul_le_mul_left half hfour
      have hnum : 0x10000000000000 * step ≤ num :=
        (Nat.le_div_iff_mul_le hpos).mp (hnormal.resolve_left (by omega))
      omega
    · obtain rfl : j = 1 := by omega
      rw [nearest_eq_carry_iff hpos hlt]
      omega
  · have hmono {last : Nat} (h : shift ≤ last) : step ≤ den * 2 ^ last :=
      hstep ▸ Nat.mul_le_mul_left den (Nat.pow_le_pow_right Nat.two_pos h)
    have hle := hmono hshift
    generalize den * 2 ^ 2044 = half at *
    have hnum : num < 0x20000000000000 * step := (Nat.div_lt_iff_lt_mul hpos).mp hlt
    omega

/-- Nothing but zero is as near to less than half a unit. -/
theorem isNearest_zero {q : ℚ} (h : 0 ≤ q) (hq : 2 * (q * unitsPerOne) < 1) : IsNearest q zero := by
  intro other hother
  have hunits : 1 ≤ other.units := by
    refine Nat.one_le_iff_ne_zero.mpr fun hzero => hother (units_inj ?_)
    rw [hzero]
    rfl
  have hpos := unitsPerOne_pos
  have hzero : zero.value = 0 := by
    rw [value_eq_div]
    exact zero_div _
  -- Every other size is one unit at least, and so more than twice as large.
  have hother : 2 * q < other.value := by
    rw [value_eq_div, lt_div_iff₀ hpos]
    have : (1 : ℚ) ≤ other.units := by exact_mod_cast hunits
    linarith
  left
  rw [hzero, sub_zero, abs_of_nonneg h, abs_of_neg (by linarith)]
  linarith

end Magnitude

/-! ## Numbers with a sign -/

namespace Binary64

/-- `Rounds negative q x`: the number whose size is `q`, with a sign, is rounded to `x`. From half a
step above the greatest finite number on, that is infinity. -/
inductive Rounds (negative : Bool) (q : ℚ) : Binary64 → Prop where
  | finite {size : Magnitude} (hq : q < 2 ^ 1024 - 2 ^ 970) (hsize : size.IsNearest q) :
      Rounds negative q (.finite negative size)
  | infinity (hq : 2 ^ 1024 - 2 ^ 970 ≤ q) : Rounds negative q (.infinity negative)

/-- A number is rounded to at most one float. -/
theorem Rounds.unique {negative : Bool} {q : ℚ} {x y : Binary64} (hx : Rounds negative q x)
    (hy : Rounds negative q y) : x = y := by
  cases hx with
  | finite hq hsize =>
    cases hy with
    | finite _ hsize' => rw [hsize.unique hsize']
    | infinity hq' => exact absurd hq (not_lt.mpr hq')
  | infinity hq =>
    cases hy with
    | finite hq' _ => exact absurd hq' (not_lt.mpr hq)
    | infinity _ => rfl

/-- The limit of the format, as a number. -/
theorem limit_le_iff {num den : Nat} (hden : 0 < den) :
    Magnitude.limit * den ≤ num ↔ (2 : ℚ) ^ 1024 - 2 ^ 970 ≤ num / den / unitsPerOne := by
  have hscale : (0 : ℚ) < den * unitsPerOne :=
    mul_pos (by exact_mod_cast hden) Magnitude.unitsPerOne_pos
  have hlimit : ((2 : ℚ) ^ 1024 - 2 ^ 970) * (den * unitsPerOne) = (Magnitude.limit * den : ℕ) := by
    have htop : (2 : ℚ) ^ 1024 = 2 ^ 54 * 2 ^ 970 := pow_add 2 54 970
    have hunits : (2 : ℚ) ^ 2044 = 2 ^ 970 * 2 ^ 1074 := pow_add 2 970 1074
    rw [Magnitude.limit, Magnitude.cast_unitsPerOne, htop]
    simp only [Nat.cast_mul, Nat.cast_pow, Nat.cast_ofNat, hunits]
    generalize (2 : ℚ) ^ 970 = a, (2 : ℚ) ^ 1074 = b
    ring
  rw [div_div, le_div_iff₀ hscale, hlimit, Nat.cast_le]

/-- **A quotient of units is rounded.** -/
theorem rounds_ofUnits (negative : Bool) {num den : Nat} (hden : 0 < den) :
    Rounds negative (num / den / unitsPerOne) (ofUnits negative num den) := by
  unfold ofUnits
  split
  · rename_i size hsize
    refine .finite (not_le.mp fun hlimit => ?_) (Magnitude.round?_isNearest hden hsize)
    rw [(Magnitude.round?_eq_none_iff hden).mpr ((limit_le_iff hden).mpr hlimit)] at hsize
    cases hsize
  · rename_i hnone
    exact .infinity ((limit_le_iff hden).mp ((Magnitude.round?_eq_none_iff hden).mp hnone))

end Binary64

namespace Decimal

open Numeral

/-- The exact value of a decimal. -/
def exactValue (d : Decimal) : ℚ := d.digits * 10 ^ d.exponent

/-- A power of ten, as a rational number. -/
theorem cast_tenTo (n : Nat) : (tenTo n : ℚ) = 10 ^ n := by
  show ((10 ^ n : ℕ) : ℚ) = 10 ^ n
  rw [Nat.cast_pow, Nat.cast_ofNat]

/-- A decimal lies between two powers of ten, by the place of its first digit. -/
theorem exactValue_bounds {d : Decimal} (h : d.digits ≠ 0) :
    10 ^ ((length d.digits : ℤ) + d.exponent - 1) ≤ d.exactValue ∧
      d.exactValue < 10 ^ ((length d.digits : ℤ) + d.exponent) := by
  have hten : (0 : ℚ) < 10 ^ d.exponent := zpow_pos (by norm_num) _
  have hpos : 0 < length d.digits := List.length_pos_iff.mpr Nat.toDigits_ne_nil
  have hlower : tenTo (length d.digits - 1) ≤ d.digits :=
    not_lt.mp (mt (length_le_iff h _).mpr (by omega))
  have hupper : d.digits < tenTo (length d.digits) := (length_le_iff h _).mp le_rfl
  have hplace : (length d.digits : ℤ) + d.exponent - 1 =
      (length d.digits - 1 : ℕ) + d.exponent := by omega
  rw [hplace, zpow_add₀ (by norm_num), zpow_add₀ (by norm_num), zpow_natCast, zpow_natCast,
    ← cast_tenTo, ← cast_tenTo, exactValue]
  constructor
  · exact mul_le_mul_of_nonneg_right (by exact_mod_cast hlower) hten.le
  · exact mul_lt_mul_of_pos_right (by exact_mod_cast hupper) hten

/-- Decimals have no sign of their own. -/
theorem exactValue_nonneg (d : Decimal) : 0 ≤ d.exactValue :=
  mul_nonneg (Nat.cast_nonneg _) (zpow_nonneg (by norm_num) _)

/-- Below `10 ^ -330` there is less than half a unit. -/
theorem rounds_zero {negative : Bool} {d : Decimal}
    (h : d.digits = 0 ∨ length d.digits + d.exponent < -330) :
    Binary64.Rounds negative d.exactValue (.finite negative Magnitude.zero) := by
  have hunits : 2 * unitsPerOne ≤ tenTo 331 := by decide +kernel
  have hunits' : 2 * (unitsPerOne : ℚ) ≤ 10 ^ 331 := by
    rw [← cast_tenTo]
    exact_mod_cast hunits
  have hten : (0 : ℚ) < 10 ^ 331 := pow_pos (by norm_num) _
  -- The value is below `10 ^ -331`, which is at most half a unit.
  have hsmall : d.exactValue * 10 ^ 331 < 1 := by
    by_cases hzero : d.digits = 0
    · rw [exactValue, hzero, Nat.cast_zero, zero_mul, zero_mul]
      exact one_pos
    · have hplace : (length d.digits : ℤ) + d.exponent ≤ -(331 : ℕ) := by
        have := h.resolve_left hzero
        omega
      rw [← lt_div_iff₀ hten, one_div, ← zpow_natCast, ← zpow_neg]
      exact (exactValue_bounds hzero).2.trans_le (zpow_le_zpow_right₀ (by norm_num) hplace)
  have hnonneg := d.exactValue_nonneg
  refine .finite ?_ (Magnitude.isNearest_zero hnonneg ?_)
  · have htop : (2 : ℚ) ^ 970 + 2 ^ 970 ≤ 2 ^ 1024 := by
      rw [← mul_two, ← pow_succ]
      exact pow_le_pow_right₀ one_le_two (by norm_num)
    calc d.exactValue ≤ d.exactValue * 10 ^ 331 :=
          le_mul_of_one_le_right hnonneg (one_le_pow₀ (by norm_num))
      _ < 1 := hsmall
      _ ≤ 2 ^ 970 := one_le_pow₀ one_le_two
      _ ≤ 2 ^ 1024 - 2 ^ 970 := le_sub_iff_add_le.mpr htop
  · calc 2 * (d.exactValue * unitsPerOne) = d.exactValue * (2 * unitsPerOne) := by ring
      _ ≤ d.exactValue * 10 ^ 331 := mul_le_mul_of_nonneg_left hunits' hnonneg
      _ < 1 := hsmall

/-- From `10 ^ 310` on a decimal is beyond the format. -/
theorem rounds_infinity {negative : Bool} {d : Decimal} (hd : d.digits ≠ 0)
    (h : 310 < length d.digits + d.exponent) :
    Binary64.Rounds negative d.exactValue (.infinity negative) := by
  have htop : 2 ^ 1024 ≤ tenTo 310 := by decide +kernel
  have htop' : (2 : ℚ) ^ 1024 ≤ 10 ^ 310 := by
    rw [← cast_tenTo]
    exact_mod_cast htop
  have hplace : ((310 : ℕ) : ℤ) ≤ length d.digits + d.exponent - 1 := by omega
  refine .infinity ?_
  calc (2 : ℚ) ^ 1024 - 2 ^ 970 ≤ 2 ^ 1024 := sub_le_self _ (pow_nonneg zero_le_two _)
    _ ≤ 10 ^ 310 := htop'
    _ = 10 ^ ((310 : ℕ) : ℤ) := (zpow_natCast _ _).symm
    _ ≤ 10 ^ ((length d.digits : ℤ) + d.exponent - 1) := zpow_le_zpow_right₀ (by norm_num) hplace
    _ ≤ d.exactValue := (exactValue_bounds hd).1

/-- The exact value as a quotient of units, with no power below zero. -/
theorem exactValue_eq_div (d : Decimal) :
    d.exactValue = (d.digits * tenTo d.exponent.toNat * unitsPerOne : ℕ) /
      (tenTo (-d.exponent).toNat : ℕ) / unitsPerOne := by
  have hunits := Magnitude.unitsPerOne_pos
  have hten : (10 : ℚ) ^ (-d.exponent).toNat ≠ 0 := (pow_pos (by norm_num) _).ne'
  have hexponent : d.exponent = (d.exponent.toNat : ℤ) - ((-d.exponent).toNat : ℤ) := by omega
  have hpower : (10 : ℚ) ^ d.exponent = 10 ^ d.exponent.toNat / 10 ^ (-d.exponent).toNat := by
    conv_lhs => rw [hexponent]
    rw [zpow_sub₀ (by norm_num), zpow_natCast, zpow_natCast]
  rw [exactValue, hpower]
  push_cast
  rw [cast_tenTo, cast_tenTo]
  field_simp

/-- **Reading a decimal rounds its exact value**, however large or small it is. -/
theorem toBinary64_rounds (negative : Bool) (d : Decimal) :
    Binary64.Rounds negative d.exactValue (d.toBinary64 negative) := by
  rw [toBinary64_eq]
  split
  · rename_i hsmall
    exact rounds_zero hsmall
  split
  · rename_i hsmall hlarge
    exact rounds_infinity (mt Or.inl hsmall) hlarge
  · rw [exactValue_eq_div]
    exact Binary64.rounds_ofUnits negative (tenTo_pos _)

end Decimal
end Grimoire
