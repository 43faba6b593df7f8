import Mathlib.Tactic.Ring
import Grimoire.Number.Binary64

/-!
# Rounding

The size nearest to a quotient depends on the quotient only, not on how it is written as a fraction
(`round?_congr`), and a size that is rounded stays what it is (`round?_units`).
-/

namespace Grimoire.Magnitude

/-- A fraction is rounded in the same way however it is expanded. -/
theorem nearest_mul_right (num den : Nat) {c : Nat} (hc : 0 < c) :
    nearest (num * c) (den * c) = nearest num den := by
  have hlt : den * c < 2 * (num % den * c) ↔ den < 2 * (num % den) := by
    rw [← Nat.mul_assoc]
    exact Nat.mul_lt_mul_right hc
  have heq : den * c = 2 * (num % den * c) ↔ den = 2 * (num % den) := by
    rw [← Nat.mul_assoc]
    exact Nat.mul_left_inj hc.ne'
  simp only [nearest, Nat.mul_div_mul_right _ _ hc, Nat.mul_mod_mul_right, hlt, heq]

/-- Mantissa and shift of the nearest size. They say all about it. -/
theorem round?_map (num den : Nat) :
    (round? num den).map (fun m => (m.mantissa, m.shift)) =
      let shift := shiftFor (num / den)
      let mantissa := nearest num (den <<< shift)
      if mantissa < 0x20000000000000 then
        if shift ≤ 2045 then some (mantissa, shift) else none
      else if shift + 1 ≤ 2045 then some (0x10000000000000, shift + 1) else none := by
  unfold round?
  dsimp only
  split
  · split <;> rfl
  · split <;> rfl

/-- Mantissa and shift say all about a size; the rest are proofs. -/
theorem ext_parts {m n : Magnitude} (h : (m.mantissa, m.shift) = (n.mantissa, n.shift)) :
    m = n := by
  cases m
  cases n
  simp_all

/-- The nearest size does not change either when the fraction is expanded: the shift goes by the
quotient, and the rest by the rounded one. -/
theorem round?_mul_right (num den : Nat) {c : Nat} (hc : 0 < c) :
    round? (num * c) (den * c) = round? num den := by
  apply Option.map_injective (fun _ _ => ext_parts)
  have hshift (s : Nat) : (den * c) <<< s = den <<< s * c := by
    rw [Nat.shiftLeft_eq, Nat.shiftLeft_eq, Nat.mul_right_comm]
  rw [round?_map, round?_map, Nat.mul_div_mul_right _ _ hc]
  simp only [hshift, nearest_mul_right _ _ hc]

/-- **Rounding depends on the quotient only.** -/
theorem round?_congr {num den num' den' : Nat} (hden : 0 < den) (hden' : 0 < den')
    (h : num * den' = num' * den) : round? num den = round? num' den' :=
  calc round? num den = round? (num * den') (den * den') := (round?_mul_right num den hden').symm
    _ = round? (num' * den) (den' * den) := by rw [h, Nat.mul_comm den]
    _ = round? num' den' := round?_mul_right num' den' hden

/-- The shift found for the units of a size is its own. -/
theorem shiftFor_units (size : Magnitude) : shiftFor size.units = size.shift := by
  obtain ⟨mantissa, shift, hlt, -, hnormal⟩ := size
  show (mantissa <<< shift).log2 - 52 = shift
  rw [Nat.shiftLeft_eq]
  by_cases hzero : mantissa = 0
  · have : shift = 0 := by omega
    simp [hzero, this]
  have hne : mantissa * 2 ^ shift ≠ 0 := Nat.mul_ne_zero hzero (Nat.two_pow_pos _).ne'
  -- The logarithm is caught between the greatest and the smallest mantissa.
  have hupper : (mantissa * 2 ^ shift).log2 < 53 + shift := by
    rw [Nat.log2_lt hne, Nat.pow_add]
    exact Nat.mul_lt_mul_of_pos_right hlt (Nat.two_pow_pos _)
  rcases hnormal with rfl | hnormal
  · omega
  · have hlower : 52 + shift ≤ (mantissa * 2 ^ shift).log2 := by
      rw [Nat.le_log2 hne, Nat.pow_add]
      exact Nat.mul_le_mul_right _ hnormal
    omega

/-- A size is the one nearest to itself. -/
theorem round?_units (size : Magnitude) : round? size.units 1 = some size := by
  have hnearest : nearest size.units (1 <<< size.shift) = size.mantissa := by
    have hpos : 0 < 1 <<< size.shift := by
      rw [Nat.shiftLeft_eq, Nat.one_mul]
      exact Nat.two_pow_pos _
    have hunits : size.units = size.mantissa * 1 <<< size.shift := by
      rw [units, Nat.shiftLeft_eq, Nat.shiftLeft_eq, Nat.one_mul]
    simp only [nearest, hunits, Nat.mul_mod_left, Nat.mul_div_cancel _ hpos]
    apply if_neg
    omega
  apply Option.map_injective (fun _ _ => ext_parts)
  rw [round?_map, Nat.div_one, shiftFor_units]
  simp [hnearest, size.mantissa_lt, size.shift_le]

/-- Only zero has no units. -/
theorem units_eq_zero {size : Magnitude} : size.units = 0 ↔ size.mantissa = 0 := by
  rw [units, Nat.shiftLeft_eq, Nat.mul_eq_zero]
  exact or_iff_left (Nat.two_pow_pos _).ne'

/-- A size with mantissa zero has no shift to choose. -/
theorem eq_zero_of_mantissa {size : Magnitude} (h : size.mantissa = 0) : size = zero := by
  apply ext_parts
  have hshift : size.shift = 0 := by
    have := size.normal
    omega
  simp [zero, h, hshift]

/-- All sizes lie below a power of two, which is where the format ends. -/
theorem units_lt (size : Magnitude) {n : Nat} (hn : 53 + 2045 ≤ n) : size.units < 2 ^ n := by
  have hshift := size.shift_le
  have hpow : (2 : Nat) ^ (53 + size.shift) ≤ 2 ^ n :=
    Nat.pow_le_pow_right Nat.two_pos (by omega)
  refine Nat.lt_of_lt_of_le ?_ hpow
  rw [units, Nat.shiftLeft_eq, Nat.pow_add]
  exact Nat.mul_lt_mul_of_pos_right size.mantissa_lt (Nat.two_pow_pos _)

end Grimoire.Magnitude
