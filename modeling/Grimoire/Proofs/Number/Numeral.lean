import Mathlib.Tactic.Ring
import Grimoire.Number.Numeral

/-!
# Numerals read back

A written number consists of digits, has no more digits than it needs, and stands for the number.
-/

namespace Grimoire.Numeral

/-- The digits of a number stand for that number. -/
theorem value_digits (n : Nat) : value (digits n) = n := by
  have hfold : value (digits n) = Nat.ofDigitChars 10 (Nat.toDigits 10 n) 0 := by
    rw [value, digits, List.foldl_map, Nat.ofDigitChars_eq_foldl]
    rfl
  rw [hfold, Nat.ofDigitChars_ten_toDigits]

/-- Both notions of a decimal digit agree on characters. -/
theorem isDigit_ofChar {c : Char} (h : c.isDigit) : (CodePoint.ofChar c).isDigit := by
  have hbounds : 48 ≤ c.toNat ∧ c.toNat ≤ 57 := by
    simp only [Char.isDigit, Bool.and_eq_true, decide_eq_true_eq] at h
    exact ⟨UInt32.le_iff_toNat_le.mp h.1, UInt32.le_iff_toNat_le.mp h.2⟩
  simp only [CodePoint.isDigit, CodePoint.between, Bool.and_eq_true, decide_eq_true_eq]
  exact hbounds

/-- A number is written with digits only. -/
theorem all_isDigit_digits (n : Nat) : (digits n).all CodePoint.isDigit = true := by
  rw [List.all_eq_true]
  intro d hd
  obtain ⟨c, hc, rfl⟩ := List.mem_map.mp hd
  exact isDigit_ofChar (Nat.isDigit_of_mem_toDigits (by decide) (by decide) hc)

/-- Every number has a digit; zero is written as one. -/
theorem digits_ne_nil (n : Nat) : digits n ≠ [] := by
  rw [digits, Ne, List.map_eq_nil_iff]
  exact Nat.toDigits_ne_nil

/-- A bound on the number of digits is a bound on the number. -/
theorem length_digits_le_iff {n k : Nat} (hk : 0 < k) : (digits n).length ≤ k ↔ n < tenTo k := by
  rw [digits, List.length_map]
  exact Nat.length_toDigits_le_iff (by decide) hk

/-- A digit is at most nine, which keeps the carry out of the place before it. -/
theorem digitValue_le {c : CodePoint} (h : c.isDigit) : c.digitValue ≤ 9 := by
  simp only [CodePoint.isDigit, CodePoint.between, Bool.and_eq_true, decide_eq_true_eq] at h
  unfold CodePoint.digitValue
  omega

/-- A row of digits stands for a number that a row of this length can reach. -/
theorem value_lt_tenTo {ds : Text} (h : ds.all CodePoint.isDigit = true) :
    value ds < tenTo ds.length := by
  -- the digits read so far count as often as there are numbers with the digits to come
  have hfold : ∀ (ds : Text) (n : Nat), ds.all CodePoint.isDigit = true →
      ds.foldl (fun n d => 10 * n + d.digitValue) n < (n + 1) * 10 ^ ds.length := by
    intro ds
    induction ds with
    | nil => simp
    | cons d ds ih =>
      intro n hds
      rw [List.all_cons, Bool.and_eq_true] at hds
      have hd := digitValue_le hds.1
      calc (d :: ds).foldl (fun n d => 10 * n + d.digitValue) n
          < (10 * n + d.digitValue + 1) * 10 ^ ds.length := ih _ hds.2
        _ ≤ (10 * (n + 1)) * 10 ^ ds.length := Nat.mul_le_mul_right _ (by omega)
        _ = (n + 1) * 10 ^ (d :: ds).length := by rw [List.length_cons, Nat.pow_succ]; ring
  simpa [value, tenTo] using hfold ds 0 h

theorem tenTo_le_tenTo {m n : Nat} (h : m ≤ n) : tenTo m ≤ tenTo n :=
  Nat.pow_le_pow_right (by decide) h

end Grimoire.Numeral
