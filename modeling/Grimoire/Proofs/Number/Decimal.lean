import Grimoire.Number.Decimal
import Grimoire.Proofs.Number.Numeral
import Grimoire.Proofs.Number.Rounding

/-!
# Decimal notation reads back

The text of a floating-point number reads as the same number, so that no two numbers have the same
text (`Binary64.ofText?_text`).

* Zeros at the end of the digits of a decimal make no difference if the exponent makes up for them
  (`toBinary64_padded`). Rounding sees only the quotient.
* The digits that are searched for read back by the way they are searched for; so do all digits of a
  number (`readsAs_exact`), which is where a search without success would end.
* What is laid out, with or without an exponent, is the same decimal again but for zeros at its end
  (`ofText?_layOut`).
-/

namespace Grimoire

namespace Numeral

theorem tenTo_pos (n : Nat) : 0 < tenTo n := Nat.pow_pos (by decide)

/-- Powers of ten multiply by adding exponents. -/
theorem tenTo_add (m n : Nat) : tenTo (m + n) = tenTo m * tenTo n := Nat.pow_add 10 m n

/-- Digits in front count by the number of digits that come after them. -/
theorem value_append (s t : Text) : value (s ++ t) = value s * tenTo t.length + value t := by
  -- What has been read so far moves up one place for each digit.
  have hfold : ∀ (t : Text) (n : Nat), t.foldl (fun n d => 10 * n + d.digitValue) n =
      n * 10 ^ t.length + t.foldl (fun n d => 10 * n + d.digitValue) 0 := by
    intro t
    induction t with
    | nil => simp
    | cons d t ih =>
      intro n
      rw [List.foldl_cons, List.foldl_cons, ih, ih (10 * 0 + _), List.length_cons, Nat.pow_succ]
      ring
  rw [value, List.foldl_append, hfold]
  rfl

theorem value_zeros (n : Nat) : value (Decimal.zeros n) = 0 := by
  induction n with
  | zero => rfl
  | succ n ih =>
    have happend : Decimal.zeros (n + 1) = Decimal.zeros n ++ [('0' : CodePoint)] :=
      List.replicate_succ'
    rw [happend, value_append, ih]
    rfl

/-- Zeros in front of digits make no difference. -/
theorem value_zeros_append (n : Nat) (t : Text) : value (Decimal.zeros n ++ t) = value t := by
  rw [value_append, value_zeros, Nat.zero_mul, Nat.zero_add]

/-- Each zero behind digits multiplies by ten. -/
theorem value_append_zeros (t : Text) (n : Nat) :
    value (t ++ Decimal.zeros n) = value t * tenTo n := by
  rw [value_append, value_zeros, Decimal.zeros, List.length_replicate, Nat.add_zero]

end Numeral

namespace Decimal

open Numeral

theorem all_isDigit_zeros (n : Nat) : (zeros n).all CodePoint.isDigit = true := by
  apply List.all_eq_true.mpr
  intro c hc
  rw [List.eq_of_mem_replicate hc]
  decide

/-! ## Zeros at the end -/

/-- The same number with zeros after its digits. -/
def padded (d : Decimal) (zeros : Nat) : Decimal := ⟨d.digits * tenTo zeros, d.exponent - zeros⟩

/-- A bound on the number of digits is a bound on the number, for numbers that have any. -/
theorem length_le_iff {n : Nat} (hn : n ≠ 0) (k : Nat) : length n ≤ k ↔ n < tenTo k := by
  cases k with
  | zero =>
    have hpos : 0 < length n := List.length_pos_iff.mpr Nat.toDigits_ne_nil
    have hone : tenTo 0 = 1 := rfl
    omega
  | succ k => exact Nat.length_toDigits_le_iff (by decide) k.succ_pos

/-- Zeros at the end count as digits. -/
theorem length_mul_tenTo {n : Nat} (hn : n ≠ 0) (j : Nat) :
    length (n * tenTo j) = length n + j := by
  have hne : n * tenTo j ≠ 0 := Nat.mul_ne_zero hn (tenTo_pos j).ne'
  -- A bound for the one is a bound for the other.
  have hbound (k : Nat) : length (n * tenTo j) ≤ k + j ↔ length n ≤ k := by
    rw [length_le_iff hne, length_le_iff hn, tenTo_add]
    exact Nat.mul_lt_mul_right (tenTo_pos j)
  have hle := (hbound (length n)).mpr (Nat.le_refl _)
  have hge := hbound (length (n * tenTo j) - j)
  have hzero := hbound 0
  have hpos : 0 < length n := List.length_pos_iff.mpr Nat.toDigits_ne_nil
  omega

/-- The two ways to read a decimal, by the sign of its exponent, in one. -/
theorem toBinary64_eq (negative : Bool) (d : Decimal) :
    d.toBinary64 negative =
      if d.digits = 0 ∨ length d.digits + d.exponent < -330 then .finite negative Magnitude.zero
      else if 310 < length d.digits + d.exponent then .infinity negative
      else .ofUnits negative (d.digits * tenTo d.exponent.toNat * unitsPerOne)
        (tenTo (-d.exponent).toNat) := by
  obtain ⟨n, e⟩ := d
  unfold toBinary64
  cases e with
  | ofNat e =>
    have hden : tenTo (-(Int.ofNat e)).toNat = 1 := by
      rw [Int.toNat_of_nonpos (by simp)]
      rfl
    simp only [hden]
    rfl
  | negSucc e =>
    have hnum : n * tenTo (Int.negSucc e).toNat = n := Nat.mul_one n
    simp only [hnum]
    rfl

/-- Zeros that are made up for by the exponent do not change what is rounded. -/
theorem round?_padded (n units : Nat) (e : Int) (j : Nat) :
    Magnitude.round? (n * tenTo j * tenTo (e - j).toNat * units) (tenTo (-(e - j)).toNat) =
      Magnitude.round? (n * tenTo e.toNat * units) (tenTo (-e).toNat) := by
  apply Magnitude.round?_congr (tenTo_pos _) (tenTo_pos _)
  have hpowers : tenTo j * tenTo (e - j).toNat * tenTo (-e).toNat =
      tenTo e.toNat * tenTo (-(e - j)).toNat := by
    rw [← tenTo_add, ← tenTo_add, ← tenTo_add]
    congr 1
    omega
  calc n * tenTo j * tenTo (e - j).toNat * units * tenTo (-e).toNat
      = n * units * (tenTo j * tenTo (e - j).toNat * tenTo (-e).toNat) := by ring
    _ = n * units * (tenTo e.toNat * tenTo (-(e - j)).toNat) := by rw [hpowers]
    _ = n * tenTo e.toNat * units * tenTo (-(e - j)).toNat := by ring

/-- The same for numbers with a sign. -/
theorem ofUnits_padded (negative : Bool) (n units : Nat) (e : Int) (j : Nat) :
    Binary64.ofUnits negative (n * tenTo j * tenTo (e - j).toNat * units)
        (tenTo (-(e - j)).toNat) =
      Binary64.ofUnits negative (n * tenTo e.toNat * units) (tenTo (-e).toNat) := by
  unfold Binary64.ofUnits
  rw [round?_padded]

/-- **Zeros at the end make no difference.** -/
theorem toBinary64_padded (negative : Bool) (d : Decimal) (j : Nat) :
    (d.padded j).toBinary64 negative = d.toBinary64 negative := by
  obtain ⟨n, e⟩ := d
  rw [toBinary64_eq, toBinary64_eq]
  simp only [padded, ofUnits_padded]
  by_cases hzero : n = 0
  · subst hzero
    rw [if_pos (.inl (Nat.zero_mul _)), if_pos (.inl rfl)]
  · have hne : n * tenTo j ≠ 0 := Nat.mul_ne_zero hzero (tenTo_pos j).ne'
    have hmagnitude : (length (n * tenTo j) : Int) + (e - j) = length n + e := by
      rw [length_mul_tenTo hzero]
      omega
    simp only [hne, hzero, hmagnitude]

/-! ## The digits of a number read back -/

/-- One unit is a whole number of the decimal places that `exact` writes. -/
theorem pow_five_mul_unitsPerOne : Nat.pow 5 1074 * unitsPerOne = tenTo 1074 := by decide +kernel

/-- Written out in full, every number above zero has a first digit within the bounds between which
a decimal is worked out. -/
theorem length_exact {size : Magnitude} (h : size.units ≠ 0) :
    744 ≤ length (exact size).digits ∧ length (exact size).digits ≤ 1384 := by
  have hfive : tenTo 743 ≤ Nat.pow 5 1074 := by decide +kernel
  have hbits : 2 ^ 2098 * Nat.pow 5 1074 ≤ tenTo 1384 := by decide +kernel
  have hpos : 0 < Nat.pow 5 1074 := Nat.lt_of_lt_of_le (tenTo_pos 743) hfive
  have hne : (exact size).digits ≠ 0 := Nat.mul_ne_zero h hpos.ne'
  have hlower : tenTo 743 ≤ (exact size).digits :=
    Nat.le_trans hfive (Nat.le_mul_of_pos_left _ (Nat.pos_of_ne_zero h))
  have hupper : (exact size).digits < tenTo 1384 :=
    Nat.lt_of_lt_of_le (Nat.mul_lt_mul_of_pos_right (size.units_lt (by decide)) hpos) hbits
  constructor
  · exact Nat.lt_of_not_le fun hle => Nat.not_lt.mpr hlower ((length_le_iff hne 743).mp hle)
  · exact (length_le_iff hne 1384).mpr hupper

/-- A number with all its digits reads back. -/
theorem readsAs_exact {size : Magnitude} (h : size.mantissa ≠ 0) :
    readsAs size (exact size) = true := by
  have hunits : size.units ≠ 0 := mt Magnitude.units_eq_zero.mp h
  obtain ⟨hlower, hupper⟩ := length_exact hunits
  have hexponent : (exact size).exponent = -1074 := rfl
  have hne : (exact size).digits ≠ 0 := by
    intro hzero
    rw [hzero] at hlower
    exact absurd hlower (by decide)
  have hround : Magnitude.round? ((exact size).digits * tenTo (exact size).exponent.toNat *
      unitsPerOne) (tenTo (-(exact size).exponent).toNat) = some size := by
    rw [← Magnitude.round?_units size]
    apply Magnitude.round?_congr (tenTo_pos _) Nat.one_pos
    have hnum : tenTo (exact size).exponent.toNat = 1 := rfl
    have hden : (-(exact size).exponent).toNat = 1074 := rfl
    have hdigits : (exact size).digits = size.units * Nat.pow 5 1074 := rfl
    rw [hnum, hden, hdigits, ← pow_five_mul_unitsPerOne, Nat.mul_one, Nat.mul_one, Nat.mul_assoc]
  apply decide_eq_true
  rw [toBinary64_eq, if_neg (by omega), if_neg (by omega), Binary64.ofUnits, hround]

/-- Whatever decimal the search returns reads back, because it returns what it has tried, or else
all the digits. -/
theorem readsAs_search {size : Magnitude} (h : size.mantissa ≠ 0) (lead : Int)
    (tries count : Nat) : readsAs size (search size lead tries count) = true := by
  induction tries generalizing count with
  | zero => exact readsAs_exact h
  | succ tries ih =>
    unfold search
    split
    · rename_i d hd
      exact List.find?_some hd
    · exact ih (count + 1)

/-- The decimal with the fewest digits reads back. -/
theorem toBinary64_shortest {size : Magnitude} (h : size.mantissa ≠ 0) :
    (shortest size).toBinary64 false = .finite false size :=
  of_decide_eq_true (readsAs_search h (leadingExponent size) 17 1)

/-! ## The layout reads back -/

/-- Digits are taken up to the first code point that is none. -/
theorem span_digits {t rest : Text} (ht : t.all CodePoint.isDigit = true)
    (hrest : ∀ c ∈ rest.head?, c.isDigit = false) :
    (t ++ rest).takeWhile CodePoint.isDigit = t ∧
      (t ++ rest).dropWhile CodePoint.isDigit = rest := by
  rw [List.takeWhile_append_of_pos (List.all_eq_true.mp ht),
    List.dropWhile_append_of_pos (List.all_eq_true.mp ht)]
  cases rest with
  | nil => simp
  | cons c rest => simp [hrest c rfl]

/-- Digits with no point behind them are all before it. -/
theorem splitPoint?_plain {whole rest : Text} (hne : whole ≠ [])
    (hwhole : whole.all CodePoint.isDigit = true)
    (hrest : ∀ c ∈ rest.head?, c.isDigit = false ∧ c ≠ '.') :
    splitPoint? (whole ++ rest) = some (whole, [], rest) := by
  obtain ⟨htake, hdrop⟩ := span_digits hwhole fun c hc => (hrest c hc).1
  unfold splitPoint?
  rw [htake, hdrop]
  cases rest with
  | nil => simp [hne]
  | cons c rest => simp [hne, (hrest c rfl).2]

/-- Digits around a point are told apart, also where one side has none. -/
theorem splitPoint?_point {whole fraction rest : Text} (hne : whole ≠ [] ∨ fraction ≠ [])
    (hwhole : whole.all CodePoint.isDigit = true)
    (hfraction : fraction.all CodePoint.isDigit = true)
    (hrest : ∀ c ∈ rest.head?, c.isDigit = false) :
    splitPoint? (whole ++ ('.' : CodePoint) :: (fraction ++ rest)) =
      some (whole, fraction, rest) := by
  have hpoint : ∀ c ∈ (('.' : CodePoint) :: (fraction ++ rest)).head?, c.isDigit = false := by
    intro c hc
    obtain rfl := Option.some.inj hc
    decide
  obtain ⟨htake, hdrop⟩ := span_digits hwhole hpoint
  obtain ⟨htake', hdrop'⟩ := span_digits hfraction hrest
  unfold splitPoint?
  rw [htake, hdrop]
  rcases hne with hne | hne <;> simp [hne, htake', hdrop']

/-- An exponent with a sign is read by its sign and its digits. -/
theorem exponent?_cons {sign : CodePoint} {negative : Bool} {ds : Text}
    (hsign : splitSign (sign :: ds) = (negative, ds)) (hne : ds ≠ [])
    (hds : ds.all CodePoint.isDigit = true) :
    exponent? (('e' : CodePoint) :: sign :: ds) = some (signed negative (value ds)) := by
  unfold exponent?
  simp only [hsign, true_or, hne, hds, ne_eq, not_false_eq_true, and_self, if_true]

/-- An exponent reads back. -/
theorem exponent?_exponentText (e : Int) : exponent? (exponentText e) = some e := by
  unfold exponentText
  dsimp only
  generalize htail : zeros (2 - (Numeral.digits e.natAbs).length) ++ Numeral.digits e.natAbs = tail
  have hne : tail ≠ [] := by simp [← htail, digits_ne_nil]
  have hall : tail.all CodePoint.isDigit = true := by
    rw [← htail, List.all_append, all_isDigit_zeros, all_isDigit_digits, Bool.and_self]
  have hvalue : value tail = e.natAbs := by rw [← htail, value_zeros_append, value_digits]
  -- The sign is written in either case, and only the size has digits.
  by_cases he : e < 0
  · rw [if_pos he, exponent?_cons rfl hne hall, hvalue, signed, if_pos rfl]
    congr 1
    omega
  · rw [if_neg he, exponent?_cons rfl hne hall, hvalue, signed, if_neg Bool.false_ne_true]
    congr 1
    omega

/-- An exponent starts with its letter, so the digits in front of it end there. -/
theorem head_exponentText (e : Int) :
    ∀ c ∈ (exponentText e).head?, c.isDigit = false ∧ c ≠ '.' := by
  intro c hc
  obtain rfl := Option.some.inj hc
  decide

/-- Digits with a point among them, and an exponent or nothing after them. -/
theorem ofText?_point {whole fraction rest : Text} {e : Int} (hne : whole ≠ [])
    (hall : (whole ++ fraction).all CodePoint.isDigit = true)
    (hrest : ∀ c ∈ rest.head?, c.isDigit = false) (he : exponent? rest = some e) :
    ofText? (whole ++ "." ++ fraction ++ rest) =
      some ⟨value (whole ++ fraction), -fraction.length + e⟩ := by
  rw [List.all_append, Bool.and_eq_true] at hall
  have htext : whole ++ "." ++ fraction ++ rest =
      whole ++ ('.' : CodePoint) :: (fraction ++ rest) := by
    rw [List.append_assoc, List.append_assoc]
    rfl
  unfold ofText?
  rw [htext, splitPoint?_point (.inl hne) hall.1 hall.2 hrest]
  simp [he, ofPoint]

/-- Digits without a point, and an exponent after them. -/
theorem ofText?_plain {whole : Text} (hne : whole ≠ [])
    (hwhole : whole.all CodePoint.isDigit = true) (e : Int) :
    ofText? (whole ++ exponentText e) = some ⟨value whole, e⟩ := by
  unfold ofText?
  rw [splitPoint?_plain hne hwhole (head_exponentText e)]
  simp [exponent?_exponentText, ofPoint]

/-- Scientific notation: the point comes after the first digit, if there are more. -/
theorem ofText?_scientific {ds : Text} (hne : ds ≠ []) (hds : ds.all CodePoint.isDigit = true)
    (e : Int) :
    ofText? (ds.take 1 ++ (if ds.length ≤ 1 then [] else ('.' : CodePoint) :: ds.drop 1) ++
        exponentText e) = some ⟨value ds, e + 1 - ds.length⟩ := by
  have hpos := List.length_pos_iff.mpr hne
  by_cases hone : ds.length ≤ 1
  · have hlength : ds.length = 1 := by omega
    rw [if_pos hone, List.append_nil, List.take_of_length_le hone, ofText?_plain hne hds, hlength]
    simp
  · have htake : ds.take 1 ≠ [] := by simpa using hne
    have hsplit : ds.take 1 ++ ds.drop 1 = ds := List.take_append_drop 1 ds
    have hread := ofText?_point (e := e) htake (by rwa [hsplit])
      (fun c hc => (head_exponentText e c hc).1) (exponent?_exponentText e)
    rw [hsplit] at hread
    rw [if_neg hone]
    have htext : ds.take 1 ++ ('.' : CodePoint) :: ds.drop 1 = ds.take 1 ++ "." ++ ds.drop 1 := by
      rw [List.append_assoc]
      rfl
    rw [htext, hread, List.length_drop]
    congr 2
    omega

/-- **What is laid out is read as the digits with the point in its place**, but for zeros at the
end. -/
theorem ofText?_layOut {ds : Text} (hne : ds ≠ []) (hds : ds.all CodePoint.isDigit = true)
    (point : Int) :
    ∃ j, ofText? (layOut ds point) = some (padded ⟨value ds, point - ds.length⟩ j) := by
  have hpos := List.length_pos_iff.mpr hne
  have hzero (d : Decimal) : d.padded 0 = d := by simp [padded, tenTo]
  have hread {whole fraction : Text} (hwhole : whole ≠ [])
      (hall : (whole ++ fraction).all CodePoint.isDigit = true) :
      ofText? (whole ++ "." ++ fraction) =
        some ⟨value (whole ++ fraction), -fraction.length⟩ := by
    simpa using @ofText?_point whole fraction [] 0 hwhole hall (by simp) rfl
  unfold layOut
  split
  · split
    · rename_i hle
      have hall : (("0" : Text) ++ (zeros point.natAbs ++ ds)).all CodePoint.isDigit = true := by
        rw [List.all_append, List.all_append, all_isDigit_zeros, hds]
        decide
      have htext : ("0." : Text) ++ zeros point.natAbs ++ ds =
          ("0" : Text) ++ "." ++ (zeros point.natAbs ++ ds) := List.append_assoc _ _ _
      have hvalue : value (("0" : Text) ++ (zeros point.natAbs ++ ds)) = value ds :=
        (value_zeros_append 1 _).trans (value_zeros_append _ ds)
      refine ⟨0, ?_⟩
      rw [hzero, htext, hread (by decide) hall, hvalue, List.length_append, zeros,
        List.length_replicate]
      congr 2
      omega
    split
    · rename_i hgt hlength
      -- Zeros fill the places up to the point, and one more stands behind it.
      generalize hk : point.natAbs - ds.length = k
      have hall : (ds ++ zeros k ++ "0").all CodePoint.isDigit = true := by
        rw [List.all_append, List.all_append, all_isDigit_zeros, hds]
        decide
      have htext : ds ++ zeros k ++ ".0" = ds ++ zeros k ++ "." ++ "0" := by
        rw [List.append_assoc (ds ++ zeros k)]
        rfl
      have hvalue : value (ds ++ zeros k ++ "0") = value ds * tenTo (k + 1) := by
        rw [← value_append_zeros, List.append_assoc, zeros, zeros, List.replicate_succ']
        rfl
      refine ⟨k + 1, ?_⟩
      have hexponent : (-1 : Int) = point - ds.length - (k + 1 : Nat) := by omega
      rw [htext, hread (by simp [hne]) hall, hvalue, padded, ← hexponent]
      rfl
    · rename_i hgt hlength
      -- The point stands among the digits.
      have hsplit : ds.take point.natAbs ++ ds.drop point.natAbs = ds := List.take_append_drop _ ds
      have htake : ds.take point.natAbs ≠ [] := by
        simp [hne]
        omega
      refine ⟨0, ?_⟩
      rw [hzero, hread htake (by rwa [hsplit]), hsplit, List.length_drop]
      congr 2
      omega
  · refine ⟨0, ?_⟩
    rw [hzero]
    dsimp only
    rw [ofText?_scientific hne hds]
    congr 2
    omega

/-- The digits of a decimal, and zeros at their end. -/
theorem exists_zeros (ds : Text) :
    ∃ k, ds = (ds.reverse.dropWhile fun c : CodePoint => c = '0').reverse ++ zeros k := by
  have hsplit := List.takeWhile_append_dropWhile (p := fun c : CodePoint => c = '0')
    (l := ds.reverse)
  have hall := List.all_takeWhile (p := fun c : CodePoint => c = '0') (l := ds.reverse)
  generalize hlast : ds.reverse.takeWhile (fun c : CodePoint => c = '0') = last at hsplit hall
  have hzeros : last.reverse = zeros last.length := by
    rw [List.eq_replicate_of_mem fun c hc => of_decide_eq_true (List.all_eq_true.mp hall c hc),
      List.reverse_replicate, List.length_replicate]
    rfl
  refine ⟨last.length, ?_⟩
  rw [← hzeros, ← List.reverse_append, hsplit, List.reverse_reverse]

/-- **The text of a decimal reads back** as the same number. -/
theorem toBinary64_ofText? {d : Decimal} (hd : d.digits ≠ 0) (negative : Bool) :
    (ofText? d.text).map (toBinary64 negative) = some (d.toBinary64 negative) := by
  obtain ⟨n, e⟩ := d
  have hn : value (Numeral.digits n) = n := value_digits n
  have hall : (Numeral.digits n).all CodePoint.isDigit = true := all_isDigit_digits n
  obtain ⟨k, hk⟩ := exists_zeros (Numeral.digits n)
  unfold text
  dsimp only at hd ⊢
  generalize ((Numeral.digits n).reverse.dropWhile fun c : CodePoint => c = '0').reverse = core
    at hk ⊢
  rw [hk] at hn hall ⊢
  rw [value_append_zeros] at hn
  rw [List.all_append, Bool.and_eq_true] at hall
  have hcore : core ≠ [] := by
    rintro rfl
    exact hd (hn.symm.trans (Nat.zero_mul _))
  rw [List.length_append, zeros, List.length_replicate]
  obtain ⟨j, hj⟩ := ofText?_layOut hcore hall.1 ((core.length + k : Nat) + e)
  -- What was written and what is read differ in zeros at the end.
  have hsame : ⟨n, e⟩ = padded ⟨value core, (core.length + k : Nat) + e - core.length⟩ k := by
    simp only [padded, Decimal.mk.injEq, hn, true_and]
    omega
  rw [hj, Option.map_some, toBinary64_padded, hsame, toBinary64_padded]

/-- Digits hold no line break. -/
theorem newline_notMem_of_digits {t : Text} (h : t.all CodePoint.isDigit = true) :
    ('\n' : CodePoint) ∉ t := by
  intro hmem
  have hdigit := List.all_eq_true.mp h _ hmem
  revert hdigit
  decide

theorem newline_notMem_exponentText (e : Int) : ('\n' : CodePoint) ∉ exponentText e := by
  have hzeros := newline_notMem_of_digits (all_isDigit_zeros (2 - (Numeral.digits e.natAbs).length))
  have hdigits := newline_notMem_of_digits (all_isDigit_digits e.natAbs)
  unfold exponentText
  split <;> simp [hzeros, hdigits] <;> decide

/-- However digits are laid out, no line break gets in between. -/
theorem newline_notMem_layOut {ds : Text} (h : ds.all CodePoint.isDigit = true) (point : Int) :
    ('\n' : CodePoint) ∉ layOut ds point := by
  have hds := newline_notMem_of_digits h
  have hzeros (n : Nat) := newline_notMem_of_digits (all_isDigit_zeros n)
  have htake (n : Nat) : ('\n' : CodePoint) ∉ ds.take n := fun h => hds (List.mem_of_mem_take h)
  have hdrop (n : Nat) : ('\n' : CodePoint) ∉ ds.drop n := fun h => hds (List.mem_of_mem_drop h)
  have htail : ('\n' : CodePoint) ∉ ds.tail := fun h => hds (List.mem_of_mem_tail h)
  have hstart : ('\n' : CodePoint) ∉ ("0." : Text) := by decide
  have hend : ('\n' : CodePoint) ∉ (".0" : Text) := by decide
  have hpoint : ('\n' : CodePoint) ∉ ("." : Text) := by decide
  have hne : ('\n' : CodePoint) ≠ '.' := by decide
  unfold layOut
  split
  · split
    · simp [hstart, hzeros, hds]
    split
    · simp [hds, hzeros, hend]
    · simp [htake, hpoint, hdrop]
  · dsimp only
    split
    · simp [htake, newline_notMem_exponentText]
    · simp [htake, hne, htail, newline_notMem_exponentText]

/-- The text of a decimal fits on a line. -/
theorem newline_notMem_text (d : Decimal) : ('\n' : CodePoint) ∉ d.text := by
  obtain ⟨k, hk⟩ := exists_zeros (Numeral.digits d.digits)
  have hall := all_isDigit_digits d.digits
  rw [hk, List.all_append, Bool.and_eq_true] at hall
  exact newline_notMem_layOut hall.1 _

end Decimal

namespace Binary64

/-- Reads the text of a number. -/
def ofText? (t : Text) : Option Binary64 :=
  let (negative, unsigned) := Numeral.splitSign t
  let number? :=
    if unsigned = "nan" then some .nan
    else if unsigned = "inf" then some (.infinity false)
    else (Decimal.ofText? unsigned).map (Decimal.toBinary64 false)
  if negative then number?.map neg else number?

/-- A decimal without a sign is read only where there is none. -/
theorem splitSign_of_ofText? {t : Text} {d : Decimal} (h : Decimal.ofText? t = some d) :
    Numeral.splitSign t = (false, t) := by
  cases t with
  | nil => rfl
  | cons c t =>
    have hminus : Decimal.ofText? (('-' : CodePoint) :: t) = none := rfl
    have hplus : Decimal.ofText? (('+' : CodePoint) :: t) = none := rfl
    have hc : c ≠ '-' ∧ c ≠ '+' := by
      constructor
      · rintro rfl
        cases hminus.symm.trans h
      · rintro rfl
        cases hplus.symm.trans h
    simp [Numeral.splitSign, hc]

/-- The text of a number without its sign reads back. -/
theorem ofText?_unsigned (size : Magnitude) :
    ∃ d, Decimal.ofText? (if size.mantissa = 0 then "0.0" else (Decimal.shortest size).text) =
      some d ∧ d.toBinary64 false = .finite false size := by
  by_cases hzero : size.mantissa = 0
  · rw [if_pos hzero, Magnitude.eq_zero_of_mantissa hzero]
    exact ⟨⟨0, -1⟩, rfl, rfl⟩
  · rw [if_neg hzero, ← Decimal.toBinary64_shortest hzero]
    apply Option.map_eq_some_iff.mp
    apply Decimal.toBinary64_ofText?
    intro hdigits
    have hread := Decimal.toBinary64_shortest hzero
    rw [Decimal.toBinary64_eq, if_pos (.inl hdigits)] at hread
    cases hread
    exact hzero rfl

/-- **The text of a number reads back.** -/
theorem ofText?_text (x : Binary64) : ofText? x.text = some x := by
  cases x with
  | nan => decide
  | infinity negative => cases negative <;> decide
  | finite negative size =>
    obtain ⟨d, hd, hsize⟩ := ofText?_unsigned size
    unfold text
    dsimp only
    generalize (if size.mantissa = 0 then ("0.0" : Text) else (Decimal.shortest size).text) =
      unsigned at hd ⊢
    -- A text that is read as digits is neither of the two words.
    have hnan : unsigned ≠ "nan" := by
      rintro rfl
      cases hd
    have hinf : unsigned ≠ "inf" := by
      rintro rfl
      cases hd
    unfold ofText?
    cases negative with
    | false => simp [splitSign_of_ofText? hd, hnan, hinf, hd, hsize]
    | true =>
      have hsign : Numeral.splitSign (('-' : CodePoint) :: unsigned) = (true, unsigned) := rfl
      simp [hsign, hnan, hinf, hd, hsize, neg]

/-- The text of a number fits on a line. -/
theorem newline_notMem_text (x : Binary64) : ('\n' : CodePoint) ∉ x.text := by
  cases x with
  | nan => decide
  | infinity negative => cases negative <;> decide
  | finite negative size =>
    have hunsigned : ('\n' : CodePoint) ∉
        (if size.mantissa = 0 then ("0.0" : Text) else (Decimal.shortest size).text) := by
      split
      · decide
      · exact Decimal.newline_notMem_text _
    have hminus : ('\n' : CodePoint) ≠ '-' := by decide
    cases negative <;> simp [text, hminus, hunsigned]

end Binary64
end Grimoire
