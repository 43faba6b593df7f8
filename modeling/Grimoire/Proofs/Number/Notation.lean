import Mathlib.Data.List.Induction
import Mathlib.Data.List.TakeWhile
import Mathlib.Data.Nat.Digits.Defs
import Grimoire.Proofs.Number.Nearest

/-!
# Plain decimal notation

The two ways in which a number is written in plain ASCII: as an integer, or as a decimal with a
point, an exponent or both. Each is a type of its own, with a text and the number that the text
stands for; the readers of `Grimoire.Number` are measured against them.

* **`IntegerNotation`**: an optional sign and at least one digit.
* **`DecimalNotation`**: an optional sign, digits with an optional point among or around them, and
  an optional exponent, which is `e` or `E` and an integer.
* **`DecimalNotation.ofText?_unsigned`** and **`Decimal.exists_decimalNotation`**: what is written
  in the notation is read as the decimal that it stands for, and nothing else is read as a decimal.
-/

namespace Grimoire

open Numeral

/-! ## Digits by their places -/

namespace Numeral

/-- The number that a row of digits stands for: the last digit counts once, and each other one ten
times as much as the digit after it. -/
def positional (ds : Text) : Nat := Nat.ofDigits 10 (ds.reverse.map CodePoint.digitValue)

/-- Reading digits from the left or counting their places from the right is the same. -/
theorem value_eq_positional (ds : Text) : value ds = positional ds := by
  induction ds using List.reverseRecOn with
  | nil => rfl
  | append_singleton ds d ih =>
    rw [value_append, ih, positional, positional, List.reverse_append, List.reverse_singleton,
      List.singleton_append, List.map_cons, Nat.ofDigits_cons]
    show _ * 10 + (10 * 0 + d.digitValue) = d.digitValue + 10 * _
    omega

end Numeral

/-! ## Signs -/

/-- What may stand in front of a number. -/
inductive Sign where
  | none
  | plus
  | minus
deriving DecidableEq

namespace Sign

/-- A sign as it is written. -/
def text : Sign → Text
  | none => []
  | plus => "+"
  | minus => "-"

/-- Whether a sign makes a number negative. -/
def isNegative : Sign → Bool
  | none | plus => false
  | minus => true

/-- A sign is split off whatever does not start with another one. -/
theorem splitSign_append (sign : Sign) {body : Text}
    (h : ∀ c ∈ body.head?, c ≠ '-' ∧ c ≠ '+') :
    splitSign (sign.text ++ body) = (sign.isNegative, body) := by
  cases sign with
  | plus | minus => rfl
  | none =>
    cases body with
    | nil => rfl
    | cons c body => simp [text, isNegative, splitSign, h c rfl]

/-- Whatever is split off a text is a sign that is written there, if only an empty one. -/
theorem exists_splitSign (t : Text) :
    ∃ sign : Sign, t = sign.text ++ (splitSign t).2 ∧ (splitSign t).1 = sign.isNegative := by
  cases t with
  | nil => exact ⟨none, rfl, rfl⟩
  | cons c t =>
    by_cases hminus : c = '-'
    · subst hminus
      exact ⟨minus, rfl, rfl⟩
    by_cases hplus : c = '+'
    · subst hplus
      exact ⟨plus, rfl, rfl⟩
    · have hsplit : splitSign ([] ++ (c :: t)) = (false, c :: t) :=
        none.splitSign_append (by simp [hminus, hplus])
      rw [List.nil_append] at hsplit
      rw [hsplit]
      exact ⟨none, rfl, rfl⟩

end Sign

/-- Digits are no signs. -/
theorem CodePoint.not_sign_of_digit {c : CodePoint} (h : c.isDigit) : c ≠ '-' ∧ c ≠ '+' := by
  constructor
  · rintro rfl
    cases h
  · rintro rfl
    cases h

/-! ## Integers -/

/-- An optional sign and at least one digit. -/
structure IntegerNotation where
  sign : Sign
  digits : Text
  ne_nil : digits ≠ []
  isDigit : ∀ c ∈ digits, c.isDigit = true

namespace IntegerNotation

/-- An integer as it is written. -/
def text (i : IntegerNotation) : Text := i.sign.text ++ i.digits

/-- The integer that is written. -/
def value (i : IntegerNotation) : Int :=
  if i.sign.isNegative then -(positional i.digits : Int) else positional i.digits

/-- The sign of an integer is told apart from its digits. -/
theorem splitSign_text (i : IntegerNotation) : splitSign i.text = (i.sign.isNegative, i.digits) :=
  i.sign.splitSign_append fun c hc =>
    CodePoint.not_sign_of_digit (i.isDigit c (List.mem_of_mem_head? hc))

/-- The value of an integer by the sign and the digits that are read. -/
theorem value_eq_signed (i : IntegerNotation) :
    i.value = signed i.sign.isNegative (Numeral.value i.digits) := by
  rw [value_eq_positional]
  rfl

end IntegerNotation

/-- What is an integer when its sign is split off is written as one. -/
theorem exists_integerNotation {t : Text} (hne : (splitSign t).2 ≠ [])
    (hdigits : (splitSign t).2.all CodePoint.isDigit = true) :
    ∃ i : IntegerNotation, t = i.text := by
  obtain ⟨sign, ht, -⟩ := Sign.exists_splitSign t
  exact ⟨⟨sign, (splitSign t).2, hne, List.all_eq_true.mp hdigits⟩, ht⟩

/-! ## Exponents -/

/-- `e` or `E`, and an integer. -/
structure ExponentNotation where
  letter : CodePoint
  letter_eq : letter = 'e' ∨ letter = 'E'
  power : IntegerNotation

namespace ExponentNotation

/-- An exponent as it is written. -/
def text (x : ExponentNotation) : Text := x.letter :: x.power.text

/-- The letter of an exponent ends the digits in front of it. -/
theorem letter_not_digit (x : ExponentNotation) : x.letter.isDigit = false ∧ x.letter ≠ '.' := by
  rcases x.letter_eq with h | h <;> rw [h] <;> decide

end ExponentNotation

namespace Decimal

/-- An exponent is read after its sign is split off. -/
theorem exponent?_eq (c : CodePoint) (cs : Text) :
    exponent? (c :: cs) =
      if (c = 'e' ∨ c = 'E') ∧ (splitSign cs).2 ≠ [] ∧
          (splitSign cs).2.all CodePoint.isDigit = true then
        some (signed (splitSign cs).1 (value (splitSign cs).2))
      else none := rfl

/-- An exponent is read as the power that is written. -/
theorem exponent?_text (x : ExponentNotation) : exponent? x.text = some x.power.value := by
  rw [ExponentNotation.text, exponent?_eq, x.power.splitSign_text, x.power.value_eq_signed]
  exact if_pos ⟨x.letter_eq, x.power.ne_nil, List.all_eq_true.mpr x.power.isDigit⟩

/-- What is read as an exponent is written as one, or not written at all. -/
theorem exists_exponentNotation {rest : Text} {e : Int} (h : exponent? rest = some e) :
    ∃ x? : Option ExponentNotation, rest = x?.elim [] ExponentNotation.text := by
  cases rest with
  | nil => exact ⟨none, rfl⟩
  | cons c cs =>
    rw [exponent?_eq] at h
    split at h
    · rename_i hletter
      obtain ⟨i, rfl⟩ := exists_integerNotation hletter.2.1 hletter.2.2
      exact ⟨some ⟨c, hletter.1, i⟩, rfl⟩
    · cases h

end Decimal

/-! ## Decimals -/

/-- An optional sign, digits with an optional point among or around them, and an optional exponent.
There is at least one digit besides those of the exponent. -/
structure DecimalNotation where
  sign : Sign
  whole : Text
  /-- The digits after the point, if there is a point. -/
  fraction? : Option Text
  exponent? : Option ExponentNotation
  ne_nil : whole ++ fraction?.getD [] ≠ []
  isDigit : ∀ c ∈ whole ++ fraction?.getD [], c.isDigit = true

namespace DecimalNotation

variable (n : DecimalNotation)

/-- The exponent, if one is written. -/
def exponentText : Text := n.exponent?.elim [] ExponentNotation.text

/-- The point and the digits after it. -/
def pointText : Text := n.fraction?.elim [] (('.' : CodePoint) :: ·)

/-- What is written after the sign. -/
def unsigned : Text := n.whole ++ n.pointText ++ n.exponentText

/-- A decimal as it is written. -/
def text : Text := n.sign.text ++ n.unsigned

/-- The power of ten by which the digits are multiplied. -/
def power : Int := n.exponent?.elim 0 fun x => x.power.value

/-- The number that is written, without its sign. -/
def size : ℚ :=
  (positional n.whole + positional (n.fraction?.getD []) / 10 ^ (n.fraction?.getD []).length)
    * 10 ^ n.power

/-- The digits and the exponent that are read. -/
def decimal : Decimal :=
  let fraction := n.fraction?.getD []
  ⟨Numeral.value (n.whole ++ fraction), -fraction.length + n.power⟩

/-- The digits and the exponent that are read make up the number that is written. -/
theorem exactValue_decimal : n.decimal.exactValue = n.size := by
  have hten : (10 : ℚ) ^ (n.fraction?.getD []).length ≠ 0 := (pow_pos (by norm_num) _).ne'
  rw [decimal, Decimal.exactValue, size]
  dsimp only
  rw [value_append, value_eq_positional, value_eq_positional, zpow_add₀ (by norm_num), zpow_neg,
    zpow_natCast, Nat.cast_add, Nat.cast_mul, Decimal.cast_tenTo]
  field_simp

/-- Behind the digits comes neither a digit nor a point. -/
theorem head_exponentText : ∀ c ∈ n.exponentText.head?, c.isDigit = false ∧ c ≠ '.' := by
  unfold exponentText
  cases n.exponent? with
  | none => simp
  | some x =>
    intro c hc
    obtain rfl := Option.some.inj hc
    exact x.letter_not_digit

/-- The exponent is read as the power that the digits are multiplied by. -/
theorem exponent?_exponentText : Decimal.exponent? n.exponentText = some n.power := by
  unfold exponentText power
  cases n.exponent? with
  | none => rfl
  | some x => exact Decimal.exponent?_text x

/-- What is written before the exponent is split at its point. -/
theorem splitPoint?_unsigned :
    Decimal.splitPoint? n.unsigned = some (n.whole, n.fraction?.getD [], n.exponentText) := by
  have hne := n.ne_nil
  have hall := List.all_eq_true.mpr n.isDigit
  rw [List.all_append, Bool.and_eq_true] at hall
  unfold unsigned pointText
  cases hfraction : n.fraction? with
  | none =>
    rw [hfraction] at hne
    simp only [Option.elim_none, Option.getD_none, List.append_nil] at hne ⊢
    exact Decimal.splitPoint?_plain hne hall.1 n.head_exponentText
  | some fraction =>
    rw [hfraction] at hne hall
    simp only [Option.elim_some, Option.getD_some] at hne hall ⊢
    rw [List.append_assoc, List.cons_append]
    refine Decimal.splitPoint?_point ?_ hall.1 hall.2 fun c hc => (n.head_exponentText c hc).1
    rwa [Ne, List.append_eq_nil_iff, not_and_or] at hne

/-- **A decimal without its sign is read as its digits and its exponent.** -/
theorem ofText?_unsigned : Decimal.ofText? n.unsigned = some n.decimal := by
  unfold Decimal.ofText?
  rw [n.splitPoint?_unsigned]
  simp [n.exponent?_exponentText, Decimal.ofPoint, decimal]

/-- A decimal starts with a digit or a point, so its sign can be told apart. -/
theorem head_unsigned : ∀ c ∈ n.unsigned.head?, c.isDigit = true ∨ c = '.' := by
  intro c hc
  unfold unsigned pointText at hc
  cases hwhole : n.whole with
  | cons d whole =>
    rw [hwhole] at hc
    obtain rfl := Option.some.inj hc
    exact .inl (n.isDigit d (by simp [hwhole]))
  | nil =>
    -- Without digits before it, there is a point.
    have hne := n.ne_nil
    cases hfraction : n.fraction? with
    | none => simp [hwhole, hfraction] at hne
    | some fraction =>
      rw [hwhole, hfraction] at hc
      exact .inr (Option.some.inj hc).symm

/-- The sign of a decimal is told apart from what is written after it. -/
theorem splitSign_text : splitSign n.text = (n.sign.isNegative, n.unsigned) := by
  refine n.sign.splitSign_append fun c hc => ?_
  rcases n.head_unsigned c hc with hdigit | rfl
  · exact CodePoint.not_sign_of_digit hdigit
  · decide

end DecimalNotation

namespace Decimal

/-- What is split at a point is digits around it, with at least one on either side. -/
theorem exists_splitPoint {t whole fraction rest : Text}
    (h : splitPoint? t = some (whole, fraction, rest)) :
    ∃ fraction? : Option Text, fraction?.getD [] = fraction ∧
      t = whole ++ fraction?.elim [] (('.' : CodePoint) :: ·) ++ rest ∧
      whole ++ fraction ≠ [] ∧ ∀ c ∈ whole ++ fraction, c.isDigit = true := by
  have htake := List.takeWhile_append_dropWhile (p := CodePoint.isDigit) (l := t)
  have hwhole : ∀ c ∈ t.takeWhile CodePoint.isDigit, c.isDigit = true :=
    fun c => List.mem_takeWhile_imp
  unfold splitPoint? at h
  dsimp only at h
  split at h
  · -- Something comes after the digits, be it a point or not.
    rename_i c cs hdrop
    rw [hdrop] at htake
    split at h
    · rename_i hpoint
      split at h
      · cases h
      · rename_i hsome
        cases h
        refine ⟨some (cs.takeWhile CodePoint.isDigit), rfl, ?_, ?_, ?_⟩
        · rw [Option.elim_some, List.append_assoc, List.cons_append,
            List.takeWhile_append_dropWhile, ← hpoint, htake]
        · simpa [List.append_eq_nil_iff] using hsome
        · intro d hd
          rcases List.mem_append.mp hd with hd | hd
          · exact hwhole d hd
          · exact List.mem_takeWhile_imp hd
    · split at h
      · cases h
      · rename_i hsome
        cases h
        refine ⟨none, rfl, ?_, ?_, ?_⟩
        · rw [Option.elim_none, List.append_nil, htake]
        · simpa using hsome
        · simpa using hwhole
  · rename_i hdrop
    split at h
    · cases h
    · rename_i hsome
      cases h
      rw [hdrop] at htake
      refine ⟨none, rfl, ?_, ?_, ?_⟩
      · rw [Option.elim_none, List.append_nil, htake]
      · simpa using hsome
      · simpa using hwhole

/-- **What is read as an unsigned decimal is written in decimal notation**, whatever sign is put in
front of it. -/
theorem exists_decimalNotation {t : Text} {d : Decimal} (h : ofText? t = some d) (sign : Sign) :
    ∃ n : DecimalNotation, n.sign = sign ∧ t = n.unsigned := by
  unfold ofText? at h
  obtain ⟨⟨whole, fraction, rest⟩, hsplit, h⟩ := Option.bind_eq_some_iff.mp h
  obtain ⟨e, hexponent, -⟩ := Option.bind_eq_some_iff.mp h
  obtain ⟨fraction?, rfl, rfl, hne, hdigits⟩ := exists_splitPoint hsplit
  obtain ⟨exponent?, rfl⟩ := exists_exponentNotation hexponent
  exact ⟨⟨sign, whole, fraction?, exponent?, hne, hdigits⟩, rfl, rfl⟩

end Decimal

/-! ## The code points of a number -/

/-- A code point that can occur in a number. -/
def CodePoint.isPlain (c : CodePoint) : Bool := c.isDigit || (Text.ofString "+-.eE").contains c

/-- What can be seen of a number without taking it apart. -/
structure Text.Plain (t : Text) : Prop where
  ne_nil : t ≠ []
  isPlain : ∀ c ∈ t, c.isPlain = true
  points : t.count ('.' : CodePoint) ≤ 1

/-- Digits can occur in a number. -/
theorem CodePoint.isPlain_of_digit {c : CodePoint} (h : c.isDigit = true) : c.isPlain = true := by
  rw [isPlain, h, Bool.true_or]

/-- There is no point among digits. -/
theorem count_point_of_digits {ds : Text} (h : ∀ c ∈ ds, c.isDigit = true) :
    ds.count ('.' : CodePoint) = 0 :=
  List.count_eq_zero.mpr fun hmem => absurd (h _ hmem) (by decide)

theorem Sign.isPlain_text (sign : Sign) : ∀ c ∈ sign.text, c.isPlain = true := by
  cases sign <;> decide

theorem Sign.count_point (sign : Sign) : sign.text.count ('.' : CodePoint) = 0 := by
  cases sign <;> decide

namespace IntegerNotation

variable (i : IntegerNotation)

/-- An integer is made of a sign and digits. -/
theorem isPlain_text : ∀ c ∈ i.text, c.isPlain = true := by
  intro c hc
  rcases List.mem_append.mp hc with hc | hc
  · exact i.sign.isPlain_text c hc
  · exact CodePoint.isPlain_of_digit (i.isDigit c hc)

/-- An integer has no point. -/
theorem count_point : i.text.count ('.' : CodePoint) = 0 := by
  rw [text, List.count_append, i.sign.count_point, count_point_of_digits i.isDigit]

/-- An integer looks like a number. -/
theorem plain_text : i.text.Plain where
  ne_nil := by simp [text, i.ne_nil]
  isPlain := i.isPlain_text
  points := by simp [i.count_point]

end IntegerNotation

namespace DecimalNotation

variable (n : DecimalNotation)

/-- Neither the letter of an exponent nor its power brings in anything else. -/
theorem isPlain_exponentText : ∀ c ∈ n.exponentText, c.isPlain = true := by
  unfold exponentText
  cases n.exponent? with
  | none => simp
  | some x =>
    refine List.forall_mem_cons.mpr ⟨?_, x.power.isPlain_text⟩
    rcases x.letter_eq with h | h <;> rw [h] <;> decide

/-- The point of a decimal is never in its exponent. -/
theorem count_point_exponentText : n.exponentText.count ('.' : CodePoint) = 0 := by
  unfold exponentText
  cases n.exponent? with
  | none => rfl
  | some x =>
    rw [Option.elim_some, ExponentNotation.text, List.count_cons_of_ne x.letter_not_digit.2,
      x.power.count_point]

/-- The fraction is a point and digits. -/
theorem isPlain_pointText : ∀ c ∈ n.pointText, c.isPlain = true := by
  have hdigits := n.isDigit
  unfold pointText
  cases hfraction : n.fraction? with
  | none => simp
  | some fraction =>
    refine List.forall_mem_cons.mpr ⟨by decide, fun c hc => ?_⟩
    exact CodePoint.isPlain_of_digit (hdigits c (by simp [hfraction, hc]))

/-- There is one point at most. -/
theorem count_point_pointText : n.pointText.count ('.' : CodePoint) ≤ 1 := by
  have hdigits := n.isDigit
  unfold pointText
  cases hfraction : n.fraction? with
  | none => simp
  | some fraction =>
    have hcount : fraction.count ('.' : CodePoint) = 0 :=
      count_point_of_digits fun c hc => hdigits c (by simp [hfraction, hc])
    rw [Option.elim_some, List.count_cons_self, hcount]

/-- A decimal looks like a number, part by part. -/
theorem plain_text : n.text.Plain where
  ne_nil := by
    have hne := n.ne_nil
    intro hnil
    simp only [text, unsigned, pointText, List.append_eq_nil_iff] at hnil
    cases hfraction : n.fraction? <;> simp_all
  isPlain := by
    intro c hc
    simp only [text, unsigned, List.mem_append] at hc
    rcases hc with hc | (hc | hc) | hc
    · exact n.sign.isPlain_text c hc
    · exact CodePoint.isPlain_of_digit (n.isDigit c (List.mem_append_left _ hc))
    · exact n.isPlain_pointText c hc
    · exact n.isPlain_exponentText c hc
  points := by
    have hwhole := count_point_of_digits fun c hc => n.isDigit c (List.mem_append_left _ hc)
    simp only [text, unsigned, List.count_append, n.sign.count_point, hwhole,
      n.count_point_exponentText, Nat.zero_add, Nat.add_zero]
    exact n.count_point_pointText

end DecimalNotation
end Grimoire
