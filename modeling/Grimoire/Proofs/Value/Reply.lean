import Grimoire.Value
import Grimoire.Proofs.Number.Notation
import Grimoire.Proofs.Token.Lines

/-!
# What a reply is read as

A reply is a number if what is left of it without the blanks at its ends is written in plain decimal
notation, and a text otherwise. Integer notation is tried first; what is an integer with more digits
than the limit allows fails, and is not tried as a decimal. A text is kept as it was given, with its
blanks.

The headline `ofReply_by_notation` has one part for each of the notations, one for what is left, and
one that says of which replies this can be seen from their code points alone.
-/

namespace Grimoire

/-! ## Trimming -/

namespace Text

/-- `s` is what is left of `t` without the blanks at its two ends. -/
structure Strips (t s : Text) : Prop where
  around : ∃ u v, t = u ++ (s ++ v) ∧ (∀ c ∈ u, c.isBlank = true) ∧ ∀ c ∈ v, c.isBlank = true
  first : ∀ c ∈ s.head?, c.isBlank = false
  last : ∀ c ∈ s.getLast?, c.isBlank = false

/-- Where no blank comes first, none is dropped. -/
theorem dropWhile_of_head {t : Text} (h : ∀ c ∈ t.head?, c.isBlank = false) :
    t.dropWhile CodePoint.isBlank = t := by
  cases t with
  | nil => rfl
  | cons c t => rw [List.dropWhile_cons_of_neg (by simp [h c rfl])]

/-- After the blanks in front comes no blank. -/
theorem head_dropWhile (t : Text) :
    ∀ c ∈ (t.dropWhile CodePoint.isBlank).head?, c.isBlank = false := by
  intro c hc
  have hnot := List.head?_dropWhile_not CodePoint.isBlank t
  rw [Option.mem_def.mp hc] at hnot
  exact hnot

/-- Trimming leaves what is between the blanks at both ends. -/
theorem strips_trim (t : Text) : Strips t t.trim where
  around := t.exists_trim
  first := by
    intro c hc
    obtain ⟨w, hw⟩ : t.trim <+: t.dropWhile CodePoint.isBlank := by
      rw [← List.reverse_suffix, trim, trimBy, List.reverse_reverse]
      exact List.dropWhile_suffix _
    apply head_dropWhile t c
    rw [← hw, List.head?_append, Option.mem_def.mp hc]
    rfl
  last := by
    intro c hc
    unfold trim trimBy at hc
    rw [List.getLast?_reverse] at hc
    exact head_dropWhile _ c hc

/-- Whatever is between blanks and has none at its ends is what trimming leaves. -/
theorem Strips.trim_eq {t s : Text} (h : Strips t s) : t.trim = s := by
  obtain ⟨⟨u, v, rfl, hu, hv⟩, hfirst, hlast⟩ := h
  unfold trim trimBy
  rw [List.dropWhile_append_of_pos hu]
  cases s with
  | nil =>
    rw [List.nil_append, List.dropWhile_eq_nil_iff.mpr hv]
    rfl
  | cons c s =>
    rw [dropWhile_of_head (t := c :: s ++ v) hfirst, List.reverse_append,
      List.dropWhile_append_of_pos fun c hc => hv c (List.mem_reverse.mp hc),
      dropWhile_of_head (by rwa [List.head?_reverse]), List.reverse_reverse]

end Text

namespace Value

open Numeral

variable {t : Text}

/-! ## One notation after the other -/

/-- A reply is read after its blanks and its sign are taken off. -/
theorem ofReply_eq (t : Text) :
    ofReply (some t) =
      if (splitSign t.trim).2 ≠ [] ∧ (splitSign t.trim).2.all CodePoint.isDigit = true then
        match read? (splitSign t.trim).2 with
        | some n => .ok (.int (signed (splitSign t.trim).1 n))
        | none => .error (.tooLongToRead (splitSign t.trim).2.length)
      else match Decimal.ofText? (splitSign t.trim).2 with
        | some d => .ok (.float (d.toBinary64 (splitSign t.trim).1))
        | none => .ok (.text t) := rfl

/-- A reply that is written as an integer is that integer, if it has not too many digits. -/
theorem ofReply_integer {i : IntegerNotation} (h : t.trim = i.text) :
    ofReply (some t) =
      if i.digits.length ≤ digitLimit then .ok (.int i.value)
      else .error (.tooLongToRead i.digits.length) := by
  rw [ofReply_eq, h, i.splitSign_text, if_pos ⟨i.ne_nil, List.all_eq_true.mpr i.isDigit⟩,
    i.value_eq_signed]
  by_cases hle : i.digits.length ≤ digitLimit
  · simp only [read?, if_pos hle]
  · simp only [read?, if_neg hle]

/-- What is not written as an integer has no digits only after its sign. -/
theorem ofReply_of_not_integer (h : ∀ i : IntegerNotation, t.trim ≠ i.text) :
    ofReply (some t) =
      match Decimal.ofText? (splitSign t.trim).2 with
      | some d => .ok (.float (d.toBinary64 (splitSign t.trim).1))
      | none => .ok (.text t) := by
  rw [ofReply_eq, if_neg]
  rintro ⟨hne, hdigits⟩
  obtain ⟨i, hi⟩ := exists_integerNotation hne hdigits
  exact h i hi

/-- A reply that is written as a decimal, and not as an integer, is read as a float. -/
theorem ofReply_decimal (h : ∀ i : IntegerNotation, t.trim ≠ i.text) {n : DecimalNotation}
    (hn : t.trim = n.text) :
    ofReply (some t) = .ok (.float (n.decimal.toBinary64 n.sign.isNegative)) := by
  rw [ofReply_of_not_integer h, hn, n.splitSign_text, n.ofText?_unsigned]

/-- Any other reply is kept as it is, blanks included. -/
theorem ofReply_text (h : ∀ i : IntegerNotation, t.trim ≠ i.text)
    (h' : ∀ n : DecimalNotation, t.trim ≠ n.text) : ofReply (some t) = .ok (.text t) := by
  rw [ofReply_of_not_integer h]
  cases hread : Decimal.ofText? (splitSign t.trim).2 with
  | none => rfl
  | some d =>
    obtain ⟨sign, htrim, -⟩ := Sign.exists_splitSign t.trim
    obtain ⟨n, rfl, hn⟩ := Decimal.exists_decimalNotation hread sign
    rw [hn] at htrim
    exact absurd htrim (h' n)

/-! ## The headline -/

/-- **A reply is a number exactly if it is written as one.** Let `s` be what is left of a reply
without the blanks at its ends.

* If `s` is written as an integer, the reply is that integer, or fails if there are more than 4300
  digits.
* Otherwise, if `s` is written as a decimal, the reply is the floating-point number that the exact
  value of the decimal is rounded to.
* Otherwise it is the text that was given, blanks included. That is so whenever `s` is empty, has a
  code point that is no digit, sign, point or `e`, or has more than one point. -/
theorem ofReply_by_notation (t : Text) :
    t.Strips t.trim ∧
    (∀ i : IntegerNotation, t.trim = i.text →
      (i.digits.length ≤ 4300 → ofReply (some t) = .ok (.int i.value)) ∧
      (4300 < i.digits.length →
        ofReply (some t) = .error (.tooLongToRead i.digits.length))) ∧
    ((∀ i : IntegerNotation, t.trim ≠ i.text) →
      (∀ n : DecimalNotation, t.trim = n.text → ∃ x : Binary64,
        (∀ y, Binary64.Rounds n.sign.isNegative n.size y ↔ y = x) ∧
          ofReply (some t) = .ok (.float x)) ∧
      ((∀ n : DecimalNotation, t.trim ≠ n.text) → ofReply (some t) = .ok (.text t))) ∧
    (¬t.trim.Plain → ofReply (some t) = .ok (.text t)) := by
  refine ⟨t.strips_trim, fun i hi => ⟨fun hle => ?_, fun hlt => ?_⟩,
    fun h => ⟨fun n hn => ?_, ofReply_text h⟩, fun hplain => ?_⟩
  · exact (ofReply_integer hi).trans (if_pos hle)
  · exact (ofReply_integer hi).trans (if_neg (Nat.not_le.mpr hlt))
  · have hrounds := n.decimal.toBinary64_rounds n.sign.isNegative
    rw [n.exactValue_decimal] at hrounds
    refine ⟨_, fun y => ⟨fun hy => hy.unique hrounds, ?_⟩, ofReply_decimal h hn⟩
    rintro rfl
    exact hrounds
  · refine ofReply_text (fun i hi => hplain ?_) (fun n hn => hplain ?_)
    · rw [hi]
      exact i.plain_text
    · rw [hn]
      exact n.plain_text

/-- Blanks around a number are no part of it, and a point without a digit is no number. -/
example :
    ofReply (some "\u3000+12\n") = .ok (.int 12) ∧ ofReply (some "-.") = .ok (.text "-.") := by
  decide

end Value
end Grimoire
