import Mathlib.Data.List.Lex
import Mathlib.Data.Sum.Order
import Mathlib.Order.WithBot
import Grimoire.Proofs.Number.Nearest
import Grimoire.Proofs.Value.Domain

/-!
# The order of values

Comparisons look at where values stand. A number stands on the number line, at its exact value or at
one of the two ends; a truth value stands there too, at 0 or 1; a text stands in another row, by the
numbers of its code points. "Not a number" stands nowhere.

* **`Value.less_iff`**: one value is less than another if it stands before it in the same row.
* **`Value.equals_iff`**: two values are equal if they stand at the same place, and both or neither
  of them are truth values.

That the comparisons fit together follows from these two, because each row is a linear order.
-/

namespace Grimoire

/-- The number line, with its two ends. -/
abbrev Line := WithBot (WithTop ℚ)

/-! ## Numbers on the line -/

/-- The point of a floating-point number. "Not a number" has none. -/
def Binary64.point? : Binary64 → Option Line
  | .nan => none
  | .infinity negative => some (if negative then ⊥ else ⊤)
  | .finite negative size => some ((if negative then -size.value else size.value : ℚ) : WithTop ℚ)

/-- The point of a number. An integer lies at itself. -/
def Number.point? : Number → Option Line
  | .int n => some ((n : ℚ) : WithTop ℚ)
  | .float x => x.point?

namespace Extent

/-- The point that is measured in units. -/
def point : Extent → Line
  | .below => ⊥
  | .units n => ((n / unitsPerOne : ℚ) : WithTop ℚ)
  | .above => ⊤

/-- Units are spaced evenly, so they keep their order as points. -/
theorem units_point_lt {m n : Int} : (units m).point < (units n).point ↔ m < n := by
  rw [point, point, WithBot.coe_lt_coe, WithTop.coe_lt_coe,
    div_lt_div_iff_of_pos_right Magnitude.unitsPerOne_pos, Int.cast_lt]

/-- Every number of units lies before the upper end. -/
theorem units_point_lt_top (n : Int) : (units n).point < ⊤ :=
  WithBot.coe_lt_coe.mpr (WithTop.coe_lt_top _)

/-- Every number of units lies behind the lower end. -/
theorem bot_lt_units_point (n : Int) : ⊥ < (units n).point := WithBot.bot_lt_coe _

/-- The order of extents is that of their points. -/
theorem less_iff (x y : Extent) : x.less y = true ↔ x.point < y.point := by
  cases x with
  | below =>
    cases y with
    | below => simp [less]
    | units n => exact iff_of_true rfl (bot_lt_units_point n)
    | above => exact iff_of_true rfl bot_lt_top
  | units m =>
    cases y with
    | below => exact iff_of_false nofun not_lt_bot
    | units n => rw [units_point_lt, less, decide_eq_true_eq]
    | above => exact iff_of_true rfl (units_point_lt_top m)
  | above => exact iff_of_false nofun not_top_lt

/-- Different extents are different points, so a comparison of units is one of numbers. -/
theorem point_injective : Function.Injective point := by
  intro x y h
  -- Of two different places one is less than the other.
  have hless : x.less y = false ∧ y.less x = false := by
    rw [← Bool.not_eq_true, ← Bool.not_eq_true, less_iff, less_iff, h]
    exact ⟨lt_irrefl _, lt_irrefl _⟩
  cases x <;> cases y <;> simp [less] at hless ⊢
  omega

end Extent

namespace Number

/-- The place of a number in units is its point. -/
theorem map_point_extent? (x : Number) : x.extent?.map Extent.point = x.point? := by
  have hunits := Magnitude.unitsPerOne_pos.ne'
  cases x with
  | int n =>
    simp only [extent?, point?, Option.map_some, Extent.point]
    push_cast
    rw [mul_div_cancel_right₀ _ hunits]
  | float x =>
    cases x with
    | nan => rfl
    | infinity negative => cases negative <;> rfl
    | finite negative size =>
      simp only [extent?, point?, Binary64.point?, Option.map_some, Extent.point,
        Binary64.signedUnits, size.value_eq_div]
      cases negative <;> push_cast <;> simp [neg_div]

/-- A number is less than another if its point comes before the other's. -/
theorem less_iff (x y : Number) :
    x.less y = true ↔ ∃ p ∈ x.point?, ∃ q ∈ y.point?, p < q := by
  rw [← map_point_extent?, ← map_point_extent?, less]
  cases x.extent? with
  | none => simp
  | some e =>
    cases y.extent? with
    | none => simp
    | some f => simp [Extent.less_iff]

/-- Numbers are equal if they have the same point. -/
theorem equals_iff (x y : Number) : x.equals y = true ↔ ∃ p ∈ x.point?, p ∈ y.point? := by
  rw [← map_point_extent?, ← map_point_extent?, equals]
  cases x.extent? with
  | none => simp
  | some e =>
    cases y.extent? with
    | none => simp
    | some f => simp [Extent.point_injective.eq_iff, eq_comm]

end Number

/-! ## Values and their places -/

namespace Value

/-- Where a value stands: on the number line, or in the row of texts. -/
def place? : Value → Option (Line ⊕ List Nat)
  | .int n => some (.inl ((n : ℚ) : WithTop ℚ))
  | .float x => x.point?.map .inl
  | .bool b => some (.inl ((if b then 1 else 0 : ℚ) : WithTop ℚ))
  | .text t => some (.inr (t.map CodePoint.value))
  | .nothing | .emptyList => none

/-- Whether a value is a text. -/
def isText : Value → Bool
  | .text _ => true
  | _ => false

/-- Whether a value is a truth value. -/
def isBool : Value → Bool
  | .bool _ => true
  | _ => false

/-- A value that counts as a number stands where the number does. -/
theorem place?_of_number {a : Value} {x : Number} (h : a.number? = some x) :
    a.place? = x.point?.map .inl := by
  cases a with
  | int n | float x =>
    cases h
    rfl
  | bool b =>
    cases h
    cases b <;> simp [place?, Number.point?]
  | text | nothing | emptyList => cases h

/-- The order of texts is that of the numbers of their code points. -/
theorem text_lt_iff (s t : Text) : s < t ↔ s.map CodePoint.value < t.map CodePoint.value := by
  induction s generalizing t with
  | nil => cases t <;> simp
  | cons c s ih =>
    cases t with
    | nil => simp
    | cons d t =>
      have heq : c = d ↔ c.value = d.value := ⟨congrArg _, CodePoint.ext_value⟩
      simp only [List.map_cons, List.cons_lt_cons_iff, ih t, CodePoint.lt_iff, heq]

/-- A text is known by the numbers of its code points. -/
theorem map_value_injective : Function.Injective (List.map CodePoint.value) :=
  List.map_injective_iff.mpr fun _ _ => CodePoint.ext_value

/-- What counts as a number is compared as one. -/
theorem less_of_numbers {a b : Value} {x y : Number} (ha : a.number? = some x)
    (hb : b.number? = some y) : a.less b = x.less y := by
  cases a <;> cases b <;> simp_all [less, number?]

/-- **What is less stands before.** -/
theorem less_iff (a b : Value) :
    a.less b = true ↔ ∃ p ∈ a.place?, ∃ q ∈ b.place?, p < q := by
  cases a with
  | text s =>
    cases b with
    | text t => simp [less, place?, text_lt_iff]
    | _ => simp [less, number?, place?]
  | nothing | emptyList => cases b <;> simp [less, number?, place?]
  | int m | float x | bool a =>
    cases b with
    | int n | float y | bool b =>
      rw [less_of_numbers rfl rfl, Number.less_iff, place?_of_number rfl, place?_of_number rfl]
      simp
    | _ => simp [less, number?, place?]

/-- What is a number, and no truth value, is equal as a number. -/
theorem equals_of_numbers {a b : Value} {x y : Number} (ha : a.number? = some x)
    (hb : b.number? = some y) (ha' : a.isBool = false) (hb' : b.isBool = false) :
    a.equals b = x.equals y := by
  cases a <;> cases b <;> simp_all [equals, number?, isBool]

/-- **What is equal stands at the same place**, and is a truth value on both sides or on neither. -/
theorem equals_iff (a b : Value) :
    a.equals b = true ↔ a.isBool = b.isBool ∧ ∃ p ∈ a.place?, p ∈ b.place? := by
  cases a with
  | bool a =>
    cases b with
    | bool b => cases a <;> cases b <;> simp [equals, isBool, place?]
    | _ => simp [equals, isBool]
  | text s =>
    cases b with
    | text t => simp [equals, isBool, place?, map_value_injective.eq_iff, eq_comm]
    | _ => simp [equals, isBool, place?, number?]
  | nothing | emptyList => cases b <;> simp [equals, number?, place?]
  | int m | float x =>
    cases b with
    | int n | float y =>
      rw [equals_of_numbers rfl rfl rfl rfl, Number.equals_iff, place?_of_number rfl,
        place?_of_number rfl]
      simp [isBool]
    | _ => simp [equals, isBool, place?, number?]

/-! ## One order -/

variable {a b c : Value}

/-- Nothing stands before its own place. -/
theorem less_irrefl (a : Value) : a.less a = false := by
  rw [← Bool.not_eq_true, less_iff]
  rintro ⟨p, hp, q, hq, hlt⟩
  cases Option.mem_unique hp hq
  exact lt_irrefl p hlt

/-- What stands before something that stands before a third stands before the third. -/
theorem less_trans (hab : a.less b = true) (hbc : b.less c = true) : a.less c = true := by
  rw [less_iff] at *
  obtain ⟨p, hp, q, hq, hpq⟩ := hab
  obtain ⟨q', hq', r, hr, hqr⟩ := hbc
  cases Option.mem_unique hq hq'
  exact ⟨p, hp, r, hr, hpq.trans hqr⟩

/-- To stand at the same place goes both ways. -/
theorem equals_symm (h : a.equals b = true) : b.equals a = true := by
  rw [equals_iff] at *
  obtain ⟨hbool, p, ha, hb⟩ := h
  exact ⟨hbool.symm, p, hb, ha⟩

/-- Each value has one place at most, so equality is passed on. -/
theorem equals_trans (hab : a.equals b = true) (hbc : b.equals c = true) : a.equals c = true := by
  rw [equals_iff] at *
  obtain ⟨hab, p, ha, hb⟩ := hab
  obtain ⟨hbc, q, hb', hc⟩ := hbc
  cases Option.mem_unique hb hb'
  exact ⟨hab.trans hbc, p, ha, hc⟩

/-- Only "not a number" is not equal to itself, of what a spell can make. -/
theorem equals_self_iff (h : a.isProper) : a.equals a = true ↔ a ≠ .float .nan := by
  rw [equals_iff]
  cases a with
  | float x => cases x <;> simp [place?, Binary64.point?]
  | nothing | emptyList => cases h
  | _ => simp [place?]

/-- Texts stand in a row of their own. -/
theorem isRight_of_place {p : Line ⊕ List Nat} (h : p ∈ a.place?) : p.isRight = a.isText := by
  cases a with
  | float x =>
    obtain ⟨q, -, rfl⟩ := Option.map_eq_some_iff.mp h
    rfl
  | int | bool | text =>
    cases h
    rfl
  | nothing | emptyList => cases h

/-- Only values in the same row are one less than the other. -/
theorem isText_of_less (h : a.less b = true) : a.isText = b.isText := by
  obtain ⟨p, hp, q, hq, hlt⟩ := (less_iff a b).mp h
  rw [← isRight_of_place hp, ← isRight_of_place hq]
  cases hlt <;> rfl

/-- Only values in the same row are equal. -/
theorem isText_of_equals (h : a.equals b = true) : a.isText = b.isText := by
  obtain ⟨-, p, ha, hb⟩ := (equals_iff a b).mp h
  rw [← isRight_of_place ha, ← isRight_of_place hb]

/-- The rows within which any two values can be compared. -/
inductive Row where
  | numbers
  | truths
  | texts
deriving DecidableEq

/-- The row of a value. "Not a number" is in none of them. -/
def row? : Value → Option Row
  | .int _ => some .numbers
  | .float x => if x = .nan then none else some .numbers
  | .bool _ => some .truths
  | .text _ => some .texts
  | .nothing | .emptyList => none

/-- Of three statements exactly one is true. -/
def ExactlyOne (p q r : Prop) : Prop := p ∧ ¬q ∧ ¬r ∨ ¬p ∧ q ∧ ¬r ∨ ¬p ∧ ¬q ∧ r

/-- The three comparisons of two values follow their places. -/
theorem exactlyOne_of_places {p q : Line ⊕ List Nat} (ha : a.place? = some p)
    (hb : b.place? = some q) (hbool : a.isBool = b.isBool) (h : p < q ∨ p = q ∨ q < p) :
    ExactlyOne (a.less b = true) (a.equals b = true) (b.less a = true) := by
  simp only [less_iff, equals_iff, ha, hb, hbool, Option.mem_some_iff, exists_eq_left', true_and]
  rcases h with hlt | rfl | hgt
  · exact .inl ⟨hlt, hlt.ne', hlt.asymm⟩
  · exact .inr (.inl ⟨lt_irrefl _, rfl, lt_irrefl _⟩)
  · exact .inr (.inr ⟨hgt.asymm, hgt.ne, hgt⟩)

/-- A row lies within one of the two linear orders. -/
theorem place_of_row {r : Row} (h : a.row? = some r) :
    a.isBool = decide (r = .truths) ∧
      ((r ≠ .texts ∧ ∃ x, a.place? = some (.inl x)) ∨
        r = .texts ∧ ∃ l, a.place? = some (.inr l)) := by
  cases a with
  | int | bool | text =>
    cases h
    exact ⟨rfl, by simp [place?]⟩
  | float x =>
    cases x <;> cases h
    · exact ⟨rfl, by simp [place?, Binary64.point?]⟩
    · exact ⟨rfl, by simp [place?, Binary64.point?]⟩
  | nothing | emptyList => cases h

/-- Within a row any two values can be compared. -/
theorem exactlyOne_of_row {r : Row} (ha : a.row? = some r) (hb : b.row? = some r) :
    ExactlyOne (a.less b = true) (a.equals b = true) (b.less a = true) := by
  obtain ⟨habool, hplace⟩ := place_of_row ha
  obtain ⟨hbbool, hplace'⟩ := place_of_row hb
  have hbool := habool.trans hbbool.symm
  rcases hplace with ⟨hr, x, hx⟩ | ⟨rfl, l, hl⟩
  · -- Both are numbers or both are truth values: the number line decides.
    rcases hplace' with ⟨-, y, hy⟩ | ⟨hr', -⟩
    · refine exactlyOne_of_places hx hy hbool ?_
      simpa using lt_trichotomy x y
    · exact absurd hr' hr
  · -- Both are texts: the row of texts decides.
    rcases hplace' with ⟨hr', -⟩ | ⟨-, l', hl'⟩
    · exact absurd rfl hr'
    · refine exactlyOne_of_places hl hl' hbool ?_
      simpa using lt_trichotomy l l'

end Value

namespace BinaryOp

open Value

/-- A comparison holds between two values. -/
def Holds (op : BinaryOp) (a b : Value) : Prop := op.apply a b = .ok (.bool true)

/-- A comparison does not hold between two values. It does not fail, either. -/
def Denies (op : BinaryOp) (a b : Value) : Prop := op.apply a b = .ok (.bool false)

section

variable {a b : Value}

@[simp] theorem holds_less : Holds .less a b ↔ a.less b = true := by simp [Holds, apply]

@[simp] theorem holds_greater : Holds .greater a b ↔ b.less a = true := by simp [Holds, apply]

@[simp] theorem holds_equal : Holds .equal a b ↔ a.equals b = true := by simp [Holds, apply]

@[simp] theorem denies_less : Denies .less a b ↔ a.less b = false := by simp [Denies, apply]

@[simp] theorem denies_greater : Denies .greater a b ↔ b.less a = false := by simp [Denies, apply]

@[simp] theorem denies_equal : Denies .equal a b ↔ a.equals b = false := by simp [Denies, apply]

end

/-- **The comparisons form one order.** "Less" and "greater" are the same from two sides. One value
is less than another if it stands before it, on the number line or in the row of texts, and they are
equal if they stand at the same place and both or neither are truth values. So "less" is irreflexive
and transitive, and equality is symmetric and transitive, and reflexive on all but "not a number".
Two numbers, two truth values and two texts are always in exactly one of the three relations. A text
is in none of them with anything else, and a truth value is equal to nothing else. -/
theorem comparisons_form_one_order (a b c : Value) :
    apply .less a b = apply .greater b a ∧
    (Holds .less a b ↔ ∃ p ∈ a.place?, ∃ q ∈ b.place?, p < q) ∧
    (Holds .equal a b ↔ a.isBool = b.isBool ∧ ∃ p ∈ a.place?, p ∈ b.place?) ∧
    Denies .less a a ∧
    (Holds .less a b → Holds .less b c → Holds .less a c) ∧
    (Holds .equal a b → Holds .equal b a) ∧
    (Holds .equal a b → Holds .equal b c → Holds .equal a c) ∧
    (a.isProper → (Holds .equal a a ↔ a ≠ .float .nan)) ∧
    (∀ r, a.row? = some r → b.row? = some r →
      ExactlyOne (Holds .less a b) (Holds .equal a b) (Holds .greater a b)) ∧
    (a.isText ≠ b.isText → Denies .less a b ∧ Denies .equal a b ∧ Denies .greater a b) ∧
    (a.isBool ≠ b.isBool → Denies .equal a b) := by
  simp only [holds_less, holds_greater, holds_equal, denies_less, denies_greater, denies_equal]
  refine ⟨rfl, less_iff a b, equals_iff a b, less_irrefl a, less_trans, equals_symm, equals_trans,
    equals_self_iff, fun r => exactlyOne_of_row, fun htext => ?_, fun hbool => ?_⟩
  · refine ⟨Bool.eq_false_iff.mpr fun h => htext (isText_of_less h),
      Bool.eq_false_iff.mpr fun h => htext (isText_of_equals h),
      Bool.eq_false_iff.mpr fun h => htext (isText_of_less h).symm⟩
  · exact Bool.eq_false_iff.mpr fun h => hbool ((equals_iff a b).mp h).1

/-- The integer after `2 ^ 53` lies between two floating-point numbers, and is not equal to the one
that it would be rounded to. -/
example :
    let x : Value := .float (.finite false ⟨2 ^ 52, 1075, by decide, by decide, by decide⟩)
    Holds .equal x (.int (2 ^ 53)) ∧ Holds .less x (.int (2 ^ 53 + 1)) := by
  simp only [holds_equal, holds_less]
  decide

end BinaryOp
end Grimoire
