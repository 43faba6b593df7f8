import Grimoire.Value.Operator

/-!
# What operations on values come to

The operations of the language take any values whatever and yield proper ones: integers,
floating-point numbers, texts and truth values. Where an operation fails, it does so for one of a
few causes. `Value.Yields` says both of a result.

Division has a fault of its own for a divisor that is zero, and nothing else is ever divided by
zero: a divisor that is not zero does not become zero when it is rounded
(`Number.isZero_toBinary64`).
-/

namespace Grimoire

/-- Whether a value is one that a spell can make. -/
def Value.isProper : Value → Bool
  | .int _ | .float _ | .text _ | .bool _ => true
  | .nothing | .emptyList => false

/-- The faults for which operations on values fail. -/
def Fault.isOfValues : Fault → Bool
  | .notNumbers .. | .notOneCharacter | .notACode | .noCharacter _ | .divisionByZero
  | .integerTooLarge | .quotientTooLarge | .tooLongToWrite | .tooLongToRead _ => true
  | _ => false

namespace Value

variable {α β : Type} {P : α → Prop} {Q : β → Prop}

/-- The result of an operation satisfies `Q`, or the operation fails as operations on values do. -/
inductive Yields (Q : α → Prop) : Except Fault α → Prop where
  | ok {a : α} (h : Q a) : Yields Q (.ok a)
  | error {f : Fault} (h : f.isOfValues) : Yields Q (.error f)

namespace Yields

/-- One operation after another: the second is asked about what the first may yield. -/
theorem bind {r : Except Fault α} {f : α → Except Fault β} (hr : Yields P r)
    (hf : ∀ a, P a → Yields Q (f a)) : Yields Q (r >>= f) := by
  cases hr with
  | ok h => exact hf _ h
  | error h => exact .error h

/-- What is done to a result cannot fail. -/
theorem map {r : Except Fault α} {f : α → β} (hr : Yields P r) (hf : ∀ a, P a → Q (f a)) :
    Yields Q (r.map f) := by
  cases hr with
  | ok h => exact .ok (hf _ h)
  | error h => exact .error h

/-- A missing result stands for a fault of values. -/
theorem elim {o : Option α} {f : α → Except Fault β} {fault : Fault} (hfault : fault.isOfValues)
    (hf : ∀ a, Yields Q (f a)) : Yields Q (o.elim (.error fault) f) := by
  cases o with
  | some a => exact hf a
  | none => exact .error hfault

end Yields

/-! ## Numbers -/

/-- An integer may be too large, and nothing else can go wrong. -/
theorem yields_toBinary64 (x : Number) : Yields (fun _ => True) x.toBinary64 := by
  cases x with
  | int n => exact .elim rfl fun _ => .ok trivial
  | float x => exact .ok trivial

/-- Any operation on two floating-point numbers can be applied to two numbers. -/
theorem yields_onFloats (op : Binary64 → Binary64 → Binary64) (x y : Number) :
    Yields (fun _ => True)
      (do let a ← x.toBinary64; let b ← y.toBinary64; return Number.float (op a b)) :=
  (yields_toBinary64 x).bind fun _ _ => (yields_toBinary64 y).bind fun _ _ => .ok trivial

/-- An operation of numbers fails only where an integer is too large to go with a float. -/
theorem yields_lift (onInts : Int → Int → Int) (onFloats : Binary64 → Binary64 → Binary64)
    (x y : Number) : Yields (fun _ => True) (Number.lift onInts onFloats x y) := by
  unfold Number.lift
  split
  · exact .ok trivial
  · exact yields_onFloats onFloats x y

/-- A division fails for a zero divisor, or for a number that is too large. -/
theorem yields_div (x y : Number) : Yields (fun _ => True) (x.div y) := by
  unfold Number.div
  split
  · exact .error rfl
  · split
    · split
      · exact .ok trivial
      · exact .elim rfl fun _ => .ok trivial
    · exact yields_onFloats Binary64.div x y

/-! ## Values -/

theorem isProper_ofNumber (x : Number) : (ofNumber x).isProper := by
  cases x <;> rfl

/-- An operation of values fails for anything but numbers, and yields a number. -/
theorem yields_arithmetic {op : Number → Number → Except Fault Number}
    (hop : ∀ x y, Yields (fun _ => True) (op x y)) (verb : Text) (a b : Value) :
    Yields (·.isProper) (arithmetic verb op a b) := by
  unfold arithmetic
  split
  · exact (hop _ _).map fun x _ => isProper_ofNumber x
  · exact .error rfl

/-- Writing an integer fails only for too many digits. -/
theorem yields_writeInt (n : Int) : Yields (fun _ => True) (writeInt n) :=
  .elim rfl fun _ => .ok trivial

/-- A value has a text, unless it is an integer with too many digits. -/
theorem yields_format (v : Value) : Yields (fun _ => True) v.format := by
  unfold format
  split
  · exact yields_writeInt _
  · exact .ok trivial
  · exact .ok trivial
  · rename_i x _ _
    cases x.toInt? with
    | none => exact .ok trivial
    | some n =>
      rw [Option.elim_some]
      exact yields_writeInt n
  · exact .ok trivial
  · exact .ok trivial
  · exact .ok trivial
  · exact .ok trivial

/-- Texts are joined, and anything else is added. -/
theorem yields_combine (a b : Value) : Yields (·.isProper) (a.combine b) := by
  have hjoin : Yields (fun v : Value => v.isProper)
      (do let s ← a.format; let t ← b.format; return .text (s ++ t)) :=
    (yields_format a).bind fun _ _ => (yields_format b).bind fun _ _ => .ok rfl
  unfold combine
  split
  · exact hjoin
  · exact hjoin
  · exact yields_arithmetic (yields_lift _ _) _ a b

/-- Only a text of one code point has a code. -/
theorem yields_ord (v : Value) : Yields (·.isProper) v.ord := by
  unfold ord
  split
  · exact .ok rfl
  · exact .error rfl

/-- A code makes a text, or there is no such code point. -/
theorem yields_chr (v : Value) : Yields (·.isProper) v.chr := by
  have hnone (n m : Int) : Yields (fun v : Value => v.isProper)
      (do let _ ← writeInt n; .error (.noCharacter m)) :=
    (yields_writeInt n).bind fun _ _ => .error rfl
  unfold chr
  dsimp only
  split
  · exact .error rfl
  · split
    · exact .ok rfl
    · exact hnone _ _
  · exact hnone _ _

/-- A reply is read as a number or kept as a text. -/
theorem yields_ofReply (reply : Option Text) : Yields (·.isProper) (ofReply reply) := by
  unfold ofReply
  split
  · exact .ok rfl
  · dsimp only
    split
    · split
      · exact .ok rfl
      · exact .error rfl
    · split
      · exact .ok rfl
      · exact .ok rfl

end Value

/-! ## Operators -/

open Value

/-- Whatever the operands are, a known operator yields a proper value or fails as operations on
values do. -/
theorem BinaryOp.yields_apply {op : BinaryOp} (h : op.kind?.isSome) (a b : Value) :
    Yields (·.isProper) (op.apply a b) := by
  cases op with
  | add => exact yields_combine a b
  | subtract => exact yields_arithmetic (yields_lift _ _) _ a b
  | multiply => exact yields_arithmetic (yields_lift _ _) _ a b
  | divide => exact yields_arithmetic yields_div _ a b
  | equal | unequal | greater | less => exact .ok rfl
  | unknown symbol => cases h

/-! ## Division by zero -/

/-- Rounding keeps at least the whole part of a size, so nothing but a size below one unit becomes
zero. -/
theorem Magnitude.mantissa_pos {num den : Nat} {size : Magnitude} (h : round? num den = some size)
    (hpos : 0 < num / den) : 0 < size.mantissa := by
  have hnormal := shiftFor_eq_zero_or_le_shiftRight (num / den)
  have hlo : (num / den) >>> shiftFor (num / den) ≤
      nearest num (den <<< shiftFor (num / den)) :=
    div_shiftLeft num den _ ▸ le_nearest _ _
  have hmantissa : 0 < nearest num (den <<< shiftFor (num / den)) := by
    rcases hnormal with hzero | hle
    · rw [hzero] at hlo ⊢
      exact Nat.lt_of_lt_of_le hpos hlo
    · omega
  unfold round? at h
  dsimp only at h
  split at h
  · split at h
    · cases h
      exact hmantissa
    · cases h
  · split at h
    · cases h
      exact Nat.succ_pos _
    · cases h

namespace Number

/-- A number that is not zero does not become zero when it is rounded. -/
theorem isZero_toBinary64 {y : Number} {z : Binary64} (h : y.toBinary64 = .ok z)
    (hy : y.isZero = false) : z.isZero = false := by
  cases y with
  | float x =>
    cases h
    exact hy
  | int n =>
    have hn : n ≠ 0 := of_decide_eq_false hy
    cases hround : Magnitude.round? (n.natAbs * unitsPerOne) 1 with
    | none => simp [toBinary64, Binary64.ofInt?, hround] at h
    | some size =>
      have hunits : 0 < n.natAbs * unitsPerOne / 1 := by
        rw [Nat.div_one]
        exact Nat.mul_pos (Int.natAbs_pos.mpr hn) (by decide)
      have hpos := Magnitude.mantissa_pos hround hunits
      have hz : Binary64.finite (decide (n < 0)) size = z := by
        simpa [toBinary64, Binary64.ofInt?, hround] using h
      subst hz
      exact decide_eq_false (Nat.ne_of_gt hpos)

/-- The only fault on the way to a float is that an integer is too large. -/
theorem toBinary64_eq_error {y : Number} {f : Fault} (h : y.toBinary64 = .error f) :
    f = .integerTooLarge := by
  cases y with
  | float x => cases h
  | int n =>
    unfold toBinary64 at h
    cases hround : Binary64.ofInt? n <;> simp_all

/-- A division fails for a divisor that is zero, and for that cause it fails in no other case. -/
theorem div_eq_divisionByZero_iff {x y : Number} :
    x.div y = .error .divisionByZero ↔ y.isZero := by
  unfold div
  by_cases hzero : y.isZero
  · simp [hzero]
  · rw [if_neg hzero]
    refine iff_of_false (fun h => ?_) hzero
    -- Integers whose quotient is too large, and numbers beyond the format, fail for other causes.
    split at h
    · split at h
      · cases h
      · cases hquotient : Binary64.ofQuotient? _ _ <;> rw [hquotient] at h <;> cases h
    · cases hx : x.toBinary64 with
      | error f =>
        rw [hx, toBinary64_eq_error hx] at h
        cases h
      | ok a =>
        cases hy : y.toBinary64 with
        | error f =>
          rw [hx, hy, toBinary64_eq_error hy] at h
          cases h
        | ok b =>
          rw [hx, hy] at h
          cases h

end Number
end Grimoire
