import Grimoire.Proofs.Number.Rounding
import Grimoire.Proofs.Value.Domain

/-!
# Arithmetic of integers, and division

Integers and truth values are added, subtracted and multiplied exactly, whatever their size. A
quotient is exact as well wherever it is an integer: it does not pass through a floating-point
number, so nothing can be too large for it.

A divisor that is zero is a fault of its own. That nothing else is ever divided by zero is said with
`Number.bareDiv`, the division without that guard, for which a division by zero is a failure of
another kind: behind its guard the division is the bare one (`bareDiv_eq_div`), and there that
failure does not occur (`bareDiv_ne_byZero`).
-/

namespace Grimoire

/-! ## Division without a guard -/

/-- What can go wrong in a division whose divisor is not looked at first. -/
inductive DivisionFailure where
  /-- A remainder or a quotient by zero was asked for. -/
  | byZero
  | fault (f : Fault)

namespace Number

/-- Division that does not look at its divisor first. Of two integers the floored remainder is
taken, and if there is none the floored quotient; all other operands are divided as floating-point
numbers. -/
def bareDiv (a b : Number) : Except DivisionFailure Number :=
  match a, b with
  | .int m, .int n =>
    if n = 0 then .error .byZero
    else if m.fmod n = 0 then .ok (.int (m.fdiv n))
    else (Binary64.ofQuotient? m n).elim (.error (.fault .quotientTooLarge)) (.ok ∘ .float)
  | a, b => do
    let x ← a.toBinary64.mapError .fault
    let y ← b.toBinary64.mapError .fault
    -- An integer that is not zero could have become zero here.
    if y.isZero then .error .byZero else return .float (x.div y)

/-- For integers the floored remainder decides what divisibility decides, and the quotients
agree. -/
theorem bareDiv_ints {m n : Int} (hn : n ≠ 0) :
    bareDiv (.int m) (.int n) = (div (.int m) (.int n)).mapError .fault := by
  have hzero : isZero (.int n) = false := decide_eq_false hn
  unfold bareDiv div
  simp only [hn, hzero, if_false, Bool.false_eq_true]
  by_cases hdvd : n ∣ m
  · rw [if_pos (Int.fmod_eq_zero_of_dvd hdvd), if_pos hdvd, Int.fdiv_eq_ediv_of_dvd hdvd]
    rfl
  · rw [if_neg (mt Int.dvd_of_fmod_eq_zero hdvd), if_neg hdvd]
    cases Binary64.ofQuotient? m n <;> rfl

/-- The division is the bare one wherever its guard lets it go on. -/
theorem bareDiv_eq_div (x : Number) {y : Number} (hy : y.isZero = false) :
    x.bareDiv y = (x.div y).mapError .fault := by
  have hfloats : (do let a ← x.toBinary64.mapError DivisionFailure.fault
                     let b ← y.toBinary64.mapError .fault
                     if b.isZero then .error .byZero else return .float (a.div b)) =
      (do let a ← x.toBinary64; let b ← y.toBinary64; return .float (a.div b) :
        Except Fault Number).mapError .fault := by
    cases x.toBinary64 with
    | error f => rfl
    | ok a =>
      cases hround : y.toBinary64 with
      | error f => rfl
      | ok b =>
        have hb : b.isZero = false := isZero_toBinary64 hround hy
        simp [Except.mapError, bind, Except.bind, pure, Except.pure, hb]
  cases x with
  | float _ => simpa [div, bareDiv, hy] using hfloats
  | int m =>
    cases y with
    | float _ => simpa [div, bareDiv, hy] using hfloats
    | int n => exact bareDiv_ints (of_decide_eq_false hy)

/-- Behind its guard a division never meets a zero. -/
theorem bareDiv_ne_byZero {x y : Number} (hy : y.isZero = false) :
    x.bareDiv y ≠ .error .byZero := by
  rw [bareDiv_eq_div x hy]
  cases x.div y <;> simp [Except.mapError]

/-- A division without a remainder gives the quotient. -/
theorem div_ints_of_dvd {m n : Int} (hn : n ≠ 0) (h : n ∣ m) :
    div (.int m) (.int n) = .ok (.int (m / n)) := by
  simp [div, isZero, hn, h]

/-- A division with a remainder does not give an integer. -/
theorem div_ints_of_not_dvd {m n : Int} (h : ¬n ∣ m) (q : Int) :
    div (.int m) (.int n) ≠ .ok (.int q) := by
  unfold div
  split
  · simp
  · dsimp only
    rw [if_neg h]
    cases Binary64.ofQuotient? m n <;> simp

end Number

/-! ## Values that count as integers -/

namespace Value

/-- The integer that a value is or counts as. -/
def integer? : Value → Option Int
  | .int n => some n
  | .bool b => some b.toNat
  | _ => none

/-- The zeros of every type of numbers. -/
def zeros : List Value :=
  [.int 0, .bool false, .float (.finite false .zero), .float (.finite true .zero)]

/-- What counts as an integer counts as that number. -/
theorem number?_of_integer? {v : Value} {n : Int} (h : v.integer? = some n) :
    v.number? = some (.int n) := by
  cases v with
  | int m | bool b =>
    cases h
    rfl
  | float _ | text _ | nothing | emptyList => cases h

/-- The number zero comes as an integer, as either of two floats, and as a truth value. -/
theorem isZero_iff_mem_zeros {v : Value} {x : Number} (h : v.number? = some x) :
    x.isZero ↔ v ∈ zeros := by
  cases v with
  | int n =>
    cases h
    simp [Number.isZero, zeros]
  | bool b =>
    cases h
    cases b <;> simp [Number.isZero, zeros]
  | float y =>
    cases h
    cases y with
    | nan | infinity _ => simp [Number.isZero, Binary64.isZero, zeros]
    | finite negative size =>
      -- A float is zero by its mantissa, which leaves the sign open.
      have hsize : size.mantissa = 0 ↔ size = .zero :=
        ⟨Magnitude.eq_zero_of_mantissa, fun h => h ▸ rfl⟩
      cases negative <;> simp [Number.isZero, Binary64.isZero, zeros, hsize]
  | text _ | nothing | emptyList => cases h

variable {a b : Value}

/-- On numbers an operation of values is the operation of numbers. -/
theorem arithmetic_of_numbers {x y : Number} (ha : a.number? = some x) (hb : b.number? = some y)
    (verb : Text) (op : Number → Number → Except Fault Number) :
    arithmetic verb op a b = (op x y).map ofNumber := by
  simp [arithmetic, ha, hb]

/-- Numbers are added, because neither is a text. -/
theorem combine_of_numbers {x y : Number} (ha : a.number? = some x) (hb : b.number? = some y) :
    a.combine b = (x.add y).map ofNumber := by
  rw [← arithmetic_of_numbers ha hb "combine" Number.add]
  unfold combine
  split
  · cases ha
  · cases hb
  · rfl

end Value

/-! ## The operators -/

namespace BinaryOp

open Value

variable {a b : Value}

/-- Values are divided as the numbers that they count as. -/
theorem apply_divide_of_numbers {x y : Number} (ha : a.number? = some x)
    (hb : b.number? = some y) : divide.apply a b = (x.div y).map ofNumber :=
  arithmetic_of_numbers ha hb _ _

/-- The integer that a division gives is told by multiplication. -/
theorem apply_divide_integer_iff {m n q : Int} (ha : a.integer? = some m)
    (hb : b.integer? = some n) (hn : n ≠ 0) :
    divide.apply a b = .ok (.int q) ↔ q * n = m := by
  rw [apply_divide_of_numbers (number?_of_integer? ha) (number?_of_integer? hb)]
  by_cases hdvd : n ∣ m
  · rw [Number.div_ints_of_dvd hn hdvd]
    refine Iff.trans ?_ (Int.ediv_eq_iff_eq_mul_left hn hdvd |>.trans eq_comm)
    simp [Except.map, ofNumber]
  · refine iff_of_false (fun h => ?_) fun h => hdvd ⟨q, by rw [← h, Int.mul_comm]⟩
    cases hdiv : Number.div (.int m) (.int n) with
    | error f => simp [hdiv, Except.map] at h
    | ok z =>
      cases z with
      | int p => exact Number.div_ints_of_not_dvd hdvd p hdiv
      | float z => simp [hdiv, Except.map, ofNumber] at h

/-- A division is forbidden for a divisor of zero only. -/
theorem apply_divide_eq_divisionByZero_iff {x y : Number} (ha : a.number? = some x)
    (hb : b.number? = some y) : divide.apply a b = .error .divisionByZero ↔ y.isZero := by
  rw [apply_divide_of_numbers ha hb, ← Number.div_eq_divisionByZero_iff (x := x)]
  cases x.div y <;> simp [Except.map]

/-- Integers and truth values are added, subtracted and multiplied exactly, and divided exactly
wherever the quotient is an integer, however large they are; so a division undoes a multiplication.
The division of any two numbers fails for a zero of any type, and in no other case is anything
divided by zero. -/
theorem integers_exact_and_division_guarded {x y : Number} (ha : a.number? = some x)
    (hb : b.number? = some y) :
    (∀ m n, a.integer? = some m → b.integer? = some n →
      add.apply a b = .ok (.int (m + n)) ∧
      subtract.apply a b = .ok (.int (m - n)) ∧
      multiply.apply a b = .ok (.int (m * n)) ∧
      (divide.apply a b = .error .divisionByZero ↔ n = 0) ∧
      (n ≠ 0 →
        ((∃ q, divide.apply a b = .ok (.int q)) ↔ n ∣ m) ∧
        (∀ q, divide.apply a b = .ok (.int q) → q * n = m) ∧
        (do divide.apply (← multiply.apply a b) b) = .ok (.int m))) ∧
    (divide.apply a b = .error .divisionByZero ↔ b ∈ zeros) ∧
    (b ∉ zeros →
      (divide.apply a b).mapError .fault = (x.bareDiv y).map ofNumber ∧
      x.bareDiv y ≠ .error .byZero) := by
  refine ⟨fun m n hm hn => ?_, ?_, fun hzero => ?_⟩
  · cases Option.some.inj (ha.symm.trans (number?_of_integer? hm))
    cases Option.some.inj (hb.symm.trans (number?_of_integer? hn))
    have hmul : multiply.apply a b = .ok (.int (m * n)) := arithmetic_of_numbers ha hb _ _
    refine ⟨combine_of_numbers ha hb, arithmetic_of_numbers ha hb _ _, hmul, ?_, fun hne => ?_⟩
    · rw [apply_divide_eq_divisionByZero_iff ha hb]
      exact decide_eq_true_iff
    · refine ⟨?_, fun q => (apply_divide_integer_iff hm hn hne).mp, ?_⟩
      · simp only [apply_divide_integer_iff hm hn hne]
        exact ⟨fun ⟨q, hq⟩ => ⟨q, by rw [← hq, Int.mul_comm]⟩, fun ⟨q, hq⟩ =>
          ⟨q, by rw [hq, Int.mul_comm]⟩⟩
      · rw [hmul]
        exact (apply_divide_integer_iff (a := .int (m * n)) rfl hn hne).mpr rfl
  · rw [apply_divide_eq_divisionByZero_iff ha hb, isZero_iff_mem_zeros hb]
  · -- Behind the guard the division proper is never by zero, so both come to the same.
    have hy : y.isZero = false := Bool.eq_false_iff.mpr (mt (isZero_iff_mem_zeros hb).mp hzero)
    refine ⟨?_, Number.bareDiv_ne_byZero hy⟩
    rw [apply_divide_of_numbers ha hb, Number.bareDiv_eq_div x hy]
    cases x.div y <;> rfl

/-- Far beyond what a floating-point number can hold, and with a divisor of the other sign. -/
theorem multiply_then_divide_huge :
    let a : Value := .int (2 * 10 ^ 400)
    let b : Value := .int (-3)
    a.number? = some (.int (2 * 10 ^ 400)) ∧ b.number? = some (.int (-3)) ∧
    (do divide.apply (← multiply.apply a b) b) = .ok a ∧
    divide.apply a b ≠ .error .divisionByZero := by
  intro a b
  obtain ⟨hints, hzero, -⟩ :=
    integers_exact_and_division_guarded (a := a) (b := b) rfl rfl
  obtain ⟨-, -, -, -, hdiv⟩ := hints (2 * 10 ^ 400) (-3) rfl rfl
  exact ⟨rfl, rfl, (hdiv (by decide)).2.2, mt hzero.mp (by decide)⟩

end BinaryOp
end Grimoire
