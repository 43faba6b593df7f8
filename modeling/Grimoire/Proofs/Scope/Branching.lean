import Grimoire.Scope.Family

/-!
# Scopes that branch off one another

The laws of a family of scopes. To bind a name in a scope changes where the name belongs as seen
from all scopes that have this one in view: it lies on their way out, and no scope before it binds
the name. To set a name changes one binding. No name belongs anywhere else after it, and it is
noticed in all scopes from which the name belongs to the same place, and in no others.

* **`Family.Nested`**: the way out of each scope goes through the scopes around it up to the root.
  It holds of the root and is kept by every deed (`Nested.perform`), so it holds of all families
  that grow by any deeds (`Grown.nested`).
* **`Family.SetAt`** says that one binding is new and all others are as they were.
* **`Family.SetAt.resolve_eq`** says where a name belongs after it has been bound.
* **`Family.branching_laws`** collects what follows.
-/

namespace Grimoire
namespace Family

/-! ## Families that grow -/

/-- What can be done with a scope of a family. -/
inductive Deed where
  | child (i : Nat)
  | define (i : Nat) (name : Text) (value : Value)
  | assign (i : Nat) (name : Text) (value : Value)

/-- The scope with which something is done. -/
def Deed.scope : Deed → Nat
  | .child i | .define i .. | .assign i .. => i

/-- Does something with a scope: the fault, if it fails, and the family after it. -/
def perform (f : Family) : Deed → Option Fault × Family
  | .child i => (none, f.child i)
  | .define i name value => (none, f.define i name value)
  | .assign i name value =>
    match f.assign i name value with
    | .ok f' => (none, f')
    | .error fault => (some fault, f)

/-- The families that come from the root by any deeds with their scopes, also by some that fail. -/
inductive Grown : Family → Prop where
  | root : Grown root
  | perform {f : Family} (h : Grown f) (deed : Deed) (hdeed : deed.scope < f.size) :
      Grown (f.perform deed).2

/-- The first scope is the root. Each other one lies inside a scope that has been there before it:
its way out is itself and then the way out of that scope. -/
structure Nested (f : Family) : Prop where
  size_pos : 0 < f.size
  root : f.path 0 = [0]
  inner : ∀ j, 0 < j → j < f.size → ∃ k < j, f.path j = j :: f.path k

/-! ## One new binding -/

/-- The second family binds `name` to `value` in scope `i`, and is the first one otherwise. -/
structure SetAt (i : Nat) (name : Text) (value : Value) (f f' : Family) : Prop where
  size_eq : f'.size = f.size
  path_eq : ∀ j, f'.path j = f.path j
  new : (f'.scope i).get? name = some value
  old : ∀ j x, j ≠ i ∨ x ≠ name → (f'.scope j).get? x = (f.scope j).get? x

section Define

variable (f : Family) (i : Nat) (name : Text) (value : Value)

/-- A binding adds no scope. -/
theorem size_define : (f.define i name value).size = f.size := List.length_modify ..

/-- A binding changes no way out. -/
theorem path_define (j : Nat) : (f.define i name value).path j = f.path j := by
  unfold path define
  rw [List.getElem?_modify]
  cases f.members[j]? with
  | none => rfl
  | some m => split <;> rfl

/-- A binding changes one scope only. -/
theorem scope_define {i : Nat} (hi : i < f.size) (j : Nat) :
    (f.define i name value).scope j =
      if j = i then (f.scope i).set name value else f.scope j := by
  unfold scope define
  rw [List.getElem?_modify]
  by_cases hj : j = i
  · subst hj
    have hmember : f.members[j]? = some (f.members.get ⟨j, hi⟩) := List.getElem?_eq_getElem hi
    rw [hmember]
    simp
  · have hj' : ¬i = j := fun h => hj h.symm
    cases f.members[j]? <;> simp [hj, hj']

/-- To bind a name in a scope is to set it there. -/
theorem setAt_define {i : Nat} (hi : i < f.size) :
    SetAt i name value f (f.define i name value) := by
  refine ⟨f.size_define i name value, f.path_define i name value, ?_, fun j x hne => ?_⟩
  · rw [scope_define f name value hi, if_pos rfl, Scope.get?_set, if_pos rfl]
  · rw [scope_define f name value hi]
    by_cases hj : j = i
    · have hx : x ≠ name := hne.resolve_left fun h => h hj
      rw [if_pos hj, Scope.get?_set, if_neg hx, hj]
    · rw [if_neg hj]

end Define

namespace SetAt

variable {i : Nat} {name : Text} {value : Value} {f f' : Family}

/-- The name is bound where it has been set, and all others are bound where they were. -/
theorem binds_eq (h : SetAt i name value f f') (j : Nat) (x : Text) :
    (f'.scope j).binds x = (decide (j = i ∧ x = name) || (f.scope j).binds x) := by
  unfold Scope.binds
  by_cases hat : j = i ∧ x = name
  · obtain ⟨rfl, rfl⟩ := hat
    rw [h.new, decide_eq_true ⟨rfl, rfl⟩]
    rfl
  · rw [h.old j x (Decidable.not_and_iff_not_or_not.mp hat), decide_eq_false hat, Bool.false_or]

end SetAt

/-! ## Where a name belongs -/

/-- Scope `i` is in view of scope `j` for a name: it lies on the way out, and no scope before it
binds the name. -/
def InView (f : Family) (j i : Nat) (name : Text) : Prop :=
  ∃ before after, f.path j = before ++ i :: after ∧ ∀ k ∈ before, (f.scope k).binds name = false

/-- No scope on the way out binds the name. -/
def Unbound (f : Family) (i : Nat) (name : Text) : Prop :=
  ∀ k ∈ f.path i, (f.scope k).binds name = false

instance (f : Family) (i : Nat) (name : Text) : Decidable (f.Unbound i name) :=
  inferInstanceAs (Decidable (∀ k ∈ f.path i, (f.scope k).binds name = false))

/-- Looking for `i` as well finds `i`, if nothing before it is found, and otherwise what is found
anyway. Induction on the places. -/
theorem find?_or_self (p : Nat → Bool) (i : Nat) (path : List Nat) :
    (path.find? (fun k => decide (k = i) || p k) = some i ↔
      ∃ before after, path = before ++ i :: after ∧ ∀ k ∈ before, p k = false) ∧
    (path.find? (fun k => decide (k = i) || p k) = some i ∨
      path.find? (fun k => decide (k = i) || p k) = path.find? p) := by
  induction path with
  | nil => simp
  | cons d path ih =>
    by_cases hd : d = i
    · subst hd
      have hfound : (d :: path).find? (fun k => decide (k = d) || p k) = some d := by simp
      exact ⟨iff_of_true hfound ⟨[], path, rfl, by simp⟩, .inl hfound⟩
    · cases hp : p d with
      | true =>
        -- The search stops here in either case.
        have hfound : (d :: path).find? (fun k => decide (k = i) || p k) = some d := by simp [hp]
        rw [hfound, List.find?_cons_of_pos hp]
        refine ⟨iff_of_false (fun h => hd (Option.some.inj h)) ?_, .inr rfl⟩
        rintro ⟨before, after, hpath, hbefore⟩
        cases before with
        | nil => exact hd (List.cons.inj hpath).1
        | cons b before =>
          have hb := hbefore b List.mem_cons_self
          rw [← (List.cons.inj hpath).1, hp] at hb
          cases hb
      | false =>
        have hnext : (d :: path).find? (fun k => decide (k = i) || p k) =
            path.find? (fun k => decide (k = i) || p k) := by simp [hd, hp]
        rw [hnext, List.find?_cons_of_neg (by rw [hp]; exact Bool.false_ne_true)]
        refine ⟨ih.1.trans ⟨?_, ?_⟩, ih.2⟩
        · rintro ⟨before, after, rfl, hbefore⟩
          exact ⟨d :: before, after, rfl, List.forall_mem_cons.mpr ⟨hp, hbefore⟩⟩
        · rintro ⟨before, after, hpath, hbefore⟩
          cases before with
          | nil => exact absurd (List.cons.inj hpath).1 hd
          | cons b before =>
            exact ⟨before, after, (List.cons.inj hpath).2, (List.forall_mem_cons.mp hbefore).2⟩

/-- A name belongs nowhere just if no scope on the way out binds it. -/
theorem resolve_eq_none {f : Family} {i : Nat} {name : Text} :
    f.resolve i name = none ↔ f.Unbound i name := by
  unfold resolve Unbound
  rw [List.find?_eq_none]
  simp

/-- The scope that a name belongs to binds it. -/
theorem binds_of_resolve {f : Family} {i j : Nat} {name : Text} (h : f.resolve i name = some j) :
    (f.scope j).binds name = true := by
  have hfound := List.find?_some (p := fun k => (f.scope k).binds name) h
  exact hfound

/-- A scope that binds something is there. -/
theorem lt_size_of_binds {f : Family} {j : Nat} {name : Text} (h : (f.scope j).binds name = true) :
    j < f.size := by
  apply Nat.lt_of_not_le
  intro hj
  have hnone : f.members[j]? = none := List.getElem?_eq_none hj
  unfold scope at h
  rw [hnone] at h
  cases h

namespace SetAt

variable {i : Nat} {name : Text} {value : Value} {f f' : Family}

/-- Other names belong where they did. -/
theorem resolve_other (h : SetAt i name value f f') {x : Text} (hx : x ≠ name) (j : Nat) :
    f'.resolve j x = f.resolve j x := by
  unfold resolve
  rw [h.path_eq]
  congr 1
  funext k
  rw [h.binds_eq, decide_eq_false fun hat => hx hat.2, Bool.false_or]

/-- Where a name that was bound gets another value, it belongs where it did. -/
theorem resolve_of_binds (h : SetAt i name value f f') (hbinds : (f.scope i).binds name = true)
    (j : Nat) (x : Text) : f'.resolve j x = f.resolve j x := by
  unfold resolve
  rw [h.path_eq]
  congr 1
  funext k
  rw [h.binds_eq]
  by_cases hat : k = i ∧ x = name
  · rw [hat.1, hat.2, hbinds, Bool.or_true]
  · rw [decide_eq_false hat, Bool.false_or]

/-- **Where a name belongs after it has been bound**: to the scope in which it has been bound, if
this is in view, and otherwise where it did. -/
theorem resolve_eq (h : SetAt i name value f f') (j : Nat) :
    (f'.resolve j name = some i ↔ f.InView j i name) ∧
      (¬f.InView j i name → f'.resolve j name = f.resolve j name) := by
  have hresolve : f'.resolve j name =
      (f.path j).find? fun k => decide (k = i) || (f.scope k).binds name := by
    unfold resolve
    rw [h.path_eq]
    congr 1
    funext k
    rw [h.binds_eq]
    simp
  obtain ⟨hview, hother⟩ := find?_or_self (fun k => (f.scope k).binds name) i (f.path j)
  rw [hresolve]
  exact ⟨hview, fun hnot => hother.resolve_left (mt hview.mp hnot)⟩

end SetAt

/-! ## What a name means -/

section Meaning

variable {f f' : Family} {i s : Nat} {name : Text} {value : Value}

/-- The value of a name is the one that it has in the scope to which it belongs. -/
theorem get_eq_ok : f.get i name = .ok value ↔
    ∃ j, f.resolve i name = some j ∧ (f.scope j).get? name = some value := by
  unfold get
  rw [← Option.bind_eq_some_iff]
  cases (f.resolve i name).bind fun j => (f.scope j).get? name with
  | none => simp
  | some w => simp

/-- Setting a name binds it anew in the scope to which it belongs. -/
theorem assign_eq_ok : f.assign i name value = .ok f' ↔
    ∃ s, f.resolve i name = some s ∧ f.define s name value = f' := by
  unfold assign
  cases f.resolve i name with
  | none => simp
  | some s => simp

/-- There is a fault just where no scope on the way out binds the name. -/
theorem assign_eq_error :
    f.assign i name value = .error (.undefined name) ↔ f.Unbound i name := by
  rw [← resolve_eq_none]
  unfold assign
  cases f.resolve i name with
  | none => simp
  | some s => simp

/-- Looking up a name fails just where setting it would. -/
theorem get_eq_error : f.get i name = .error (.undefined name) ↔ f.Unbound i name := by
  rw [← resolve_eq_none]
  unfold get
  cases hresolve : f.resolve i name with
  | none => simp
  | some s =>
    obtain ⟨w, hw⟩ := Option.isSome_iff_exists.mp (binds_of_resolve hresolve)
    simp [hw]

/-- A name that some scope on the way out binds belongs somewhere. -/
theorem exists_resolve (h : ¬f.Unbound i name) : ∃ s, f.resolve i name = some s :=
  Option.ne_none_iff_exists'.mp (mt resolve_eq_none.mp h)

/-- Such a name has a value. -/
theorem exists_get (h : ¬f.Unbound i name) : ∃ w, f.get i name = .ok w := by
  obtain ⟨s, hs⟩ := exists_resolve h
  obtain ⟨w, hw⟩ := Option.isSome_iff_exists.mp (binds_of_resolve hs)
  exact ⟨w, get_eq_ok.mpr ⟨s, hs, hw⟩⟩

/-- Such a name can be set. -/
theorem exists_assign (h : ¬f.Unbound i name) (value : Value) :
    ∃ f', f.assign i name value = .ok f' := by
  obtain ⟨s, hs⟩ := exists_resolve h
  exact ⟨_, assign_eq_ok.mpr ⟨s, hs, rfl⟩⟩

/-- **Setting a name is noticed where the name belongs to the same scope**, and nowhere else. -/
theorem SetAt.get_eq (h : SetAt s name value f f') (hbinds : (f.scope s).binds name = true)
    (j : Nat) (x : Text) :
    (x = name ∧ f.resolve j name = some s → f'.get j x = .ok value) ∧
      (¬(x = name ∧ f.resolve j name = some s) → f'.get j x = f.get j x) := by
  constructor
  · rintro ⟨rfl, hs⟩
    refine get_eq_ok.mpr ⟨s, ?_, h.new⟩
    rw [h.resolve_of_binds hbinds, hs]
  · intro hother
    unfold get
    rw [h.resolve_of_binds hbinds]
    cases hresolve : f.resolve j x with
    | none => rfl
    | some k =>
      have hne : k ≠ s ∨ x ≠ name := by
        apply Decidable.not_and_iff_not_or_not.mp
        rintro ⟨rfl, rfl⟩
        exact hother ⟨rfl, hresolve⟩
      rw [Option.bind_some, Option.bind_some, h.old k x hne]

end Meaning

/-! ## Ways out -/

namespace Nested

variable {f f' : Family}

/-- The ways out do not depend on the bindings. -/
theorem congr (h : f.Nested) (hsize : f'.size = f.size) (hpath : ∀ j, f'.path j = f.path j) :
    f'.Nested := by
  refine ⟨by rw [hsize]; exact h.size_pos, by rw [hpath]; exact h.root, fun j hpos hj => ?_⟩
  rw [hsize] at hj
  obtain ⟨k, hk, hjk⟩ := h.inner j hpos hj
  exact ⟨k, hk, by rw [hpath, hpath, hjk]⟩

/-- A new scope has the way out of the scope around it, with itself in front, and the others keep
theirs. -/
theorem child (h : f.Nested) {i : Nat} (hi : i < f.size) : (f.child i).Nested := by
  have hsize : (f.child i).size = f.size + 1 := List.length_append
  have hold {j : Nat} (hj : j < f.size) : (f.child i).path j = f.path j := by
    unfold path Family.child
    rw [List.getElem?_append_left hj]
  have hnew : (f.child i).path f.size = f.size :: f.path i := by
    unfold path Family.child size
    rw [List.getElem?_concat_length]
    rfl
  refine ⟨by omega, (hold h.size_pos).trans h.root, fun j hpos hj => ?_⟩
  -- The scope is the new one, or has been there before.
  by_cases hlast : j = f.size
  · subst hlast
    exact ⟨i, hi, by rw [hnew, hold hi]⟩
  · have hj : j < f.size := by omega
    obtain ⟨k, hk, hjk⟩ := h.inner j hpos hj
    exact ⟨k, hk, by rw [hold hj, hold (by omega), hjk]⟩

/-- Whatever is done with a scope, all scopes have their ways out. -/
theorem perform (h : f.Nested) (deed : Deed) (hdeed : deed.scope < f.size) :
    (f.perform deed).2.Nested := by
  cases deed with
  | child i => exact h.child hdeed
  | define i name value =>
    exact h.congr (f.size_define i name value) (f.path_define i name value)
  | assign i name value =>
    unfold Family.perform
    dsimp only
    cases hassign : f.assign i name value with
    | error fault => exact h
    | ok f' =>
      obtain ⟨s, -, rfl⟩ := assign_eq_ok.mp hassign
      exact h.congr (f.size_define s name value) (f.path_define s name value)

end Nested

/-- Each scope of a family that has grown by any deeds has its way out to the root. -/
theorem Grown.nested {f : Family} (h : Grown f) : f.Nested := by
  induction h with
  | root =>
    refine ⟨Nat.one_pos, rfl, fun j hpos hj => ?_⟩
    have hone : Family.root.size = 1 := rfl
    omega
  | perform _ deed hdeed ih => exact ih.perform deed hdeed

/-- **The laws of branching scopes**, in any family that has grown by deeds with its scopes, for any
scope `i` of it and any name. Where the name is set from `i` with success, it gets the value in the
scope that it belongs to, and no other binding is changed. All names belong where they did, and the
value is found exactly where the name belonged to the same scope, or where it has been found before.
Setting the name and asking for its value fail if and only if no scope on the way out binds it, and
then nothing has changed. Where the name is bound in `i`, this is the only change, and the name
belongs to `i` exactly from where `i` is in view; all else belongs where it did. -/
theorem branching_laws {f : Family} (hf : Grown f) {i : Nat} (hi : i < f.size) (name : Text)
    (value : Value) :
    f.Nested ∧
    (∀ f', f.assign i name value = .ok f' → ∃ s, f.resolve i name = some s ∧
      SetAt s name value f f' ∧ (∀ j x, f'.resolve j x = f.resolve j x) ∧
      (∀ j x, f'.get j x = .ok value ↔
        x = name ∧ f.resolve j name = some s ∨ f.get j x = .ok value) ∧
      ∀ j x, ¬(x = name ∧ f.resolve j name = some s) → f'.get j x = f.get j x) ∧
    ((f.assign i name value = .error (.undefined name) ↔ f.Unbound i name) ∧
      (f.get i name = .error (.undefined name) ↔ f.Unbound i name) ∧
      (Fault.undefined name).category? = some .name ∧
      (f.Unbound i name → f.perform (.assign i name value) = (some (.undefined name), f)) ∧
      (¬f.Unbound i name →
        (∃ f', f.assign i name value = .ok f') ∧ ∃ w, f.get i name = .ok w)) ∧
    SetAt i name value f (f.define i name value) ∧
    (∀ j, (f.define i name value).resolve j name = some i ↔ f.InView j i name) ∧
    ∀ j x, ¬(x = name ∧ f.InView j i name) →
      (f.define i name value).resolve j x = f.resolve j x := by
  have hdefined := setAt_define f name value hi
  refine ⟨hf.nested, ?_, ⟨assign_eq_error, get_eq_error, rfl, ?_, ?_⟩, hdefined, ?_, ?_⟩
  · -- To set a name is to define it anew in the scope that it belongs to, where it is bound
    -- already.
    intro f' hassign
    obtain ⟨s, hs, rfl⟩ := assign_eq_ok.mp hassign
    have hbinds := binds_of_resolve hs
    have hset := setAt_define f name value (lt_size_of_binds hbinds)
    refine ⟨s, hs, hset, hset.resolve_of_binds hbinds, fun j x => ?_, fun j x =>
      (hset.get_eq hbinds j x).2⟩
    by_cases hsame : x = name ∧ f.resolve j name = some s
    · exact iff_of_true ((hset.get_eq hbinds j x).1 hsame) (.inl hsame)
    · rw [(hset.get_eq hbinds j x).2 hsame]
      exact ⟨.inr, fun h => h.resolve_left hsame⟩
  · intro h
    unfold Family.perform
    dsimp only
    rw [assign_eq_error.mpr h]
  · exact fun h => ⟨exists_assign h value, exists_get h⟩
  · exact fun j => (hdefined.resolve_eq j).1
  · intro j x hother
    by_cases hx : x = name
    · subst hx
      exact (hdefined.resolve_eq j).2 fun hview => hother ⟨rfl, hview⟩
    · exact hdefined.resolve_other hx j

/-- The root with a name, in it a scope with another scope inside, and besides them a scope that
binds the same name. -/
def cousins : Family :=
  ((((root.define 0 "x" (.int 1)).child 0).child 1).child 0).define 3 "x" (.int 2)

/-- The family comes from the root by deeds with its scopes. -/
theorem grown_cousins : Grown cousins :=
  .perform (.perform (.perform (.perform (.perform .root (.define 0 "x" (.int 1)) (by decide))
    (.child 0) (by decide)) (.child 1) (by decide)) (.child 0) (by decide))
    (.define 3 "x" (.int 2)) (by decide)

/-- Setting the name from the innermost scope is noticed in the scope around it, and not where the
name is bound again. Nothing can be set that is not bound. -/
theorem cousins_laws :
    (∃ f', cousins.assign 2 "x" (.int 7) = .ok f' ∧ f'.get 1 "x" = .ok (.int 7) ∧
      f'.get 3 "x" = .ok (.int 2)) ∧
    cousins.perform (.assign 2 "y" (.int 7)) = (some (.undefined "y"), cousins) ∧
    (cousins.define 1 "x" (.int 5)).resolve 2 "x" = some 1 := by
  obtain ⟨-, hassign, ⟨-, -, -, -, hbound⟩, -⟩ :=
    branching_laws grown_cousins (i := 2) (by decide) "x" (.int 7)
  obtain ⟨-, -, ⟨-, -, -, hunbound, -⟩, -⟩ :=
    branching_laws grown_cousins (i := 2) (by decide) "y" (.int 7)
  obtain ⟨-, -, -, -, hview, -⟩ :=
    branching_laws grown_cousins (i := 1) (by decide) "x" (.int 5)
  refine ⟨?_, hunbound (by decide), (hview 2).mpr ⟨[2], [0], rfl, by decide⟩⟩
  obtain ⟨⟨f', hf'⟩, -⟩ := hbound (by decide)
  obtain ⟨s, hs, -, -, hvalue, hother⟩ := hassign f' hf'
  obtain rfl : 0 = s := Option.some.inj hs
  refine ⟨f', hf', (hvalue 1 "x").mpr (.inl ⟨rfl, rfl⟩), ?_⟩
  rw [hother 3 "x" (by decide)]
  rfl

end Family
end Grimoire
