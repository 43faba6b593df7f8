import Mathlib.Data.List.Forall2
import Grimoire.Scope

/-!
# Scopes that agree on some names

Two chains of scopes agree on some names if they are of the same length, and in each place these
names are bound in both or in neither, and to the same value. So they agree on what the names mean,
and go on to agree after a name is created or set in both. A chain in which only other names are
created or set agrees with what it was before.
-/

namespace Grimoire

variable {W : Text → Prop} {name : Text}

/-! ## One scope -/

/-- The names of `W` are bound to the same values in both scopes, or in neither. -/
def Scope.AgreeOn (W : Text → Prop) (a b : Scope) : Prop := ∀ x, W x → a.get? x = b.get? x

namespace Scope.AgreeOn

theorem refl (a : Scope) : AgreeOn W a a := fun _ _ => rfl

theorem trans {a b c : Scope} (h : AgreeOn W a b) (h' : AgreeOn W b c) : AgreeOn W a c :=
  fun x hx => (h x hx).trans (h' x hx)

/-- A name of `W` is bound in both scopes or in neither. -/
theorem binds_eq {a b : Scope} (h : AgreeOn W a b) {x : Text} (hx : W x) :
    a.binds x = b.binds x := by
  unfold binds
  rw [h x hx]

/-- The same binding in both scopes keeps up their agreement, whether or not the name is one of
`W`. -/
theorem set {a b : Scope} (h : AgreeOn W a b) (name : Text) (value : Value) :
    AgreeOn W (a.set name value) (b.set name value) := by
  intro x hx
  rw [get?_set, get?_set, h x hx]

/-- Binding a name that is none of `W` is not noticed. -/
theorem set_other (hname : ¬W name) (a : Scope) (value : Value) :
    AgreeOn W a (a.set name value) := by
  intro x hx
  have hne : x ≠ name := fun heq => hname (heq ▸ hx)
  rw [get?_set, if_neg hne]

end Scope.AgreeOn

/-! ## Chains of scopes -/

/-- The chains agree on the names of `W` scope by scope. -/
def ChainsAgree (W : Text → Prop) (chain chain' : List Scope) : Prop :=
  List.Forall₂ (Scope.AgreeOn W) chain chain'

namespace ChainsAgree

variable {chain chain' chain'' : List Scope}

theorem refl (chain : List Scope) : ChainsAgree W chain chain :=
  List.forall₂_same.mpr fun scope _ => .refl scope

/-- Agreement of chains is passed on scope by scope. -/
theorem trans (h : ChainsAgree W chain chain') (h' : ChainsAgree W chain' chain'') :
    ChainsAgree W chain chain'' := by
  induction h generalizing chain'' with
  | nil => exact h'
  | cons hscope _ ih =>
    cases h' with
    | cons hscope' hrest' => exact .cons (hscope.trans hscope') (ih hrest')

/-- A name of `W` means the same in both chains. -/
theorem findSome?_eq (h : ChainsAgree W chain chain') {x : Text} (hx : W x) :
    chain.findSome? (·.get? x) = chain'.findSome? (·.get? x) := by
  induction h with
  | nil => rfl
  | cons hscope _ ih => rw [List.findSome?_cons, List.findSome?_cons, hscope x hx, ih]

/-- The outermost scopes agree as well. -/
theorem getLast (h : ChainsAgree W chain chain') (hne : chain ≠ []) (hne' : chain' ≠ []) :
    Scope.AgreeOn W (chain.getLast hne) (chain'.getLast hne') := by
  induction h with
  | nil => exact absurd rfl hne
  | cons hscope hrest ih =>
    cases hrest with
    | nil => exact hscope
    | cons hscope' hrest' =>
      rw [List.getLast_cons (List.cons_ne_nil _ _), List.getLast_cons (List.cons_ne_nil _ _)]
      exact ih _ _

/-- Setting a name of `W` in both chains succeeds in both or in neither, and they go on to agree. -/
theorem assignIn? (h : ChainsAgree W chain chain') (hname : W name) (value : Value) :
    Option.Rel (ChainsAgree W) (Scopes.assignIn? name value chain)
      (Scopes.assignIn? name value chain') := by
  induction h with
  | nil => exact .none
  | @cons scope scope' rest rest' hscope hrest ih =>
    rw [Scopes.assignIn?, Scopes.assignIn?, hscope.binds_eq hname]
    cases scope'.binds name with
    | true => exact .some (.cons (hscope.set name value) hrest)
    | false =>
      -- The name belongs further out, or nowhere.
      rw [if_neg Bool.false_ne_true, if_neg Bool.false_ne_true]
      generalize Scopes.assignIn? name value rest = result at ih
      generalize Scopes.assignIn? name value rest' = result' at ih
      cases ih with
      | none => exact .none
      | some hrest' => exact .some (.cons hscope hrest')

/-- Setting a name that is none of `W` is not noticed. -/
theorem of_assignIn? (hname : ¬W name) {value : Value}
    (h : Scopes.assignIn? name value chain = some chain') : ChainsAgree W chain chain' := by
  induction chain generalizing chain' with
  | nil => cases h
  | cons scope rest ih =>
    rw [Scopes.assignIn?] at h
    split at h
    · cases h
      exact .cons (.set_other hname scope value) (ChainsAgree.refl rest)
    · obtain ⟨rest', hrest, rfl⟩ := Option.map_eq_some_iff.mp h
      exact .cons (.refl scope) (ih hrest)

end ChainsAgree

/-! ## The scopes of a statement -/

/-- The scopes in reach agree on the names of `W`. -/
def Scopes.AgreeOn (W : Text → Prop) (s t : Scopes) : Prop := ChainsAgree W s.toList t.toList

namespace Scopes

/-- Setting a name is setting it in the chain of all scopes in reach. -/
theorem assignIn?_toList (s : Scopes) (name : Text) (value : Value) :
    assignIn? name value s.toList = (s.assign? name value).map toList := by
  show assignIn? name value (s.inner :: s.outer) = _
  rw [assignIn?, assign?]
  split
  · rfl
  · rw [Option.map_map]
    rfl

/-- A successful setting, in the chain of all scopes. -/
theorem assignIn?_of_assign? {s t : Scopes} {name : Text} {value : Value}
    (h : s.assign? name value = some t) : assignIn? name value s.toList = some t.toList := by
  rw [assignIn?_toList, h]
  rfl

namespace AgreeOn

variable {s t : Scopes}

theorem refl (s : Scopes) : AgreeOn W s s := ChainsAgree.refl s.toList

theorem trans {u : Scopes} (h : AgreeOn W s t) (h' : AgreeOn W t u) : AgreeOn W s u :=
  ChainsAgree.trans h h'

/-- A name of `W` has the same value in both. -/
theorem get?_eq (h : AgreeOn W s t) {x : Text} (hx : W x) : s.get? x = t.get? x :=
  h.findSome?_eq hx

/-- Entering a new scope on both sides keeps up the agreement. -/
theorem push (h : AgreeOn W s t) : AgreeOn W s.push t.push := .cons (.refl _) h

/-- So does leaving the innermost one. -/
theorem pop (h : AgreeOn W s t) : AgreeOn W s.pop t.pop := by
  obtain ⟨inner, outer⟩ := s
  obtain ⟨inner', outer'⟩ := t
  cases h with
  | cons hinner houter =>
    cases houter with
    | nil => exact .cons hinner .nil
    | cons hscope hrest => exact .cons hscope hrest

/-- A new binding in both innermost scopes keeps up the agreement. -/
theorem define (h : AgreeOn W s t) (name : Text) (value : Value) :
    AgreeOn W (s.define name value) (t.define name value) := by
  cases h with
  | cons hinner houter => exact .cons (hinner.set name value) houter

/-- A new binding of a name that is none of `W` is not noticed. -/
theorem define_other (hname : ¬W name) (s : Scopes) (value : Value) :
    AgreeOn W s (s.define name value) :=
  .cons (.set_other hname s.inner value) (ChainsAgree.refl s.outer)

/-- Setting a name of `W` on both sides succeeds in both or in neither, and keeps up the
agreement. -/
theorem assign? (h : AgreeOn W s t) (hname : W name) (value : Value) :
    Option.Rel (AgreeOn W) (s.assign? name value) (t.assign? name value) := by
  have hchains := ChainsAgree.assignIn? h hname value
  rw [assignIn?_toList, assignIn?_toList] at hchains
  generalize s.assign? name value = s? at hchains
  generalize t.assign? name value = t? at hchains
  cases s? with
  | none =>
    cases t? with
    | none => exact .none
    | some t' => cases hchains
  | some s' =>
    cases t? with
    | none => cases hchains
    | some t' =>
      cases hchains with
      | some hst => exact .some hst

/-- Setting a name that is none of `W` is not noticed. -/
theorem assign?_other (hname : ¬W name) {value : Value} (h : s.assign? name value = some t) :
    AgreeOn W s t :=
  ChainsAgree.of_assignIn? hname (assignIn?_of_assign? h)

end AgreeOn
end Scopes
end Grimoire
