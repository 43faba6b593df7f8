import Grimoire.Scope

/-!
# Chains of scopes

The scopes in reach of a statement form a chain, the innermost first. `Rebinds W` says how a chain
may change while blocks are run: no name is added or removed anywhere, and only a name of `W` can
get another value, in the first scope that binds it. It is a preorder, so it can be followed through
any number of steps, and it is kept by the outer part of a chain.
-/

namespace Grimoire

/-- The place of the scope that a name belongs to: the first one that binds it. -/
def Scopes.resolve (s : Scopes) (name : Text) : Option Nat := s.toList.findIdx? (·.binds name)

/-- The second chain is the first one, but for new values of names of `W` in their own scopes. -/
structure Rebinds (W : Text → Prop) (chain chain' : List Scope) : Prop where
  length_eq : chain'.length = chain.length
  binds_eq : ∀ (i : Nat) (scope scope' : Scope), chain[i]? = some scope →
    chain'[i]? = some scope' → ∀ x, scope'.binds x = scope.binds x
  resolve : ∀ (i : Nat) (scope scope' : Scope), chain[i]? = some scope →
    chain'[i]? = some scope' → ∀ x, scope'.get? x ≠ scope.get? x →
      chain.findIdx? (·.binds x) = some i ∧ W x

/-- Binding a bound name anew leaves the same names bound. -/
theorem Scope.binds_set {s : Scope} {name : Text} (h : s.binds name = true) (value : Value)
    (x : Text) : (s.set name value).binds x = s.binds x := by
  unfold Scope.binds at h ⊢
  rw [Scope.get?_set]
  by_cases hx : x = name
  · rw [if_pos hx, hx, h]
    rfl
  · rw [if_neg hx]

namespace Rebinds

variable {W W' : Text → Prop} {chain₁ chain₂ chain₃ : List Scope}

theorem refl (chain : List Scope) : Rebinds W chain chain := by
  refine ⟨rfl, fun i scope scope' h h' x => ?_, fun i scope scope' h h' x hne => ?_⟩
  · rw [Option.some.inj (h.symm.trans h')]
  · exact absurd (by rw [Option.some.inj (h.symm.trans h')]) hne

/-- What holds for some names holds for more. -/
theorem mono (h : Rebinds W chain₁ chain₂) (hW : ∀ x, W x → W' x) : Rebinds W' chain₁ chain₂ :=
  ⟨h.length_eq, h.binds_eq, fun i scope scope' hi hi' x hne =>
    ⟨(h.resolve i scope scope' hi hi' x hne).1, hW x (h.resolve i scope scope' hi hi' x hne).2⟩⟩

/-- Each name belongs to the same scope as before. -/
theorem findIdx?_eq (h : Rebinds W chain₁ chain₂) (x : Text) :
    chain₂.findIdx? (·.binds x) = chain₁.findIdx? (·.binds x) := by
  have hmap : chain₂.map (·.binds x) = chain₁.map (·.binds x) := by
    refine List.ext_getElem (by rw [List.length_map, List.length_map, h.length_eq]) ?_
    intro i h₂ h₁
    rw [List.getElem_map, List.getElem_map]
    exact h.binds_eq i _ _ (List.getElem?_eq_getElem _) (List.getElem?_eq_getElem _) x
  have hid (chain : List Scope) :
      chain.findIdx? (·.binds x) = (chain.map (·.binds x)).findIdx? id := by
    rw [List.findIdx?_map]
    rfl
  rw [hid, hid, hmap]

/-- Two changes in a row are a change, because the first leaves each name where it belongs. -/
theorem trans (h₁ : Rebinds W chain₁ chain₂) (h₂ : Rebinds W chain₂ chain₃) :
    Rebinds W chain₁ chain₃ := by
  have hmid {i : Nat} {scope : Scope} (h : chain₁[i]? = some scope) :
      ∃ scope₂, chain₂[i]? = some scope₂ := by
    obtain ⟨hlt, -⟩ := List.getElem?_eq_some_iff.mp h
    exact ⟨_, List.getElem?_eq_getElem (by rw [h₁.length_eq]; exact hlt)⟩
  refine ⟨h₂.length_eq.trans h₁.length_eq, ?_, ?_⟩
  · intro i scope scope' hi hi' x
    obtain ⟨scope₂, hi₂⟩ := hmid hi
    rw [h₂.binds_eq i scope₂ scope' hi₂ hi' x, h₁.binds_eq i scope scope₂ hi hi₂ x]
  · intro i scope scope' hi hi' x hne
    obtain ⟨scope₂, hi₂⟩ := hmid hi
    by_cases hne₁ : scope₂.get? x = scope.get? x
    · rw [← hne₁] at hne
      have hresolve := h₂.resolve i scope₂ scope' hi₂ hi' x hne
      rw [h₁.findIdx?_eq] at hresolve
      exact hresolve
    · exact h₁.resolve i scope scope₂ hi hi₂ x hne₁

/-- Of a chain that is changed, the outer scopes are changed in the same way. -/
theorem tail {scope₁ scope₂ : Scope} (h : Rebinds W (scope₁ :: chain₁) (scope₂ :: chain₂)) :
    Rebinds W chain₁ chain₂ := by
  refine ⟨Nat.succ.inj h.length_eq, fun i => h.binds_eq (i + 1), ?_⟩
  intro i scope scope' hi hi' x hne
  obtain ⟨hresolve, hW⟩ := h.resolve (i + 1) scope scope' hi hi' x hne
  refine ⟨?_, hW⟩
  rw [List.findIdx?_cons] at hresolve
  split at hresolve
  · cases hresolve
  · obtain ⟨j, hj, hji⟩ := Option.map_eq_some_iff.mp hresolve
    rw [hj, Nat.succ.inj hji]

/-- The innermost scope stays as it is, and is not where the names of `W` belong. -/
theorem cons {scope : Scope} (hscope : ∀ x, W x → scope.binds x = false)
    (h : Rebinds W chain₁ chain₂) : Rebinds W (scope :: chain₁) (scope :: chain₂) := by
  refine ⟨congrArg Nat.succ h.length_eq, ?_, ?_⟩
  · intro i s s' hi hi' x
    cases i with
    | zero => rw [Option.some.inj (hi.symm.trans hi')]
    | succ i => exact h.binds_eq i s s' hi hi' x
  · intro i s s' hi hi' x hne
    cases i with
    | zero => exact absurd (by rw [Option.some.inj (hi.symm.trans hi')]) hne
    | succ i =>
      obtain ⟨hresolve, hW⟩ := h.resolve i s s' hi hi' x hne
      refine ⟨?_, hW⟩
      rw [List.findIdx?_cons, hscope x hW, hresolve]
      rfl

/-- A bound name gets another value in the innermost scope. -/
theorem set {scope : Scope} {name : Text} (hscope : scope.binds name = true) (value : Value)
    (chain : List Scope) : Rebinds (· = name) (scope :: chain) (scope.set name value :: chain) := by
  refine ⟨rfl, ?_, ?_⟩
  · intro i s s' hi hi' x
    cases i with
    | zero =>
      rw [← Option.some.inj hi, ← Option.some.inj hi']
      exact Scope.binds_set hscope value x
    | succ i => rw [Option.some.inj (hi.symm.trans hi')]
  · intro i s s' hi hi' x hne
    cases i with
    | zero =>
      rw [← Option.some.inj hi, ← Option.some.inj hi', Scope.get?_set] at hne
      have hx : x = name := Decidable.byContradiction fun hx => hne (if_neg hx)
      refine ⟨?_, hx⟩
      rw [List.findIdx?_cons, hx, hscope]
      rfl
    | succ i => exact absurd (by rw [Option.some.inj (hi.symm.trans hi')]) hne

/-- Setting a name gives it another value in the scope that it belongs to. -/
theorem of_assignIn? {name : Text} {value : Value} {chain chain' : List Scope}
    (h : Scopes.assignIn? name value chain = some chain') :
    Rebinds (· = name) chain chain' := by
  induction chain generalizing chain' with
  | nil => cases h
  | cons scope rest ih =>
    unfold Scopes.assignIn? at h
    by_cases hscope : scope.binds name = true
    · rw [if_pos hscope] at h
      cases h
      exact .set hscope value rest
    · rw [if_neg hscope] at h
      obtain ⟨rest', hrest, rfl⟩ := Option.map_eq_some_iff.mp h
      refine (ih hrest).cons fun x hx => ?_
      rw [hx]
      exact eq_false_of_ne_true hscope

/-- Setting a name is such a change in all scopes in reach. -/
theorem of_assign? {name : Text} {value : Value} {s s' : Scopes}
    (h : s.assign? name value = some s') : Rebinds (· = name) s.toList s'.toList := by
  suffices hlist : Scopes.assignIn? name value s.toList = some s'.toList from of_assignIn? hlist
  unfold Scopes.assign? at h
  show Scopes.assignIn? name value (s.inner :: s.outer) = _
  unfold Scopes.assignIn?
  split at h
  · rename_i hinner
    cases h
    rw [if_pos hinner]
    rfl
  · rename_i hinner
    obtain ⟨outer, houter, rfl⟩ := Option.map_eq_some_iff.mp h
    rw [if_neg hinner, houter]
    rfl

end Rebinds
end Grimoire
