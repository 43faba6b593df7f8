import Grimoire.Proofs.Run.Congruence

/-!
# Castings in altered states

There are things in a state that a casting without a limit of steps takes no notice of: the steps
counted so far, the trace so far, and the replies if it asks for none. A casting does the same in a
state that is altered in these respects (`RunState.altered`), and ends in a state that is altered in
the same way. `Carries` says so, and **`congruence_carries`** proves it of all evaluations.
-/

namespace Grimoire

/-- A state with the steps of another state, whose trace comes before its own, and with its replies
exchanged by `g`. -/
def RunState.altered (base : RunState) (g : List (Option Text) → List (Option Text))
    (s : RunState) : RunState := ⟨s.scopes, g s.replies, base.steps, base.trace ++ s.trace⟩

theorem RunState.altered_scopes (base : RunState) (g : List (Option Text) → List (Option Text))
    (s : RunState) : (base.altered g s).scopes = s.scopes := rfl

namespace Casting

variable {α β : Type} {base : RunState} {g : List (Option Text) → List (Option Text)}

/-- The same outcome with its state changed. -/
def inState (f : RunState → RunState) : EStateM.Result Stop RunState α →
    EStateM.Result Stop RunState α
  | .ok a s => .ok a (f s)
  | .error e s => .error e (f s)

/-- The second casting does in the altered state what the first one does. -/
def Carries (base : RunState) (g : List (Option Text) → List (Option Text)) (x y : Casting α) :
    Prop := ∀ s, y (base.altered g s) = inState (base.altered g) (x s)

namespace Carries

/-- Castings in a row are carried along if each of them is. -/
theorem bind {x y : Casting α} {f h : α → Casting β} (hxy : Carries base g x y)
    (hfh : ∀ a, Carries base g (f a) (h a)) : Carries base g (x >>= f) (y >>= h) := by
  intro s
  have hy := hxy s
  cases hx : x s with
  | error e s' =>
    rw [hx] at hy
    rw [bind_of_error hx, bind_of_error hy]
    rfl
  | ok a s' =>
    rw [hx] at hy
    rw [bind_of_ok hx, bind_of_ok hy]
    exact hfh a s'

theorem ofExcept (r : Except Fault α) : Carries base g (ofExcept r) (ofExcept r) := by
  intro s
  cases r <;> rfl

/-- An event is recorded in the same way, whatever has been recorded before. -/
theorem record (e : Event) : Carries base g (record e) (record e) := by
  intro s
  show EStateM.Result.ok () _ = .ok () _
  unfold RunState.altered
  rw [Array.append_push]

/-- A request is carried along if the replies are the same. -/
theorem ask (terms : Terms) : Carries base id (ask terms) (ask terms) := by
  refine (record .request).bind fun _ => ?_
  rintro ⟨scopes, replies, steps, trace⟩
  have hreply (reply : Option Text) (replies : List (Option Text)) :=
    @ofExcept _ base id (Value.ofReply reply) ⟨scopes, replies, steps, trace⟩
  cases replies with
  | cons reply replies => exact hreply reply replies
  | nil =>
    cases terms.silence with
    | fault | wait => rfl
    | blank => exact hreply (some []) []

/-- What an evaluation does by itself is carried along, with the same replies if it asks. -/
theorem primitive {asks : Prop} (hg : asks → g = id) {terms : Terms} {x : Casting α}
    (h : Primitive asks terms x) : Carries base g x x := by
  cases h with
  | fail fault => exact fun _ => rfl
  | print text =>
    unfold print
    cases if terms.utf8 then Utf8.unencodable? text else none with
    | some flaw => exact fun _ => rfl
    | none => exact record _
  | ask hasks =>
    obtain rfl := hg hasks
    exact ask terms
  | lookUp name =>
    intro s
    rw [lookUp_apply, lookUp_apply, RunState.altered_scopes]
    cases s.scopes.get? name <;> rfl
  | define name value => exact fun _ => rfl
  | assign name value =>
    intro s
    rw [assign_apply, assign_apply, RunState.altered_scopes]
    cases s.scopes.assign? name value <;> rfl

theorem inNewScope {x y : Casting α} (h : Carries base g x y) :
    Carries base g (inNewScope x) (inNewScope y) := by
  intro s
  have hy := h { s with scopes := s.scopes.push }
  unfold Casting.inNewScope
  show (match y (base.altered g { s with scopes := s.scopes.push }) with
    | .ok a s' => _
    | .error e s' => _) = _
  rw [hy]
  cases x { s with scopes := s.scopes.push } <;> rfl

end Carries

/-- **What castings take no notice of makes no difference** to an evaluation. The replies may be
exchanged only where none is asked for. -/
theorem congruence_carries {asks : Prop} (hg : asks → g = id) {silence silence' : Silence}
    (hsilence : asks → silence' = silence) (utf8 : Bool) (passes : Nat) :
    Congruence asks (Carries base g) (tick ⟨none, silence, utf8⟩) (tick ⟨none, silence', utf8⟩)
      ⟨none, silence, utf8⟩ ⟨none, silence', utf8⟩ passes passes where
  silence := hsilence
  utf8 := rfl
  pure _ := fun _ => rfl
  bind := .bind
  primitive := .primitive hg
  tick := fun _ => rfl
  inNewScope := .inNewScope
  loop hcondition hbody :=
    have hdone : Carries base g (pure ()) (pure ()) := fun _ => rfl
    have hout : Carries base g (throw .outOfPasses : Casting Unit) (throw .outOfPasses) :=
      fun _ => rfl
    whileTrue_congr (R := fun {_} => Carries base g) hdone .bind hout hcondition
      (hdone.bind fun _ => hbody) passes

end Casting
end Grimoire
