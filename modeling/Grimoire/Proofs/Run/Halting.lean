import Grimoire.Proofs.Run.Congruence

/-!
# Halting runs

A run is given a number of passes that each loop may take at a stretch, and ends with `outOfPasses`
where that number is too small. What a spell does does not depend on it: as soon as the passes
suffice, more of them change nothing. `Halts` says that they suffice at some point, and what the run
comes to, together with the number of ticks on the way.

Ticks are counted by a run itself only if they are limited. To count them in any case, a spell can
be executed with `tally` in the place of `tick`.
-/

namespace Grimoire
namespace Casting

variable {α β : Type}

/-- A tick that is counted also where steps are not limited. -/
def tally (terms : Terms) : Casting Unit := do
  modify fun s => { s with steps := s.steps + 1 }
  match terms.limit with
  | none => pure ()
  | some limit => if limit < (← get).steps then fail .stepLimit

/-- Under a limit a step is counted by the limit itself. -/
theorem tally_of_limited {terms : Terms} {m : Int} (h : terms.limit = some m) :
    tally terms = tick terms := by
  unfold tally tick
  rw [h]

/-- A step within the limit, if there is one, is counted. -/
theorem tally_of_le {terms : Terms} {s : RunState}
    (h : ∀ m ∈ terms.limit, (s.steps + 1 : Nat) ≤ m) :
    tally terms s = .ok () { s with steps := s.steps + 1 } := by
  obtain ⟨limit, silence, utf8⟩ := terms
  cases limit with
  | none => rfl
  | some m =>
    show (if m < (s.steps + 1 : Nat) then fail .stepLimit else pure () : Casting Unit) _ = _
    rw [if_neg (Int.not_lt.mpr (h m rfl))]
    rfl

/-- A step beyond the limit is counted and refused. -/
theorem tally_of_lt {terms : Terms} {s : RunState} {m : Int} (hm : terms.limit = some m)
    (h : m < (s.steps + 1 : Nat)) :
    tally terms s = .error (.fault .stepLimit) { s with steps := s.steps + 1 } := by
  obtain ⟨limit, silence, utf8⟩ := terms
  subst hm
  show (if m < (s.steps + 1 : Nat) then fail .stepLimit else pure () : Casting Unit) _ = _
  rw [if_pos h]
  rfl

/-- A tick is counted even where it is refused. -/
theorem after_tally (terms : Terms) (s : RunState) :
    (tally terms).after s = { s with steps := s.steps + 1 } := by
  obtain ⟨limit, silence, utf8⟩ := terms
  cases limit with
  | none => rfl
  | some m =>
    by_cases h : m < (s.steps + 1 : Nat)
    · exact after_of_error (tally_of_lt rfl h)
    · exact after_of_ok (tally_of_le fun m' hm' => Option.some.inj hm' ▸ Int.not_lt.mp h)

/-! ## More passes -/

/-- The second casting does what the first does, unless the first runs out of passes. -/
def Outlasts (x y : Casting α) : Prop :=
  ∀ s, (∃ s', x s = .error .outOfPasses s') ∨ y s = x s

theorem Outlasts.bind {x y : Casting α} {f g : α → Casting β} (hxy : Outlasts x y)
    (hfg : ∀ a, Outlasts (f a) (g a)) : Outlasts (x >>= f) (y >>= g) := by
  intro s
  rcases hxy s with ⟨s', hx⟩ | heq
  · exact .inl ⟨s', bind_of_error hx⟩
  · cases hx : x s with
    | error e s' =>
      rw [hx] at heq
      rw [bind_of_error hx, bind_of_error heq]
      exact .inr rfl
    | ok a s' =>
      rw [hx] at heq
      rw [bind_of_ok hx, bind_of_ok heq]
      exact hfg a s'

theorem Outlasts.refl (x : Casting α) : Outlasts x x := fun _ => .inr rfl

/-- A loop of more passes outlasts one of fewer. -/
theorem Outlasts.whileTrue {condition₁ condition₂ : Casting Bool} {body₁ body₂ : Casting Unit}
    (hcondition : Outlasts condition₁ condition₂) (hbody : Outlasts body₁ body₂)
    {passes passes' : Nat} (hle : passes ≤ passes') :
    Outlasts (whileTrue condition₁ body₁ passes) (whileTrue condition₂ body₂ passes') := by
  induction passes generalizing passes' with
  | zero => exact fun s => .inl ⟨s, rfl⟩
  | succ passes ih =>
    cases passes' with
    | zero => exact absurd hle (Nat.not_succ_le_zero passes)
    | succ passes' =>
      rw [whileTrue_succ, whileTrue_succ]
      refine hcondition.bind fun holds => ?_
      cases holds with
      | false => exact .refl _
      | true => exact hbody.bind fun _ => ih (Nat.le_of_succ_le_succ hle)

theorem Outlasts.inNewScope {x y : Casting α} (h : Outlasts x y) :
    Outlasts (inNewScope x) (inNewScope y) := by
  intro s
  unfold Casting.inNewScope
  rcases h { s with scopes := s.scopes.push } with ⟨s', hx⟩ | heq
  · rw [hx]
    exact .inl ⟨_, rfl⟩
  · rw [heq]
    exact .inr rfl

/-- To outlast is a congruence, if more passes are compared with fewer. -/
theorem congruence_outlasts (tick : Casting Unit) (terms : Terms) {passes passes' : Nat}
    (hle : passes ≤ passes') :
    Congruence True Outlasts tick tick terms terms passes passes' where
  silence _ := rfl
  utf8 := rfl
  pure _ := .refl _
  bind := .bind
  primitive _ := .refl _
  tick := .refl tick
  inNewScope := .inNewScope
  loop hcondition hbody :=
    Outlasts.whileTrue hcondition ((Outlasts.refl tick).bind fun _ => hbody) hle

/-! ## Counting the steps -/

/-- The same outcome with another number of steps. -/
def withSteps (n : Nat) : EStateM.Result Stop RunState α → EStateM.Result Stop RunState α
  | .ok a s => .ok a { s with steps := n }
  | .error e s => .error e { s with steps := n }

/-- What evaluations do by themselves does not depend on the steps, and takes none. -/
theorem Primitive.withSteps {asks : Prop} {terms : Terms} {x : Casting α}
    (h : Primitive asks terms x) (s : RunState) (n : Nat) :
    x { s with steps := n } = withSteps n (x s) := by
  cases h with
  | fail f => rfl
  | print text =>
    rw [print_apply, print_apply]
    split <;> rfl
  | ask =>
    rw [ask_apply, ask_apply]
    cases s.replies with
    | nil => cases terms.silence <;> rfl
    | cons reply replies =>
      dsimp only
      rw [ofExcept_apply, ofExcept_apply]
      split <;> rfl
  | lookUp name =>
    rw [lookUp_apply, lookUp_apply]
    cases s.scopes.get? name <;> rfl
  | define name value => rfl
  | assign name value =>
    rw [assign_apply, assign_apply]
    cases s.scopes.assign? name value <;> rfl

/-- An outcome has the steps of the state in which it ends. -/
theorem withSteps_after (x : Casting α) (s : RunState) :
    withSteps (x.after s).steps (x s) = x s := by
  unfold after
  cases x s <;> rfl

/-- An outcome with other steps ends with these. -/
theorem steps_after_of_withSteps {x : Casting α} {s : RunState} {n : Nat}
    {r : EStateM.Result Stop RunState α} (h : x s = withSteps n r) : (x.after s).steps = n := by
  unfold after
  rw [h]
  cases r <;> rfl

/-- What evaluations do by themselves takes no steps. -/
theorem Primitive.steps_after {asks : Prop} {terms : Terms} {x : Casting α}
    (h : Primitive asks terms x) (s : RunState) : (x.after s).steps = s.steps := by
  have heq : x s = Casting.withSteps s.steps (x s) := h.withSteps s s.steps
  exact steps_after_of_withSteps heq

/-- The second casting does what the first does, from any number of steps and with steps of its
own. -/
def Counts (x y : Casting α) : Prop :=
  ∀ s n, ∃ k, y { s with steps := n } = withSteps k (x s)

theorem Counts.bind {x y : Casting α} {f g : α → Casting β} (hxy : Counts x y)
    (hfg : ∀ a, Counts (f a) (g a)) : Counts (x >>= f) (y >>= g) := by
  intro s n
  obtain ⟨k, hy⟩ := hxy s n
  cases hx : x s with
  | error e s' =>
    rw [hx] at hy
    exact ⟨k, by rw [bind_of_error hx, bind_of_error hy]; rfl⟩
  | ok a s' =>
    rw [hx] at hy
    rw [bind_of_ok hx, bind_of_ok hy]
    exact hfg a s' k

theorem Counts.inNewScope {x y : Casting α} (h : Counts x y) :
    Counts (inNewScope x) (inNewScope y) := by
  intro s n
  obtain ⟨k, hy⟩ := h { s with scopes := s.scopes.push } n
  refine ⟨k, ?_⟩
  unfold Casting.inNewScope
  dsimp only
  rw [hy]
  cases x { s with scopes := s.scopes.push } <;> rfl

/-- Runs that count their steps and runs that do not do the same otherwise. -/
theorem congruence_counts (silence : Silence) (utf8 : Bool) (passes : Nat) :
    Congruence True Counts (tick ⟨none, silence, utf8⟩) (tally ⟨none, silence, utf8⟩)
      ⟨none, silence, utf8⟩ ⟨none, silence, utf8⟩ passes passes :=
  have htick : Counts (tick ⟨none, silence, utf8⟩) (tally ⟨none, silence, utf8⟩) :=
    fun _ n => ⟨n + 1, rfl⟩
  { silence := fun _ => rfl
    utf8 := rfl
    pure := fun _ _ n => ⟨n, rfl⟩
    bind := .bind
    primitive := fun h s n => ⟨n, h.withSteps s n⟩
    tick := htick
    inNewScope := .inNewScope
    loop := fun hcondition hbody =>
      whileTrue_congr (fun _ n => ⟨n, rfl⟩) .bind (fun _ n => ⟨n, rfl⟩) hcondition
        (htick.bind fun _ => hbody) passes }

/-! ## Running out of passes -/

/-- Steps are never taken back, and running out of passes takes as many steps as there are
passes. -/
def Paced (passes : Nat) (x : Casting α) : Prop :=
  ∀ s, s.steps ≤ (x.after s).steps ∧
    ∀ s', x s = .error .outOfPasses s' → s.steps + passes ≤ s'.steps

theorem Paced.bind {passes : Nat} {x : Casting α} {f : α → Casting β} (hx : Paced passes x)
    (hf : ∀ a, Paced passes (f a)) : Paced passes (x >>= f) := by
  intro s
  -- Running out of passes in either part, there are steps for all of them.
  obtain ⟨hle, hout⟩ := hx s
  cases heq : x s with
  | error e s₁ =>
    rw [after_of_error heq] at hle
    rw [after_bind_of_error heq, bind_of_error heq]
    exact ⟨hle, fun s' h => hout s' (heq.trans (by rw [(EStateM.Result.error.inj h).1,
      (EStateM.Result.error.inj h).2]))⟩
  | ok a s₁ =>
    rw [after_of_ok heq] at hle
    obtain ⟨hle₁, hout₁⟩ := hf a s₁
    rw [after_bind_of_ok heq, bind_of_ok heq]
    refine ⟨Nat.le_trans hle hle₁, fun s' h => ?_⟩
    have hs' := hout₁ s' h
    omega

/-- What takes no steps and does not run out of passes is paced. -/
theorem Paced.of_steps_eq {passes : Nat} {x : Casting α}
    (hsteps : ∀ s, (x.after s).steps = s.steps)
    (hout : ∀ s s', x s ≠ .error .outOfPasses s') : Paced passes x :=
  fun s => ⟨Nat.le_of_eq (hsteps s).symm, fun s' h => absurd h (hout s s')⟩

theorem Paced.inNewScope {passes : Nat} {x : Casting α} (h : Paced passes x) :
    Paced passes (inNewScope x) := by
  intro s
  obtain ⟨hle, hout⟩ := h { s with scopes := s.scopes.push }
  rw [after_inNewScope]
  refine ⟨hle, fun s' heq => ?_⟩
  unfold Casting.inNewScope at heq
  cases hx : x { s with scopes := s.scopes.push } with
  | ok a s₁ =>
    rw [hx] at heq
    cases heq
  | error e s₁ =>
    rw [hx] at heq
    obtain ⟨rfl, rfl⟩ := EStateM.Result.error.inj heq
    exact hout s₁ hx

theorem Paced.mono {passes passes' : Nat} {x : Casting α} (h : Paced passes' x)
    (hle : passes ≤ passes') : Paced passes x := by
  intro s
  refine ⟨(h s).1, fun s' hs' => ?_⟩
  have := (h s).2 s' hs'
  omega

/-- A step taken before a casting is a pass gained. -/
theorem Paced.tally_bind {silence : Silence} {utf8 : Bool} {passes : Nat} {x : Casting α}
    (h : Paced passes x) : Paced (passes + 1) (tally ⟨none, silence, utf8⟩ >>= fun _ => x) := by
  intro s
  have htick : tally ⟨none, silence, utf8⟩ s = .ok () { s with steps := s.steps + 1 } := rfl
  obtain ⟨hle, hout⟩ := h { s with steps := s.steps + 1 }
  dsimp only at hle hout
  rw [after_bind_of_ok htick, bind_of_ok htick]
  refine ⟨by omega, fun s' hs' => ?_⟩
  have := hout s' hs'
  omega

theorem Paced.pure (passes : Nat) (a : α) : Paced passes (pure a) :=
  .of_steps_eq (fun _ => rfl) fun _ _ h => by cases h

/-- Each pass through the loop takes a step, and a loop inside does not run out of passes sooner. -/
theorem Paced.whileTrue {silence : Silence} {utf8 : Bool} {passes n : Nat}
    {condition : Casting Bool} {body : Casting Unit} (hcondition : Paced passes condition)
    (hbody : Paced passes body) (hn : n ≤ passes) :
    Paced n (whileTrue condition (do tally ⟨none, silence, utf8⟩; body) n) := by
  induction n with
  | zero => exact fun s => ⟨Nat.le_refl _, fun s' h => by cases h; exact Nat.le_refl _⟩
  | succ n ih =>
    rw [whileTrue_succ]
    refine (hcondition.mono hn).bind fun holds => ?_
    cases holds with
    | false => exact .pure _ ()
    | true =>
      -- The tick before the body makes up for the pass that is gone.
      have hrest := (hbody.mono (Nat.le_of_succ_le hn)).bind fun _ => ih (Nat.le_of_succ_le hn)
      show Paced (n + 1) ((tally ⟨none, silence, utf8⟩ >>= fun _ => body) >>= _)
      rw [bind_assoc]
      exact hrest.tally_bind

/-- Passes are a matter of loops only. -/
theorem Primitive.ne_outOfPasses {asks : Prop} {terms : Terms} {x : Casting α}
    (h : Primitive asks terms x) (s s' : RunState) : x s ≠ .error .outOfPasses s' := by
  intro heq
  cases h with
  | fail f => cases heq
  | print text =>
    rw [print_apply] at heq
    split at heq <;> cases heq
  | ask =>
    rw [ask_apply] at heq
    cases hreplies : s.replies with
    | nil =>
      rw [hreplies] at heq
      cases hsilence : terms.silence <;> rw [hsilence] at heq <;> cases heq
    | cons reply replies =>
      rw [hreplies] at heq
      dsimp only at heq
      rw [ofExcept_apply] at heq
      split at heq <;> cases heq
  | lookUp name =>
    rw [lookUp_apply] at heq
    split at heq <;> cases heq
  | define name value => cases heq
  | assign name value =>
    rw [assign_apply] at heq
    split at heq <;> cases heq

theorem congruence_paced (silence : Silence) (utf8 : Bool) (passes : Nat) :
    Congruence True (fun {_} _ y => Paced passes y) (tally ⟨none, silence, utf8⟩)
      (tally ⟨none, silence, utf8⟩) ⟨none, silence, utf8⟩ ⟨none, silence, utf8⟩ passes passes where
  silence _ := rfl
  utf8 := rfl
  pure a := .pure passes a
  bind := .bind
  primitive h := .of_steps_eq h.steps_after h.ne_outOfPasses
  tick := fun s => ⟨Nat.le_succ s.steps, fun s' h => by cases h⟩
  inNewScope := .inNewScope
  loop hcondition hbody := Paced.whileTrue hcondition hbody (Nat.le_refl passes)

end Casting

/-! ## What a run comes to -/

open Casting

/-- How many ticks a run makes that starts without any steps taken. -/
def ticks (terms : Terms) (passes : Nat) (spell : List Node) (start : RunState) : Nat :=
  ((spell.forM (executeWith (tally terms) terms passes)).after start).steps

/-- The run of a spell ends by itself, with the given result and after `k` ticks: the loops take as
many passes as they need. -/
def Halts (terms : Terms) (spell : List Node) (start : RunState) (result : Ending × RunState)
    (k : Nat) : Prop :=
  ∃ passes, run terms passes spell start = result ∧ result.1 ≠ .outOfPasses ∧
    ticks terms passes spell start = k

/-- Counting the ticks changes nothing but the count. -/
theorem spell_tally (terms : Terms) (passes : Nat) (spell : List Node) (start : RunState) :
    spell.forM (executeWith (tally terms) terms passes) start =
      withSteps (ticks terms passes spell start) (spell.forM (execute terms passes) start) := by
  obtain ⟨limit, silence, utf8⟩ := terms
  cases limit with
  | none =>
    obtain ⟨k, hk⟩ :=
      (congruence_counts silence utf8 passes).spell spell (fun _ => trivial) start start.steps
    have hticks : ticks ⟨none, silence, utf8⟩ passes spell start = k :=
      steps_after_of_withSteps hk
    rw [hticks]
    exact hk
  | some m =>
    unfold ticks
    rw [tally_of_limited rfl]
    exact (withSteps_after _ start).symm

/-- A run is out of passes exactly if its statements are. -/
theorem run_fst_eq_outOfPasses_iff {terms : Terms} {passes : Nat} {spell : List Node}
    {start : RunState} : (run terms passes spell start).1 = .outOfPasses ↔
      ∃ s', spell.forM (execute terms passes) start = .error .outOfPasses s' := by
  unfold run
  cases spell.forM (execute terms passes) start with
  | ok a s => simp [conclude]
  | error e s => cases e <;> simp [conclude]

/-- The report at the end of a run does not touch the scopes. -/
theorem scopes_run (terms : Terms) (passes : Nat) (spell : List Node) (start : RunState) :
    (run terms passes spell start).2.scopes =
      ((spell.forM (execute terms passes)).after start).scopes := by
  unfold run after
  cases spell.forM (execute terms passes) start with
  | ok a s => rfl
  | error e s => cases e <;> rfl

/-- The report at the end of a run takes no step. -/
theorem steps_run (terms : Terms) (passes : Nat) (spell : List Node) (start : RunState) :
    (run terms passes spell start).2.steps =
      ((spell.forM (execute terms passes)).after start).steps := by
  unfold run after
  cases spell.forM (execute terms passes) start with
  | ok a s => rfl
  | error e s => cases e <;> rfl

/-- If one spell outlasts another one, they come to the same, unless that one runs out of passes. -/
theorem run_eq_of_outlasts {terms : Terms} {passes passes' : Nat} {spell spell' : List Node}
    (h : Outlasts (spell.forM (execute terms passes)) (spell'.forM (execute terms passes')))
    {start : RunState} (hne : (run terms passes spell start).1 ≠ .outOfPasses) :
    run terms passes' spell' start = run terms passes spell start := by
  rcases h start with hout | heq
  · exact absurd (run_fst_eq_outOfPasses_iff.mpr hout) hne
  · unfold run
    rw [heq]

/-- **Passes that suffice can be exceeded**, and nothing changes. -/
theorem run_eq_of_le {terms : Terms} {passes passes' : Nat} {spell : List Node} {start : RunState}
    (h : (run terms passes spell start).1 ≠ .outOfPasses) (hle : passes ≤ passes') :
    run terms passes' spell start = run terms passes spell start ∧
      ticks terms passes' spell start = ticks terms passes spell start := by
  -- The ticks are those of the same spell with a tick that counts, to which the same lemma applies.
  refine ⟨?_, ?_⟩
  · exact run_eq_of_outlasts
      ((congruence_outlasts (tick terms) terms hle).spell spell fun _ => trivial) h
  · have hne := mt run_fst_eq_outOfPasses_iff.mpr h
    have houtlasts := (congruence_outlasts (tally terms) terms hle).spell spell fun _ => trivial
    rcases houtlasts start with ⟨s', hout⟩ | heq
    · -- The count runs out of passes only if the run itself does.
      rw [spell_tally] at hout
      cases hrun : spell.forM (execute terms passes) start with
      | ok a s =>
        rw [hrun] at hout
        cases hout
      | error e s =>
        rw [hrun] at hout
        obtain ⟨rfl, -⟩ := EStateM.Result.error.inj hout
        exact absurd ⟨s, hrun⟩ hne
    · unfold ticks after
      rw [heq]

/-- A spell comes to one result only, and after one number of ticks. -/
theorem Halts.unique {terms : Terms} {spell : List Node} {start : RunState}
    {result result' : Ending × RunState} {k k' : Nat} (h : Halts terms spell start result k)
    (h' : Halts terms spell start result' k') : result = result' ∧ k = k' := by
  obtain ⟨passes, rfl, hne, rfl⟩ := h
  obtain ⟨passes', rfl, hne', rfl⟩ := h'
  have hmax := run_eq_of_le hne (Nat.le_max_left passes passes')
  have hmax' := run_eq_of_le hne' (Nat.le_max_right passes passes')
  exact ⟨hmax.1.symm.trans hmax'.1, hmax.2.symm.trans hmax'.2⟩

end Grimoire
