import Grimoire.Proofs.Run.Halting

/-!
# A limit of steps only cuts a run short

Two runs of one spell are compared, one under a limit `m` and one under a limit that is not lower,
or under none. Both do the same up to the tick at which the first run is stopped, and from there on
the second run only adds to its trace. `Cut` says so for any casting in the middle of a run,
whatever follows; it is a congruence, and `limit_cuts_short` is what it says about whole runs.

A limit is checked at ticks only. The run of an empty spell has none, and succeeds under any limit.
-/

namespace Grimoire

/-- Events other than requests: what a run puts out. -/
def RunState.outputs (s : RunState) : List Event := s.trace.toList.filter (· ≠ .request)

/-- A line that is printed. -/
def Event.isLog : Event → Bool
  | .log _ => true
  | _ => false

/-- The lines that have been printed. -/
def RunState.logs (s : RunState) : List Event := s.trace.toList.filter Event.isLog

/-! ## States later in a run -/

/-- One state comes after another in a run that is still going on: there are no fewer steps, and
nothing has been added to the trace but lines and requests. -/
structure RunState.Extends (s s' : RunState) : Prop where
  steps : s.steps ≤ s'.steps
  trace : ∃ events, (∀ text, Event.error text ∉ events) ∧
    s'.trace.toList = s.trace.toList ++ events

namespace RunState.Extends

theorem refl (s : RunState) : Extends s s :=
  ⟨Nat.le_refl _, [], fun _ => List.not_mem_nil, (List.append_nil _).symm⟩

theorem trans {s₁ s₂ s₃ : RunState} (h₁ : Extends s₁ s₂) (h₂ : Extends s₂ s₃) : Extends s₁ s₃ := by
  obtain ⟨events₁, hno₁, heq₁⟩ := h₁.trace
  obtain ⟨events₂, hno₂, heq₂⟩ := h₂.trace
  refine ⟨Nat.le_trans h₁.steps h₂.steps, events₁ ++ events₂, fun text hmem => ?_, ?_⟩
  · rcases List.mem_append.mp hmem with hmem | hmem
    · exact hno₁ text hmem
    · exact hno₂ text hmem
  · rw [heq₂, heq₁, List.append_assoc]

/-- A step more extends the state. -/
theorem tick (s : RunState) : Extends s { s with steps := s.steps + 1 } :=
  ⟨Nat.le_succ _, [], fun _ => List.not_mem_nil, (List.append_nil _).symm⟩

end RunState.Extends

namespace Casting

open RunState (Extends)

variable {α β : Type}

/-- What evaluations do by themselves adds at most one event to the trace, and never an error. -/
theorem Primitive.trace_after {asks : Prop} {terms : Terms} {x : Casting α}
    (h : Primitive asks terms x) (s : RunState) : (x.after s).trace = s.trace ∨
      ∃ e, (∀ text, e ≠ .error text) ∧ (x.after s).trace = s.trace.push e := by
  unfold after
  cases h with
  | fail f => exact .inl rfl
  | print text =>
    rw [print_apply]
    cases if terms.utf8 then Utf8.unencodable? text else none with
    | some flaw => exact .inl rfl
    | none => exact .inr ⟨.log text, nofun, rfl⟩
  | ask =>
    -- the request is recorded, whatever the reply is
    refine .inr ⟨.request, nofun, ?_⟩
    rw [ask_apply]
    cases s.replies with
    | nil => cases terms.silence <;> rfl
    | cons reply replies =>
      cases hreply : Value.ofReply reply <;> simp only [ofExcept_apply, hreply]
  | lookUp name =>
    rw [lookUp_apply]
    cases s.scopes.get? name <;> exact .inl rfl
  | define name value => exact .inl rfl
  | assign name value =>
    rw [assign_apply]
    cases s.scopes.assign? name value <;> exact .inl rfl

/-- What evaluations do by themselves extends the state. -/
theorem Primitive.extends_after {asks : Prop} {terms : Terms} {x : Casting α}
    (h : Primitive asks terms x) (s : RunState) : Extends s (x.after s) := by
  refine ⟨Nat.le_of_eq (h.steps_after s).symm, ?_⟩
  rcases h.trace_after s with htrace | ⟨e, he, htrace⟩
  · exact ⟨[], fun _ => List.not_mem_nil, by rw [htrace, List.append_nil]⟩
  · refine ⟨[e], fun text hmem => he text (List.mem_singleton.mp hmem).symm, ?_⟩
    rw [htrace, Array.toList_push]

/-! ## Cutting a casting short -/

/-- The first casting does what the second does, as long as the steps of the second do not exceed
`m`. Otherwise it stops on the way, and the second one goes on from there. -/
def Cut (m : Int) (x y : Casting α) : Prop :=
  ∀ s, Extends s (y.after s) ∧
    (x s = y s ∧ ((y.after s).steps = s.steps ∨ ((y.after s).steps : Int) ≤ m) ∨
      ∃ s₁, x s = .error (.fault .stepLimit) s₁ ∧ s.steps < s₁.steps ∧ m < s₁.steps ∧
        Extends s s₁ ∧ Extends s₁ (y.after s))

namespace Cut

variable {m : Int}

/-- What takes no steps is never cut short. -/
theorem of_steps_eq {x : Casting α} (hextends : ∀ s, Extends s (x.after s))
    (hsteps : ∀ s, (x.after s).steps = s.steps) : Cut m x x :=
  fun s => ⟨hextends s, .inl ⟨rfl, .inl (hsteps s)⟩⟩

theorem pure (a : α) : Cut m (pure a) (pure a) :=
  of_steps_eq (fun s => .refl s) fun _ => rfl

theorem throw (e : Stop) : Cut m (throw e : Casting α) (throw e) :=
  of_steps_eq (fun s => .refl s) fun _ => rfl

/-- The second casting of a sequence starts where the first one ends, or the sequence has been cut
short before. -/
theorem bind {x y : Casting α} {f g : α → Casting β} (hxy : Cut m x y)
    (hfg : ∀ a, Cut m (f a) (g a)) : Cut m (x >>= f) (y >>= g) := by
  intro s
  obtain ⟨hext, hcut⟩ := hxy s
  cases hy : y s with
  | error e s' =>
    rw [after_of_error hy] at hext hcut
    rw [after_bind_of_error hy]
    refine ⟨hext, ?_⟩
    rcases hcut with ⟨heq, hsteps⟩ | ⟨s₁, hx, hcut⟩
    · rw [hy] at heq
      rw [bind_of_error heq, bind_of_error hy]
      exact .inl ⟨rfl, hsteps⟩
    · exact .inr ⟨s₁, bind_of_error hx, hcut⟩
  | ok a s' =>
    rw [after_of_ok hy] at hext hcut
    rw [after_bind_of_ok hy]
    obtain ⟨hext', hcut'⟩ := hfg a s'
    refine ⟨hext.trans hext', ?_⟩
    rcases hcut with ⟨heq, hsteps⟩ | ⟨s₁, hx, hlt, hm, hbefore, hrest⟩
    · -- The limit is not reached in the first casting, but perhaps in the second one.
      rw [hy] at heq
      rw [bind_of_ok heq, bind_of_ok hy]
      rcases hcut' with ⟨heq', hsteps'⟩ | ⟨s₁, hx, hlt, hm, hbefore, hrest⟩
      · exact .inl ⟨heq', by omega⟩
      · exact .inr ⟨s₁, hx, Nat.lt_of_le_of_lt hext.steps hlt, hm, hext.trans hbefore, hrest⟩
    · -- The limited run has stopped, while the other one goes on and only adds to its trace.
      exact .inr ⟨s₁, bind_of_error hx, hlt, hm, hbefore, hrest.trans hext'⟩

theorem inNewScope {x y : Casting α} (h : Cut m x y) :
    Cut m (inNewScope x) (inNewScope y) := by
  intro s
  obtain ⟨hext, hcut⟩ := h { s with scopes := s.scopes.push }
  rw [after_inNewScope]
  refine ⟨⟨hext.steps, hext.trace⟩, ?_⟩
  unfold Casting.inNewScope
  rcases hcut with ⟨heq, hsteps⟩ | ⟨s₁, hx, hlt, hm, hbefore, hrest⟩
  · rw [heq]
    exact .inl ⟨rfl, hsteps⟩
  · rw [hx]
    exact .inr ⟨_, rfl, hlt, hm, ⟨hbefore.steps, hbefore.trace⟩, ⟨hrest.steps, hrest.trace⟩⟩

/-- The tick at which a run is stopped is one that the other run still makes. -/
theorem tick {silence : Silence} {utf8 : Bool} {limit : Option Int} (hle : ∀ m' ∈ limit, m ≤ m') :
    Cut m (tick ⟨some m, silence, utf8⟩) (tally ⟨limit, silence, utf8⟩) := by
  intro s
  rw [← tally_of_limited rfl, after_tally]
  refine ⟨.tick s, ?_⟩
  by_cases hm : m < (s.steps + 1 : Nat)
  · exact .inr ⟨_, tally_of_lt rfl hm, Nat.lt_succ_self _, hm, .tick s, .refl _⟩
  · have hm := Int.not_lt.mp hm
    have hcounted : tally ⟨some m, silence, utf8⟩ s = .ok () { s with steps := s.steps + 1 } :=
      tally_of_le fun m' h => Option.some.inj h ▸ hm
    have hcounted' : tally ⟨limit, silence, utf8⟩ s = .ok () { s with steps := s.steps + 1 } :=
      tally_of_le fun m' h => Int.le_trans hm (hle m' h)
    exact .inl ⟨hcounted.trans hcounted'.symm, .inr hm⟩

end Cut

/-- To be cut short by a limit is a congruence, if the other limit is no lower. -/
theorem congruence_cut {m : Int} {limit : Option Int} (hle : ∀ m' ∈ limit, m ≤ m')
    (silence : Silence) (utf8 : Bool) (passes : Nat) :
    Congruence True (Cut m) (tick ⟨some m, silence, utf8⟩) (tally ⟨limit, silence, utf8⟩)
      ⟨some m, silence, utf8⟩ ⟨limit, silence, utf8⟩ passes passes where
  silence _ := rfl
  utf8 := rfl
  pure := .pure
  bind := .bind
  primitive h := .of_steps_eq h.extends_after h.steps_after
  tick := .tick hle
  inNewScope := .inNewScope
  loop hcondition hbody :=
    whileTrue_congr (R := Cut m) (.pure ()) .bind (.throw _) hcondition
      (Cut.bind (.tick hle) fun _ => hbody) passes

end Casting

/-! ## Whole runs -/

open Casting

/-- Two runs that the outside world cannot tell apart. -/
def SameRun (result result' : Ending × RunState) : Prop :=
  result.1 = result'.1 ∧ result.2.outputs = result'.2.outputs ∧
    result.2.requests = result'.2.requests ∧ result.2.globals = result'.2.globals

/-- A run that has been stopped while the other one went on. -/
def StoppedBefore (result result' : Ending × RunState) : Prop :=
  result.1 = .failure ∧ ∃ logs, logs <+: result'.2.logs ∧
    result.2.outputs =
      logs ++ [.error "Runtime Error: Step limit exceeded (possible infinite loop)"]

/-- Outcomes that differ in their steps are concluded in the same way. -/
theorem sameRun_of_withSteps {terms terms' : Terms} {passes passes' k : Nat} {spell : List Node}
    {start : RunState}
    (h : spell.forM (execute terms passes) start =
      withSteps k (spell.forM (execute terms' passes') start)) :
    SameRun (run terms passes spell start) (run terms' passes' spell start) := by
  unfold run
  rw [h]
  cases spell.forM (execute terms' passes') start with
  | ok a s => exact ⟨rfl, rfl, rfl, rfl⟩
  | error e s => cases e <;> exact ⟨rfl, rfl, rfl, rfl⟩

/-- The report of a fault is none of the lines that the spell prints. -/
theorem logs_run (terms : Terms) (passes : Nat) (spell : List Node) (start : RunState) :
    (run terms passes spell start).2.logs =
      ((spell.forM (executeWith (tally terms) terms passes)).after start).logs := by
  unfold run after
  rw [spell_tally]
  cases spell.forM (execute terms passes) start with
  | ok a s => rfl
  | error e s =>
    cases e with
    | fault f =>
      show List.filter _ (s.trace.push _).toList = List.filter _ s.trace.toList
      rw [Array.toList_push, List.filter_append]
      exact List.append_nil _
    | outOfPasses => rfl
    | waiting => rfl

/-- Without errors on the trace, all outputs are lines that the spell prints. -/
theorem outputs_eq_logs {s : RunState} (h : ∀ text, Event.error text ∉ s.trace.toList) :
    s.outputs = s.logs := by
  refine List.filter_congr fun e he => ?_
  cases e with
  | log text => rfl
  | error text => exact absurd he (h text)
  | request => rfl

/-- A stop on the way to another outcome makes a run that is stopped before. -/
theorem stoppedBefore_of_extends {terms terms' : Terms} {passes passes' : Nat} {spell : List Node}
    {globals : Scope} {replies : List (Option Text)} {s₁ : RunState}
    (h : spell.forM (execute terms passes) (.start globals replies) =
      .error (.fault .stepLimit) s₁)
    (hbefore : (RunState.start globals replies).Extends s₁)
    (hrest : s₁.Extends
      ((spell.forM (executeWith (tally terms') terms' passes')).after (.start globals replies))) :
    StoppedBefore (run terms passes spell (.start globals replies))
      (run terms' passes' spell (.start globals replies)) := by
  rw [run, h]
  refine ⟨rfl, s₁.logs, ?_, ?_⟩
  · -- What is printed after the stop is what the other run prints in addition.
    rw [logs_run]
    obtain ⟨events, -, htrace⟩ := hrest.trace
    exact ⟨events.filter Event.isLog, by unfold RunState.logs; rw [htrace, List.filter_append]⟩
  · -- No fault has been reported before, so the only error is the one that reports the limit.
    obtain ⟨events, hno, htrace⟩ := hbefore.trace
    have hno₁ : ∀ text, Event.error text ∉ s₁.trace.toList := by
      rw [htrace]
      exact hno
    rw [← outputs_eq_logs hno₁]
    show List.filter _ (s₁.trace.push _).toList = _
    rw [Array.toList_push, List.filter_append]
    rfl

/-- Under a limit every run ends: each pass through a loop takes a step, and there are only so
many. -/
theorem halts_of_limited (m : Int) (silence : Silence) (utf8 : Bool) (spell : List Node)
    (start : RunState) : ∃ result k, Halts ⟨some m, silence, utf8⟩ spell start result k := by
  refine ⟨_, _, m.toNat + 1, rfl, fun hout => ?_, rfl⟩
  obtain ⟨s', hout⟩ := run_fst_eq_outOfPasses_iff.mp hout
  have hpaced := (congruence_paced silence utf8 (m.toNat + 1)).spell spell (fun _ => trivial) start
  have hnone : ∀ m' ∈ (none : Option Int), m ≤ m' := nofun
  obtain ⟨-, hcut⟩ :=
    (congruence_cut hnone silence utf8 (m.toNat + 1)).spell spell (fun _ => trivial) start
  rcases hcut with ⟨heq, hsteps⟩ | ⟨s₁, hx, -⟩
  · have hcounted := heq.symm.trans hout
    have hlt := hpaced.2 s' hcounted
    rw [after_of_error hcounted] at hsteps
    omega
  · cases hx.symm.trans hout

/-- **A limit of steps only cuts a run short.** Under any limit a run ends. If another run, under a
limit that is not lower or under none, ends after `k'` ticks, then the first run cannot be told
apart from it as long as the limit allows for so many ticks, or if there are none at all. Otherwise
it fails after some of the lines that the other one prints. -/
theorem limit_cuts_short (silence : Silence) (utf8 : Bool) (spell : List Node) (globals : Scope)
    (replies : List (Option Text)) :
    (∀ m : Int, ∃ result k,
      Halts ⟨some m, silence, utf8⟩ spell (.start globals replies) result k) ∧
    ∀ (m : Int) (limit : Option Int) (result result' : Ending × RunState) (k k' : Nat),
      (∀ m' ∈ limit, m ≤ m') →
      Halts ⟨some m, silence, utf8⟩ spell (.start globals replies) result k →
      Halts ⟨limit, silence, utf8⟩ spell (.start globals replies) result' k' →
      (k' ≤ m ∨ k' = 0 → SameRun result result') ∧
      (m < k' → 0 < k' → StoppedBefore result result') := by
  refine ⟨fun m => halts_of_limited m silence utf8 spell _, ?_⟩
  rintro m limit result result' k k' hle ⟨passes, rfl, hne, rfl⟩ ⟨passes', rfl, hne', rfl⟩
  -- Both runs are the same with as many passes as either of them needs.
  have hmax := run_eq_of_le hne (Nat.le_max_left passes passes')
  have hmax' := run_eq_of_le hne' (Nat.le_max_right passes passes')
  rw [← hmax.1, ← hmax'.1, ← hmax'.2]
  generalize max passes passes' = p
  have htally := spell_tally ⟨limit, silence, utf8⟩ p spell (.start globals replies)
  have hzero : (RunState.start globals replies).steps = 0 := rfl
  obtain ⟨-, hcut⟩ :=
    (congruence_cut hle silence utf8 p).spell spell (fun _ => trivial) (.start globals replies)
  rcases hcut with ⟨heq, hsteps⟩ | ⟨s₁, hx, hlt, hm, hbefore, hrest⟩
  · refine ⟨fun _ => sameRun_of_withSteps (heq.trans htally), fun hm hpos => ?_⟩
    unfold ticks at hm hpos
    omega
  · refine ⟨fun hk => ?_, fun _ _ => stoppedBefore_of_extends hx hbefore hrest⟩
    have hle := hrest.steps
    unfold ticks at hk
    omega

/-- An endless loop that prints a line in each pass. -/
def chant : List Node :=
  [.loop (some 1) (.literal (some 1) (.int 1) (some "INTEGER"))
    (.block (some 1) [.shout (some 1) (.literal (some 1) (.text "om") (some "STRING"))])]

/-- The endless loop under the limits 3 and 5: it is stopped after one line, and after two. -/
theorem limit_cuts_chant_short :
    StoppedBefore
      (run ⟨some 3, .fault, true⟩ 4 chant (.start Scope.empty []))
      (run ⟨some 5, .fault, true⟩ 4 chant (.start Scope.empty [])) :=
  ((limit_cuts_short .fault true chant Scope.empty []).2 3 (some 5) _ _ 4 6 (by decide)
    ⟨4, rfl, by decide, by decide⟩ ⟨4, rfl, by decide, by decide⟩).2 (by decide) (by decide)

/-- A run without any tick is not stopped, however low the limit is. -/
theorem limit_below_zero_spares_empty_spell :
    ¬ ∀ (m : Int) (limit : Option Int) (result result' : Ending × RunState) (k k' : Nat),
      (∀ m' ∈ limit, m ≤ m') →
      Halts ⟨some m, .fault, true⟩ [] (.start Scope.empty []) result k →
      Halts ⟨limit, .fault, true⟩ [] (.start Scope.empty []) result' k' →
      (k' ≤ m → SameRun result result') ∧ (m < k' → StoppedBefore result result') := by
  intro h
  have hstopped := (h (-1) none _ _ 0 0 nofun ⟨0, rfl, by decide, rfl⟩ ⟨0, rfl, by decide, rfl⟩).2
    (by decide)
  exact absurd hstopped.1 (by decide)

end Grimoire
