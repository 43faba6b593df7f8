import Grimoire.Proofs.Run.BlockScope
import Grimoire.Proofs.Run.StepLimit
import Grimoire.Proofs.Scope.Agreement

/-!
# Names that a spell does not mention

A name that stands nowhere in a spell plays no part in its runs: neither does the spell do anything
else because of how the name is bound, nor does it bind the name anew. These are two facts about
castings, each of them a congruence on the names that are mentioned.

* **`Unaware V`** compares two runs: started in states that agree on the names of `V`, a casting
  comes to the same end, and in states that agree again.
* **`Keeps (Scopes.AgreeOn W)`** looks at one run: the names of `W`, here all names that are not
  mentioned, are bound afterwards as they were before.
-/

namespace Grimoire

/-- States that differ in the bindings of names outside `V` at most. -/
structure RunState.AgreeOn (V : Text → Prop) (s t : RunState) : Prop where
  scopes : s.scopes.AgreeOn V t.scopes
  replies : s.replies = t.replies
  steps : s.steps = t.steps
  trace : s.trace = t.trace

/-- Whatever is recorded in both states, they still agree. -/
theorem RunState.AgreeOn.record {V : Text → Prop} {s t : RunState} (h : s.AgreeOn V t) (e : Event) :
    { s with trace := s.trace.push e }.AgreeOn V { t with trace := t.trace.push e } :=
  ⟨h.scopes, h.replies, h.steps, congrArg (·.push e) h.trace⟩

/-- The outermost scopes, which are the globals, agree as all scopes do. -/
theorem RunState.globals_agreeOn {W : Text → Prop} {s t : RunState}
    (h : s.scopes.AgreeOn W t.scopes) : s.globals.AgreeOn W t.globals :=
  ChainsAgree.getLast h _ _

namespace Casting

variable {α β : Type} {V : Text → Prop}

/-! ## Castings that do not notice a difference -/

/-- The same value or the same stop, in states that agree. -/
inductive OutcomesAgree (V : Text → Prop) :
    EStateM.Result Stop RunState α → EStateM.Result Stop RunState α → Prop where
  | ok (a : α) {s t : RunState} (h : s.AgreeOn V t) : OutcomesAgree V (.ok a s) (.ok a t)
  | error (e : Stop) {s t : RunState} (h : s.AgreeOn V t) : OutcomesAgree V (.error e s) (.error e t)

/-- From states that agree on the names of `V` the casting comes to the same, in states that
agree again. -/
def Unaware (V : Text → Prop) (x : Casting α) : Prop :=
  ∀ s t, s.AgreeOn V t → OutcomesAgree V (x s) (x t)

/-- States that agree on the names are followed by states that do. -/
theorem Unaware.after {x : Casting α} (hx : Unaware V x) {s t : RunState} (h : s.AgreeOn V t) :
    (x.after s).AgreeOn V (x.after t) := by
  have houtcomes := hx s t h
  unfold Casting.after
  generalize x s = r at houtcomes
  generalize x t = r' at houtcomes
  cases houtcomes with
  | ok _ h' | error _ h' => exact h'

theorem unaware_pure (a : α) : Unaware V (pure a) := fun _ _ h => .ok a h

theorem unaware_throw (e : Stop) : Unaware V (throw e : Casting α) := fun _ _ h => .error e h

theorem unaware_ofExcept (r : Except Fault α) : Unaware V (ofExcept r) := by
  cases r with
  | ok a => exact unaware_pure a
  | error f => exact unaware_throw (.fault f)

/-- What follows starts from states that agree, or does not start at all. -/
theorem Unaware.bind {x : Casting α} {f : α → Casting β} (hx : Unaware V x)
    (hf : ∀ a, Unaware V (f a)) : Unaware V (x >>= f) := by
  intro s t h
  have houtcomes := hx s t h
  generalize hs : x s = r at houtcomes
  generalize ht : x t = r' at houtcomes
  cases houtcomes with
  | ok a h' =>
    rw [bind_of_ok hs, bind_of_ok ht]
    exact hf a _ _ h'
  | error e h' =>
    rw [bind_of_error hs, bind_of_error ht]
    exact .error e h'

theorem Unaware.inNewScope {x : Casting α} (hx : Unaware V x) : Unaware V (inNewScope x) := by
  intro s t h
  have hpushed : { s with scopes := s.scopes.push }.AgreeOn V { t with scopes := t.scopes.push } :=
    ⟨h.scopes.push, h.replies, h.steps, h.trace⟩
  have houtcomes := hx _ _ hpushed
  unfold Casting.inNewScope
  generalize x { s with scopes := s.scopes.push } = r at houtcomes
  generalize x { t with scopes := t.scopes.push } = r' at houtcomes
  cases houtcomes with
  | ok a h' => exact .ok a ⟨h'.scopes.pop, h'.replies, h'.steps, h'.trace⟩
  | error e h' => exact .error e ⟨h'.scopes.pop, h'.replies, h'.steps, h'.trace⟩

/-- What an evaluation does by itself looks at the names that it mentions only. -/
theorem PrimitiveOn.unaware {asks : Prop} {terms : Terms} {x : Casting α}
    (hx : PrimitiveOn asks V terms x) : Unaware V x := by
  intro s t h
  cases hx with
  | fail f => exact .error _ h
  | print text =>
    rw [print_apply, print_apply]
    cases if terms.utf8 then Utf8.unencodable? text else none with
    | some flaw => exact .error _ h
    | none => exact .ok () (h.record _)
  | ask =>
    have hasked (replies : List (Option Text)) :
        (RunState.mk s.scopes replies s.steps (s.trace.push .request)).AgreeOn V
          ⟨t.scopes, replies, t.steps, t.trace.push .request⟩ :=
      ⟨h.scopes, rfl, h.steps, (h.record .request).trace⟩
    rw [ask_apply, ask_apply, h.replies]
    cases t.replies with
    | cons reply replies => exact unaware_ofExcept _ _ _ (hasked replies)
    | nil =>
      cases terms.silence with
      | fault | wait => exact .error _ (hasked [])
      | blank => exact unaware_ofExcept _ _ _ (hasked [])
  -- The name is one of those on which the states agree.
  | @lookUp name hname =>
    rw [lookUp_apply, lookUp_apply, h.scopes.get?_eq hname]
    cases t.scopes.get? name with
    | some value => exact .ok value h
    | none => exact .error _ h
  | @define name _ value => exact .ok () ⟨h.scopes.define name value, h.replies, h.steps, h.trace⟩
  | @assign name hname value =>
    rw [assign_apply, assign_apply]
    have hassigned := h.scopes.assign? hname value
    generalize s.scopes.assign? name value = r at hassigned
    generalize t.scopes.assign? name value = r' at hassigned
    cases hassigned with
    | none => exact .error _ h
    | some hscopes => exact .ok () ⟨hscopes, h.replies, h.steps, h.trace⟩

/-- States that agree have taken equally many steps. -/
theorem unaware_tally (terms : Terms) : Unaware V (tally terms) := by
  intro s t h
  have hcounted : { s with steps := s.steps + 1 }.AgreeOn V { t with steps := t.steps + 1 } :=
    ⟨h.scopes, h.replies, congrArg (· + 1) h.steps, h.trace⟩
  cases hlimit : terms.limit with
  | none =>
    have hfree : ∀ m ∈ terms.limit, (s.steps + 1 : Nat) ≤ m := by simp [hlimit]
    rw [tally_of_le hfree, tally_of_le (h.steps ▸ hfree)]
    exact .ok () hcounted
  | some m =>
    by_cases hm : m < (s.steps + 1 : Nat)
    · rw [tally_of_lt hlimit hm, tally_of_lt hlimit (h.steps ▸ hm)]
      exact .error _ hcounted
    · have hle : ∀ m' ∈ terms.limit, (s.steps + 1 : Nat) ≤ m' := by
        rw [hlimit]
        exact fun m' hm' => Option.some.inj hm' ▸ Int.not_lt.mp hm
      rw [tally_of_le hle, tally_of_le (h.steps ▸ hle)]
      exact .ok () hcounted

theorem unaware_tick (terms : Terms) : Unaware V (tick terms) := by
  cases hlimit : terms.limit with
  | none =>
    have hfree : tick terms = pure () := by
      unfold tick
      rw [hlimit]
    rw [hfree]
    exact unaware_pure ()
  | some m =>
    rw [← tally_of_limited hlimit]
    exact unaware_tally terms

/-- A loop is unaware of names if its condition and its body are. -/
theorem Unaware.whileTrue {condition : Casting Bool} {body : Casting Unit}
    (hcondition : Unaware V condition) (hbody : Unaware V body) (passes : Nat) :
    Unaware V (whileTrue condition body passes) :=
  @whileTrue_congr (fun {_} _ x => Unaware V x) (unaware_pure ()) .bind (unaware_throw _)
    condition condition body body hcondition hbody passes

/-- To be unaware of other names is a congruence on the castings that mention these only. -/
theorem congruence_unaware {tick : Casting Unit} (htick : Unaware V tick) (terms : Terms)
    (passes : Nat) :
    CongruenceOn True V (fun {_} _ x => Unaware V x) tick tick terms terms passes passes where
  silence _ := rfl
  print text := @PrimitiveOn.unaware _ V True terms _ (.print text)
  pure := unaware_pure
  bind := .bind
  primitive h := h.unaware
  tick := htick
  inNewScope := .inNewScope
  loop hcondition hbody := .whileTrue hcondition (htick.bind fun _ => hbody) passes

/-! ## Castings that leave names alone -/

variable {W : Text → Prop}

instance (W : Text → Prop) : IsPreorder Scopes (Scopes.AgreeOn W) where
  refl := .refl
  trans _ _ _ := .trans

/-- A scope that has been left is no matter, and the scopes around it are left alone. -/
theorem Keeps.agreeOn_inNewScope {x : Casting α} (h : Keeps (Scopes.AgreeOn W) x) :
    Keeps (Scopes.AgreeOn W) (Casting.inNewScope x) := by
  intro s
  rw [after_inNewScope]
  exact (h { s with scopes := s.scopes.push }).pop

/-- What an evaluation does by itself leaves the names alone that it does not mention. -/
theorem PrimitiveOn.keeps_others {asks : Prop} {terms : Terms} {x : Casting α}
    (hx : PrimitiveOn asks V terms x) : Keeps (Scopes.AgreeOn fun name => ¬V name) x := by
  cases hx with
  | fail f => exact (still_fail f).keeps
  | print text => exact (still_print terms text).keeps
  | ask => exact (still_ask terms).keeps
  | lookUp => exact (still_lookUp _).keeps
  | define hname value => exact fun s => .define_other (not_not_intro hname) s.scopes value
  | @assign name hname value =>
    intro s
    unfold after
    rw [assign_apply]
    cases hassigned : s.scopes.assign? name value with
    | none => exact .refl s.scopes
    | some scopes => exact .assign?_other (not_not_intro hname) hassigned

/-- To leave the other names alone is a congruence on the castings that mention these only. -/
theorem congruence_keeps_others (V : Text → Prop) (terms : Terms) (passes : Nat) :
    CongruenceOn True V (fun {_} _ x => Keeps (Scopes.AgreeOn fun name => ¬V name) x)
      (tick terms) (tick terms) terms terms passes passes where
  silence _ := rfl
  print text := (still_print terms text).keeps
  pure a := (still_pure a).keeps
  bind := .bind
  primitive h := h.keeps_others
  tick := (still_tick terms).keeps
  inNewScope := .agreeOn_inNewScope
  loop hcondition hbody := .whileTrue hcondition ((still_tick terms).keeps.bind fun _ => hbody) passes

end Casting

/-! ## Whole runs -/

open Casting

/-- Two runs that are the same in all that can be seen of them, and in the names of `V`. All other
names are bound after either run as they were before it. -/
structure SameOn (V : Text → Prop) (globals globals' : Scope) (result result' : Ending × RunState) :
    Prop where
  ending : result.1 = result'.1
  outputs : result.2.outputs = result'.2.outputs
  requests : result.2.requests = result'.2.requests
  steps : result.2.steps = result'.2.steps
  mentioned : result.2.globals.AgreeOn V result'.2.globals
  othersLeft : globals.AgreeOn (fun name => ¬V name) result.2.globals
  othersRight : globals'.AgreeOn (fun name => ¬V name) result'.2.globals

/-- Outcomes that agree are concluded in states that agree, and in the same way. -/
theorem conclude_agreeOn {V : Text → Prop} {r r' : EStateM.Result Stop RunState Unit}
    (h : OutcomesAgree V r r') :
    (conclude r).1 = (conclude r').1 ∧ (conclude r).2.AgreeOn V (conclude r').2 := by
  cases h with
  | ok a h => exact ⟨rfl, h⟩
  | error e h =>
    cases e with
    | fault f => exact ⟨rfl, h.record _⟩
    | outOfPasses | waiting => exact ⟨rfl, h⟩

variable {spell : List Node} {globals globals' : Scope}

/-- Runs with globals that agree start in states that agree. -/
theorem agreeOn_start {V : Text → Prop} (h : globals.AgreeOn V globals')
    (replies : List (Option Text)) :
    (RunState.start globals replies).AgreeOn V (.start globals' replies) :=
  ⟨.cons h .nil, rfl, rfl, rfl⟩

/-- Whatever a spell does not mention is as it was before the run. -/
theorem run_others (terms : Terms) (passes : Nat) (spell : List Node) (globals : Scope)
    (replies : List (Option Text)) :
    globals.AgreeOn (fun name => ¬(Node.program spell).Names name)
      (run terms passes spell (.start globals replies)).2.globals := by
  have hkeeps := (congruence_keeps_others (Node.program spell).Names terms passes).spell spell
    (fun _ => trivial) (fun _ => id) (.start globals replies)
  apply RunState.globals_agreeOn (s := .start globals replies)
  rw [scopes_run]
  exact hkeeps

/-- Globals that agree on the names of a spell make its runs the same on these names. -/
theorem run_sameOn (h : globals.AgreeOn (Node.program spell).Names globals') (terms : Terms)
    (replies : List (Option Text)) (passes : Nat) :
    SameOn (Node.program spell).Names globals globals'
      (run terms passes spell (.start globals replies))
      (run terms passes spell (.start globals' replies)) := by
  have houtcomes := (congruence_unaware (unaware_tick terms) terms passes).spell spell
    (fun _ => trivial) (fun _ => id) _ _ (agreeOn_start h replies)
  obtain ⟨hending, hagree⟩ := conclude_agreeOn houtcomes
  refine ⟨hending, ?_, ?_, hagree.steps, RunState.globals_agreeOn hagree.scopes,
    run_others terms passes spell globals replies, run_others terms passes spell globals' replies⟩
  · exact congrArg (fun trace : Array Event => trace.toList.filter (· ≠ .request)) hagree.trace
  · exact congrArg (fun trace : Array Event => trace.count .request) hagree.trace

/-- They make the runs take as many steps. -/
theorem ticks_eq_of_agreeOn (h : globals.AgreeOn (Node.program spell).Names globals')
    (terms : Terms) (replies : List (Option Text)) (passes : Nat) :
    ticks terms passes spell (.start globals replies) =
      ticks terms passes spell (.start globals' replies) := by
  have hunaware := (congruence_unaware (unaware_tally terms) terms passes).spell spell
    (fun _ => trivial) fun _ => id
  exact (hunaware.after (agreeOn_start h replies)).steps

/-- Where one of the two runs halts, the other one does after as many ticks. -/
theorem Halts.sameOn (h : globals.AgreeOn (Node.program spell).Names globals') {terms : Terms}
    {replies : List (Option Text)} {result : Ending × RunState} {k : Nat}
    (hhalts : Halts terms spell (.start globals replies) result k) :
    ∃ result', Halts terms spell (.start globals' replies) result' k ∧
      SameOn (Node.program spell).Names globals globals' result result' := by
  obtain ⟨passes, rfl, hne, rfl⟩ := hhalts
  have hsame := run_sameOn h terms replies passes
  have hticks := ticks_eq_of_agreeOn h terms replies passes
  exact ⟨_, ⟨passes, rfl, hsame.ending ▸ hne, hticks.symm⟩, hsame⟩

/-- **Names that a spell does not mention play no part.** Let a spell be run on the same terms and
with the same replies from two global scopes in which the names that stand in the spell are bound to
the same values, or not at all. Then both runs halt, after equally many ticks, or neither does, and
they come to the same: how they end, what is put out, how many replies are asked for, how many steps
are counted, and what the names of the spell are bound to in the end. All other names are bound as
before. The same holds of both runs up to any number of passes through their loops, so that it holds
of endless runs as far as one cares to follow them. -/
theorem unmentioned_names_play_no_part (terms : Terms) (spell : List Node)
    (replies : List (Option Text)) (globals globals' : Scope)
    (h : ∀ name, (Node.program spell).Names name → globals.get? name = globals'.get? name) :
    (∀ k, (∃ result, Halts terms spell (.start globals replies) result k) ↔
      ∃ result', Halts terms spell (.start globals' replies) result' k) ∧
    (∀ result result' k k', Halts terms spell (.start globals replies) result k →
      Halts terms spell (.start globals' replies) result' k' →
      k = k' ∧ SameOn (Node.program spell).Names globals globals' result result') ∧
    ∀ passes, SameOn (Node.program spell).Names globals globals'
      (run terms passes spell (.start globals replies))
      (run terms passes spell (.start globals' replies)) := by
  have h' : globals'.AgreeOn (Node.program spell).Names globals := fun name hname =>
    (h name hname).symm
  refine ⟨fun k => ⟨?_, ?_⟩, ?_, run_sameOn h terms replies⟩
  · rintro ⟨result, hhalts⟩
    obtain ⟨result', hhalts', -⟩ := hhalts.sameOn h
    exact ⟨result', hhalts'⟩
  · rintro ⟨result', hhalts'⟩
    obtain ⟨result, hhalts, -⟩ := hhalts'.sameOn h'
    exact ⟨result, hhalts⟩
  · intro result result' k k' hhalts hhalts'
    obtain ⟨result'', hhalts'', hsame⟩ := hhalts.sameOn h
    obtain ⟨rfl, rfl⟩ := hhalts''.unique hhalts'
    exact ⟨rfl, hsame⟩

/-- A loop that creates `b` in its block and ends by setting `a`, and then shouts the `b` outside. -/
def shadowing : List Node :=
  [.loop (some 1) (.name (some 1) "a") (.block (some 1)
      [.create (some 1) (.name (some 1) "b") (.name (some 1) "a"),
        .assign (some 1) (.name (some 1) "a") (.literal (some 1) (.text "") (some "STRING"))]),
    .shout (some 2) (.name (some 2) "b")]

/-- The two global scopes agree on `a` and `b`, and only one of them binds `c`. The spell shouts the
same in both, and `c` stays as it is. -/
theorem shadowing_ignores_other_names :
    let globals := Scope.ofList [("a", .int 1), ("b", .text "bell"), ("c", .int 3)]
    let globals' := Scope.ofList [("b", .text "bell"), ("a", .int 1)]
    let result := run ⟨some 9, .fault, true⟩ 2 shadowing (.start globals [])
    let result' := run ⟨some 9, .fault, true⟩ 2 shadowing (.start globals' [])
    (∀ name, (Node.program shadowing).Names name → globals.get? name = globals'.get? name) ∧
    result.2.outputs = [.log "bell"] ∧ result'.2.outputs = [.log "bell"] ∧
    result.2.globals.get? "c" = some (.int 3) ∧ result'.2.globals.get? "c" = none := by
  intro globals globals' result result'
  have hnames : ∀ name, (Node.program shadowing).Names name →
      globals.get? name = globals'.get? name := by
    intro name hname
    have hmentioned : name = "a" ∨ name = "b" := by
      rw [← Node.anyWithin_isName] at hname
      simp only [shadowing, Node.anyWithin, Node.anyWithinAll, Node.isName, Bool.or_eq_true,
        decide_eq_true_eq, Bool.false_eq_true, false_or, or_false] at hname
      grind
    rcases hmentioned with rfl | rfl <;> rfl
  have hsame := (unmentioned_names_play_no_part ⟨some 9, .fault, true⟩ shadowing [] globals globals'
    hnames).2.2 2
  have houtputs : result'.2.outputs = [.log "bell"] := by decide
  exact ⟨hnames, hsame.outputs.trans houtputs, houtputs, (hsame.othersLeft "c" (by decide)).symm,
    (hsame.othersRight "c" (by decide)).symm⟩

end Grimoire
