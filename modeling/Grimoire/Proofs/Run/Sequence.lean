import Grimoire.Proofs.Run.BlockScope
import Grimoire.Proofs.Run.Transport

/-!
# Spells in parts

A spell that asks for no replies can be cast in parts, one after the other, each with the globals
that the parts before it have left. What it prints is what the parts print, and it does not matter
which replies there would be.

The reason is that a casting without requests does not look at the replies or at the trace: `Grafts`
says that it does the same in a state with other replies and with more before its own trace.
-/

namespace Grimoire

/-- A state with the replies and the steps of another state, whose trace comes before its own. -/
def RunState.graft (base s : RunState) : RunState :=
  ⟨s.scopes, base.replies, base.steps, base.trace ++ s.trace⟩

/-- A run that goes on from a state, seen as one that starts afresh. -/
theorem RunState.graft_start {base : RunState} {globals : Scope}
    (h : base.scopes = Scopes.single globals) (replies : List (Option Text)) :
    base.graft (.start globals replies) = base := by
  unfold graft start
  rw [Array.append_empty, ← h]

namespace Casting

variable {α β : Type}

/-- The second casting does what the first does, and leaves alone what was there before. Both only
print. -/
structure Grafts (x y : Casting α) : Prop where
  result : ∀ base s, y (RunState.graft base s) = inState (RunState.graft base) (x s)
  printed : ∀ s, ∃ texts : List Text,
    (x.after s).trace.toList = s.trace.toList ++ texts.map Event.log

/-- What evaluations do by themselves prints at most, if they do not ask. -/
theorem Primitive.printed {terms : Terms} {x : Casting α} (h : Primitive False terms x)
    (s : RunState) : ∃ texts : List Text,
      (x.after s).trace.toList = s.trace.toList ++ texts.map Event.log := by
  have hnothing : ∃ texts : List Text, s.trace.toList = s.trace.toList ++ texts.map Event.log :=
    ⟨[], (List.append_nil _).symm⟩
  unfold after
  cases h with
  | fail f => exact hnothing
  | print text =>
    rw [print_apply]
    cases if terms.utf8 then Utf8.unencodable? text else none with
    | some flaw => exact hnothing
    | none => exact ⟨[text], Array.toList_push⟩
  | lookUp name =>
    rw [lookUp_apply]
    cases s.scopes.get? name <;> exact hnothing
  | define name value => exact hnothing
  | assign name value =>
    rw [assign_apply]
    cases s.scopes.assign? name value <;> exact hnothing
  | ask hfalse => exact hfalse.elim

namespace Grafts

/-- What is grafted on a state is carried along with its replies. -/
theorem carries {x y : Casting α} (h : Grafts x y) (base : RunState) :
    Carries base (fun _ => base.replies) x y := h.result base

/-- What leaves no trace can be grafted if it can be carried. -/
theorem of_trace_eq {x y : Casting α}
    (h : ∀ base, Carries base (fun _ => base.replies) x y)
    (htrace : ∀ s, (x.after s).trace = s.trace) : Grafts x y :=
  ⟨h, fun s => ⟨[], by rw [htrace, List.map_nil, List.append_nil]⟩⟩

/-- What an evaluation does by itself, other than asking, can be grafted on any state. -/
theorem primitive {terms : Terms} {x : Casting α} (h : Primitive False terms x) : Grafts x x :=
  have hcarries (base : RunState) : Carries base (fun _ => base.replies) x x :=
    .primitive False.elim h
  ⟨hcarries, h.printed⟩

/-- Castings in a row can be grafted if each of them can. -/
theorem bind {x y : Casting α} {f g : α → Casting β} (hxy : Grafts x y)
    (hfg : ∀ a, Grafts (f a) (g a)) : Grafts (x >>= f) (y >>= g) := by
  refine ⟨fun base => (hxy.carries base).bind fun a => (hfg a).carries base, fun s => ?_⟩
  -- If the first casting stops, the second one plays no part.
  obtain ⟨texts, htexts⟩ := hxy.printed s
  cases hx : x s with
  | error e s' =>
    rw [after_of_error hx] at htexts
    rw [after_bind_of_error hx]
    exact ⟨texts, htexts⟩
  | ok a s' =>
    rw [after_of_ok hx] at htexts
    rw [after_bind_of_ok hx]
    obtain ⟨texts', htexts'⟩ := (hfg a).printed s'
    exact ⟨texts ++ texts', by rw [htexts', htexts, List.map_append, List.append_assoc]⟩

theorem inNewScope {x y : Casting α} (h : Grafts x y) :
    Grafts (inNewScope x) (inNewScope y) := by
  refine ⟨fun base => (h.carries base).inNewScope, fun s => ?_⟩
  rw [after_inNewScope]
  exact h.printed { s with scopes := s.scopes.push }

end Grafts

/-- Without a limit of steps and without requests, nothing depends on the replies or on the
trace. -/
theorem congruence_grafts (silence silence' : Silence) (utf8 : Bool) (passes : Nat) :
    Congruence False Grafts (tick ⟨none, silence, utf8⟩) (tick ⟨none, silence', utf8⟩)
      ⟨none, silence, utf8⟩ ⟨none, silence', utf8⟩ passes passes where
  silence := False.elim
  utf8 := rfl
  pure _ := .of_trace_eq (fun _ _ => rfl) fun _ => rfl
  bind := .bind
  primitive := .primitive
  tick := .of_trace_eq (fun _ _ => rfl) fun _ => rfl
  inNewScope := .inNewScope
  loop hcondition hbody :=
    have hdone : Grafts (pure ()) (pure ()) := .of_trace_eq (fun _ _ => rfl) fun _ => rfl
    have hout : Grafts (throw .outOfPasses : Casting Unit) (throw .outOfPasses) :=
      .of_trace_eq (fun _ _ => rfl) fun _ => rfl
    whileTrue_congr hdone .bind hout hcondition (hdone.bind fun _ => hbody) passes

/-- At the end of a spell there are as many scopes as before. -/
theorem length_outer_spell {spell : List Node} {ts : List Token}
    (h : Spells .program (.program spell) ts) (terms : Terms) (passes : Nat) (s : RunState) :
    ((spell.forM (execute terms passes)).after s).scopes.outer.length = s.scopes.outer.length := by
  have hkeeps : Keeps (Local fun _ => True) (spell.forM (execute terms passes)) := by
    refine .forM spell fun node hnode => (still_tick terms).keeps.bind fun _ => ?_
    obtain ⟨us, hus⟩ := h.statement_of_mem hnode
    have hlocal : Keeps (Local node.Sets) (evaluate terms passes nestingLimit node) :=
      (keeps_statement terms passes hus).1
    refine Keeps.bind (hlocal.mono fun _ _ h => h.mono fun _ _ => trivial) fun _ => ?_
    exact (still_pure _).keeps
  exact (hkeeps s).length_eq

/-- To execute two lists in a row is to execute the first and then the second. -/
theorem forM_append (ss ss' : List Node) (act : Node → Casting Unit) :
    (ss ++ ss').forM act = ss.forM act >>= fun _ => ss'.forM act := List.forM_append

/-- When a spell has ended, all scopes of its blocks have been left. -/
theorem scopes_eq_single {spell : List Node} {ts : List Token}
    (hspells : Spells .program (.program spell) ts) {terms : Terms} {passes : Nat} {globals : Scope}
    {replies : List (Option Text)} {s : RunState}
    (h : spell.forM (execute terms passes) (.start globals replies) = .ok () s) :
    s.scopes = Scopes.single s.globals := by
  have hlength := length_outer_spell hspells terms passes (.start globals replies)
  rw [after_of_ok h] at hlength
  obtain ⟨⟨inner, outer⟩, replies, steps, trace⟩ := s
  obtain rfl := List.length_eq_zero_iff.mp hlength
  rfl

end Casting

open Casting

/-! ## Spells without requests -/

/-- Whatever replies there are, casting the spell with the given globals prints the texts, succeeds
and leaves other globals. -/
def Achieves (passes : Nat) (spell : List Node) (globals globals' : Scope) (texts : List Text) :
    Prop :=
  ∀ silence replies, run ⟨none, silence, true⟩ passes spell (.start globals replies) =
    (.success, ⟨Scopes.single globals', replies, 0, (texts.map Event.log).toArray⟩)

/-- A run succeeds exactly if its statements come to their end. -/
theorem run_eq_success {terms : Terms} {passes : Nat} {spell : List Node} {start s : RunState} :
    run terms passes spell start = (.success, s) ↔
      spell.forM (execute terms passes) start = .ok () s := by
  unfold run
  cases spell.forM (execute terms passes) start with
  | ok a s' => simp [conclude]
  | error e s' => cases e <;> simp [conclude]

/-- One successful run is enough to know all runs. -/
theorem achieves_of_run {passes : Nat} {spell : List Node} {ts : List Token}
    (hspells : Spells .program (.program spell) ts) (hasks : ¬(Node.program spell).Asks)
    {silence : Silence} {globals : Scope} {replies : List (Option Text)} {s : RunState}
    (h : run ⟨none, silence, true⟩ passes spell (.start globals replies) = (.success, s)) :
    ∃ texts : List Text, s.trace = (texts.map Event.log).toArray ∧
      Achieves passes spell globals s.globals texts := by
  rw [run_eq_success] at h
  have hgrafts (silence' : Silence) :=
    (congruence_grafts silence silence' true passes).spell spell hasks
  obtain ⟨texts, htexts⟩ := (hgrafts silence).printed (.start globals replies)
  have hafter : (spell.forM (executeWith (tick ⟨none, silence, true⟩) ⟨none, silence, true⟩
    passes)).after (.start globals replies) = s := after_of_ok h
  rw [hafter] at htexts
  have htrace : s.trace = (texts.map Event.log).toArray := by
    have hlist := congrArg List.toArray htexts
    rw [Array.toArray_toList] at hlist
    exact hlist
  have hsingle := scopes_eq_single hspells h
  refine ⟨texts, htrace, fun silence' replies' => run_eq_success.mpr ?_⟩
  -- Grafting the one run on the start of another gives that other run.
  have hresult := (hgrafts silence').result (.start globals replies') (.start globals replies)
  rw [RunState.graft_start rfl] at hresult
  refine (hresult.trans (congrArg _ h)).trans (congrArg (EStateM.Result.ok ()) ?_)
  unfold RunState.graft
  rw [hsingle, htrace]
  exact congrArg _ Array.empty_append

/-- **Spells in parts.** What succeeds as a whole succeeds in parts, one after the other. -/
theorem Achieves.append {passes : Nat} {ss ss' : List Node} {ts ts' : List Token}
    (hss : Spells .program (.program ss) ts) (hss' : Spells .program (.program ss') ts')
    (hasks : ¬(Node.program ss).Asks) (hasks' : ¬(Node.program ss').Asks)
    {globals globals' : Scope} {texts : List Text}
    (h : Achieves passes (ss ++ ss') globals globals' texts) :
    ∃ between first second, Achieves passes ss globals between first ∧
      Achieves passes ss' between globals' second ∧ texts = first ++ second := by
  have hwhole := run_eq_success.mp (h .fault [])
  rw [Casting.forM_append] at hwhole
  cases hfirst : ss.forM (execute ⟨none, .fault, true⟩ passes) (.start globals []) with
  | error e s =>
    rw [bind_of_error hfirst] at hwhole
    cases hwhole
  | ok a s =>
    rw [bind_of_ok hfirst] at hwhole
    obtain ⟨first, htrace, hachieves⟩ := achieves_of_run hss hasks (run_eq_success.mpr hfirst)
    have hsingle := run_eq_success.mp (hachieves .fault [])
    rw [hfirst] at hsingle
    have hscopes := congrArg RunState.scopes (EStateM.Result.ok.inj hsingle).2
    -- The second part goes on where the first ends, and does there what it does from the start.
    have hresult := ((congruence_grafts .fault .fault true passes).spell ss' hasks').result s
      (.start s.globals [])
    rw [RunState.graft_start hscopes] at hresult
    have hsecond := hresult.symm.trans hwhole
    cases hrun : ss'.forM (execute ⟨none, .fault, true⟩ passes) (.start s.globals []) with
    | error e s' => cases (congrArg (inState s.graft) hrun).symm.trans hsecond
    | ok a s' =>
      have hend := (congrArg (inState s.graft) hrun).symm.trans hsecond
      have hstate : s.graft s' = _ := (EStateM.Result.ok.inj hend).2
      have hglobals : s'.globals = globals' := congrArg RunState.globals hstate
      obtain ⟨second, htrace', hachieves'⟩ := achieves_of_run hss' hasks' (run_eq_success.mpr hrun)
      rw [hglobals] at hachieves'
      refine ⟨s.globals, first, second, hachieves, hachieves', ?_⟩
      have htexts : (first ++ second).map Event.log = texts.map Event.log := by
        have htraces := congrArg (·.trace.toList) hstate
        simp only [RunState.graft, htrace, htrace', List.append_toArray] at htraces
        rw [List.map_append]
        exact htraces
      exact (List.map_injective_iff.mpr (fun _ _ => Event.log.inj) htexts).symm

end Grimoire
