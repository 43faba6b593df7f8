import Grimoire.Proofs.Run.Sequence
import Grimoire.Proofs.Run.StepLimit
import Grimoire.Proofs.Token.Pieces
import Grimoire.Proofs.Tree.Relining

/-!
# One spell after the other

Two spells that stand one below the other in a text are one spell, and running it is running them in
turn: the second one starts with the globals and the replies that the first one has left.

* **`readSpell_below`**: nothing at the end of the first text reaches into the second one
  (`tokenize_below`), and no statement goes on beyond the end of its spell.
* **`run_append`**: a run goes on from the state that it has come to as it does from a fresh one,
  because it takes no notice of what has been printed and asked for (`Casting.Carries`).
-/

namespace Grimoire

open Casting

/-! ## Spells one below the other -/

namespace Grammar

/-- Two spells that fit a limit fit it one below the other. -/
theorem Fits.append {d : Nat} {p q : List Node} {ts us : List Token}
    (hp : Fits .program d (.program p) ts) (hq : Fits .program d (.program q) us) :
    Fits .program d (.program (p ++ q)) (ts ++ us) := by
  refine ⟨hp.1.program_append hq.1, Node.levelsOfAll_le.mpr fun s hs => ?_⟩
  rcases List.mem_append.mp hs with hs | hs
  · exact Node.levelsOfAll_le.mp hp.2 s hs
  · exact Node.levelsOfAll_le.mp hq.2 s hs

/-- A spell fits the same limit further down the text. -/
theorem Fits.down {d : Nat} {p : List Node} {ts : List Token}
    (h : Fits .program d (.program p) ts) (pos line : Nat) :
    Fits .program d (.program (p.map (Node.mapLine (· + line))))
      (ts.map (Token.down pos line)) := by
  have hspells := h.1.move (· + pos) (· + line)
  have hlevels := (Node.levels_mapLine (· + line) (.program p)).trans_le h.2
  rw [Node.mapLine, Node.mapLineOfAll_eq_map] at hspells hlevels
  exact ⟨hspells, hlevels⟩

end Grammar

/-- **A spell below another one** comes after its statements, with its lines shifted. -/
theorem readSpell_below {a b : Text} {p q : List Node} (ha : readSpell false a = .ok p)
    (hb : readSpell false b = .ok q) :
    readSpell false (a ++ "\n" ++ b) = .ok (p ++ q.map (Node.mapLine (· + a.height))) := by
  obtain ⟨ts, hts, hp⟩ := readSpell_eq_ok.mp ha
  obtain ⟨us, hus, hq⟩ := readSpell_eq_ok.mp hb
  have hboth := tokenize_below hts hus
  have hkind {source : Text} {ts : Tokens} (h : tokenize source = .ok ts) :
      ∀ t ∈ ts.body, t.kind ≠ .eof := (Scanner.tokenize_eq_ok.mp h).kind_ne_eof
  rw [parse_strict_eq_ok (hkind hts)] at hp
  rw [parse_strict_eq_ok (hkind hus)] at hq
  exact readSpell_eq_ok.mpr
    ⟨_, hboth, (parse_strict_eq_ok (hkind hboth)).mpr (hp.append (hq.down _ _))⟩

/-! ## Runs one after the other -/

/-- A run that goes on from a state, seen as one that starts afresh. -/
theorem RunState.altered_start {base : RunState} (h : base.scopes = Scopes.single base.globals) :
    base.altered id (.start base.globals base.replies) = base := by
  unfold altered start
  rw [Array.append_empty, ← h]
  rfl

/-- What has been printed and asked for before has no part in how a run is concluded. -/
theorem conclude_inState (base : RunState) (result : EStateM.Result Stop RunState Unit) :
    conclude (inState (base.altered id) result) =
      ((conclude result).1, base.altered id (conclude result).2) := by
  cases result with
  | ok a s => rfl
  | error e s =>
    cases e with
    | fault f =>
      -- The report is recorded like any other event.
      have hrecord : Carries base id (record (.error f.report)) (record (.error f.report)) :=
        .record _
      exact congrArg (Prod.mk Ending.failure) (EStateM.Result.ok.inj (hrecord s)).2
    | outOfPasses | waiting => rfl

section Runs

variable {silence : Silence} {utf8 : Bool} {passes : Nat} {p q : List Node} {globals : Scope}
  {replies : List (Option Text)}

/-- **A run goes on as it would start.** -/
theorem run_append {ts : List Token} (hp : Spells .program (.program p) ts) {s : RunState}
    (h : run ⟨none, silence, utf8⟩ passes p (.start globals replies) = (.success, s)) :
    run ⟨none, silence, utf8⟩ passes (p ++ q) (.start globals replies) =
      ((run ⟨none, silence, utf8⟩ passes q (.start s.globals s.replies)).1,
        s.altered id (run ⟨none, silence, utf8⟩ passes q (.start s.globals s.replies)).2) := by
  have hfirst := run_eq_success.mp h
  have hcarries : Carries s id (q.forM (execute ⟨none, silence, utf8⟩ passes))
      (q.forM (execute ⟨none, silence, utf8⟩ passes)) :=
    (congruence_carries (fun _ => rfl) (fun _ => rfl) utf8 passes).spell q fun _ => trivial
  have hsecond := hcarries (.start s.globals s.replies)
  rw [RunState.altered_start (scopes_eq_single hp hfirst)] at hsecond
  rw [run, forM_append, bind_of_ok hfirst, hsecond, conclude_inState]
  rfl

/-- Nothing is run after a spell that has stopped. -/
theorem Halts.append_of_stop {terms : Terms} {start : RunState} {result : Ending × RunState}
    {k : Nat} (h : Halts terms p start result k) (hstop : result.1 ≠ .success) :
    Halts terms (p ++ q) start result k := by
  obtain ⟨passes, rfl, hne, rfl⟩ := h
  refine ⟨passes, ?_⟩
  have htally := spell_tally terms passes p start
  cases hfirst : p.forM (execute terms passes) start with
  | ok a s => exact absurd (by rw [run, hfirst]; rfl) hstop
  | error e s =>
    rw [hfirst] at htally
    have hrun : run terms passes (p ++ q) start = run terms passes p start := by
      rw [run, run, forM_append, bind_of_error hfirst, hfirst]
    have hticks : ticks terms passes (p ++ q) start = ticks terms passes p start := by
      rw [ticks, ticks, forM_append, after_bind_of_error htally, after_of_error htally]
    exact ⟨hrun, hne, hticks⟩

end Runs

/-- The run `whole` is what came to the state `s`, and then the run `part`. -/
structure Continues (s : RunState) (part whole : Ending × RunState) : Prop where
  ending : whole.1 = part.1
  trace : whole.2.trace = s.trace ++ part.2.trace
  outputs : whole.2.outputs = s.outputs ++ part.2.outputs
  requests : whole.2.requests = s.requests + part.2.requests
  globals : whole.2.globals = part.2.globals
  replies : whole.2.replies = part.2.replies

/-- What comes of a run is put after what has come to its first state. -/
theorem continues_altered (s : RunState) (part : Ending × RunState) :
    Continues s part (part.1, s.altered id part.2) where
  ending := rfl
  trace := rfl
  outputs := by
    show List.filter _ (s.trace ++ part.2.trace).toList = _
    rw [Array.toList_append, List.filter_append]
    rfl
  requests := Array.count_append
  globals := rfl
  replies := rfl

section Continuing

variable {silence : Silence} {utf8 : Bool} {p q : List Node} {globals : Scope}
  {replies : List (Option Text)} {s : RunState}

/-- As soon as the passes suffice for the first spell, both spells in a row go on with the second
one. -/
theorem Halts.continues {ts : List Token} (hp : Spells .program (.program p) ts) {k : Nat}
    (h : Halts ⟨none, silence, utf8⟩ p (.start globals replies) (.success, s) k) :
    ∃ enough, ∀ passes ≥ enough,
      Continues s (run ⟨none, silence, utf8⟩ passes q (.start s.globals s.replies))
        (run ⟨none, silence, utf8⟩ passes (p ++ q) (.start globals replies)) := by
  obtain ⟨enough, hrun, hne, -⟩ := h
  refine ⟨enough, fun passes hle => ?_⟩
  have hmore := (run_eq_of_le (by rw [hrun]; exact hne) hle).1
  rw [run_append hp (hmore.trans hrun)]
  exact continues_altered s _

/-- If the second spell halts, so do both in a row. -/
theorem Halts.of_continues {spell whole : List Node} {start' start : RunState} {terms : Terms}
    {enough : Nat} (hcontinues : ∀ passes ≥ enough,
      Continues s (run terms passes spell start') (run terms passes whole start))
    {part : Ending × RunState} {l : Nat} (h : Halts terms spell start' part l) :
    ∃ result m, Halts terms whole start result m ∧ Continues s part result := by
  obtain ⟨passes, rfl, hne, -⟩ := h
  have hmax := (run_eq_of_le hne (Nat.le_max_left passes enough)).1
  have hboth := hcontinues _ (Nat.le_max_right passes enough)
  rw [hmax] at hboth
  exact ⟨_, _, ⟨max passes enough, rfl, hboth.ending ▸ hne, rfl⟩, hboth⟩

end Continuing

/-- **A spell below another one is run after it.** The text of two spells, one below the other, is
read as the statements of the first and then those of the second, whose lines are shifted. If the
run of the first succeeds, the run of both goes on as the second one runs from the globals and the
replies that are left: it ends in the same way, and its outputs and requests come after those of the
first, whether it halts or not. If the run of the first stops otherwise, the run of both is that
run. -/
theorem spell_below_runs_after {a b : Text} {p q : List Node} (ha : readSpell false a = .ok p)
    (hb : readSpell false b = .ok q) (silence : Silence) (utf8 : Bool) (globals : Scope)
    (replies : List (Option Text)) :
    ∃ whole, readSpell false (a ++ "\n" ++ b) = .ok whole ∧
      whole = p ++ q.map (Node.mapLine (· + a.height)) ∧
      (∀ s k, Halts ⟨none, silence, utf8⟩ p (.start globals replies) (.success, s) k →
        (∃ enough, ∀ passes ≥ enough,
          Continues s (run ⟨none, silence, utf8⟩ passes q (.start s.globals s.replies))
            (run ⟨none, silence, utf8⟩ passes whole (.start globals replies))) ∧
        ∀ part l, Halts ⟨none, silence, utf8⟩ q (.start s.globals s.replies) part l →
          ∃ result m, Halts ⟨none, silence, utf8⟩ whole (.start globals replies) result m ∧
            Continues s part result) ∧
      ∀ result k, Halts ⟨none, silence, utf8⟩ p (.start globals replies) result k →
        result.1 ≠ .success →
        Halts ⟨none, silence, utf8⟩ whole (.start globals replies) result k := by
  obtain ⟨ts, -, hparse⟩ := readSpell_eq_ok.mp ha
  obtain ⟨us, hp⟩ := parse_spelled hparse
  refine ⟨_, readSpell_below ha hb, rfl, fun s k hhalts => ?_, fun result k hhalts hstop => ?_⟩
  · obtain ⟨enough, hcontinues⟩ := hhalts.continues (q := q.map (Node.mapLine (· + a.height))) hp
    simp only [run_mapLine] at hcontinues
    exact ⟨⟨enough, hcontinues⟩, fun part l hpart => hpart.of_continues hcontinues⟩
  · exact hhalts.append_of_stop hstop

/-- Names a reply, and ends with a comment. -/
def naming : Text :=
  "create a new spell named x with the power of find the source of the messages # x"

/-- What the text is read as. -/
def namingSpell : List Node := [.create (some 1) (.name (some 1) "x") (.ask (some 1))]

/-- Cries the reply. -/
def crying : Text := "shout the many cries of x"

/-- What that text is read as. -/
def cryingSpell : List Node := [.shout (some 1) (.name (some 1) "x")]

/-- The second spell finds the name that the first one has bound, and the comment at the end of the
first does not swallow it. -/
theorem crying_below_naming :
    readSpell false naming = .ok namingSpell ∧ readSpell false crying = .ok cryingSpell ∧
    ∃ whole result k, readSpell false (naming ++ "\n" ++ crying) = .ok whole ∧
      Halts ⟨none, .fault, true⟩ whole (.start Scope.empty [some "ho"]) result k ∧
      result.1 = .success ∧ result.2.outputs = [.log "ho"] ∧ result.2.requests = 1 := by
  have hnaming : readSpell false naming = .ok namingSpell := rfl
  have hcrying : readSpell false crying = .ok cryingSpell := rfl
  have hfirst : Halts ⟨none, .fault, true⟩ namingSpell (.start Scope.empty [some "ho"])
      (.success, ⟨Scopes.single (Scope.empty.set "x" (.text "ho")), [], 0, #[.request]⟩) 1 :=
    ⟨0, by decide, by decide, by decide⟩
  have hsecond : Halts ⟨none, .fault, true⟩ cryingSpell
      (.start (Scope.empty.set "x" (.text "ho")) [])
      (.success, ⟨Scopes.single (Scope.empty.set "x" (.text "ho")), [], 0, #[.log "ho"]⟩) 1 :=
    ⟨0, by decide, by decide, by decide⟩
  obtain ⟨whole, hwhole, -, hsuccess, -⟩ :=
    spell_below_runs_after hnaming hcrying .fault true Scope.empty [some "ho"]
  obtain ⟨result, k, hhalts, hcontinues⟩ := (hsuccess _ _ hfirst).2 _ _ hsecond
  refine ⟨hnaming, hcrying, whole, result, k, hwhole, hhalts, hcontinues.ending, ?_, ?_⟩
  · rw [hcontinues.outputs]
    decide
  · rw [hcontinues.requests]
    decide

end Grimoire
