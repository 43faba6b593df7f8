import Grimoire.Console.Command
import Grimoire.Proofs.Run.Outcome
import Grimoire.Proofs.Tree.Conduct

/-!
# What is shown at the terminal

Reading a text and casting a spell at a terminal whose lines have an end, as single steps. A text is
read, or its reader has something to tell the user, or an integer is too long (`readSpell_cases`).
A spell that is cast is run with the lines as replies, and its events are shown one by one
(`cast_apply`).
-/

namespace Grimoire

/-- What the user is told about a text that is no spell, unless it is a limit of the machinery. -/
def ReadFailure.diagnostic? : ReadFailure → Option Diagnostic
  | .lexical e => some e.diagnostic
  | .parsing (.refused e) => some e.diagnostic
  | .parsing .tooDeep | .parsing (.tooLong _) => none

/-- A text is read, or the user can be told why not, or an integer in it is too long. -/
theorem readSpell_cases (lenient : Bool) (source : Text) :
    (∃ spell, readSpell lenient source = .ok spell) ∨
    (∃ failure diagnostic, readSpell lenient source = .error failure ∧
      failure.diagnostic? = some diagnostic) ∨
    ∃ ts t, tokenize source = .ok ts ∧ t ∈ ts.body ∧ t.isOverlong ∧
      readSpell lenient source = .error (.parsing (.tooLong t.text.length)) := by
  cases htokens : tokenize source with
  | error e =>
    refine .inr (.inl ⟨.lexical e, e.diagnostic, ?_, rfl⟩)
    unfold readSpell
    rw [htokens]
  | ok ts =>
    have hread : readSpell lenient source = (parse lenient ts).mapError .parsing := by
      unfold readSpell
      rw [htokens]
    rw [hread]
    cases hparse : parse lenient ts with
    | ok spell => exact .inl ⟨spell, rfl⟩
    | error failure =>
      cases failure with
      | refused e => exact .inr (.inl ⟨_, e.diagnostic, rfl, rfl⟩)
      -- the parser has turned it into a refusal
      | tooDeep => exact absurd hparse (parse_ne_tooDeep lenient ts)
      | tooLong digits =>
        obtain ⟨t, hmem, hlong, rfl⟩ := parse_tooLong hparse
        exact .inr (.inr ⟨ts, t, rfl, hmem, hlong, rfl⟩)

namespace Console

/-- An error as it is shown. -/
def complaint (color : Bool) (text : Text) : Stream × Text :=
  (.err, Severity.error.paint color text ++ "\n")

/-- The user is told what the diagnostic says, when nobody is debugging. -/
theorem explain_of_diagnostic {options : Options} (hdebug : options.debug = false)
    {failure : ReadFailure} {diagnostic : Diagnostic}
    (h : failure.diagnostic? = some diagnostic) (t : Terminal) :
    explain options failure t =
      .ok () { t with shown := t.shown.push (complaint options.color diagnostic.render) } := by
  have hcomplain (d : Diagnostic) : complainOf options d t =
      .ok () { t with shown := t.shown.push (complaint options.color d.render) } := by
    unfold complainOf complain
    rw [hdebug]
    rfl
  cases failure with
  | lexical e =>
    cases h
    exact hcomplain _
  | parsing failure =>
    cases failure with
    | refused e =>
      cases h
      exact hcomplain _
    | tooDeep | tooLong => cases h

/-- The run of a spell at the terminal: its replies are the lines, and empty ones after them. -/
def runOnLines (maxSteps : Option Int) (passes : Nat) (spell : List Node) (globals : Scope)
    (lines : List Text) : Ending × RunState :=
  run ⟨maxSteps, .blank, true⟩ passes spell (.start globals (lines.map some))

/-- Casting a spell is running it: what is seen of the run is shown, and the lines that it has not
asked for are left. -/
theorem cast_apply (color : Bool) (maxSteps : Option Int) (passes : Nat) (spell : List Node)
    (globals : Scope) (lines : List Text) (shown : Array (Stream × Text)) :
    cast color maxSteps passes spell globals ⟨lines, false, shown⟩ =
      let (ending, s) := runOnLines maxSteps passes spell globals lines
      let t : Terminal :=
        ⟨lines.drop s.requests, false, shown ++ (s.trace.toList.map (ofEvent color)).toArray⟩
      match ending with
      | .success => .ok (true, s.globals) t
      | .failure => .ok (false, s.globals) t
      | .outOfPasses => .error .outOfPasses t
      | .waiting => .error .waiting t := by
  have hreplies := replies_run ⟨maxSteps, .blank, true⟩ passes spell globals (lines.map some)
  unfold cast runOnLines
  show EStateM.bind EStateM.get _ _ = _
  unfold EStateM.bind EStateM.get
  dsimp only at hreplies ⊢
  rw [if_neg Bool.false_ne_true]
  generalize run ⟨maxSteps, .blank, true⟩ passes spell (.start globals (lines.map some)) = result
    at hreplies
  obtain ⟨ending, s⟩ := result
  have hlines : s.replies.map (Option.getD · []) = lines.drop s.requests := by
    rw [hreplies, ← List.map_drop, List.map_map]
    exact List.map_id _
  have hshown : s.trace.map (ofEvent color) = (s.trace.toList.map (ofEvent color)).toArray := by
    rw [← Array.toList_map]
  dsimp only
  rw [← hlines, ← hshown]
  cases ending <;> rfl

end Console
end Grimoire
