import Grimoire.Proofs.Console.Dialogue
import Grimoire.Proofs.Console.Showing

/-!
# A dialogue goes on

Whatever is typed, a dialogue goes on to the next line. What is no spell is reported, and so is a
spell that fails; either way the globals are kept, and the lines that are left are heard next
(`Heard`, `Goes`). A dialogue ends where the lines end and where the user quits.

There are two ways to break it off (`Breaks`). A loop may have no end, and then nothing comes after
it. And an integer may be too long to be read, which is not taken for a refusal of the text: that is
a gap, and **`dialogue_goes_on`** says that there is no other. In
**`dialogue_breaks_at_overlong_integer`** a dialogue ends there, with a line left that nobody hears.
-/

namespace Grimoire
namespace Console

/-- The text of the spell that a line completes. -/
def Dialogue.snippet (d : Dialogue) (line : Text) : Text :=
  Text.join "\n" (d.pending ++ [line]) ++ "\n"

/-- The run of a spell in a dialogue. -/
def Dialogue.run (d : Dialogue) (desk : Desk) (spell : List Node) (lines : List Text) :
    Ending × RunState :=
  runOnLines desk.options.maxSteps desk.passes spell d.globals lines

/-- A line is heard and the dialogue goes on, with something to remember, some lines that are left,
and something that is shown. -/
inductive Heard (desk : Desk) (d : Dialogue) (line : Text) (lines : List Text) :
    Dialogue → List Text → List (Stream × Text) → Prop where
  | idle (hturn : turn d.pending d.openBlocks line = .idle) : Heard desk d line lines d lines []
  | more {openBlocks : Int} (hturn : turn d.pending d.openBlocks line = .more openBlocks) :
      Heard desk d line lines { d with pending := d.pending ++ [line], openBlocks } lines []
  /-- What is no spell is reported, and nothing else happens. -/
  | unread {failure : ReadFailure} {diagnostic : Diagnostic}
      (hturn : turn d.pending d.openBlocks line = .complete)
      (hread : readSpell desk.options.lenient (d.snippet line) = .error failure)
      (hdiagnostic : failure.diagnostic? = some diagnostic) :
      Heard desk d line lines ⟨d.globals, [], 0⟩ lines
        [complaint desk.options.color diagnostic.render]
  | success {spell : List Node} {s : RunState}
      (hturn : turn d.pending d.openBlocks line = .complete)
      (hread : readSpell desk.options.lenient (d.snippet line) = .ok spell)
      (hrun : d.run desk spell lines = (.success, s))
      (hbinds : ∀ name, d.globals.binds name → s.globals.binds name)
      (hevents : ∀ text, .error text ∉ s.trace.toList) :
      Heard desk d line lines ⟨s.globals, [], 0⟩ (lines.drop s.requests)
        (s.trace.toList.map (ofEvent desk.options.color))
  /-- A spell that fails has done what it did before, and its fault is reported. -/
  | failure {spell : List Node} {s : RunState} {events : List Event} {fault : Fault}
      (hturn : turn d.pending d.openBlocks line = .complete)
      (hread : readSpell desk.options.lenient (d.snippet line) = .ok spell)
      (hrun : d.run desk spell lines = (.failure, s))
      (hbinds : ∀ name, d.globals.binds name → s.globals.binds name)
      (hevents : ∀ text, .error text ∉ events)
      (htrace : s.trace.toList = events ++ [.error fault.report]) :
      Heard desk d line lines ⟨s.globals, [], 0⟩ (lines.drop s.requests)
        (events.map (ofEvent desk.options.color) ++ [complaint desk.options.color fault.report])

/-- A line breaks the dialogue off. -/
inductive Breaks (desk : Desk) (d : Dialogue) (line : Text) (lines : List Text) :
    Exit → List Text → List (Stream × Text) → Prop where
  /-- A loop of the spell is not through after all the passes that are allowed. -/
  | endless {spell : List Node} {s : RunState}
      (hturn : turn d.pending d.openBlocks line = .complete)
      (hread : readSpell desk.options.lenient (d.snippet line) = .ok spell)
      (hrun : d.run desk spell lines = (.outOfPasses, s)) :
      Breaks desk d line lines .outOfPasses (lines.drop s.requests)
        (s.trace.toList.map (ofEvent desk.options.color))
  /-- An integer of the spell is too long to be read. -/
  | overlong {ts : Tokens} {t : Token}
      (hturn : turn d.pending d.openBlocks line = .complete)
      (htokens : tokenize (d.snippet line) = .ok ts) (hmem : t ∈ ts.body) (hlong : t.isOverlong)
      (hread : readSpell desk.options.lenient (d.snippet line) =
        .error (.parsing (.tooLong t.text.length))) :
      Breaks desk d line lines (.crash (.limit (.tooLongToRead t.text.length))) lines []

/-- A dialogue goes on for some lines, each of which is invited and heard. -/
inductive Goes (desk : Desk) :
    Dialogue → List Text → List (Stream × Text) → Dialogue → List Text → Prop where
  | refl (d : Dialogue) (lines : List Text) : Goes desk d lines [] d lines
  | cons {d d' d'' : Dialogue} {line : Text} {lines lines' lines'' : List Text}
      {events events' : List (Stream × Text)} (hheard : Heard desk d line lines d' lines' events)
      (hrest : Goes desk d' lines' events' d'' lines'') :
      Goes desk d (line :: lines) (prompt d :: (events ++ events')) d'' lines''

/-! ## One line -/

variable {desk : Desk}

/-- What comes of a line that is heard. -/
inductive Outcome (desk : Desk) (d : Dialogue) (line : Text) (lines : List Text)
    (shown : Array (Stream × Text)) : EStateM.Result Exit Terminal (Option Dialogue) → Prop where
  | quits (hturn : turn d.pending d.openBlocks line = .over) :
      Outcome desk d line lines shown (.ok none ⟨lines, false, shown⟩)
  | goesOn {d' : Dialogue} {lines' : List Text} {events : List (Stream × Text)}
      (h : Heard desk d line lines d' lines' events) :
      Outcome desk d line lines shown (.ok (some d') ⟨lines', false, shown ++ events.toArray⟩)
  | breaks {exit : Exit} {lines' : List Text} {events : List (Stream × Text)}
      (h : Breaks desk d line lines exit lines' events) :
      Outcome desk d line lines shown (.error exit ⟨lines', false, shown ++ events.toArray⟩)

/-- A line that completes a snippet has it submitted, and another one begins. -/
theorem hear_of_complete {d : Dialogue} {line : Text}
    (h : turn d.pending d.openBlocks line = .complete) (t : Terminal) :
    hear desk d line t = match submit desk d.globals (d.pending ++ [line]) t with
      | .ok globals t' => .ok (some ⟨globals, [], 0⟩) t'
      | .error exit t' => .error exit t' := by
  unfold hear
  rw [h]
  show EStateM.bind (submit desk d.globals (d.pending ++ [line])) _ t = _
  unfold EStateM.bind
  cases submit desk d.globals (d.pending ++ [line]) t <;> rfl

/-- A snippet that holds no spell is explained, and the globals are kept. -/
theorem submit_of_unread {d : Dialogue} {line : Text} {failure : ReadFailure}
    (h : readSpell desk.options.lenient (d.snippet line) = .error failure) (t : Terminal) :
    submit desk d.globals (d.pending ++ [line]) t = match explain desk.options failure t with
      | .ok _ t' => .ok d.globals t'
      | .error exit t' => .error exit t' := by
  unfold submit
  unfold Dialogue.snippet at h
  rw [h]
  show EStateM.bind (explain desk.options failure) _ t = _
  unfold EStateM.bind
  cases explain desk.options failure t <;> rfl

/-- The spell of a snippet is run on the lines that follow, and its globals are kept even if it
fails. -/
theorem submit_of_read {d : Dialogue} {line : Text} {spell : List Node}
    (h : readSpell desk.options.lenient (d.snippet line) = .ok spell) (lines : List Text)
    (shown : Array (Stream × Text)) :
    submit desk d.globals (d.pending ++ [line]) ⟨lines, false, shown⟩ =
      let (ending, s) := d.run desk spell lines
      let t : Terminal := ⟨lines.drop s.requests, false,
        shown ++ (s.trace.toList.map (ofEvent desk.options.color)).toArray⟩
      match ending with
      | .success => .ok s.globals t
      | .failure => .ok s.globals t
      | .outOfPasses => .error .outOfPasses t
      | .waiting => .error .waiting t := by
  unfold submit
  unfold Dialogue.snippet at h
  rw [h]
  show EStateM.bind (cast _ _ _ spell d.globals) _ _ = _
  unfold EStateM.bind
  rw [cast_apply]
  unfold Dialogue.run
  generalize runOnLines _ _ spell d.globals lines = result
  obtain ⟨ending, s⟩ := result
  cases ending <;> rfl

/-- A spell that is submitted and run: the dialogue goes on unless a loop has no end. -/
theorem outcome_of_read {d : Dialogue} {line : Text} {spell : List Node}
    (hturn : turn d.pending d.openBlocks line = .complete)
    (hread : readSpell desk.options.lenient (d.snippet line) = .ok spell) (lines : List Text)
    (shown : Array (Stream × Text)) :
    Outcome desk d line lines shown (hear desk d line ⟨lines, false, shown⟩) := by
  have hreports : Reports (d.run desk spell lines).1 (d.run desk spell lines).2.trace.toList :=
    run_reports (by simp) desk.passes spell rfl
  have hbinds (name : Text) (h : d.globals.binds name) :
      (d.run desk spell lines).2.globals.binds name := binds_globals_run _ _ _ _ _ h
  rw [hear_of_complete hturn, submit_of_read hread]
  cases hrun : d.run desk spell lines with
  | mk ending s =>
    rw [hrun] at hreports hbinds
    dsimp only at hreports hbinds ⊢
    generalize htrace : s.trace.toList = trace at hreports
    cases hreports with
    | success hevents =>
      subst htrace
      exact .goesOn (.success hturn hread hrun hbinds hevents)
    | failure hevents fault =>
      -- The report is the last of the events, and is shown as a complaint.
      have hheard := Heard.failure hturn hread hrun hbinds hevents htrace
      rw [List.map_append]
      exact .goesOn hheard
    | outOfPasses =>
      subst htrace
      exact .breaks (.endless hturn hread hrun)

/-- **What comes of a line**, when nobody is debugging. -/
theorem outcome_hear (hdebug : desk.options.debug = false) (d : Dialogue) (line : Text)
    (lines : List Text) (shown : Array (Stream × Text)) :
    Outcome desk d line lines shown (hear desk d line ⟨lines, false, shown⟩) := by
  have hquiet {d' : Dialogue} (hheard : Heard desk d line lines d' lines [])
      (hhear : hear desk d line = pure (some d')) :
      Outcome desk d line lines shown (hear desk d line ⟨lines, false, shown⟩) := by
    have hgoes : Outcome desk d line lines shown
        (.ok (some d') ⟨lines, false, shown ++ ([] : List (Stream × Text)).toArray⟩) :=
      .goesOn hheard
    rw [Array.append_empty] at hgoes
    rw [hhear]
    exact hgoes
  match hturn : turn d.pending d.openBlocks line with
  | .over =>
    unfold hear
    rw [hturn]
    exact .quits hturn
  | .idle =>
    refine hquiet (.idle hturn) ?_
    unfold hear
    rw [hturn]
  | .more openBlocks =>
    refine hquiet (.more hturn) ?_
    unfold hear
    rw [hturn]
  | .complete =>
    -- The snippet is read, or refused with a diagnostic, or has an integer that is too long.
    rcases readSpell_cases desk.options.lenient (d.snippet line) with ⟨spell, hread⟩ |
      ⟨failure, diagnostic, hread, hdiagnostic⟩ | ⟨ts, t, htokens, hmem, hlong, hread⟩
    · exact outcome_of_read hturn hread lines shown
    · rw [hear_of_complete hturn, submit_of_unread hread,
        explain_of_diagnostic hdebug hdiagnostic]
      exact .goesOn (.unread hturn hread hdiagnostic)
    · have hbreaks : Outcome desk d line lines shown
          (.error (.crash (.limit (.tooLongToRead t.text.length)))
            ⟨lines, false, shown ++ ([] : List (Stream × Text)).toArray⟩) :=
        .breaks (.overlong hturn htokens hmem hlong hread)
      rw [Array.append_empty] at hbreaks
      rw [hear_of_complete hturn, submit_of_unread hread]
      exact hbreaks

/-- Lines that are left are some of the lines before. -/
theorem Heard.length_le {d d' : Dialogue} {line : Text} {lines lines' : List Text}
    {events : List (Stream × Text)} (h : Heard desk d line lines d' lines' events) :
    lines'.length ≤ lines.length := by
  cases h with
  | idle | more | unread => exact Nat.le_refl _
  | success | failure =>
    rw [List.length_drop]
    exact Nat.sub_le _ _

/-! ## All lines -/

theorem converse_nil (fuel : Nat) (d : Dialogue) (shown : Array (Stream × Text)) :
    converse desk (fuel + 1) d ⟨[], false, shown⟩ =
      .ok d ⟨[], false, (shown.push (prompt d)).push (.out, "\n")⟩ := rfl

/-- A line is heard, and unless that ends the dialogue, it goes on with the other lines. -/
theorem converse_cons (fuel : Nat) (d : Dialogue) (line : Text) (lines : List Text)
    (shown : Array (Stream × Text)) :
    converse desk (fuel + 1) d ⟨line :: lines, false, shown⟩ =
      match hear desk d line ⟨lines, false, shown.push (prompt d)⟩ with
      | .ok none t => .ok d t
      | .ok (some d') t => converse desk fuel d' t
      | .error exit t => .error exit t := by
  show EStateM.bind (hear desk d line) _ ⟨lines, false, shown.push (prompt d)⟩ = _
  unfold EStateM.bind
  cases hear desk d line _ with
  | error exit t => rfl
  | ok d? t => cases d? <;> rfl

/-- Where a dialogue ends that has shown something so far: at the end of the lines, at a word that
ends it, or where it is broken off. -/
inductive Ends (desk : Desk) (d : Dialogue) (shown : Array (Stream × Text)) :
    List Text → EStateM.Result Exit Terminal Dialogue → Prop where
  | endOfLines :
      Ends desk d shown [] (.ok d ⟨[], false, shown ++ #[prompt d, (.out, "\n")]⟩)
  | quit {line : Text} {lines : List Text} (hpending : d.pending = [])
      (hword : line.trim ∈ quitWords) :
      Ends desk d shown (line :: lines) (.ok d ⟨lines, false, shown ++ #[prompt d]⟩)
  | broken {line : Text} {lines lines' : List Text} {exit : Exit} {events : List (Stream × Text)}
      (h : Breaks desk d line lines exit lines' events) :
      Ends desk d shown (line :: lines)
        (.error exit ⟨lines', false, shown ++ (prompt d :: events).toArray⟩)

/-- Only a word for it, at the beginning of a snippet, ends the dialogue. -/
theorem quits_of_over {pending : List Text} {openBlocks : Int} {line : Text}
    (h : turn pending openBlocks line = .over) : pending = [] ∧ line.trim ∈ quitWords := by
  unfold turn at h
  dsimp only at h
  split at h
  · assumption
  · split at h
    · cases h
    · split at h <;> cases h

theorem push_append_toArray (shown : Array (Stream × Text)) (event : Stream × Text)
    (events : List (Stream × Text)) :
    shown.push event ++ events.toArray = shown ++ (event :: events).toArray := by
  simp

/-- **A dialogue goes on to its end.** Induction on the number of turns that are left; every turn
takes a line. -/
theorem converse_goes (hdebug : desk.options.debug = false) (fuel : Nat) (d : Dialogue)
    (lines : List Text) (hfuel : lines.length < fuel) (shown : Array (Stream × Text)) :
    ∃ d' rest events, Goes desk d lines events d' rest ∧
      Ends desk d' (shown ++ events.toArray) rest (converse desk fuel d ⟨lines, false, shown⟩) := by
  induction fuel generalizing d lines shown with
  | zero => exact absurd hfuel (Nat.not_lt_zero _)
  | succ fuel ih =>
    cases lines with
    | nil =>
      refine ⟨d, [], [], .refl d [], ?_⟩
      rw [converse_nil, Array.append_empty, ← Array.append_singleton, ← Array.append_singleton,
        Array.append_assoc]
      exact .endOfLines
    | cons line lines =>
      have hlines : lines.length < fuel := Nat.lt_of_succ_lt_succ hfuel
      have houtcome := outcome_hear hdebug d line lines (shown.push (prompt d))
      rw [converse_cons]
      generalize hear desk d line ⟨lines, false, shown.push (prompt d)⟩ = result at houtcome
      cases houtcome with
      | quits hturn =>
        obtain ⟨hpending, hword⟩ := quits_of_over hturn
        refine ⟨d, line :: lines, [], .refl d _, ?_⟩
        rw [← Array.append_singleton, Array.append_empty]
        exact .quit hpending hword
      | @goesOn d' lines' events hheard =>
        -- The lines that a spell has taken are gone, so no more turns are left than lines.
        obtain ⟨d'', rest, events', hgoes, hends⟩ :=
          ih d' lines' (Nat.lt_of_le_of_lt hheard.length_le hlines)
            (shown.push (prompt d) ++ events.toArray)
        refine ⟨d'', rest, prompt d :: (events ++ events'), .cons hheard hgoes, ?_⟩
        rw [← push_append_toArray, ← List.append_toArray, ← Array.append_assoc]
        exact hends
      | @breaks exit lines' events hbreaks =>
        refine ⟨d, line :: lines, [], .refl d _, ?_⟩
        rw [push_append_toArray, Array.append_empty]
        exact .broken hbreaks

/-- **A dialogue goes on**, whatever is typed and whatever the options are, unless someone is
debugging. It hears one line after the other: what is no spell is reported and nothing else happens,
a spell is run with the globals so far, and if it fails that is reported and the globals that it
leaves are kept. It ends where the lines end, where the user quits, and in no other place but where
it is broken off, by a loop without an end or by an integer that is too long to be read. -/
theorem dialogue_goes_on (hdebug : desk.options.debug = false) (lines : List Text) :
    ∃ d rest events, Goes desk ⟨Scope.empty, [], 0⟩ lines events d rest ∧
      Ends desk d (shownLog "SpellCast REPL. Type :q to quit." :: events).toArray rest
        (dialogue desk (.start lines false)) := by
  obtain ⟨d, rest, events, hgoes, hends⟩ :=
    converse_goes hdebug (lines.length + 1) ⟨Scope.empty, [], 0⟩ lines (Nat.lt_succ_self _)
      #[shownLog "SpellCast REPL. Type :q to quit."]
  refine ⟨d, rest, events, hgoes, ?_⟩
  have hshown : #[shownLog "SpellCast REPL. Type :q to quit."] ++ events.toArray =
      (shownLog "SpellCast REPL. Type :q to quit." :: events).toArray := by
    simp
  rw [← hshown]
  exact hends

/-- Plain options, and no files. -/
def plainDesk : Desk := ⟨⟨false, false, false, none, ["repl"]⟩, fun _ => .error .notFound, 1⟩

/-- A string without an end, a statement that stops short, a name that is not bound, and a spell. -/
def blunders : List Text :=
  ["shout the many cries of 'ouch", "shout the", "shout the many cries of x",
    "shout the many cries of 2", "quit", "shout the many cries of 3"]

/-- Three lines fail in three different ways, and the fourth is still heard. -/
theorem dialogue_goes_on_after_blunders :
    plainDesk.options.debug = false ∧
    (∃ d rest events, Goes plainDesk ⟨Scope.empty, [], 0⟩ blunders events d rest ∧
      Ends plainDesk d (shownLog "SpellCast REPL. Type :q to quit." :: events).toArray rest
        (dialogue plainDesk (.start blunders false))) ∧
    let s := session ["repl", "--no-color"] plainDesk.opener 1 (.start blunders false)
    s.exit = none ∧
    s.terminal = ⟨["shout the many cries of 3"], false,
      #[(.out, "SpellCast REPL. Type :q to quit.\n"),
        (.out, "spell> "), (.err, "Lex error: unterminated string at line 1, col 25\n"),
        (.out, "spell> "),
        (.err, "Parse error: Expected keyword 'many', got EOF at line 2, col 1\n"),
        (.out, "spell> "), (.err, "Runtime Error: Undefined variable 'x'\n"),
        (.out, "spell> "), (.out, "2\n"), (.out, "spell> ")]⟩ :=
  ⟨rfl, dialogue_goes_on rfl blunders, by decide +kernel⟩

/-- A cry of more digits than can be read. -/
def overlongCry : Text := "shout the many cries of " ++ List.replicate 4301 ('1' : CodePoint)

/-- **A dialogue breaks at an integer that is too long.** Nothing is reported, and the line after it
is not heard. -/
theorem dialogue_breaks_at_overlong_integer :
    let s := session ["repl", "--no-color"] (fun _ => .error .notFound) 0
      (.start [overlongCry, "shout the many cries of 2"] false)
    s.exit = some (.crash (.limit (.tooLongToRead 4301))) ∧
    s.terminal = ⟨["shout the many cries of 2"], false,
      #[(.out, "SpellCast REPL. Type :q to quit.\n"), (.out, "spell> ")]⟩ := by
  decide +kernel

end Console
end Grimoire
