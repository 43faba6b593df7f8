import Mathlib
import Grimoire.Proofs.Console.Showing
import Grimoire.Proofs.Run.Printing

/-!
# Running a file

To run a file is to run the spell in it, seen through the terminal. The lines of the terminal are
the replies, and empty ones when they run out. Lines and requests of the run come one after the
other on the output, after a line that announces the run and, if it succeeds, before a line that
says so. What the run reports comes on the error stream.

At the terminal only a text with a UTF-8 form can be printed; the run that it is compared with
prints anything (`run_utf8`).
-/

namespace Grimoire

/-- What is seen of an event on the output of the terminal. -/
def Event.outText : Event → Text
  | .log text => text ++ "\n"
  | .request => requestPrompt ++ " "
  | .error _ => []

/-- What is seen of an event on the error stream of the terminal. -/
def Event.errText : Event → Text
  | .error text => text ++ "\n"
  | .log _ | .request => []

/-- Without a report the error stream is empty. -/
theorem flatMap_errText {events : List Event} (h : ∀ text, .error text ∉ events) :
    events.flatMap Event.errText = [] := by
  rw [List.flatMap_eq_nil_iff]
  intro event hevent
  cases event with
  | error text => exact absurd hevent (h text)
  | log | request => rfl

/-- How a session ends that runs one spell. -/
def Ending.exit? : Ending → Option Exit
  | .success => none
  | .failure => some .failure
  | .outOfPasses => some .outOfPasses
  | .waiting => some .waiting

namespace Console

/-! ## What is shown of a run -/

/-- A notice as it is shown. -/
def notice (color : Bool) (text : Text) : Stream × Text :=
  (.out, Severity.info.paint color text ++ "\n")

/-- A run as it is shown: it is announced, and if it has succeeded that is said. -/
def shownRun (color : Bool) (ending : Ending) (s : RunState) : List (Stream × Text) :=
  notice color "Casting spell..." :: s.trace.toList.map (ofEvent color) ++
    if ending = .success then [notice color "Spell finished."] else []

/-- The events of a run come out on two streams. -/
theorem onStream_events (lines : List Text) (events : List Event) :
    (⟨lines, false, (events.map (ofEvent false)).toArray⟩ : Terminal).onStream .out =
        events.flatMap Event.outText ∧
      (⟨lines, false, (events.map (ofEvent false)).toArray⟩ : Terminal).onStream .err =
        events.flatMap Event.errText := by
  unfold Terminal.onStream
  rw [List.flatMap_map, List.flatMap_map]
  constructor
  · congr 1
    funext event
    cases event <;> rfl
  · congr 1
    funext event
    cases event <;> rfl

/-- On the output stands what was printed, with a line before it and one after a success. -/
theorem onStream_out_shownRun (lines : List Text) (ending : Ending) (s : RunState) :
    (⟨lines, false, (shownRun false ending s).toArray⟩ : Terminal).onStream .out =
      "Casting spell...\n" ++ s.trace.toList.flatMap Event.outText ++
        if ending = .success then ("Spell finished.\n" : Text) else [] := by
  rw [← (onStream_events lines _).1]
  unfold shownRun Terminal.onStream
  rw [List.flatMap_append, List.flatMap_cons]
  congr 1
  split <;> rfl

/-- Among the errors stand the reports. -/
theorem onStream_err_shownRun (lines : List Text) (ending : Ending) (s : RunState) :
    (⟨lines, false, (shownRun false ending s).toArray⟩ : Terminal).onStream .err =
      s.trace.toList.flatMap Event.errText := by
  rw [← (onStream_events lines _).2]
  unfold shownRun Terminal.onStream
  rw [List.flatMap_append, List.flatMap_cons]
  cases ending <;> exact List.append_nil _

/-! ## The command -/

variable {desk : Desk} {path source : Text}

/-- A file that can be opened and decoded is read with its line breaks made alike. -/
theorem readFile_apply (hpath : ∀ c ∈ path, c.value ≠ 0) {bytes : List UInt8}
    (hopen : desk.opener path = .ok bytes) {text : Text} (hdecode : Utf8.decode bytes = .ok text)
    (t : Terminal) : readFile desk path t = .ok text.unifyNewlines t := by
  have hany : ¬path.any (·.value = 0) = true := by simpa using hpath
  unfold readFile
  rw [if_neg hany, hopen]
  simp only [hdecode]
  rfl

/-- A file that holds no spell is complained of, and nothing is run. -/
theorem runFile_of_unread (hdebug : desk.options.debug = false)
    (hfile : ∀ t, readFile desk path t = .ok source t) {failure : ReadFailure}
    (hread : readSpell desk.options.lenient source = .error failure) {diagnostic : Diagnostic}
    (hdiagnostic : failure.diagnostic? = some diagnostic) (t : Terminal) :
    runFile desk path t = .error .failure
      { t with shown := t.shown.push (complaint desk.options.color diagnostic.render) } := by
  unfold runFile
  show EStateM.bind (readFile desk path) _ t = _
  unfold EStateM.bind
  rw [hfile t]
  dsimp only
  rw [hread]
  show EStateM.bind (EStateM.bind (explain desk.options failure) _) _ t = _
  unfold EStateM.bind
  rw [explain_of_diagnostic hdebug hdiagnostic]
  rfl

/-- The spell of a file is run on the lines of the terminal. -/
theorem runFile_of_read (hfile : ∀ t, readFile desk path t = .ok source t) {spell : List Node}
    (hread : readSpell desk.options.lenient source = .ok spell) (lines : List Text) :
    runFile desk path (.start lines false) =
      let (ending, s) := runOnLines desk.options.maxSteps desk.passes spell Scope.empty lines
      let t : Terminal := ⟨lines.drop s.requests, false,
        (shownRun desk.options.color ending s).toArray⟩
      match ending.exit? with
      | none => .ok () t
      | some exit => .error exit t := by
  unfold runFile
  show EStateM.bind (readFile desk path) _ _ = _
  unfold EStateM.bind
  rw [hfile]
  dsimp only
  rw [hread]
  show EStateM.bind (cast _ _ _ spell Scope.empty) _
    ⟨lines, false, #[notice desk.options.color "Casting spell..."]⟩ = _
  unfold EStateM.bind
  rw [cast_apply]
  generalize runOnLines _ _ spell Scope.empty lines = result
  obtain ⟨ending, s⟩ := result
  have hshown : #[notice desk.options.color "Casting spell..."] ++
      (s.trace.toList.map (ofEvent desk.options.color)).toArray =
        (notice desk.options.color "Casting spell..." ::
          s.trace.toList.map (ofEvent desk.options.color)).toArray := by
    simp
  dsimp only
  rw [hshown]
  unfold shownRun
  cases ending with
  | success =>
    -- one more line is shown after a success
    rw [if_pos rfl, ← List.push_toArray]
    rfl
  | failure | outOfPasses | waiting =>
    rw [if_neg nofun, List.append_nil]
    rfl

/-- The word `run` and a path ask for the file there to be run. -/
theorem session_run {args : List Text} {debug color lenient : Bool} {maxSteps : Option Int}
    (hargs : Options.parse? args = some ⟨debug, color, lenient, maxSteps, [("run" : Text), path]⟩)
    (opener : Opener) (passes : Nat) (t : Terminal) :
    session args opener passes t =
      match runFile ⟨⟨debug, color, lenient, maxSteps, [("run" : Text), path]⟩, opener, passes⟩
        path t with
      | .ok _ t' => ⟨none, t'⟩
      | .error exit t' => ⟨some exit, t'⟩ := by
  unfold session serve
  rw [hargs]
  rfl

/-! ## The whole session -/

/-- A session has shown a run between its announcement and, if it has succeeded, the words that it
is finished, and has ended as the run has. -/
structure ShowsRun (result : Session) (lines : List Text) (ending : Ending) (s : RunState) :
    Prop where
  exit : result.exit = ending.exit?
  lines : result.terminal.lines = lines.drop s.requests
  out : result.terminal.onStream .out = "Casting spell...\n" ++
    s.trace.toList.flatMap Event.outText ++
      if ending = .success then ("Spell finished.\n" : Text) else []
  err : if ending = .failure then
      ∃ events, ∃ fault : Fault, s.trace.toList = events ++ [.error fault.report] ∧
        result.terminal.onStream .err = fault.report ++ "\n"
    else result.terminal.onStream .err = []

/-- A session that shows a run shows all of it, with the report at the end of a failure. -/
theorem showsRun_of_reports {ending : Ending} {s : RunState}
    (hreports : Reports ending s.trace.toList) (lines : List Text) :
    ShowsRun ⟨ending.exit?, ⟨lines.drop s.requests, false, (shownRun false ending s).toArray⟩⟩
      lines ending s := by
  refine ⟨rfl, rfl, onStream_out_shownRun _ ending s, ?_⟩
  rw [onStream_err_shownRun]
  generalize s.trace.toList = trace at hreports
  cases hreports with
  | success hevents | outOfPasses hevents =>
    rw [if_neg nofun]
    exact flatMap_errText hevents
  | @failure events hevents fault =>
    rw [if_pos rfl]
    refine ⟨events, fault, rfl, ?_⟩
    rw [List.flatMap_append, flatMap_errText hevents]
    exact List.append_nil _

/-- **Running a file is running its spell**, without colours and when nobody is debugging. A file
that holds no spell is not run: nothing is on the output, no line is read, the error stream says
why, and the session fails. A spell is run, with the lines as replies and empty ones after them, and
if all that it prints has a UTF-8 form, the output is what the run shows of lines and requests, and
it ends with the words that the spell is finished if the run succeeds. The session ends well in this
case only. If the run fails, its report is all there is on the error stream. -/
theorem running_shows_the_run {args : List Text} {lenient : Bool} {maxSteps : Option Int}
    (hargs : Options.parse? args = some ⟨false, false, lenient, maxSteps, [("run" : Text), path]⟩)
    (hpath : ∀ c ∈ path, c.value ≠ 0) {opener : Opener} {bytes : List UInt8}
    (hopen : opener path = .ok bytes) {text : Text} (hdecode : Utf8.decode bytes = .ok text)
    (hdigits : ∀ ts, tokenize text.unifyNewlines = .ok ts → ∀ t ∈ ts.body, t.isOverlong = false)
    (passes : Nat) (lines : List Text) :
    let result := session args opener passes (.start lines false)
    (∀ failure, readSpell lenient text.unifyNewlines = .error failure →
      ∃ diagnostic, failure.diagnostic? = some diagnostic ∧ result.exit = some .failure ∧
        result.terminal.lines = lines ∧ result.terminal.onStream .out = [] ∧
        result.terminal.onStream .err = diagnostic.render ++ "\n") ∧
    ∀ spell ending s, readSpell lenient text.unifyNewlines = .ok spell →
      run ⟨maxSteps, .blank, false⟩ passes spell (.start Scope.empty (lines.map some)) =
        (ending, s) → s.Encodable →
      ending ≠ .waiting ∧ ShowsRun result lines ending s := by
  intro result
  have hfile (t : Terminal) := @readFile_apply
    ⟨⟨false, false, lenient, maxSteps, [("run" : Text), path]⟩, opener, passes⟩ path hpath bytes
    hopen text hdecode t
  have hresult : result = _ := session_run hargs opener passes (.start lines false)
  refine ⟨fun failure hread => ?_, fun spell ending s hread hrun hencodable => ?_⟩
  · -- Of the three things that can happen, two are ruled out by what is known of the text.
    rcases readSpell_cases lenient text.unifyNewlines with ⟨spell, hspell⟩ |
      ⟨failure', diagnostic, hfailure, hdiagnostic⟩ | ⟨ts, t, htokens, hmem, hlong, -⟩
    · rw [hread] at hspell
      cases hspell
    · rw [hread] at hfailure
      cases hfailure
      rw [runFile_of_unread rfl hfile hread hdiagnostic] at hresult
      rw [hresult]
      exact ⟨diagnostic, hdiagnostic, rfl, rfl, rfl, List.append_nil _⟩
    · rw [hdigits ts htokens t hmem] at hlong
      cases hlong
  · have hreports := @run_reports ⟨maxSteps, .blank, false⟩ nofun passes spell
      (.start Scope.empty (lines.map some)) rfl
    have hsame := @run_utf8 maxSteps .blank passes spell (.start Scope.empty (lines.map some))
    rw [hrun] at hreports hsame
    have hlive : runOnLines maxSteps passes spell Scope.empty lines = (ending, s) :=
      hsame hencodable
    rw [runFile_of_read hfile hread] at hresult
    dsimp only at hresult hreports
    rw [hlive] at hresult
    have hshown : result = ⟨ending.exit?,
        ⟨lines.drop s.requests, false, (shownRun false ending s).toArray⟩⟩ := by
      rw [hresult]
      cases ending <;> rfl
    rw [hshown]
    refine ⟨?_, showsRun_of_reports hreports lines⟩
    -- no run that reports its ending is waiting
    intro hwaiting
    rw [hwaiting] at hreports
    cases hreports

/-- A spell that shouts a reply and then fails, as it stands in a file. -/
def echo : String :=
  "shout the many cries of find the source of the messages # é\r\nshout the many cries of x"

/-- What the file is read as. -/
def echoSpell : List Node :=
  [.shout (some 1) (.ask (some 1)), .shout (some 2) (.name (some 2) "x")]

/-- The state in which a run of the spell ends that has a reply to spare. -/
def echoed : RunState :=
  ⟨Scopes.single Scope.empty, [some "ho"], 0,
    #[.request, .log "hi", .error "Runtime Error: Undefined variable 'x'"]⟩

/-- The reply is echoed, the second line of the terminal is left, and the spell is not finished. -/
theorem running_echo :
    let args : List Text := ["run", "echo.spell", "--no-color"]
    let opener : Opener := fun _ => .ok echo.toUTF8.toList
    let result := session args opener 1 (.start ["hi", "ho"] false)
    Options.parse? args = some ⟨false, false, false, none, ["run", "echo.spell"]⟩ ∧
    Utf8.decode echo.toUTF8.toList = .ok (Text.ofString echo) ∧
    readSpell false (Text.ofString echo).unifyNewlines = .ok echoSpell ∧
    run ⟨none, .blank, false⟩ 1 echoSpell (.start Scope.empty [some "hi", some "ho"]) =
      (.failure, echoed) ∧ echoed.Encodable ∧
    ShowsRun result ["hi", "ho"] .failure echoed ∧
    result.terminal.onStream .out =
      "Casting spell...\nEnter the source of the messages: hi\n" ∧
    result.terminal.onStream .err = "Runtime Error: Undefined variable 'x'\n" := by
  intro args opener result
  have hargs : Options.parse? args = some ⟨false, false, false, none, ["run", "echo.spell"]⟩ := by
    decide +kernel
  have hdecode : Utf8.decode echo.toUTF8.toList = .ok (Text.ofString echo) := by decide +kernel
  have hread : readSpell false (Text.ofString echo).unifyNewlines = .ok echoSpell := by
    cbv
  have hrun : run ⟨none, .blank, false⟩ 1 echoSpell (.start Scope.empty [some "hi", some "ho"]) =
      (.failure, echoed) := by
    decide +kernel
  have hdigits : ∀ ts, tokenize (Text.ofString echo).unifyNewlines = .ok ts →
      ∀ t ∈ ts.body, t.isOverlong = false := by
    have hall : (tokenize (Text.ofString echo).unifyNewlines).toOption.all fun ts =>
        ts.body.all (!·.isOverlong) := by
      decide +kernel
    intro ts hts t hmem
    rw [hts] at hall
    simpa using List.all_eq_true.mp hall t hmem
  have hopen : opener "echo.spell" = .ok echo.toUTF8.toList := rfl
  have hencodable : echoed.Encodable := by
    intro text hmem
    obtain rfl : text = "hi" := by simpa [echoed] using hmem
    decide
  have hshows := (running_shows_the_run hargs (by decide) hopen hdecode hdigits 1 ["hi", "ho"]).2
    echoSpell .failure echoed hread hrun hencodable
  exact ⟨hargs, hdecode, hread, hrun, hencodable, hshows.2, hshows.2.out.trans (by decide),
    by decide +kernel⟩

end Console
end Grimoire
