import Mathlib
import Grimoire.Console.Command
import Grimoire.Proofs.Console.Layout
import Grimoire.Proofs.Run.Sequence

/-!
# Typing a spell is running it

A spell that is typed into a dialogue line by line does what it does when it is run as a whole. The
dialogue submits its lines in parts, each of which holds whole statements, because it waits for more
lines exactly as long as a statement goes on (`Laid.between_or_open`). The parts are cast one after
the other with the globals that are left, which is what casting the whole spell means
(`Achieves.append`).

The dialogue does not keep what it has submitted. `converseNoting` is the same dialogue with a note
of that.
-/

namespace Grimoire
namespace Console

/-! ## What is submitted -/

/-- The lines that are submitted because of a line. -/
def submitted (d : Dialogue) (line : Text) : List (List Text) :=
  if turn d.pending d.openBlocks line = .complete then [d.pending ++ [line]] else []

/-- Goes on with a dialogue, and notes what is submitted on the way. -/
def converseNoting (desk : Desk) :
    (fuel : Nat) → Dialogue → Console (Dialogue × List (List Text))
  | 0, d => pure (d, [])
  | fuel + 1, d => do
    put .out (if d.pending = [] then "spell> " else "...> ")
    match ← readLine with
    | none =>
      say ""
      return (d, [])
    | some line =>
      match ← hear desk d line with
      | none => return (d, [])
      | some d' =>
        let (last, snippets) ← converseNoting desk fuel d'
        return (last, submitted d line ++ snippets)

/-- A dialogue that notes what is submitted. -/
def dialogueNoting (desk : Desk) : Console (Dialogue × List (List Text)) := do
  say "SpellCast REPL. Type :q to quit."
  converseNoting desk ((← get).lines.length + 1) ⟨Scope.empty, [], 0⟩

/-- What invites the user to type. -/
def prompt (d : Dialogue) : Stream × Text := (.out, if d.pending = [] then "spell> " else "...> ")

theorem converseNoting_nil (desk : Desk) (fuel : Nat) (d : Dialogue)
    (shown : Array (Stream × Text)) :
    converseNoting desk (fuel + 1) d ⟨[], false, shown⟩ = .ok (d, [])
      ⟨[], false, (shown.push (prompt d)).push (.out, "\n")⟩ := rfl

/-- A line is heard, and unless that ends the dialogue, it goes on with the other lines. -/
theorem converseNoting_cons (desk : Desk) (fuel : Nat) (d : Dialogue) (line : Text)
    (lines : List Text) (isOpen : Bool) (shown : Array (Stream × Text)) :
    converseNoting desk (fuel + 1) d ⟨line :: lines, isOpen, shown⟩ =
      match hear desk d line ⟨lines, isOpen, shown.push (prompt d)⟩ with
      | .ok none t => .ok (d, []) t
      | .ok (some d') t =>
        match converseNoting desk fuel d' t with
        | .ok (last, snippets) t' => .ok (last, submitted d line ++ snippets) t'
        | .error e t' => .error e t'
      | .error e t => .error e t := by
  show EStateM.bind (hear desk d line) _ ⟨lines, isOpen, shown.push (prompt d)⟩ = _
  unfold EStateM.bind
  cases hear desk d line _ with
  | error e t => rfl
  | ok d' t =>
    cases d' with
    | none => rfl
    | some d' =>
      show EStateM.bind (converseNoting desk fuel d') _ t = _
      unfold EStateM.bind
      cases hrest : converseNoting desk fuel d' t with
      | error e t' => simp only [hrest]
      | ok r t' =>
        simp only [hrest]
        rfl

/-- To note what is submitted does not change the dialogue. -/
theorem converse_eq (desk : Desk) (fuel : Nat) (d : Dialogue) (t : Terminal) :
    converse desk fuel d t = (Prod.fst <$> converseNoting desk fuel d) t := by
  induction fuel generalizing d t with
  | zero => rfl
  | succ fuel ih =>
    show _ = EStateM.map _ _ _
    obtain ⟨lines, isOpen, shown⟩ := t
    cases lines with
    | nil => cases isOpen <;> rfl
    | cons line lines =>
      unfold EStateM.map
      rw [converseNoting_cons]
      show EStateM.bind (hear desk d line) _ ⟨lines, isOpen, shown.push (prompt d)⟩ = _
      unfold EStateM.bind
      cases hear desk d line _ with
      | error e t => rfl
      | ok d' t =>
        cases d' with
        | none => rfl
        | some d' =>
          show converse desk fuel d' t = _
          rw [ih]
          show EStateM.map _ _ _ = _
          unfold EStateM.map
          dsimp only
          cases converseNoting desk fuel d' t <;> rfl

theorem dialogue_eq (desk : Desk) (t : Terminal) :
    dialogue desk t = (Prod.fst <$> dialogueNoting desk) t :=
  converse_eq desk _ _ _

/-! ## Casting what is submitted -/

/-- A text that a spell prints, as it is shown. -/
def shownLog (text : Text) : Stream × Text := (.out, text ++ "\n")

/-- A spell of known effect, on whatever lines it stands, is cast with that effect. -/
theorem cast_of_achieves {passes : Nat} {ss : List Node} {globals globals' : Scope}
    {texts : List Text} (h : Achieves passes ss globals globals' texts) (color : Bool)
    (f : Nat → Nat) (t : Terminal) :
    cast color none passes (ss.map (Node.mapLine f)) globals t =
      .ok (true, globals') { t with shown := t.shown ++ (texts.map shownLog).toArray } := by
  obtain ⟨lines, isOpen, shown⟩ := t
  -- The lines that are still to be typed are offered as replies and come back untouched.
  have hrun := h (if isOpen then .wait else .blank) (lines.map some)
  rw [← run_mapLine _ _ f] at hrun
  have hlines : (lines.map some).map (Option.getD · []) = lines := by
    rw [List.map_map]
    exact List.map_id _
  have hlogs : (texts.map Event.log).toArray.map (ofEvent color) =
      (texts.map shownLog).toArray := by
    rw [List.map_toArray, List.map_map]
    rfl
  unfold cast
  show EStateM.bind EStateM.get _ _ = _
  unfold EStateM.bind EStateM.get
  dsimp only
  rw [hrun]
  show EStateM.Result.ok (true, globals') (⟨(lines.map some).map (Option.getD · []), isOpen,
    shown ++ (texts.map Event.log).toArray.map (ofEvent color)⟩ : Terminal) = _
  rw [hlines, hlogs]

/-- What is submitted is cast with the globals so far. -/
theorem submit_of_achieves {desk : Desk} (hsteps : desk.options.maxSteps = none)
    {snippet : List Text} {ss : List Node} {f : Nat → Nat} {globals globals' : Scope}
    {texts : List Text}
    (hread : readSpell false (Text.join "\n" snippet ++ "\n") = .ok (ss.map (Node.mapLine f)))
    (h : Achieves desk.passes ss globals globals' texts) (t : Terminal) :
    submit desk globals snippet t =
      .ok globals' { t with shown := t.shown ++ (texts.map shownLog).toArray } := by
  unfold submit
  rw [readSpell_of_strict hread, hsteps]
  show EStateM.bind (cast _ none desk.passes (ss.map (Node.mapLine f)) globals) _ _ = _
  unfold EStateM.bind
  rw [cast_of_achieves h]
  rfl

/-! ## Going through the lines -/

/-- The prompts, at the beginning of a snippet and inside one. -/
def prompts : List (Stream × Text) := [(.out, "spell> "), (.out, "...> ")]

/-- What is shown besides the prompts. -/
def unprompted (events : List (Stream × Text)) : List (Stream × Text) :=
  events.filter fun event => decide (event ∉ prompts)

/-- The lines that a spell prints are no prompts. -/
theorem unprompted_shownLog (texts : List Text) :
    unprompted (texts.map shownLog) = texts.map shownLog := by
  refine List.filter_eq_self.mpr fun event hevent => ?_
  obtain ⟨text, -, rfl⟩ := List.mem_map.mp hevent
  refine decide_eq_true fun hmem => ?_
  simp only [prompts, shownLog, List.mem_cons, List.not_mem_nil, or_false, Prod.mk.injEq,
    true_and] at hmem
  -- A prompt does not end with a line break.
  have hlast : (text ++ "\n" : Text).getLast? = some ('\n' : CodePoint) := List.getLast?_concat
  rcases hmem with heq | heq
  · rw [heq] at hlast
    exact absurd hlast (by decide)
  · rw [heq] at hlast
    exact absurd hlast (by decide)

/-- A spell does not start with a word that ends the dialogue. -/
theorem trim_notMem_quitWords {pos line : Nat} {l : Text} {ls : List Text} {spell : List Node}
    (h : Laid pos line (l :: ls) spell) : l.trim ∉ quitWords := by
  intro hmem
  have hwords : ∀ word ∈ quitWords, ∃ c cs, word = c :: cs ∧
      (c.isBlank || decide (c = '#')) = false ∧ (c.isQuote || c.isDigit) = false ∧
      ∀ order ∈ orderWords, order.head? ≠ some c := by
    intro word hword
    simp only [quitWords, List.mem_cons, List.not_mem_nil, or_false] at hword
    rcases hword with rfl | rfl | rfl | rfl <;>
      exact ⟨_, _, rfl, by decide, by decide, by decide⟩
  -- So the line would start with a token that starts no statement.
  obtain ⟨c, cs, htrim, htrivia, hc, horder⟩ := hwords _ hmem
  obtain ⟨ts, hts⟩ := h.tokens l List.mem_cons_self
  obtain ⟨t, us, hbody, hhead⟩ := lineTokens_of_trim htrim htrivia hc hts
  have hline : lineTokens l = t :: us := by
    unfold lineTokens
    rw [hts]
    exact hbody
  have hspells := h.fits.1
  rw [tokensBelow, hline] at hspells
  generalize hall : ((t :: us).map (Token.down pos line) ++ tokensBelow _ _ ls) = all at hspells
  cases hspells with
  | nil => cases hall
  | cons hs hss =>
    obtain ⟨first, rest, rfl, -, -, hfirst⟩ := hs.statement_head
    obtain ⟨rfl, -⟩ := List.cons.inj hall
    exact horder _ hfirst hhead

/-- Where no word ends the dialogue, the open blocks decide whether a snippet is complete. -/
theorem turn_eq (pending : List Text) (openBlocks : Int) (l : Text)
    (h : pending = [] → l.trim ∉ quitWords) :
    turn pending openBlocks l =
      if pending = [] ∧ l.trim = [] then .idle
      else if 0 < openBlocks + lineBalance l then .more (openBlocks + lineBalance l)
      else .complete := by
  unfold turn
  dsimp only
  rw [if_neg fun hquit => h hquit.1 hquit.2]

/-- The snippets are read as parts of the spell that make up the whole spell, but for the numbers of
the lines. -/
def Divides (snippets : List (List Text)) (spell : List Node) : Prop :=
  ∃ parts : List (List Node),
    List.Forall₂ (fun snippet part => readSpell false (Text.join "\n" snippet ++ "\n") = .ok part)
      snippets parts ∧
    parts.flatten.map (Node.mapLine fun _ => 0) = spell.map (Node.mapLine fun _ => 0)

theorem Divides.nil : Divides [] [] := ⟨[], .nil, rfl⟩

/-- A snippet that is read as the first part, and snippets that make up the rest. -/
theorem Divides.cons {snippet : List Text} {snippets : List (List Text)} {ss ss' : List Node}
    {f : Nat → Nat}
    (h : readSpell false (Text.join "\n" snippet ++ "\n") = .ok (ss.map (Node.mapLine f)))
    (hrest : Divides snippets ss') : Divides (snippet :: snippets) (ss ++ ss') := by
  obtain ⟨parts, hparts, heq⟩ := hrest
  refine ⟨ss.map (Node.mapLine f) :: parts, .cons h hparts, ?_⟩
  have hlines : (ss.map (Node.mapLine f)).map (Node.mapLine fun _ => 0) =
      ss.map (Node.mapLine fun _ => 0) := by
    rw [List.map_map]
    exact List.map_congr_left fun s _ => s.mapLine_mapLine f _
  rw [List.flatten_cons, List.map_append, List.map_append, heq, hlines]

/-- From the given state the dialogue goes on to the end of the lines, submits the spell in parts,
shows what the spell prints, and ends with the given globals. -/
def Serves (desk : Desk) (d : Dialogue) (lines : List Text) (spell : List Node) (globals : Scope)
    (texts : List Text) : Prop :=
  ∀ shown, ∃ (snippets : List (List Text)) (events : List (Stream × Text)),
    converseNoting desk (lines.length + 1) d ⟨lines, false, shown⟩ =
      .ok (⟨globals, [], 0⟩, snippets)
        ⟨[], false, shown ++ (events ++ [shownLog ""]).toArray⟩ ∧
    Divides snippets spell ∧ unprompted events = texts.map shownLog

theorem prompt_mem_prompts (d : Dialogue) : prompt d ∈ prompts := by
  unfold prompt
  split
  · exact List.mem_cons_self
  · exact List.mem_cons_of_mem _ List.mem_cons_self

theorem unprompted_cons_prompt (d : Dialogue) (events : List (Stream × Text)) :
    unprompted (prompt d :: events) = unprompted events :=
  List.filter_cons_of_neg (by simp [prompt_mem_prompts d])

/-- One more line: what it makes the dialogue show, and what comes after it. -/
theorem Serves.cons {desk : Desk} {d d' : Dialogue} {l : Text} {lines : List Text}
    {spell spell' : List Node} {globals : Scope} {first texts : List Text}
    (hhear : ∀ shown, hear desk d l ⟨lines, false, shown⟩ =
      .ok (some d') ⟨lines, false, shown ++ (first.map shownLog).toArray⟩)
    (hdivides : ∀ snippets, Divides snippets spell' → Divides (submitted d l ++ snippets) spell)
    (h : Serves desk d' lines spell' globals texts) :
    Serves desk d (l :: lines) spell globals (first ++ texts) := by
  intro shown
  obtain ⟨snippets, events, hrest, hsnippets, hevents⟩ :=
    h (shown.push (prompt d) ++ (first.map shownLog).toArray)
  refine ⟨submitted d l ++ snippets, prompt d :: (first.map shownLog ++ events), ?_,
    hdivides _ hsnippets, ?_⟩
  · rw [List.length_cons, converseNoting_cons, hhear]
    dsimp only
    rw [hrest]
    simp
  · rw [unprompted_cons_prompt]
    unfold unprompted at hevents ⊢
    rw [List.filter_append, hevents, List.map_append]
    exact congrArg (· ++ _) (unprompted_shownLog first)

/-- A line that is taken in silence. -/
theorem Serves.quiet {desk : Desk} {d d' : Dialogue} {l : Text} {lines : List Text}
    {spell : List Node} {globals : Scope} {texts : List Text}
    (hhear : hear desk d l = pure (some d')) (hturn : turn d.pending d.openBlocks l ≠ .complete)
    (h : Serves desk d' lines spell globals texts) :
    Serves desk d (l :: lines) spell globals texts := by
  have hhear (shown : Array (Stream × Text)) : hear desk d l ⟨lines, false, shown⟩ =
      .ok (some d') ⟨lines, false, shown ++ (([] : List Text).map shownLog).toArray⟩ := by
    rw [hhear, List.map_nil, Array.append_empty]
    rfl
  refine Serves.cons hhear (fun snippets hsnippets => ?_) h
  unfold submitted
  rw [if_neg hturn]
  exact hsnippets

/-- A line that completes some statements. -/
theorem Serves.submit {desk : Desk} (hsteps : desk.options.maxSteps = none) {d : Dialogue}
    {l : Text} {lines : List Text} {ss ss' : List Node} {f : Nat → Nat} {between globals : Scope}
    {first texts : List Text}
    (hturn : turn d.pending d.openBlocks l = .complete)
    (hread : readSpell false (Text.join "\n" (d.pending ++ [l]) ++ "\n") =
      .ok (ss.map (Node.mapLine f)))
    (hachieves : Achieves desk.passes ss d.globals between first)
    (h : Serves desk ⟨between, [], 0⟩ lines ss' globals texts) :
    Serves desk d (l :: lines) (ss ++ ss') globals (first ++ texts) := by
  refine Serves.cons (fun shown => ?_) (fun snippets hsnippets => ?_) h
  · unfold hear
    rw [hturn]
    show EStateM.bind (Console.submit desk d.globals (d.pending ++ [l])) _ _ = _
    unfold EStateM.bind
    rw [submit_of_achieves hsteps hread hachieves]
    rfl
  · unfold submitted
    rw [if_pos hturn]
    exact hsnippets.cons hread

/-- A spell of no statements does nothing. -/
theorem achieves_nil {passes : Nat} {globals globals' : Scope} {texts : List Text}
    (h : Achieves passes [] globals globals' texts) : globals' = globals ∧ texts = [] := by
  have hstate := (Prod.mk.inj (h .fault [])).2
  have hglobals := congrArg RunState.globals hstate
  have htrace := congrArg (·.trace.toList) hstate
  exact ⟨hglobals.symm, List.map_eq_nil_iff.mp htrace.symm⟩

/-- At the end of the lines, nothing is left. -/
theorem serves_nil {desk : Desk} {pos line : Nat} {pending : List Text} {spell : List Node}
    {globals globals' : Scope} {texts : List Text} (hlaid : Laid pos line pending spell)
    (hopen : pending ≠ [] → 0 < (pending.map lineBalance).sum)
    (hachieves : Achieves desk.passes spell globals globals' texts) :
    Serves desk ⟨globals, pending, (pending.map lineBalance).sum⟩ [] spell globals' texts := by
  -- All blocks of a whole spell are closed.
  have hsum : (pending.map lineBalance).sum = 0 := by
    rw [hlaid.sum_lineBalance ⟨List.prefix_refl _, rfl, List.append_nil _⟩]
    exact (hlaid.fits.1.balanced_and_wrapped hlaid.plain).1.total _
  obtain rfl : pending = [] := by
    refine Decidable.byContradiction fun hne => ?_
    have hpos := hopen hne
    omega
  obtain rfl := hlaid.fits.1.eq_nil_of_program
  obtain ⟨rfl, rfl⟩ := achieves_nil hachieves
  refine fun shown => ⟨[], [prompt ⟨globals', [], 0⟩], ?_, .nil, rfl⟩
  exact converseNoting_nil desk 0 _ shown

/-- **Going through the lines.** Induction on the lines that are still to be typed. The lines that
are pending hold the beginning of a branch or a loop, and all that is left of the spell is in them
and in the lines to come. -/
theorem serves_laid {desk : Desk} (hsteps : desk.options.maxSteps = none) {pos line : Nat}
    {pending lines : List Text} {spell : List Node} {globals globals' : Scope} {texts : List Text}
    (hlaid : Laid pos line (pending ++ lines) spell) (hasks : ¬(Node.program spell).Asks)
    (hopen : pending ≠ [] → 0 < (pending.map lineBalance).sum)
    (hachieves : Achieves desk.passes spell globals globals' texts) :
    Serves desk ⟨globals, pending, (pending.map lineBalance).sum⟩ lines spell globals' texts := by
  induction lines generalizing pos line pending spell globals texts with
  | nil =>
    rw [List.append_nil] at hlaid
    exact serves_nil hlaid hopen hachieves
  | cons l lines ih =>
    have hnone : ([] : List Text) ≠ [] → 0 < (([] : List Text).map lineBalance).sum := absurd rfl
    have hturn := turn_eq pending (pending.map lineBalance).sum l fun hnil => by
      subst hnil
      exact trim_notMem_quitWords hlaid
    by_cases hidle : pending = [] ∧ l.trim = []
    · -- There is nothing on the line.
      rw [if_pos hidle] at hturn
      obtain ⟨rfl, htrim⟩ := hidle
      obtain ⟨pos', line', hrest⟩ := Laid.tail_of_blank hlaid (lineTokens_of_blank htrim)
      refine .quiet ?_ (by rw [hturn]; exact nofun) (ih hrest hasks hnone hachieves)
      unfold hear
      rw [hturn]
    have hsum : (pending.map lineBalance).sum + lineBalance l =
        ((pending ++ [l]).map lineBalance).sum := by
      rw [List.map_append, List.sum_append, List.map_singleton, List.sum_singleton]
    have hsplit : pending ++ l :: lines = (pending ++ [l]) ++ lines := by
      rw [List.append_assoc]
      rfl
    rw [if_neg hidle, hsum] at hturn
    rw [hsplit] at hlaid
    by_cases hpos : 0 < ((pending ++ [l]).map lineBalance).sum
    · -- A statement goes on.
      rw [if_pos hpos] at hturn
      refine .quiet ?_ (by rw [hturn]; exact nofun) (ih hlaid hasks (fun _ => hpos) hachieves)
      unfold hear
      rw [hturn]
    · -- All blocks are closed, so that the statements so far are complete.
      rw [if_neg hpos] at hturn
      obtain ⟨vs, habove⟩ := Above.exists pos line (pending ++ [l]) lines
      obtain ⟨ss, ss', rfl, hbetween, -⟩ := (hlaid.between_or_open habove).resolve_right hpos
      have hasks₁ := mt (Node.Asks.of_subset (List.subset_append_left ss ss')) hasks
      have hasks₂ := mt (Node.Asks.of_subset (List.subset_append_right ss ss')) hasks
      -- They are cast now, and the others when their lines are typed.
      obtain ⟨between, first, second, hfirst, hsecond, rfl⟩ :=
        hachieves.append hbetween.1 hbetween.2 hasks₁ hasks₂
      obtain ⟨f, hread⟩ := hlaid.read habove hbetween (by simp)
      obtain ⟨pos', line', hrest⟩ := hlaid.drop habove hbetween
      exact .submit hsteps hturn hread hfirst (ih hrest hasks₂ hnone hsecond)

/-- Prompts and lines that a spell prints are no errors. -/
theorem stream_of_unprompted {events : List (Stream × Text)} {texts : List Text}
    (h : unprompted events = texts.map shownLog) : ∀ event ∈ events, event.1 = .out := by
  intro event hevent
  by_cases hprompt : event ∈ prompts
  · have hout : ∀ prompt ∈ prompts, prompt.1 = .out := by decide
    exact hout event hprompt
  · have hmem : event ∈ unprompted events := List.mem_filter.mpr ⟨hevent, decide_eq_true hprompt⟩
    rw [h] at hmem
    obtain ⟨text, -, rfl⟩ := List.mem_map.mp hmem
    rfl

/-- **Typing a spell is running it.** Some lines hold a spell that asks for no replies and has no
name that looks like a word around a block. Each line can be cut into tokens by itself, and a line
that ends between two tokens of a statement ends inside a branch or a loop, but not right after its
first word. If the spell succeeds as a whole, then the dialogue goes through all of the lines. What
it submits on the way are whole statements, which make up the spell. Apart from the greeting, the
prompts and the last line break it shows what the spell prints, and no error, and it ends with the
same globals. -/
theorem typing_is_running {desk : Desk} (hsteps : desk.options.maxSteps = none) {lines : List Text}
    {spell : List Node} (hread : readSpell false (Text.join "\n" lines) = .ok spell)
    (hasks : ¬(Node.program spell).Asks) (hplain : (Node.program spell).Plain)
    (htokens : ∀ l ∈ lines, ∃ ts, tokenize l = .ok ts)
    (hbreaks : ∀ us vs node, LineBreak lines us vs → FallsInside spell us vs node →
      node.isCompound ∧ ¬AfterOpening us vs)
    {silence : Silence} {replies : List (Option Text)} {s : RunState}
    (hrun : run ⟨none, silence, true⟩ desk.passes spell (.start Scope.empty replies) =
      (.success, s)) :
    ∃ (d : Dialogue) (t : Terminal) (snippets : List (List Text)) (texts : List Text)
      (events : List (Stream × Text)),
      dialogue desk (.start lines false) = .ok d t ∧
      dialogueNoting desk (.start lines false) = .ok (d, snippets) t ∧
      Divides snippets spell ∧
      s.trace.toList = texts.map Event.log ∧
      t.shown.toList = shownLog "SpellCast REPL. Type :q to quit." :: (events ++ [shownLog ""]) ∧
      unprompted events = texts.map shownLog ∧
      (∀ event ∈ t.shown.toList, event.1 = .out) ∧
      d.globals = s.globals := by
  have hlaid : Laid 0 0 ([] ++ lines) spell := laid_of_read hread hplain htokens hbreaks
  obtain ⟨texts, htrace, hachieves⟩ := achieves_of_run hlaid.fits.1 hasks hrun
  -- The lines are a layout of the spell, so the dialogue submits it in parts as they are completed.
  have hserves := serves_laid hsteps hlaid hasks (absurd rfl) hachieves
  obtain ⟨snippets, events, hnoting, hdivides, hevents⟩ :=
    hserves #[shownLog "SpellCast REPL. Type :q to quit."]
  have hnoting : dialogueNoting desk (.start lines false) = _ := hnoting
  have hshown : (#[shownLog "SpellCast REPL. Type :q to quit."] ++
      (events ++ [shownLog ""]).toArray).toList =
      shownLog "SpellCast REPL. Type :q to quit." :: (events ++ [shownLog ""]) :=
    Array.toList_append
  refine ⟨_, _, snippets, texts, events, ?_, hnoting, hdivides, ?_, hshown, hevents, ?_, rfl⟩
  · rw [dialogue_eq]
    show EStateM.map _ _ _ = _
    unfold EStateM.map
    rw [hnoting]
  · rw [htrace]
  · intro event hevent
    rw [hshown, List.mem_cons, List.mem_append, List.mem_singleton] at hevent
    rcases hevent with rfl | hevent | rfl
    · rfl
    · exact stream_of_unprompted hevents event hevent
    · rfl

/-- A line that ends with a comment. -/
def openingLine : Text := "create a new spell named x with the power of 1 # once"

/-- A spell that is typed on several lines, with a comment, a blank line, and a word in an
expression that also starts a branch. -/
def recital : List Text :=
  [openingLine,
    "",
    "whilst the spell x is true do",
    "  shout the many cries of may the sorcerers cast their spells on \"A\"",
    "  set the power of x to 0",
    "done"]

/-- What is read of its first snippet. -/
def recitalOpening : Node :=
  .create (some 1) (.name (some 1) "x") (.literal (some 1) (.int 1) (some "INTEGER"))

/-- What is read of its second snippet, which takes several lines. -/
def recitalLoop : Node :=
  .loop (some 3) (.name (some 3) "x") (.block (some 3)
    [.shout (some 4) (.unary (some 4) .ord (.literal (some 4) (.text "A") (some "STRING"))),
      .assign (some 5) (.name (some 5) "x") (.literal (some 5) (.int 0) (some "INTEGER"))])

/-- The lines after the first one end inside the loop, and not after its first word. -/
theorem recital_breaks (us vs : List Token) (node : Node) (hbreak : LineBreak recital us vs)
    (hinside : FallsInside [recitalOpening, recitalLoop] us vs node) :
    node.isCompound ∧ ¬AfterOpening us vs := by
  obtain ⟨before, after, stop, stop', hbefore, -, hlines, htokens, -⟩ := hbreak
  -- Wherever the lines are cut, the first statement is complete, and no opening word comes last.
  have hchecked : ∀ k ∈ List.range 7, k ≠ 0 →
      (tokenize (Text.join "\n" (recital.take k) ++ "\n")).toOption.all fun ts =>
        decide (lineTokens openingLine <+: ts.body) &&
          ts.body.getLast?.all fun t => decide (t.text ∉ (["cast", "whilst"] : List Text)) := by
    decide +kernel
  have hlength : before.length ∈ List.range 7 := by
    have hsum : 6 = (before ++ after).length := congrArg List.length hlines
    rw [List.length_append] at hsum
    rw [List.mem_range]
    omega
  have hwords := hchecked _ hlength (mt List.length_eq_zero_iff.mp hbefore)
  rw [hlines, List.take_left, htokens, Except.toOption, Option.all_some, Bool.and_eq_true] at hwords
  obtain ⟨hstarts, hlast⟩ := hwords
  constructor
  · have hread : readSpell false openingLine = .ok [recitalOpening] := by cbv
    obtain ⟨ts, hts, hparse⟩ := readSpell_eq_ok.mp hread
    have hkinds := (Scanner.tokenize_eq_ok.mp hts).kind_ne_eof
    have hopening : Spells .program (.program [recitalOpening]) (lineTokens openingLine) := by
      unfold lineTokens
      rw [hts]
      exact ((parse_strict_eq_ok hkinds).mp hparse).1
    obtain ⟨rest, rfl⟩ := of_decide_eq_true hstarts
    have hloop : FallsInside ([recitalOpening] ++ [recitalLoop]) (_ ++ rest) vs node := hinside
    obtain ⟨ss, ss', -, -, -, -, hspell, -⟩ := hloop.strip hopening
    have hmem : node ∈ [recitalLoop] := by
      rw [hspell]
      exact List.mem_append_right ss List.mem_cons_self
    rw [List.mem_singleton.mp hmem]
    rfl
  · rintro ⟨us', t, rfl, hopens⟩
    rw [List.getLast?_concat, Option.all_some] at hlast
    exact of_decide_eq_true hlast hopens.head_mem

/-- The recital is typed into a dialogue that ends with the globals of its run. -/
theorem typing_recital :
    ∃ d t, dialogue ⟨⟨false, false, false, none, ["repl"]⟩, Folder.opener ⟨[], []⟩, 2⟩
        (.start recital false) = .ok d t ∧
      (∀ event ∈ t.shown.toList, event.1 = .out) ∧
      d.globals = Scope.ofList [("x", .int 0)] := by
  have hread : readSpell false (Text.join "\n" recital) = .ok [recitalOpening, recitalLoop] := by
    cbv
  have hasks : ¬(Node.program [recitalOpening, recitalLoop]).Asks := by decide
  have hplain : (Node.program [recitalOpening, recitalLoop]).Plain := by decide
  have htokens : ∀ l ∈ recital, ∃ ts, tokenize l = .ok ts := by
    have hsome : ∀ l ∈ recital, (tokenize l).toOption.isSome := by decide +kernel
    intro l hl
    have hl := hsome l hl
    cases htokens : tokenize l with
    | ok ts => exact ⟨ts, rfl⟩
    | error e =>
      rw [htokens] at hl
      cases hl
  have hrun : run ⟨none, .fault, true⟩ 2 [recitalOpening, recitalLoop] (.start Scope.empty []) =
      (.success, ⟨Scopes.single (Scope.ofList [("x", .int 0)]), [], 0, #[.log "65"]⟩) := by
    decide +kernel
  obtain ⟨d, t, -, -, -, hdialogue, -, -, -, -, -, hout, hglobals⟩ :=
    @typing_is_running ⟨⟨false, false, false, none, ["repl"]⟩, Folder.opener ⟨[], []⟩, 2⟩ rfl
      recital _ hread hasks hplain htokens recital_breaks .fault [] _ hrun
  exact ⟨d, t, hdialogue, hout, hglobals⟩

end Console
end Grimoire
