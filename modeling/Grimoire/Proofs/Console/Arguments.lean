import Grimoire.Console.Command

/-!
# Options anywhere among the arguments

Options may stand anywhere among the words of a command line. The flags are taken out first, so that
one may even stand between the limit of steps and its integer, and what is left when the limit is
taken out as well are the words.

* **`Strewn`** says that flags have been put into a list of arguments, anywhere and any number of
  times. Taking the flags out undoes it (`Strewn.filter_eq`).
* **`Options.takeLimit?_append`** takes out a limit and its integer, wherever they stand.
* **`Errand`** is what the words ask for. Nothing but the words decides about it (`perform_eq`), so
  options among them make no difference (`options_stand_anywhere`).
-/

namespace Grimoire

namespace Options

/-! ## Taking options out -/

/-- `Strewn args args'`: flags have been put into `args`, which has become `args'`. -/
inductive Strewn : List Text → List Text → Prop where
  | nil : Strewn [] []
  | word {args args' : List Text} (arg : Text) (h : Strewn args args') :
      Strewn (arg :: args) (arg :: args')
  | flag {args args' : List Text} {arg : Text} (harg : arg ∈ flags) (h : Strewn args args') :
      Strewn args (arg :: args')

/-- Taking the flags out leaves what they have been put into. -/
theorem Strewn.filter_eq {args args' : List Text} (h : Strewn args args')
    (hargs : ∀ arg ∈ args, arg ∉ flags) : (args'.filter fun arg => !flags.contains arg) = args := by
  induction h with
  | nil => rfl
  | @word args args' arg _ ih =>
    obtain ⟨harg, hrest⟩ := List.forall_mem_cons.mp hargs
    rw [List.filter_cons_of_pos (by simpa using harg), ih hrest]
  | flag harg _ ih => rw [List.filter_cons_of_neg (by simpa using harg), ih hargs]

/-- Without the option there is no limit to take out. -/
theorem takeLimit?_eq_self {words : List Text} (h : maxStepsFlag ∉ words) :
    takeLimit? words = some (none, words) := by
  induction words with
  | nil => rfl
  | cons word words ih =>
    have hword := List.ne_of_not_mem_cons h
    rw [takeLimit?, if_neg hword.symm, ih (List.not_mem_of_not_mem_cons h)]
    rfl

/-- A limit is taken out together with its integer, wherever they stand. -/
theorem takeLimit?_append {before after : List Text} {numeral : Text} {n : Int}
    (hbefore : maxStepsFlag ∉ before) (hn : integer? numeral = some n) :
    takeLimit? (before ++ maxStepsFlag :: numeral :: after) = some (some n, before ++ after) := by
  induction before with
  | nil =>
    rw [List.nil_append, takeLimit?, if_pos rfl, List.head?_cons, Option.bind_some, hn]
    rfl
  | cons word before ih =>
    have hword := List.ne_of_not_mem_cons hbefore
    rw [List.cons_append, takeLimit?, if_neg hword.symm, ih (List.not_mem_of_not_mem_cons hbefore)]
    rfl

/-- No flag can be read as an integer, and so the integer of a limit is no flag. -/
theorem notMem_flags_of_integer? {numeral : Text} {n : Int} (h : integer? numeral = some n) :
    numeral ∉ flags := by
  intro hmem
  have hnone : ∀ flag ∈ flags, integer? flag = none := by decide
  rw [hnone numeral hmem] at h
  cases h

/-- Arguments that are no options at all: neither a flag nor a limit of steps. -/
def Plain (words : List Text) : Prop := ∀ word ∈ words, word ∉ flags ∧ word ≠ maxStepsFlag

instance (words : List Text) : Decidable (Plain words) :=
  inferInstanceAs (Decidable (∀ word ∈ words, word ∉ flags ∧ word ≠ maxStepsFlag))

/-- The option is no plain word. -/
theorem Plain.notMem_maxStepsFlag {words : List Text} (h : Plain words) : maxStepsFlag ∉ words :=
  fun hmem => (h _ hmem).2 rfl

/-- The flags are found wherever they stand, and the rest is searched for a limit. -/
theorem parse?_eq {args words : List Text} {limit : Option Int}
    (h : takeLimit? (args.filter fun arg => !flags.contains arg) = some (limit, words)) :
    parse? args = some ⟨args.contains debugFlag, !args.contains plainFlag,
      args.contains lenientFlag, limit, words⟩ := by
  unfold parse?
  rw [h]
  rfl

/-- Arguments without options are the words, and all options are as they are by default. -/
theorem parse?_plain {words : List Text} (h : Plain words) :
    parse? words = some ⟨false, true, false, none, words⟩ := by
  have hself : (words.filter fun arg => !flags.contains arg) = words :=
    List.filter_eq_self.mpr fun word hword => by simpa using (h word hword).1
  have hflag {flag : Text} (hmem : flag ∈ flags) : words.contains flag = false := by
    rw [Bool.eq_false_iff, Ne, List.contains_iff_mem]
    exact fun hword => (h flag hword).1 hmem
  rw [parse?_eq (by rw [hself]; exact takeLimit?_eq_self h.notMem_maxStepsFlag),
    hflag (by decide : debugFlag ∈ flags), hflag (by decide : plainFlag ∈ flags),
    hflag (by decide : lenientFlag ∈ flags)]
  rfl

/-- A limit in the midst of words, and flags anywhere around and inside it. -/
theorem parse?_strewn {before after args : List Text} {numeral : Text} {n : Int}
    (hwords : Plain (before ++ after)) (hn : integer? numeral = some n)
    (hargs : Strewn (before ++ maxStepsFlag :: numeral :: after) args) :
    parse? args = some ⟨args.contains debugFlag, !args.contains plainFlag,
      args.contains lenientFlag, some n, before ++ after⟩ := by
  obtain ⟨hbefore, hafter⟩ := List.forall_mem_append.mp hwords
  have hfilter := hargs.filter_eq (List.forall_mem_append.mpr
    ⟨fun arg hmem => (hbefore arg hmem).1, List.forall_mem_cons.mpr
      ⟨by decide, List.forall_mem_cons.mpr
        ⟨notMem_flags_of_integer? hn, fun arg hmem => (hafter arg hmem).1⟩⟩⟩)
  apply parse?_eq
  rw [hfilter]
  exact takeLimit?_append (Plain.notMem_maxStepsFlag hbefore) hn

end Options

/-! ## What the words ask for -/

/-- What a command line asks for, once its options are taken out. -/
inductive Errand where
  | usage
  | unknown (command : Text)
  | dialogue
  | sample
  | listTokens (path : Text)
  | showOutline (path : Text)
  | runFile (path : Text)
deriving DecidableEq

namespace Errand

/-- The errand that a command has about a file. -/
def ofFile (command path : Text) : Errand :=
  if command = "tokens" then .listTokens path
  else if command = "parse" then .showOutline path
  else if command = "run" then .runFile path
  else .unknown command

/-- The errand that some words spell out. -/
def ofWords : List Text → Errand
  | [] => .usage
  | command :: operands =>
    if command = "repl" then if operands = [] then .dialogue else .usage
    else if command = "sample" then if operands = [] then .sample else .usage
    else match operands with
      | [path] => ofFile command path
      | _ => .usage

open Console in
/-- Does what is asked for. -/
def carryOut (desk : Desk) : Errand → Console Unit
  | .usage => Console.usage
  | .unknown command => do
    say ("Unknown command: " ++ command)
    throw .failure
  | .dialogue => discard (Console.dialogue desk)
  | .sample => put .out sampleSpell
  | .listTokens path => Console.listTokens desk path
  | .showOutline path => Console.showOutline desk path
  | .runFile path => Console.runFile desk path

end Errand

namespace Console

/-- A command about a file is looked up by its name. -/
theorem carryOut_ofFile (desk : Desk) (command path : Text) :
    (Errand.ofFile command path).carryOut desk =
      match fileCommands.lookup command with
      | some perform => perform desk path
      | none => (Errand.unknown command).carryOut desk := by
  unfold Errand.ofFile fileCommands
  by_cases htokens : command = "tokens"
  · subst htokens
    rfl
  rw [if_neg htokens, List.lookup_cons, beq_eq_false_iff_ne.mpr htokens]
  by_cases hparse : command = "parse"
  · subst hparse
    rfl
  rw [if_neg hparse, List.lookup_cons, beq_eq_false_iff_ne.mpr hparse]
  by_cases hrun : command = "run"
  · subst hrun
    rfl
  rw [if_neg hrun, List.lookup_cons, beq_eq_false_iff_ne.mpr hrun]
  rfl

/-- **The words decide what is done**, and nothing else does. -/
theorem perform_eq (desk : Desk) :
    perform desk = (Errand.ofWords desk.options.words).carryOut desk := by
  unfold perform
  match desk.options.words with
  | [] => rfl
  | command :: operands =>
    unfold Errand.ofWords
    dsimp only
    by_cases hrepl : command = "repl"
    · rw [if_pos hrepl, if_pos hrepl]
      split <;> rfl
    rw [if_neg hrepl, if_neg hrepl]
    by_cases hsample : command = "sample"
    · rw [if_pos hsample, if_pos hsample]
      split <;> rfl
    rw [if_neg hsample, if_neg hsample]
    match operands with
    | [] => rfl
    | [path] => exact (carryOut_ofFile desk command path).symm
    | _ :: _ :: _ => rfl

/-- With options that can be read, the errand of the words is carried out. -/
theorem serve_eq {args : List Text} {options : Options} (h : Options.parse? args = some options)
    (opener : Opener) (passes : Nat) :
    serve args opener passes =
      (Errand.ofWords options.words).carryOut ⟨options, opener, passes⟩ := by
  unfold serve
  rw [h]
  exact perform_eq _

/-- **Options may stand anywhere.** Into words that hold no options, a limit of steps with its
integer is put in one place, and then flags in any places and any number of times, also between the
limit and its integer. What is done is the errand of the words, as it is without any options, with
the limit of steps, and with each flag set if and only if it is there. -/
theorem options_stand_anywhere {before after args : List Text} {numeral : Text} {n : Int}
    (hwords : Options.Plain (before ++ after)) (hn : Options.integer? numeral = some n)
    (hargs : Options.Strewn (before ++ Options.maxStepsFlag :: numeral :: after) args) :
    ∃ options : Options,
      (options.debug = true ↔ Options.debugFlag ∈ args) ∧
      (options.color = false ↔ Options.plainFlag ∈ args) ∧
      (options.lenient = true ↔ Options.lenientFlag ∈ args) ∧
      options.maxSteps = some n ∧ options.words = before ++ after ∧
      ∀ (opener : Opener) (passes : Nat),
        serve args opener passes =
          (Errand.ofWords (before ++ after)).carryOut ⟨options, opener, passes⟩ ∧
        serve (before ++ after) opener passes =
          (Errand.ofWords (before ++ after)).carryOut
            ⟨⟨false, true, false, none, before ++ after⟩, opener, passes⟩ := by
  have hparse := Options.parse?_strewn hwords hn hargs
  refine ⟨_, List.contains_iff_mem, ?_, List.contains_iff_mem, rfl, rfl, fun opener passes =>
    ⟨serve_eq hparse opener passes, serve_eq (Options.parse?_plain hwords) opener passes⟩⟩
  rw [Bool.not_eq_false', List.contains_iff_mem]

/-- The arguments `run --max-steps --lenient 1_0 --debug a.spell --lenient`. -/
def strewnArgs : List Text :=
  ["run", "--max-steps", "--lenient", "1_0", "--debug", "a.spell", "--lenient"]

/-- A flag stands between the limit and its integer, and another one between the command and its
file. -/
theorem strewnArgs_run :
    Options.Plain ["run", "a.spell"] ∧ Options.integer? "1_0" = some 10 ∧
    ∃ options : Options, options.debug = true ∧ options.color = true ∧ options.lenient = true ∧
      options.maxSteps = some 10 ∧
      ∀ (opener : Opener) (passes : Nat),
        serve strewnArgs opener passes = runFile ⟨options, opener, passes⟩ "a.spell" := by
  have hwords : Options.Plain ([("run" : Text)] ++ [("a.spell" : Text)]) := by decide
  have hn : Options.integer? "1_0" = some 10 := by decide
  have hlenientFlag : Options.lenientFlag ∈ Options.flags := by decide
  have hdebugFlag : Options.debugFlag ∈ Options.flags := by decide
  have hargs : Options.Strewn
      ([("run" : Text)] ++ Options.maxStepsFlag :: ("1_0" : Text) :: [("a.spell" : Text)])
      strewnArgs :=
    .word _ (.word _ (.flag hlenientFlag (.word _ (.flag hdebugFlag (.word _
      (.flag hlenientFlag .nil))))))
  obtain ⟨options, hdebug, hcolor, hlenient, hlimit, -, hserve⟩ :=
    options_stand_anywhere hwords hn hargs
  refine ⟨hwords, hn, options, hdebug.mpr (by decide), ?_, hlenient.mpr (by decide), hlimit,
    fun opener passes => (hserve opener passes).1⟩
  exact Bool.not_eq_false _ |>.mp (mt hcolor.mp (by decide))

end Console
end Grimoire
