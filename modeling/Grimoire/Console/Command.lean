import Grimoire.Console.Balance
import Grimoire.Console.Options
import Grimoire.Console.Sample
import Grimoire.Console.Terminal
import Grimoire.Tree.Outline

/-!
# Commands

What the command line can do: list the tokens or the outline of a spell, run it, run spells as they
are typed, and show a sample.
-/

namespace Grimoire

/-- What the commands have in common: the options, how files are opened, and how often a loop may be
passed through. -/
structure Desk where
  options : Options
  opener : Opener
  passes : Nat

namespace Console

/-- Shows an error, in full when debugging. -/
def complain (options : Options) (title text : Text) : Console Unit :=
  if options.debug then put .err (title ++ ": " ++ text ++ "\n")
  else notify options.color .error text

/-- Shows what is wrong with a spell. -/
def complainOf (options : Options) (d : Diagnostic) : Console Unit :=
  complain options ("errors." ++ d.category.title) d.render

/-- Tells the user why a text is no spell. -/
def explain (options : Options) : ReadFailure → Console Unit
  | .lexical e => complainOf options e.diagnostic
  | .parsing (.refused e) => complainOf options e.diagnostic
  -- A limit of the machinery is not the fault of the text.
  | .parsing .tooDeep => throw (.crash (.limit .tooDeep))
  | .parsing (.tooLong digits) => throw (.crash (.limit (.tooLongToRead digits)))

/-- Reads a file. -/
def readFile (desk : Desk) (path : Text) : Console Text :=
  -- A path cannot hold the code point zero.
  if path.any (·.value = 0) then throw (.crash .badPath)
  else match desk.opener path with
    | .error e => do
      complain desk.options e.title (e.message path)
      throw .failure
    | .ok bytes =>
      match Utf8.decode bytes with
      | .error flaw => throw (.crash (.undecodable flaw))
      | .ok text => return text.unifyNewlines

/-- What was asked for, or the end of the session when a text is no spell. -/
def orExplain {α : Type} (options : Options) : Except ReadFailure α → Console α
  | .ok a => pure a
  | .error failure => do
    explain options failure
    throw .failure

/-- Lists the tokens of a file, each with its line and column. -/
def listTokens (desk : Desk) (path : Text) : Console Unit := do
  let source ← readFile desk path
  let tokens ← orExplain desk.options ((tokenize source).mapError .lexical)
  tokens.toList.forM fun token =>
    say (Numeral.digits token.mark.line ++ ":" ++ Numeral.digits token.mark.column ++ "  "
      ++ token.describe)

/-- Shows the outline of the spell in a file. -/
def showOutline (desk : Desk) (path : Text) : Console Unit := do
  let source ← readFile desk path
  let spell ← orExplain desk.options (readSpell desk.options.lenient source)
  match (Node.program spell).outline with
  | .ok outline => say (outline.render 0)
  | .error fault => throw (.crash (.limit fault))

/-- Runs the spell in a file, between two messages; the second is shown only if all goes well. -/
def runFile (desk : Desk) (path : Text) : Console Unit := do
  let source ← readFile desk path
  let spell ← orExplain desk.options (readSpell desk.options.lenient source)
  notify desk.options.color .info "Casting spell..."
  let (ok, _) ← cast desk.options.color desk.options.maxSteps desk.passes spell Scope.empty
  if ok then notify desk.options.color .info "Spell finished." else throw .failure

/-! ## Spells as they are typed -/

/-- What a dialogue remembers: the globals that the spells so far have left, the lines of a spell
that is not complete yet, and how many of its blocks are open. -/
structure Dialogue where
  globals : Scope
  pending : List Text
  openBlocks : Int

/-- The lines that end a dialogue. -/
def quitWords : List Text := [":q", ":quit", "quit", "exit"]

/-- Runs the lines of a complete spell and gives the globals that it leaves. -/
def submit (desk : Desk) (globals : Scope) (lines : List Text) : Console Scope := do
  match readSpell desk.options.lenient (Text.join "\n" lines ++ "\n") with
  | .error failure =>
    explain desk.options failure
    return globals
  | .ok spell =>
    let (_, globals) ← cast desk.options.color desk.options.maxSteps desk.passes spell globals
    return globals

/-- What a line is to the dialogue. -/
inductive Turn where
  | over
  /-- There is nothing on the line. -/
  | idle
  /-- The line belongs to a spell that is not complete yet, with so many open blocks. -/
  | more (openBlocks : Int)
  /-- The line completes a spell. -/
  | complete
deriving DecidableEq

/-- What a line means after the lines of a spell that is not complete yet. -/
def turn (pending : List Text) (openBlocks : Int) (line : Text) : Turn :=
  let word := line.trim
  -- In the middle of a spell no line is blank and no word ends the dialogue.
  if pending = [] ∧ word ∈ quitWords then .over
  else if pending = [] ∧ word = [] then .idle
  else
    let openBlocks := openBlocks + lineBalance line
    if 0 < openBlocks then .more openBlocks else .complete

/-- Deals with one line: `none` says that the dialogue is over. -/
def hear (desk : Desk) (d : Dialogue) (line : Text) : Console (Option Dialogue) :=
  match turn d.pending d.openBlocks line with
  | .over => return none
  | .idle => return some d
  | .more openBlocks => return some { d with pending := d.pending ++ [line], openBlocks }
  | .complete => do
    let globals ← submit desk d.globals (d.pending ++ [line])
    return some ⟨globals, [], 0⟩

/-- Goes on with a dialogue for at most `fuel` lines, and gives what is remembered at its end. -/
def converse (desk : Desk) : (fuel : Nat) → Dialogue → Console Dialogue
  | 0, d => pure d
  | fuel + 1, d => do
    put .out (if d.pending = [] then "spell> " else "...> ")
    match ← readLine with
    | none =>
      say ""
      return d
    | some line =>
      match ← hear desk d line with
      | none => return d
      | some d => converse desk fuel d

/-- Runs spells as they are typed, until the lines end or the user quits. -/
def dialogue (desk : Desk) : Console Dialogue := do
  say "SpellCast REPL. Type :q to quit."
  -- Every turn takes a line, so there are no more turns than lines, and one for the end.
  converse desk ((← get).lines.length + 1) ⟨Scope.empty, [], 0⟩

/-! ## The command line -/

/-- The lines that say how the program is called. -/
def usageLines : List Text :=
  ["Usage:",
    "  python cli.py tokens <file.spell>",
    "  python cli.py parse <file.spell>",
    "  python cli.py run <file.spell>",
    "  python cli.py repl",
    "  python cli.py sample",
    "  (optional) --debug to show Python traceback",
    "  (optional) --no-color to disable colored output",
    "  (optional) --lenient to stop quietly at an unknown statement",
    "  (optional) --max-steps N to abort after N statements"]

/-- Says how the program is called, and fails. -/
def usage : Console Unit := do
  usageLines.forM say
  throw .failure

/-- The commands about a file, by their names. -/
def fileCommands : List (Text × (Desk → Text → Console Unit)) :=
  [("tokens", listTokens), ("parse", showOutline), ("run", runFile)]

/-- Does what the words among the arguments ask for. -/
def perform (desk : Desk) : Console Unit :=
  match desk.options.words with
  | [] => usage
  | command :: operands =>
    if command = "repl" then
      if operands = [] then discard (dialogue desk) else usage
    else if command = "sample" then
      if operands = [] then put .out sampleSpell else usage
    else match operands with
      | [path] =>
        match fileCommands.lookup command with
        | some perform => perform desk path
        | none => do
          say ("Unknown command: " ++ command)
          throw .failure
      | _ => usage

/-- Does what the arguments ask for. -/
def serve (args : List Text) (opener : Opener) (passes : Nat) : Console Unit :=
  match Options.parse? args with
  | none => do
    say "--max-steps expects an integer"
    throw .failure
  | some options => perform ⟨options, opener, passes⟩

end Console

/-- A session that has come to its end: how it did, and what the terminal shows then. -/
structure Session where
  exit : Option Exit
  terminal : Terminal

/-- A whole session at a terminal. -/
def session (args : List Text) (opener : Opener) (passes : Nat) (t : Terminal) : Session :=
  match Console.serve args opener passes t with
  | .ok _ t => ⟨none, t⟩
  | .error exit t => ⟨some exit, t⟩

end Grimoire
