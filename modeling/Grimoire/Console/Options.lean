import Grimoire.Number.Numeral
import Grimoire.Text.Blank
import Grimoire.Text.DecimalDigit

/-!
# Options of the command line

Options may stand anywhere among the arguments. What is left when they are taken out says what to
do.
-/

namespace Grimoire

/-- The options, and the arguments that are left. -/
structure Options where
  debug : Bool
  color : Bool
  lenient : Bool
  maxSteps : Option Int
  words : List Text
deriving DecidableEq

namespace Options

/-- The blanks that may surround an integer: those of Unicode, but of the ASCII separators only the
printable space and the layout characters. -/
def isMargin (c : CodePoint) : Bool := c.isBlank && !c.between 0x1C 0x1F

/-- The digits of a numeral in which single underscores may stand between digits. `mayPause` says
that a digit has just been read. -/
def digitValues? (mayPause : Bool) : Text → Option (List Nat)
  | [] => if mayPause then some [] else none
  | c :: cs =>
    if c = '_' then
      if mayPause then digitValues? false cs else none
    else do
      let d ← c.decimalValue?
      let ds ← digitValues? true cs
      return d :: ds

/-- Reads an integer: blanks around it, a sign, and decimal digits of any script. -/
def integer? (t : Text) : Option Int := do
  let (negative, body) := Numeral.splitSign (t.trimBy isMargin)
  let ds ← digitValues? false body
  if ds.length ≤ Numeral.digitLimit then
    some (Numeral.signed negative (ds.foldl (fun n d => 10 * n + d) 0))
  else none

/-- Asks for errors in full. -/
def debugFlag : Text := "--debug"

/-- Asks for messages without colours. -/
def plainFlag : Text := "--no-color"

/-- Asks for lenient reading. -/
def lenientFlag : Text := "--lenient"

/-- Limits the steps of a run to the integer that comes after it. -/
def maxStepsFlag : Text := "--max-steps"

/-- The options that stand for themselves, with nothing after them. -/
def flags : List Text := [debugFlag, plainFlag, lenientFlag]

/-- Takes out the first limit of steps and the integer after it. `none` says that the integer is
missing or cannot be read. -/
def takeLimit? : List Text → Option (Option Int × List Text)
  | [] => some (none, [])
  | arg :: args =>
    if arg = maxStepsFlag then do
      let n ← args.head?.bind integer?
      return (some n, args.tail)
    else do
      let (limit, rest) ← takeLimit? args
      return (limit, arg :: rest)

/-- The options among the arguments, wherever they stand. There are none if a limit has no
integer. -/
def parse? (args : List Text) : Option Options := do
  let (maxSteps, words) ← takeLimit? (args.filter fun arg => !flags.contains arg)
  return {
    debug := args.contains debugFlag
    color := !args.contains plainFlag
    lenient := args.contains lenientFlag
    maxSteps
    words }

end Options
end Grimoire
