import Grimoire.Console.Command

/-!
# The program

The command line as a program. A session is a function of the lines typed so far; whenever it waits
for a line, what it has shown since the last time is written out, a line is read, and the session is
worked out anew with that line added.
-/

namespace Grimoire

/-- How often a loop may be passed through: more often than any machine can. -/
def allPasses : Nat := 0x10000000000000000

/-- The error of the system, as a message shows it. -/
def FileError.ofSystem : IO.Error → FileError
  | .noFileOrDirectory .. => .notFound
  | .inappropriateType none .. => .isFolder
  | .inappropriateType (some _) .. => .notAFolder
  | .invalidArgument _ 36 _ => .nameTooLong
  | .permissionDenied .. => ⟨13, "Permission denied", "PermissionError"⟩
  | _ => ⟨5, "Input/output error", "OSError"⟩

/-- The bytes of a file, or why there are none. -/
def readBytes (path : String) : IO (Except FileError (List UInt8)) := do
  try
    let bytes ← IO.FS.readBinFile path
    return .ok bytes.toList
  catch e => return .error (.ofSystem e)

/-- Reads the file that the arguments are about, if they are about one. -/
def openerFor (args : List Text) : IO Opener := do
  match (Options.parse? args).map (·.words) with
  | some [_, path] =>
    match path.toString? with
    | some name =>
      let contents ← readBytes name
      return fun p => if p = path then contents else .error .notFound
    | none => return fun _ => .error .notFound
  | _ => return fun _ => .error .notFound

/-- Writes out what a session has shown, but for the first `old` texts. -/
def writeOut (t : Terminal) (old : Nat) : IO Unit := do
  for (stream, text) in t.shown.toList.drop old do
    let s := text.toString?.getD ""
    match stream with
    | .out => IO.print s
    | .err => IO.eprint s
  (← IO.getStdout).flush

/-- The exit code of a session that has come to its end. -/
def finish : Option Exit → IO UInt32
  | none => return 0
  | some (.crash c) => do
    IO.eprintln (c.message.toString?.getD "")
    return 1
  | some _ => return 1

/-- Goes on with a session of which the first `old` texts are written out. -/
partial def converse (args : List Text) (opener : Opener) (lines : List Text) (old : Nat) :
    IO UInt32 := do
  let s := session args opener allPasses (.start lines true)
  writeOut s.terminal old
  let shown := s.terminal.shown.size
  if s.exit = some .waiting then
    let line ← (← IO.getStdin).getLine
    -- There are no more lines: the session comes to its end without waiting.
    if line.isEmpty then
      let s := session args opener allPasses (.start lines false)
      writeOut s.terminal shown
      finish s.exit
    else converse args opener (lines ++ (Text.ofString line).lines) shown
  else finish s.exit

end Grimoire

def main (args : List String) : IO UInt32 := do
  let args := args.map Grimoire.Text.ofString
  Grimoire.converse args (← Grimoire.openerFor args) [] 0
