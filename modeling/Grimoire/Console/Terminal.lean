import Grimoire.Console.Folder
import Grimoire.Run.Transcript

/-!
# The terminal

What a session at the terminal reads and shows. A `Console` action ends normally or with an `Exit`;
either way the terminal keeps what has been shown.
-/

namespace Grimoire

/-- The two streams of a terminal. -/
inductive Stream where
  | out
  | err
deriving DecidableEq

/-- The lines that are still to be read, whether more lines may come after them, and what has been
shown so far. -/
structure Terminal where
  lines : List Text
  isOpen : Bool
  shown : Array (Stream × Text)
deriving DecidableEq

/-- A terminal on which nothing is shown yet. -/
def Terminal.start (lines : List Text) (isOpen : Bool) : Terminal := ⟨lines, isOpen, #[]⟩

/-- What a terminal shows on one of its streams. -/
def Terminal.onStream (t : Terminal) (stream : Stream) : Text :=
  t.shown.toList.flatMap fun (s, text) => if s = stream then text else []

/-- What ends a session with no regular message. -/
inductive Crash where
  | badPath
  | undecodable (flaw : Utf8.Undecodable)
  /-- A limit of the machinery is exceeded outside any run. -/
  | limit (fault : Fault)
deriving DecidableEq

/-- The words of the error that ends the session. -/
def Crash.message : Crash → Text
  | .badPath => "embedded null byte"
  | .undecodable flaw => flaw.message
  | .limit fault => fault.message

/-- How a session ends before its end. -/
inductive Exit where
  /-- Something went wrong, and the user has been told. -/
  | failure
  | crash (c : Crash)
  /-- A loop has been passed through more often than allowed. -/
  | outOfPasses
  /-- A line is being waited for. -/
  | waiting
deriving DecidableEq

/-- A part of a session at the terminal. -/
abbrev Console := EStateM Exit Terminal

namespace Console

/-- Shows a text as it is. -/
def put (stream : Stream) (text : Text) : Console Unit :=
  modify fun t => { t with shown := t.shown.push (stream, text) }

/-- Shows a line. -/
def say (text : Text) : Console Unit := put .out (text ++ "\n")

/-- Reads a line, if there is one. -/
def readLine : Console (Option Text) := do
  let t ← get
  match t.lines with
  | line :: lines =>
    set { t with lines }
    return some line
  | [] => if t.isOpen then throw .waiting else return none

end Console

/-- What a message is about, which decides its stream and its colour. -/
inductive Severity where
  | info
  | error
deriving DecidableEq

namespace Severity

/-- The stream of a message. -/
def stream : Severity → Stream
  | .info => .out
  | .error => .err

/-- The code that switches on the colour of a severity: cyan or red. -/
def colour : Severity → Text
  | .info => "\x1b[36m"
  | .error => "\x1b[31m"

/-- A message in its colour, if colours are wanted. -/
def paint (severity : Severity) (color : Bool) (text : Text) : Text :=
  if color then severity.colour ++ text ++ "\x1b[0m" else text

end Severity

namespace Console

/-- Shows a message on a line of its own. -/
def notify (color : Bool) (severity : Severity) (text : Text) : Console Unit :=
  put severity.stream (severity.paint color text ++ "\n")

/-- An event of a run as it is shown at the terminal. -/
def ofEvent (color : Bool) : Event → Stream × Text
  | .log text => (.out, text ++ "\n")
  | .error text => (.err, Severity.error.paint color text ++ "\n")
  | .request => (.out, requestPrompt ++ " ")

/-- Runs a spell at the terminal: its lines are the replies, and empty ones when they run out. Says
whether the run succeeded, and gives the globals that it leaves. -/
def cast (color : Bool) (maxSteps : Option Int) (passes : Nat) (spell : List Node)
    (globals : Scope) : Console (Bool × Scope) := do
  let t ← get
  let terms : Terms := ⟨maxSteps, if t.isOpen then .wait else .blank, true⟩
  let (ending, s) := run terms passes spell (.start globals (t.lines.map some))
  let after : Terminal :=
    ⟨s.replies.map (Option.getD · []), t.isOpen, t.shown ++ s.trace.map (ofEvent color)⟩
  set after
  match ending with
  | .success => return (true, s.globals)
  | .failure => return (false, s.globals)
  | .outOfPasses => throw .outOfPasses
  | .waiting => throw .waiting

end Console
end Grimoire
