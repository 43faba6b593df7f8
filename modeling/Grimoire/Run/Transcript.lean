import Grimoire.Run.Evaluate

/-!
# Running a spell from its text

The whole way from a text to what its run shows. A text that is no spell is not run at all.
-/

namespace Grimoire

/-- The words by which a spell asks for a reply. -/
def requestPrompt : Text := "Enter the source of the messages:"

/-- An event on a single stream: lines of any kind end with a line break, and the request for a
reply is left open. -/
def Event.plainText : Event → Text
  | .log text | .error text => text ++ "\n"
  | .request => requestPrompt

/-- All that a run shows on a single stream. -/
def RunState.plainText (s : RunState) : Text := s.trace.toList.flatMap Event.plainText

/-- Reads a text as a spell and runs it. -/
def runText (lenient : Bool) (terms : Terms) (passes : Nat) (source : Text) (start : RunState) :
    Except ReadFailure (Ending × RunState) :=
  (readSpell lenient source).map fun spell => run terms passes spell start

/-- Runs the same statements several times. Each run starts with empty globals, and with the replies
that the one before has left. -/
def runTimes (terms : Terms) (passes : Nat) (spell : List Node) :
    (times : Nat) → List (Option Text) → List (Ending × RunState)
  | 0, _ => []
  | times + 1, replies =>
    let result := run terms passes spell (.start Scope.empty replies)
    result :: runTimes terms passes spell times result.2.replies

/-- The expression that a text spells: what a spell that shouts it would shout first. -/
def readExpression (source : Text) : Except ReadFailure Node :=
  (readSpell false ("shout the many cries of " ++ source)).map fun spell =>
    match spell with
    | .shout _ value :: _ => value
    | _ => .missing

end Grimoire
