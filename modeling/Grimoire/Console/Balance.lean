import Grimoire.Token.Scanner

/-!
# Open blocks

A user may type a spell line by line. To know whether more lines must follow, it is enough to count
the words that open and close blocks: `cast only` and `whilst the` open one, `done` closes one. The
word `cast` alone does not count, because it also occurs inside an expression.
-/

namespace Grimoire

/-- What a token does to the number of open blocks, given the token after it. -/
def Token.balance (token after : Token) : Int :=
  if token.kind ≠ .identifier then 0
  -- The word alone also occurs inside an expression.
  else if token.text = "cast" ∧ after.text? = some ("only" : Text) then 1
  else if token.text = "whilst" ∧ after.text? = some ("the" : Text) then 1
  else if token.text = "done" then -1
  else 0

/-- How many more blocks a list of tokens opens than it closes. The last token does not count. -/
def balance : List Token → Int
  | token :: after :: rest => token.balance after + balance (after :: rest)
  | _ => 0

/-- How many more blocks a line opens than it closes; none if it cannot be cut into tokens. -/
def lineBalance (line : Text) : Int :=
  match tokenize line with
  | .ok tokens => balance tokens.toList
  | .error _ => 0

end Grimoire
