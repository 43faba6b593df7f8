import Grimoire.Fault
import Grimoire.Text.Blank
import Grimoire.Token
import Grimoire.Tree

/-!
# A cursor over tokens

A grammar rule reads tokens through a `Cursor`. It either succeeds or fails with the cursor left
where the trouble was found, so that the failure can be shown and reading can go on from there.
-/

namespace Grimoire

/-- Why a rule refuses the token before the cursor. -/
inductive ParseCause where
  | expectedKind (kind : Text)
  | expectedWord (word : Text)
  /-- A name should stand here, after this word. -/
  | expectedName (after : Text)
  | notAStatement
  | notAnExpression
  /-- The words between the two sides of a comparison are missing. -/
  | notAComparison
  | tooDeep
  /-- A cause in somebody else's words. -/
  | remark (text : Text)
deriving DecidableEq

/-- A refusal: its cause, the token before the cursor, and how many tokens come before that. -/
structure ParseError where
  cause : ParseCause
  token : Token
  pos : Nat
deriving DecidableEq

namespace ParseError

/-- A refusal in words. Most causes name the token that stands there instead. -/
def message (e : ParseError) : Text :=
  match e.cause with
  | .expectedKind kind => "Expected " ++ kind ++ ", got " ++ e.token.describe
  | .expectedWord word => "Expected keyword '" ++ word ++ "', got " ++ e.token.describe
  | .expectedName after => "Expected identifier for spell name after '" ++ after ++ "'"
  | .notAStatement => "Unexpected token in statement: " ++ e.token.describe
  | .notAnExpression => "Unexpected token in expression: " ++ e.token.describe
  | .notAComparison => "Unexpected token after 'is': " ++ e.token.describe
  | .tooDeep => "spell nested too deeply"
  | .remark text => text

/-- What the user is told about a refused token. -/
def diagnostic (e : ParseError) : Diagnostic :=
  ⟨.syntactic, e.message, some e.token.mark.place⟩

end ParseError

/-- How a rule fails. -/
inductive ParseFailure where
  | refused (e : ParseError)
  /-- The rules call one another beyond the nesting limit. -/
  | tooDeep
  | tooLong (digits : Nat)
deriving DecidableEq

/-- The tokens that are still to be read, the mark at the end of the spell, the number of tokens
read, and the number of blocks that are open. -/
structure Cursor where
  rest : List Token
  stop : Mark
  pos : Nat
  blockDepth : Nat
deriving DecidableEq

namespace Cursor

/-- The cursor before the first of some tokens, with no block open. -/
def start (ts : Tokens) : Cursor := ⟨ts.body, ts.stop, 0, 0⟩

/-- The token before the cursor. -/
def current (c : Cursor) : Token := c.rest.headD (Token.eof c.stop)

/-- Whether all tokens are read. -/
def atEnd (c : Cursor) : Bool := c.current.kind = .eof

/-- The cursor one token on. -/
def next (c : Cursor) : Cursor :=
  -- The end of the spell is never passed.
  if c.atEnd then c else { c with rest := c.rest.tail, pos := c.pos + 1 }

/-- Whether the token before the cursor is a given word. -/
def atWord (c : Cursor) (word : Text) : Bool := c.current.isWord word

end Cursor

/-- A rule of the grammar: it reads tokens and moves the cursor on, also where it fails. -/
abbrev Rule := EStateM ParseFailure Cursor

namespace Rule

/-- Refuses the token before the cursor. -/
def refuse {α : Type} (cause : ParseCause) : Rule α := do
  let c ← get
  throw (.refused ⟨cause, c.current, c.pos⟩)

/-- Takes the next token, whatever it is. -/
def advance : Rule Token := do
  let c ← get
  set c.next
  return c.current

/-- Takes the next token if it is of the named kind. -/
def eat (kind : Text) : Rule Token := do
  if (← get).current.kind.name = kind then advance else refuse (.expectedKind kind)

/-- Takes the next token if it is the given word. -/
def eatWord (word : Text) : Rule Token := do
  if (← get).atWord word then advance else refuse (.expectedWord word)

/-- Takes the given words one after the other. -/
def eatWords : List Text → Rule Unit
  | [] => pure ()
  | word :: words => do
    let _ ← eatWord word
    eatWords words

/-- Takes the words of a phrase, which carry no meaning of their own. -/
def eatPhrase (phrase : Text) : Rule Unit := eatWords phrase.words

/-- Reads nodes by a rule until the cursor satisfies `done`, but at most `fuel` of them. -/
def manyAtMost (done : Cursor → Bool) (rule : Rule Node) : (fuel : Nat) → Rule (List Node)
  | 0 => pure []
  | fuel + 1 => do
    if done (← get) then return []
    let node ← rule
    let nodes ← manyAtMost done rule fuel
    return node :: nodes

/-- Reads nodes by a rule until the cursor satisfies `done`. -/
def many (done : Cursor → Bool) (rule : Rule Node) : Rule (List Node) := do
  -- There are no more nodes than tokens if the rule takes at least one token each time.
  manyAtMost done rule ((← get).rest.length + 1)

end Rule
end Grimoire
