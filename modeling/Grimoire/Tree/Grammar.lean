import Grimoire.Number.Decimal
import Grimoire.Token.Scanner
import Grimoire.Tree.Cursor

/-!
# The grammar

Every phrase of the language starts with a word of its own and is bracketed by its words, so one
token decides what comes next and there is no precedence. The rule of a phrase is told the line that
its node gets and the rules for its parts; `expression` and `statement?` tie the knot, down to
`nestingLimit` levels.

A word that starts no phrase is a name, whatever other part it plays: `done`, `and` or `shout` are
names where an expression should stand.
-/

namespace Grimoire

/-- How many levels deep phrases can be nested. -/
def nestingLimit : Nat := 500

namespace Grammar

open Rule

/-! ## Expressions -/

/-- The number that a token `digits.digits` stands for. -/
def floatValue (t : Text) : Binary64 :=
  let whole := t.takeWhile CodePoint.isDigit
  (Decimal.ofPoint whole (t.drop (whole.length + 1))).toBinary64 false

/-- `combine the power of A and B` adds. -/
def combine (line : Option Nat) (expression : Rule Node) : Rule Node := do
  eatPhrase "the power of"
  let left ← expression
  eatPhrase "and"
  let right ← expression
  return .binary line left .add right

/-- `remove the power of A from B` subtracts the first from the second. -/
def remove (line : Option Nat) (expression : Rule Node) : Rule Node := do
  eatPhrase "the power of"
  let right ← expression
  eatPhrase "from"
  let left ← expression
  return .binary line left .subtract right

/-- `duplicate the power of A B times` multiplies. -/
def duplicate (line : Option Nat) (expression : Rule Node) : Rule Node := do
  eatPhrase "the power of"
  let left ← expression
  let right ← expression
  eatPhrase "times"
  return .binary line left .multiply right

/-- `split the power of A B times` divides. -/
def split (line : Option Nat) (expression : Rule Node) : Rule Node := do
  eatPhrase "the power of"
  let left ← expression
  let right ← expression
  eatPhrase "times"
  return .binary line left .divide right

/-- `find the source of the messages` asks for a reply. -/
def reply (line : Option Nat) (_expression : Rule Node) : Rule Node := do
  eatPhrase "the source of the messages"
  return .ask line

/-- `may the sorcerers cast their spells on A` is the code of a character. -/
def code (line : Option Nat) (expression : Rule Node) : Rule Node := do
  eatPhrase "the sorcerers cast their spells on"
  return .unary line .ord (← expression)

/-- `get the character from the spell A` is the character with a code. -/
def character (line : Option Nat) (expression : Rule Node) : Rule Node := do
  eatPhrase "the character from the spell"
  return .unary line .chr (← expression)

/-- The words between the two sides of a comparison. `equal to` comes alone or after `not`. -/
def comparator : Rule BinaryOp := do
  let c ← get
  if c.atWord "equal" then
    let _ ← advance
    eatPhrase "to"
    return .equal
  else if c.atWord "not" then
    let _ ← advance
    eatPhrase "equal to"
    return .unequal
  else if c.atWord "greater" then
    let _ ← advance
    eatPhrase "than"
    return .greater
  else if c.atWord "less" then
    let _ ← advance
    eatPhrase "than"
    return .less
  else refuse .notAComparison

/-- `is A equal to B`, `is A not equal to B`, `is A greater than B` and `is A less than B`. -/
def comparison (line : Option Nat) (expression : Rule Node) : Rule Node := do
  let left ← expression
  let op ← comparator
  return .binary line left op (← expression)

/-- The phrases that are expressions, by their first words. -/
def phrases : List (Text × (Option Nat → Rule Node → Rule Node)) :=
  [("combine", combine), ("remove", remove), ("duplicate", duplicate), ("split", split),
    ("find", reply), ("may", code), ("get", character), ("is", comparison)]

/-- Reads an expression that is nested at most `depth` levels deep. -/
def expression : (depth : Nat) → Rule Node
  | 0 => throw .tooDeep
  | depth + 1 => do
    let token := (← get).current
    let line := some token.mark.line
    match token.kind with
    | .string =>
      let _ ← advance
      return .literal line (.text token.text) (some "STRING")
    | .integer =>
      let _ ← advance
      match Numeral.read? token.text with
      | some n => return .literal line (.int n) (some "INTEGER")
      | none => throw (.tooLong token.text.length)
    | .float =>
      let _ ← advance
      return .literal line (.float (floatValue token.text)) (some "FLOAT")
    | .identifier =>
      let _ ← advance
      match phrases.lookup token.text with
      | some phrase => phrase line (expression depth)
      | none => return .name line token.text
    | .symbol | .eof => refuse .notAnExpression

/-! ## Statements -/

/-- The name that a statement is about. -/
def spellName (after : Text) (expression : Rule Node) : Rule Node := do
  -- Any expression that starts with a word will do. Whether it is a plain name shows when the
  -- statement is run.
  if (← get).current.kind = .identifier then expression else refuse (.expectedName after)

/-- A block: `do` and statements up to `done` or `else`. -/
def block (statement : Rule Node) : Rule Node := do
  let token ← eatWord "do"
  modify fun c => { c with blockDepth := c.blockDepth + 1 }
  -- The word that ends the block is left to whoever opened it.
  let statements ← many (fun c => c.atEnd || c.atWord "done" || c.atWord "else") statement
  modify fun c => { c with blockDepth := c.blockDepth - 1 }
  return .block (some token.mark.line) statements

/-- `shout the many cries of A`. -/
def shout (line : Option Nat) (expression _statement : Rule Node) : Rule Node := do
  eatPhrase "shout the many cries of"
  return .shout line (← expression)

/-- `create a new spell named N with the power of A`. -/
def create (line : Option Nat) (expression _statement : Rule Node) : Rule Node := do
  eatPhrase "create a new spell named"
  let target ← spellName "named" expression
  eatPhrase "with the power of"
  return .create line target (← expression)

/-- `set the power of N to A`. -/
def assign (line : Option Nat) (expression _statement : Rule Node) : Rule Node := do
  eatPhrase "set the power of"
  let target ← spellName "of" expression
  eatPhrase "to"
  return .assign line target (← expression)

/-- `cast only if the spell A is true do … else do … done`. -/
def branch (line : Option Nat) (expression statement : Rule Node) : Rule Node := do
  eatPhrase "cast only if the spell"
  let condition ← expression
  eatPhrase "is true"
  let thenBlock ← block statement
  -- The alternative may be left out.
  let elseBlock ← do
    if (← get).atWord "else" then
      let _ ← advance
      block statement
    else pure .missing
  let _ ← eatWord "done"
  return .branch line condition thenBlock elseBlock

/-- `whilst the spell A is true do … done`. -/
def loop (line : Option Nat) (expression statement : Rule Node) : Rule Node := do
  eatPhrase "whilst the spell"
  let condition ← expression
  eatPhrase "is true"
  let body ← block statement
  let _ ← eatWord "done"
  return .loop line condition body

/-- The statements, by their first words. -/
def orders : List (Text × (Option Nat → Rule Node → Rule Node → Rule Node)) :=
  [("shout", shout), ("create", create), ("set", assign), ("cast", branch), ("whilst", loop)]

/-- The rule of the statement that a token starts, if it starts any. -/
def order? (token : Token) : Option (Option Nat → Rule Node → Rule Node → Rule Node) :=
  if token.kind = .identifier then orders.lookup token.text else none

/-- A block keeps whatever the rule of its statements yields, also where that is nothing. -/
def kept (statement? : Rule (Option Node)) : Rule Node := do
  return (← statement?).getD .missing

/-- Reads a statement that is nested at most `depth` levels deep. A lenient reader takes a token
that starts no statement for the end of the spell, and yields nothing, unless a block is open. -/
def statement? (lenient : Bool) : (depth : Nat) → Rule (Option Node)
  | 0 => throw .tooDeep
  | depth + 1 => do
    let c ← get
    match order? c.current with
    | some order =>
      -- The test is made at every depth, and a block would keep a statement that is missing.
      let statement := kept (statement? lenient depth)
      return some (← order (some c.current.mark.line) (expression depth) statement)
    | none => if lenient && c.blockDepth = 0 then return none else refuse .notAStatement

/-! ## Spells -/

/-- Reads statements up to the end of the spell, but at most `fuel` of them. -/
def statements (lenient : Bool) : (fuel : Nat) → Rule (List Node)
  | 0 => pure []
  | fuel + 1 => do
    if (← get).atEnd then return []
    match ← statement? lenient nestingLimit with
    | none => return []
    | some node =>
      let nodes ← statements lenient fuel
      return node :: nodes

/-- Reads a whole spell. -/
def program (lenient : Bool) : Rule Node := fun c =>
  match statements lenient (c.rest.length + 1) c with
  | .ok nodes c' => .ok (.program nodes) c'
  -- Nesting beyond the limit is from here on a refusal like any other.
  | .error .tooDeep c' => .error (.refused ⟨.tooDeep, c'.current, c'.pos⟩) c'
  | .error failure c' => .error failure c'

end Grammar

/-- The statements of the spell that tokens spell out. -/
def parse (lenient : Bool) (ts : Tokens) : Except ParseFailure (List Node) :=
  match Grammar.program lenient (Cursor.start ts) with
  | .ok node _ => .ok node.statements
  | .error failure _ => .error failure

/-- Why a text is no spell: it cannot be cut into tokens, or its tokens make no tree. -/
inductive ReadFailure where
  | lexical (e : LexError)
  | parsing (failure : ParseFailure)
deriving DecidableEq

/-- Reads a text as a spell. -/
def readSpell (lenient : Bool) (source : Text) : Except ReadFailure (List Node) :=
  match tokenize source with
  | .error e => .error (.lexical e)
  | .ok ts => (parse lenient ts).mapError .parsing

end Grimoire
