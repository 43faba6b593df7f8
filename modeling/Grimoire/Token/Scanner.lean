import Grimoire.Text.Blank
import Grimoire.Token

/-!
# Cutting a text into tokens

A `Scanner` walks over a text. Each of its operations can be used in any state, also at the end of
the text and after a failure; `tokenize` uses them to cut a whole spell into tokens. A token is as
long as it can be, blanks and comments stand between tokens, and a comment runs from `#` to the end
of its line.
-/

namespace Grimoire

/-- Why no token can be read. -/
inductive LexCause where
  | unterminated
  | unexpected (c : CodePoint)
deriving DecidableEq

/-- The cause in words. -/
def LexCause.message : LexCause → Text
  | unterminated => "unterminated string"
  | unexpected c => "unexpected character '" ++ [c] ++ "'"

/-- A place at which a text cannot be cut into tokens, and the cause. -/
structure LexError where
  cause : LexCause
  mark : Mark
deriving DecidableEq

/-- What the user is told about a text that cannot be cut into tokens. -/
def LexError.diagnostic (e : LexError) : Diagnostic :=
  ⟨.lexical, e.cause.message, some e.mark.place⟩

namespace CodePoint

/-- The two quotes, between which a string stands. -/
def isQuote (c : CodePoint) : Bool := decide (c = '"') || decide (c = '\'')

/-- The code points that are tokens by themselves. -/
def isSymbol (c : CodePoint) : Bool := (Text.ofString "\x7b\x7d()[]=;.,:+-*/").contains c

end CodePoint

/-- The rest of a text that is being read, and the mark before it. -/
structure Scanner where
  rest : Text
  mark : Mark
deriving DecidableEq

namespace Scanner

/-- A scanner in front of a text. -/
def start (t : Text) : Scanner := ⟨t, Mark.start⟩

/-- The code point that comes next. -/
def current? (s : Scanner) : Option CodePoint := s.rest.head?

/-- The code point after the next one. -/
def peek? (s : Scanner) : Option CodePoint := s.rest.tail.head?

/-- Passes one code point. -/
def advance (s : Scanner) : Scanner :=
  match s.rest with
  -- At the end of the text the mark moves on all the same.
  | [] => ⟨[], s.mark.pos + 1, s.mark.line, s.mark.column + 1⟩
  | c :: cs => ⟨cs, s.mark.step c⟩

/-- What `skipWhile p` passes. -/
def taken (p : CodePoint → Bool) (s : Scanner) : Text := s.rest.takeWhile p

/-- Passes code points as long as they satisfy `p`. -/
def skipWhile (p : CodePoint → Bool) (s : Scanner) : Scanner :=
  ⟨s.rest.dropWhile p, s.mark.after (s.taken p)⟩

/-- What is passed and what is left make up the text again. -/
theorem taken_append_rest (p : CodePoint → Bool) (s : Scanner) :
    s.taken p ++ (s.skipWhile p).rest = s.rest :=
  List.takeWhile_append_dropWhile

/-- Passes the blanks that come next. -/
def skipBlanks (s : Scanner) : Scanner := s.skipWhile CodePoint.isBlank

/-- Passes the rest of the line. -/
def skipComment (s : Scanner) : Scanner := s.skipWhile fun c => c ≠ '\n'

/-- Reads a name. Where none starts, the token is empty and nothing is passed. -/
def readName (s : Scanner) : Token × Scanner :=
  (⟨.identifier, s.taken CodePoint.isNamePart, s.mark⟩, s.skipWhile CodePoint.isNamePart)

/-- Reads a number: digits, perhaps with a point and digits after it. -/
def readNumber (s : Scanner) : Token × Scanner :=
  let whole := s.taken CodePoint.isDigit
  let s₁ := s.skipWhile CodePoint.isDigit
  -- A point belongs to the number only when a digit follows.
  if s₁.current? = some ('.' : CodePoint) ∧ s₁.peek?.any CodePoint.isDigit then
    let s₂ := s₁.advance
    (⟨.float, whole ++ "." ++ s₂.taken CodePoint.isDigit, s.mark⟩, s₂.skipWhile CodePoint.isDigit)
  else (⟨.integer, whole, s.mark⟩, s₁)

/-- Reads a string. The next code point, whatever it is, is taken for the quote, and what stands
between it and its next occurrence is the text of the string, without any escapes. -/
def readString (s : Scanner) : Except LexError Token × Scanner :=
  match s.current? with
  -- Past the end of the text the absent quote is closed at once.
  | none => (.ok ⟨.string, [], s.mark⟩, s.advance.advance)
  | some quote =>
    let s₁ := s.advance
    let s₂ := s₁.skipWhile fun c => c ≠ quote
    if s₂.rest = [] then (.error ⟨.unterminated, s.mark⟩, s₂)
    else (.ok ⟨.string, s₁.taken fun c => c ≠ quote, s.mark⟩, s₂.advance)

/-- The blanks and comments that a text starts with; `inComment` says that it starts inside a
comment. -/
def trivia (inComment : Bool) : Text → Text
  | [] => []
  | c :: cs =>
    -- The line break that ends a comment is a blank.
    if inComment then c :: trivia (c ≠ '\n') cs
    else if c.isBlank then c :: trivia false cs
    else if c = '#' then c :: trivia true cs
    else []

/-- The blanks and comments are a beginning of the text. -/
theorem trivia_append_drop (inComment : Bool) (t : Text) :
    trivia inComment t ++ t.drop (trivia inComment t).length = t := by
  induction t generalizing inComment with
  | nil => rfl
  | cons c cs ih =>
    rw [trivia]
    split
    · simp [ih]
    · split
      · simp [ih]
      · split <;> simp [ih]

/-- Passes all blanks and comments that come next. -/
def skipTrivia (s : Scanner) : Scanner :=
  let skipped := trivia false s.rest
  ⟨s.rest.drop skipped.length, s.mark.after skipped⟩

/-- Reads the token that comes right at the scanner. -/
def readToken (s : Scanner) : Except LexError Token × Scanner :=
  match s.current? with
  | none => (.ok (Token.eof s.mark), s)
  | some c =>
    if c.isQuote then s.readString
    else if c.isDigit then (.ok s.readNumber.1, s.readNumber.2)
    else if c.isNameStart then (.ok s.readName.1, s.readName.2)
    else if c.isSymbol then (.ok ⟨.symbol, [c], s.mark⟩, s.advance)
    else (.error ⟨.unexpected c, s.mark⟩, s)

/-- Reads the next token, behind blanks and comments. -/
def next (s : Scanner) : Except LexError Token × Scanner := s.skipTrivia.readToken

/-- Reads tokens up to the end of the text, but at most `fuel` of them. -/
def tokens : (fuel : Nat) → Scanner → Except LexError Tokens
  | 0, s => .ok ⟨[], s.mark⟩
  | fuel + 1, s =>
    match s.next with
    | (.error e, _) => .error e
    | (.ok t, s') => if t.kind = .eof then .ok ⟨[], t.mark⟩ else (tokens fuel s').map (·.cons t)

end Scanner

/-- The tokens of a text. Every token takes up a code point of it, so there are no more tokens than
code points. -/
def tokenize (t : Text) : Except LexError Tokens := (Scanner.start t).tokens (t.length + 1)

end Grimoire
