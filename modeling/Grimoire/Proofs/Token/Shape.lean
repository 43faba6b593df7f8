import Grimoire.Token.Scanner

/-!
# The shapes of tokens

What a rule sees of a token, and what the text of a token can be, by its kind.
-/

namespace Grimoire

namespace Text

/-- A name: a letter or an underscore, and then letters, digits and underscores. -/
def isName : Text → Bool
  | [] => false
  | c :: cs => c.isNameStart && cs.all CodePoint.isNamePart

/-- At least one digit and nothing else. -/
def isDigits (t : Text) : Bool := !t.isEmpty && t.all CodePoint.isDigit

/-- Digits with a point among them. -/
def isDecimal (t : Text) : Bool :=
  let whole := t.takeWhile CodePoint.isDigit
  match t.drop whole.length with
  | [] => false
  | c :: cs => !whole.isEmpty && decide (c = '.') && isDigits cs

/-- A text that can stand between quotes of one of the two kinds. -/
def isQuotable (t : Text) : Bool := !t.contains '"' || !t.contains '\''

end Text

/-- What a rule looks at in a token: its kind and its text. -/
def Token.look (t : Token) : TokenKind × Text := (t.kind, t.text)

/-- The text of the token fits its kind. The end of a spell is no token of this sort. -/
def Token.isShaped (t : Token) : Bool :=
  match t.kind with
  | .identifier => t.text.isName
  | .integer => t.text.isDigits
  | .float => t.text.isDecimal
  | .string => t.text.isQuotable
  | .symbol => decide (t.text.length = 1) && t.text.all CodePoint.isSymbol
  | .eof => false

/-- A token with the shape of a token is not the end of a spell. -/
theorem Token.kind_ne_eof_of_isShaped {t : Token} (h : t.isShaped) : t.kind ≠ .eof := by
  intro hkind
  rw [Token.isShaped, hkind] at h
  cases h

end Grimoire
