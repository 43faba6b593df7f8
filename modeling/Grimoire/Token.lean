import Grimoire.Diagnostic

/-!
# Tokens

The tokens of a spell. Keywords are not told apart from other names at this level: a phrase of the
grammar is matched word by word against identifiers.
-/

namespace Grimoire

/-- A place between two code points of a text: how many code points come before it, and its line and
column, both counted from one. -/
structure Mark where
  pos : Nat
  line : Nat
  column : Nat
deriving DecidableEq

namespace Mark

/-- The place in front of a text. -/
def start : Mark := ⟨0, 1, 1⟩

/-- The place after one more code point. -/
def step (m : Mark) (c : CodePoint) : Mark :=
  if c = '\n' then ⟨m.pos + 1, m.line + 1, 1⟩ else ⟨m.pos + 1, m.line, m.column + 1⟩

/-- The place after a text that starts at the mark. -/
def after (m : Mark) (t : Text) : Mark := t.foldl step m

@[simp] theorem after_nil (m : Mark) : m.after [] = m := rfl

@[simp] theorem after_cons (m : Mark) (c : CodePoint) (t : Text) :
    m.after (c :: t) = (m.step c).after t := rfl

/-- The places after two texts in a row are found one after the other. -/
theorem after_append (m : Mark) (s t : Text) : m.after (s ++ t) = (m.after s).after t :=
  List.foldl_append

/-- The line and the column of a mark, as a diagnostic shows them. -/
def place (m : Mark) : Place := ⟨some m.line, some m.column⟩

end Mark

/-- The kinds of tokens. The end of a spell counts as a token of its own. -/
inductive TokenKind where
  | identifier
  | integer
  | float
  | string
  | symbol
  | eof
deriving DecidableEq

/-- The name of a kind, as it stands in listings and in diagnostics. -/
def TokenKind.name : TokenKind → Text
  | identifier => "IDENTIFIER"
  | integer => "INTEGER"
  | float => "FLOAT"
  | string => "STRING"
  | symbol => "SYMBOL"
  | eof => "EOF"

/-- A token: its kind, its text (for a string, what stands between the quotes), and the mark before
its first code point. The token at the end of a spell has no text. -/
structure Token where
  kind : TokenKind
  text : Text
  mark : Mark
deriving DecidableEq

namespace Token

/-- The token at the end of a spell. -/
def eof (m : Mark) : Token := ⟨.eof, [], m⟩

/-- The text of a token. The end of the spell has none. -/
def text? (t : Token) : Option Text := if t.kind = .eof then none else some t.text

/-- A token in a diagnostic: its kind and its text between apostrophes. -/
def describe (t : Token) : Text :=
  match t.text? with
  | some text => t.kind.name ++ ":'" ++ text ++ "'"
  | none => t.kind.name

/-- A token in brief: its kind and its text in parentheses. -/
def brief (t : Token) : Text :=
  match t.text? with
  | some text => t.kind.name ++ "(" ++ text ++ ")"
  | none => t.kind.name

/-- Whether a token is an identifier with the given text. -/
def isWord (t : Token) (word : Text) : Bool := t.kind = .identifier && t.text = word

end Token

/-- The tokens of a whole spell, and the mark at its end. -/
structure Tokens where
  body : List Token
  stop : Mark
deriving DecidableEq

namespace Tokens

/-- All tokens, the one at the end included. -/
def toList (ts : Tokens) : List Token := ts.body ++ [Token.eof ts.stop]

/-- One more token in front of the others. -/
def cons (t : Token) (ts : Tokens) : Tokens := ⟨t :: ts.body, ts.stop⟩

@[simp] theorem toList_cons (t : Token) (ts : Tokens) : (ts.cons t).toList = t :: ts.toList := rfl

end Tokens
end Grimoire
