import Grimoire.Text.Printable

/-!
# Quoted text

A text written between quotes so that it reads as one line: the quote, the backslash and whatever
is not printable are escaped. Apostrophes are the usual quote; a text that holds an apostrophe and
no quotation mark is put between quotation marks instead.
-/

namespace Grimoire.Text

/-- The hexadecimal digit for a number below sixteen, in small letters. -/
def hexDigit (n : Nat) : CodePoint := Nat.digitChar n

/-- The last `width` hexadecimal digits of `n`. -/
def hex : (width : Nat) → (n : Nat) → Text
  | 0, _ => []
  | width + 1, n => hex width (n / 16) ++ [hexDigit (n % 16)]

/-- A code point by its number: `\xHH`, `\uHHHH` or `\UHHHHHHHH`, whichever is wide enough. -/
def escapeNumber (c : CodePoint) : Text :=
  if c.value < 0x100 then "\\x" ++ hex 2 c.value
  else if c.value < 0x10000 then "\\u" ++ hex 4 c.value
  else "\\U" ++ hex 8 c.value

/-- How a code point is written inside a quoted text: with a backslash if it is the quote or a
backslash, by a letter or a number if it cannot be printed, and as it is otherwise. -/
def escape (quote c : CodePoint) : Text :=
  if c = quote ∨ c = '\\' then ['\\', c]
  else if c = '\n' then "\\n"
  else if c = '\r' then "\\r"
  else if c = '\t' then "\\t"
  else if c.isPrintable then [c]
  else escapeNumber c

/-- The quote that `quoted` puts around a text. -/
def quoteFor (t : Text) : CodePoint :=
  if t.contains ('\'' : CodePoint) && !t.contains ('"' : CodePoint) then '"' else '\''

/-- A text as a literal: between quotes, with whatever needs it escaped. -/
def quoted (t : Text) : Text :=
  let quote := quoteFor t
  quote :: t.flatMap (escape quote) ++ [quote]

end Grimoire.Text
