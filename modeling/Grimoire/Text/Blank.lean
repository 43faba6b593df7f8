import Grimoire.Text.CodePoint

/-!
# Blanks

Which code points count as blank space, and what follows from it: trimming a text and cutting it
into words.
-/

namespace Grimoire

/-- White space: the separators of ASCII, the no-break spaces and the wide spaces of Unicode. -/
def CodePoint.isBlank (c : CodePoint) : Bool :=
  c.between 0x09 0x0D || c.between 0x1C 0x20 || decide (c.value = 0x85) || decide (c.value = 0xA0)
    || decide (c.value = 0x1680) || c.between 0x2000 0x200A || c.between 0x2028 0x2029
    || decide (c.value = 0x202F) || decide (c.value = 0x205F) || decide (c.value = 0x3000)

namespace Text

/-- A text without the code points satisfying `p` at its two ends. -/
def trimBy (p : CodePoint → Bool) (t : Text) : Text :=
  ((t.dropWhile p).reverse.dropWhile p).reverse

/-- A text without the blanks at its two ends. -/
def trim (t : Text) : Text := t.trimBy CodePoint.isBlank

/-- Adds a word in front of a list of words, unless it is empty. -/
def consWord (word : Text) (words : List Text) : List Text :=
  if word.isEmpty then words else word :: words

/-- The word that a text starts with, which is empty when a blank comes first, and the words after
it. -/
def splitWords : Text → Text × List Text
  | [] => ([], [])
  | c :: cs =>
    let (word, rest) := splitWords cs
    if c.isBlank then ([], consWord word rest) else (c :: word, rest)

/-- The longest runs of a text that hold no blank, in order. -/
def words (t : Text) : List Text :=
  let (word, rest) := splitWords t
  consWord word rest

end Text
end Grimoire
