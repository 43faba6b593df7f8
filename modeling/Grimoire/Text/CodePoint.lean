/-!
# Code points and texts

A spell, its tokens and everything it prints are sequences of Unicode code points. A lone surrogate
is a code point like any other: a spell can make one from its number, and only writing it to a
terminal fails. A `Text` is therefore a list of `CodePoint`s and not a `String`.
-/

namespace Grimoire

/-- A Unicode code point: any number below `0x110000`, surrogates included. -/
structure CodePoint where
  value : Nat
  isLt : value < 0x110000
deriving DecidableEq

namespace CodePoint

/-- The code point of a character. The reverse fails for surrogates, which are no characters. -/
def ofChar (c : Char) : CodePoint where
  value := c.toNat
  isLt := by
    have h : c.toNat.isValidChar := c.valid
    simp only [Nat.isValidChar] at h
    omega

instance : Coe Char CodePoint := ⟨ofChar⟩

instance : Inhabited CodePoint := ⟨'\x00'⟩

/-- The code point with number `n`, if there is one. -/
def ofNat? (n : Nat) : Option CodePoint :=
  if h : n < 0x110000 then some ⟨n, h⟩ else none

instance : LT CodePoint := ⟨fun a b => a.value < b.value⟩

instance : DecidableLT CodePoint := fun a b => inferInstanceAs (Decidable (a.value < b.value))

theorem lt_iff {a b : CodePoint} : a < b ↔ a.value < b.value := Iff.rfl

/-- A code point is its number. -/
theorem ext_value {a b : CodePoint} (h : a.value = b.value) : a = b := by
  cases a; cases b; simp_all

/-- `c.between lo hi` says that `c` lies in the closed range from `lo` to `hi`. -/
def between (c : CodePoint) (lo hi : Nat) : Bool :=
  decide (lo ≤ c.value) && decide (c.value ≤ hi)

/-- Surrogates have no UTF-8 form. -/
def isSurrogate (c : CodePoint) : Bool := c.between 0xD800 0xDFFF

/-- One of the ten decimal digits of ASCII. -/
def isDigit (c : CodePoint) : Bool := c.between 0x30 0x39

/-- A letter of ASCII or the underscore: what a name may start with. -/
def isNameStart (c : CodePoint) : Bool :=
  c.between 0x41 0x5A || c.between 0x61 0x7A || decide (c = '_')

/-- A letter or digit of ASCII or the underscore: what a name may go on with. -/
def isNamePart (c : CodePoint) : Bool := c.isNameStart || c.isDigit

/-- The number that a decimal digit stands for. -/
def digitValue (c : CodePoint) : Nat := c.value - 0x30

end CodePoint

/-- A sequence of code points. The order on texts is the lexicographic one. -/
abbrev Text := List CodePoint

namespace Text

/-- A string as a sequence of code points. -/
def ofString (s : String) : Text := s.toList.map CodePoint.ofChar

instance : Coe String Text := ⟨ofString⟩

/-- The string with these code points, if none of them is a surrogate. -/
def toString? (t : Text) : Option String :=
  if t.any CodePoint.isSurrogate then none
  else some (String.ofList (t.map fun c => Char.ofNat c.value))

/-- The lines of a text. Each newline ends a line, and what follows the last newline is a line of
its own unless it is empty. -/
def lines : Text → List Text
  | [] => []
  | c :: cs =>
    if c = '\n' then [] :: lines cs
    else match lines cs with
      | [] => [[c]]
      | l :: ls => (c :: l) :: ls

/-- Puts `sep` between the texts of a list. -/
def join (sep : Text) (ts : List Text) : Text := List.intercalate sep ts

end Text
end Grimoire
