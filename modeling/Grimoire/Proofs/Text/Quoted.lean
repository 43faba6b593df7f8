import Mathlib.Tactic.Ring
import Grimoire.Text.Quoted

/-!
# Quoted texts read back

A quoted text stands on one line, and the text can be read back from it (`unquote_quoted`): the
escapes form a code that can be read from the left, whichever quote is used (`unescape_escape`).
-/

namespace Grimoire.Text

/-! ## Hexadecimal digits -/

/-- The number that a hexadecimal digit stands for. -/
def hexDigitValue (c : CodePoint) : Nat := if c.isDigit then c.value - 0x30 else c.value - 0x57

/-- The number that a row of hexadecimal digits stands for. -/
def hexValue (ds : Text) : Nat := ds.foldl (fun n d => 16 * n + hexDigitValue d) 0

/-- Hexadecimal digits read back. -/
theorem hexDigitValue_hexDigit {n : Nat} (h : n < 16) : hexDigitValue (hexDigit n) = n := by
  have hall : ∀ n < 16, hexDigitValue (hexDigit n) = n := by decide
  exact hall n h

/-- The digits are as many as they are asked to be. -/
theorem length_hex (width n : Nat) : (hex width n).length = width := by
  induction width generalizing n with
  | zero => rfl
  | succ width ih => simp [hex, ih]

/-- A number reads back if it fits into the digits that are written. -/
theorem hexValue_hex {width n : Nat} (h : n < 16 ^ width) : hexValue (hex width n) = n := by
  induction width generalizing n with
  | zero => simp [hex, hexValue] at h ⊢; omega
  | succ width ih =>
    have hhigh : n / 16 < 16 ^ width := by
      rw [Nat.pow_succ] at h
      omega
    have hfold : hexValue (hex (width + 1) n) =
        16 * hexValue (hex width (n / 16)) + hexDigitValue (hexDigit (n % 16)) := by
      simp [hexValue, hex]
    rw [hfold, ih hhigh, hexDigitValue_hexDigit (Nat.mod_lt n (by decide))]
    omega

/-- No hexadecimal digit is a line break. -/
theorem newline_notMem_hex (width n : Nat) : ('\n' : CodePoint) ∉ hex width n := by
  induction width generalizing n with
  | zero => simp [hex]
  | succ width ih =>
    have hall : ∀ d < 16, ('\n' : CodePoint) ≠ hexDigit d := by decide
    have hdigit := hall (n % 16) (Nat.mod_lt n (by decide))
    simp [hex, ih, hdigit]

/-! ## Escapes -/

/-- How many digits follow the letter of an escape by number. -/
def hexWidth? (letter : CodePoint) : Option Nat :=
  if letter = 'x' then some 2
  else if letter = 'u' then some 4
  else if letter = 'U' then some 8
  else none

/-- The first code point of a text that has been escaped, and the rest of the text. -/
def unescape : Text → Option (CodePoint × Text)
  | [] => none
  | [c] => some (c, [])
  | c :: d :: t =>
    if c ≠ '\\' then some (c, d :: t)
    else if d = 'n' then some ('\n', t)
    else if d = 'r' then some ('\r', t)
    else if d = 't' then some ('\t', t)
    else match hexWidth? d with
      | some width => (CodePoint.ofNat? (hexValue (t.take width))).map (·, t.drop width)
      | none => some (d, t)

/-- Only a backslash has a meaning of its own. -/
theorem unescape_plain {c : CodePoint} (h : c ≠ '\\') (t : Text) :
    unescape (c :: t) = some (c, t) := by
  cases t with
  | nil => rfl
  | cons d t => simp [unescape, h]

/-- A code point that is written by its number reads back, if the number fits. -/
theorem unescape_number {letter : CodePoint} {width : Nat} (hletter : hexWidth? letter = some width)
    (hplain : letter ≠ 'n' ∧ letter ≠ 'r' ∧ letter ≠ 't') {c : CodePoint}
    (hc : c.value < 16 ^ width) (t : Text) :
    unescape (('\\' : CodePoint) :: letter :: (hex width c.value ++ t)) = some (c, t) := by
  have htake : (hex width c.value ++ t).take width = hex width c.value :=
    List.take_left' (length_hex width c.value)
  have hdrop : (hex width c.value ++ t).drop width = t :=
    List.drop_left' (length_hex width c.value)
  simp [unescape, hplain, hletter, htake, hdrop, hexValue_hex hc, CodePoint.ofNat?, c.isLt]

/-- Every code point can be written by its number. -/
theorem unescape_escapeNumber (c : CodePoint) (t : Text) :
    unescape (escapeNumber c ++ t) = some (c, t) := by
  unfold escapeNumber
  -- The widths are tried from the least one on, and the last one is wide enough for all.
  split
  · rename_i hc
    exact unescape_number (by decide) (by decide) hc t
  split
  · rename_i hc
    exact unescape_number (by decide) (by decide) hc t
  · have hc := c.isLt
    exact unescape_number (by decide) (by decide) (by omega) t

/-- The code points that a backslash is put in front of. -/
theorem eq_of_escaped {quote c : CodePoint} (hquote : quote = '\'' ∨ quote = '"')
    (hc : c = quote ∨ c = '\\') : c = '\'' ∨ c = '"' ∨ c = '\\' := by
  rcases hc with rfl | hc
  · rcases hquote with h | h
    · exact .inl h
    · exact .inr (.inl h)
  · exact .inr (.inr hc)

/-- **An escape can be read from the left**, whatever comes after it. -/
theorem unescape_escape {quote : CodePoint} (hquote : quote = '\'' ∨ quote = '"') (c : CodePoint)
    (t : Text) : unescape (escape quote c ++ t) = some (c, t) := by
  unfold escape
  split
  · -- the quotes and the backslash are none of the letters that mean something else
    rename_i hc
    rcases eq_of_escaped hquote hc with rfl | rfl | rfl <;> rfl
  split
  · rename_i hc
    rw [hc]
    rfl
  split
  · rename_i hc
    rw [hc]
    rfl
  split
  · rename_i hc
    rw [hc]
    rfl
  split
  · rename_i hc _ _ _ _
    exact unescape_plain (fun h => hc (.inr h)) t
  · exact unescape_escapeNumber c t

/-- A line break is always written by its letter. -/
theorem newline_notMem_escape {quote : CodePoint} (hquote : quote = '\'' ∨ quote = '"')
    (c : CodePoint) : ('\n' : CodePoint) ∉ escape quote c := by
  have hnumber : ('\n' : CodePoint) ∉ escapeNumber c := by
    have happend : ∀ (start : Text) (width : Nat), ('\n' : CodePoint) ∉ start →
        ('\n' : CodePoint) ∉ start ++ hex width c.value := by
      intro start width hstart
      rw [List.mem_append, not_or]
      exact ⟨hstart, newline_notMem_hex width c.value⟩
    unfold escapeNumber
    split
    · exact happend "\\x" 2 (by decide)
    split
    · exact happend "\\u" 4 (by decide)
    · exact happend "\\U" 8 (by decide)
  unfold escape
  split
  · rename_i hc
    rcases eq_of_escaped hquote hc with rfl | rfl | rfl <;> decide
  split
  · decide
  split
  · decide
  split
  · decide
  split
  · -- a code point that is written as it is; the line break was dealt with above
    rename_i hc _ _ _
    simpa using fun h => hc h.symm
  · exact hnumber

/-! ## Whole texts -/

/-- The quote is one of the two. -/
theorem quoteFor_eq (t : Text) : quoteFor t = '\'' ∨ quoteFor t = '"' := by
  unfold quoteFor
  split
  · exact .inr rfl
  · exact .inl rfl

/-- An escape is not empty, so unescaping comes to an end. -/
theorem length_of_unescape {t u : Text} {c : CodePoint} (h : unescape t = some (c, u)) :
    u.length < t.length := by
  match t with
  | [] => cases h
  | [_] =>
    cases h
    exact Nat.one_pos
  | d :: e :: t =>
    -- An escape takes up the backslash, the letter, and perhaps some digits.
    have hle : u.length ≤ t.length + 1 := by
      simp only [unescape] at h
      grind [Option.map_eq_some_iff]
    exact Nat.lt_succ_of_le hle

/-- What a text that has been escaped stands for. -/
def unescapeAll (t : Text) : Text :=
  match _h : unescape t with
  | none => []
  | some (c, u) => c :: unescapeAll u
termination_by t.length
decreasing_by exact length_of_unescape ‹_›

/-- What stands between the quotes. -/
def unquote (t : Text) : Text := unescapeAll t.tail.dropLast

/-- A text that has been escaped reads back, code point by code point. -/
theorem unescapeAll_flatMap {quote : CodePoint} (hquote : quote = '\'' ∨ quote = '"') (t : Text) :
    unescapeAll (t.flatMap (escape quote)) = t := by
  induction t with
  | nil =>
    unfold unescapeAll
    rfl
  | cons c t ih =>
    rw [List.flatMap_cons, unescapeAll]
    split
    · rename_i h
      rw [unescape_escape hquote] at h
      cases h
    · rename_i h
      rw [unescape_escape hquote] at h
      cases h
      rw [ih]

/-- **A quoted text can be read back.** -/
theorem unquote_quoted (t : Text) : unquote t.quoted = t := by
  unfold unquote quoted
  dsimp only
  rw [List.cons_append, List.tail_cons, List.dropLast_concat]
  exact unescapeAll_flatMap (quoteFor_eq t) t

/-- A quoted text stays on one line, whatever is in it. -/
theorem newline_notMem_quoted (t : Text) : ('\n' : CodePoint) ∉ t.quoted := by
  have hquote : ('\n' : CodePoint) ≠ quoteFor t := by
    rcases quoteFor_eq t with h | h <;> rw [h] <;> decide
  simp [quoted, hquote, newline_notMem_escape (quoteFor_eq t)]

end Grimoire.Text
