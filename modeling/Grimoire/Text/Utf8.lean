import Grimoire.Text.Quoted

/-!
# UTF-8

Reading a text from bytes, and finding out whether a text can be written as bytes. Both failures
name the exact place: the bytes that cannot begin or continue a code point, and the first run of
surrogates.
-/

namespace Grimoire.Utf8

/-- What can be wrong with bytes that should be UTF-8. -/
inductive Flaw where
  /-- The byte begins no code point. -/
  | start
  /-- The code point is broken off by a byte that cannot continue it. -/
  | continuation
  /-- The bytes end inside a code point. -/
  | ending
deriving DecidableEq

/-- Bytes that are not UTF-8: the flaw, the first byte of the broken code point, its position, and
how many bytes belong to it. -/
structure Undecodable where
  flaw : Flaw
  byte : Nat
  position : Nat
  count : Nat
deriving DecidableEq

/-- A code point of which some bytes are read: its first byte, how many bytes are read, the bits
gathered so far, how many bytes are still owed, and the range the next byte must lie in. -/
structure Partial where
  byte : Nat
  count : Nat
  bits : Nat
  owed : Nat
  low : Nat
  high : Nat
deriving DecidableEq

/-- What a first byte above `0x7F` begins: the range of the second byte excludes overlong forms,
surrogates and numbers beyond the last code point. -/
def begin? (b : Nat) : Option Partial :=
  if 0xC2 ≤ b ∧ b ≤ 0xDF then some ⟨b, 1, b - 0xC0, 1, 0x80, 0xBF⟩
  else if b = 0xE0 then some ⟨b, 1, b - 0xE0, 2, 0xA0, 0xBF⟩
  else if b = 0xED then some ⟨b, 1, b - 0xE0, 2, 0x80, 0x9F⟩
  else if 0xE1 ≤ b ∧ b ≤ 0xEF then some ⟨b, 1, b - 0xE0, 2, 0x80, 0xBF⟩
  else if b = 0xF0 then some ⟨b, 1, b - 0xF0, 3, 0x90, 0xBF⟩
  else if b = 0xF4 then some ⟨b, 1, b - 0xF0, 3, 0x80, 0x8F⟩
  else if 0xF1 ≤ b ∧ b ≤ 0xF3 then some ⟨b, 1, b - 0xF0, 3, 0x80, 0xBF⟩
  else none

/-- The flaw of a partial code point that ends before position `next`. -/
def Partial.broken (p : Partial) (flaw : Flaw) (next : Nat) : Undecodable :=
  ⟨flaw, p.byte, next - p.count, p.count⟩

/-- Reads bytes from position `next` on, first those that the partial code point still needs. -/
def decodeFrom (next : Nat) : Option Partial → List UInt8 → Except Undecodable Text
  | none, [] => .ok []
  | some p, [] => .error (p.broken .ending next)
  | none, b :: bs =>
    if h : b.toNat < 0x80 then (decodeFrom (next + 1) none bs).map (⟨b.toNat, by omega⟩ :: ·)
    else match begin? b.toNat with
      | some p => decodeFrom (next + 1) (some p) bs
      | none => .error ⟨.start, b.toNat, next, 1⟩
  | some p, b :: bs =>
    if p.low ≤ b.toNat ∧ b.toNat ≤ p.high then
      let bits := p.bits * 64 + (b.toNat - 0x80)
      if p.owed = 1 then
        match CodePoint.ofNat? bits with
        | some c => (decodeFrom (next + 1) none bs).map (c :: ·)
        | none => .error (p.broken .continuation next)
      else decodeFrom (next + 1) (some ⟨p.byte, p.count + 1, bits, p.owed - 1, 0x80, 0xBF⟩) bs
    else .error (p.broken .continuation next)

/-- The text that bytes spell in UTF-8, or the first flaw in them. -/
def decode (bytes : List UInt8) : Except Undecodable Text := decodeFrom 0 none bytes

/-- How many bytes a code point takes. -/
def width (c : CodePoint) : Nat :=
  if c.value < 0x80 then 1 else if c.value < 0x800 then 2 else if c.value < 0x10000 then 3 else 4

/-- How many bytes a text takes. -/
def size (t : Text) : Nat := t.foldl (fun n c => n + width c) 0

/-- The first surrogates of a text: the first one, its position, and how many stand in a row. -/
structure Unencodable where
  first : CodePoint
  position : Nat
  count : Nat
deriving DecidableEq

/-- What keeps a text from being written as UTF-8, if anything does. -/
def unencodable? (t : Text) : Option Unencodable :=
  match t.dropWhile (!·.isSurrogate) with
  | [] => none
  | c :: cs =>
    some ⟨c, (t.takeWhile (!·.isSurrogate)).length, 1 + (cs.takeWhile (·.isSurrogate)).length⟩

end Grimoire.Utf8

namespace Grimoire.Text

/-- Every line break, be it CR LF, CR or LF, as a single LF. -/
def unifyNewlines : Text → Text
  | [] => []
  | c :: cs =>
    if c = '\r' then
      match cs with
      | [] => ['\n']
      | d :: ds => if d = '\n' then '\n' :: unifyNewlines ds else '\n' :: unifyNewlines (d :: ds)
    else c :: unifyNewlines cs

end Grimoire.Text
