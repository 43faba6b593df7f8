import Grimoire.Proofs.Run.Halting
import Grimoire.Proofs.Run.Sequence
import Grimoire.Proofs.Token.Rendering
import Grimoire.Proofs.Tree.Parts
import Grimoire.Proofs.Value.Reply

/-!
# Integers written and read back

An integer is written in the notation of integers, with a sign only if it is negative. Replies and
spells read that notation with readers of their own, and both give the integer back, as long as it
has no more digits than the limit allows. A spell has no signs, so only what is not negative can
stand in it; what such a spell prints is the text that it was made with.
-/

namespace Grimoire

open Numeral

/-! ## The text of an integer -/

/-- The notation in which an integer is written. -/
def IntegerNotation.ofInt (n : Int) : IntegerNotation where
  sign := if n < 0 then .minus else .none
  digits := Numeral.digits n.natAbs
  ne_nil := digits_ne_nil _
  isDigit := List.all_eq_true.mp (all_isDigit_digits _)

namespace IntegerNotation

/-- The parts of an integer are written as the integer is. -/
theorem text_ofInt (n : Int) : (ofInt n).text = Numeral.ofInt n := by
  unfold text ofInt Numeral.ofInt
  dsimp only
  split <;> rfl

/-- The parts of an integer have its value. -/
theorem value_ofInt (n : Int) : (ofInt n).value = n := by
  rw [value_eq_signed, ofInt, value_digits]
  by_cases hneg : n < 0
  · simp only [if_pos hneg, Sign.isNegative, signed, if_true]
    omega
  · simp only [if_neg hneg, Sign.isNegative, signed, Bool.false_eq_true, if_false]
    omega

end IntegerNotation

/-- A number that is not negative is written as its digits. -/
theorem Numeral.ofInt_of_nonneg {n : Int} (h : 0 ≤ n) : ofInt n = digits n.natAbs :=
  if_neg (Int.not_lt.mpr h)

/-- An integer is written in digits, if there are not too many. -/
theorem Value.format_int (n : Int) :
    (Value.int n).format =
      if (digits n.natAbs).length ≤ digitLimit then .ok (ofInt n) else .error .tooLongToWrite := by
  have hlimit := length_digits_le_iff (n := n.natAbs) (k := digitLimit) (by decide)
  show writeInt n = _
  unfold writeInt write?
  by_cases hle : (digits n.natAbs).length ≤ digitLimit
  · rw [if_pos hle, if_pos (hlimit.mp hle)]
    rfl
  · rw [if_neg hle, if_neg (mt hlimit.mpr hle)]
    rfl

/-! ## In a reply -/

/-- No character of a number is blank. -/
theorem CodePoint.not_blank_of_plain {c : CodePoint} (h : c.isPlain = true) :
    c.isBlank = false := by
  rw [isPlain, Bool.or_eq_true] at h
  rcases h with h | h
  · simp [isDigit, isBlank, between] at h ⊢
    omega
  · have hall : ∀ d ∈ Text.ofString "+-.eE", d.isBlank = false := by decide
    exact hall c (List.contains_iff_mem.mp h)

/-- Blanks around an integer are no part of it. -/
theorem IntegerNotation.strips (i : IntegerNotation) {u w : Text}
    (hu : ∀ c ∈ u, c.isBlank = true) (hw : ∀ c ∈ w, c.isBlank = true) :
    (u ++ i.text ++ w).Strips i.text where
  around := ⟨u, w, List.append_assoc _ _ _, hu, hw⟩
  first c hc := CodePoint.not_blank_of_plain (i.isPlain_text c (List.mem_of_mem_head? hc))
  last c hc := CodePoint.not_blank_of_plain (i.isPlain_text c (List.mem_of_mem_getLast? hc))

/-- A reply with the text of an integer is the integer. -/
theorem Value.ofReply_ofInt {n : Int} (hlimit : (digits n.natAbs).length ≤ digitLimit) {u w : Text}
    (hu : ∀ c ∈ u, c.isBlank = true) (hw : ∀ c ∈ w, c.isBlank = true) :
    ofReply (some (u ++ Numeral.ofInt n ++ w)) = .ok (.int n) := by
  have htrim := ((IntegerNotation.ofInt n).strips hu hw).trim_eq
  have hread := (ofReply_integer htrim).trans (if_pos hlimit)
  rwa [IntegerNotation.text_ofInt, IntegerNotation.value_ofInt] at hread

/-! ## In a spell -/

/-- The digits of a number are a well-formed token. -/
theorem Token.isShaped_digits (n : Nat) (m : Mark) :
    (⟨.integer, digits n, m⟩ : Token).isShaped := by
  show Text.isDigits (digits n) = true
  rw [Text.isDigits, all_isDigit_digits, Bool.and_true, Bool.not_eq_true',
    List.isEmpty_eq_false_iff]
  exact digits_ne_nil n

/-- A cry without its value. -/
def shouting : Text := "shout the many cries of "

/-- Its tokens. -/
def shoutingTokens : List Token :=
  [⟨.identifier, "shout", ⟨0, 1, 1⟩⟩, ⟨.identifier, "the", ⟨6, 1, 7⟩⟩,
    ⟨.identifier, "many", ⟨10, 1, 11⟩⟩, ⟨.identifier, "cries", ⟨15, 1, 16⟩⟩,
    ⟨.identifier, "of", ⟨21, 1, 22⟩⟩]

/-- A word that is followed by a blank. -/
theorem Scanner.Scans.word {w rest : Text} {ts : List Token} {m stop : Mark} {g : Text}
    (hg : Gap False g) (hw : w.isName = true)
    (h : Scans ⟨(" " : Text) ++ rest, (m.after g).after w⟩ ts stop) :
    Scans ⟨g ++ (w ++ ((" " : Text) ++ rest)), m⟩ (⟨.identifier, w, m.after g⟩ :: ts) stop := by
  have hmax : (⟨.identifier, w, m⟩ : Token).Maximal ((" " : Text) ++ rest) := by
    intro c hc
    obtain rfl := Option.some.inj hc
    decide
  have hshape : (⟨.identifier, w, m⟩ : Token).isShaped := hw
  have hwritten : (⟨.identifier, w, m⟩ : Token).Written w := Token.written_text nofun
  exact .more (next_written hg hshape hwritten hmax m) nofun h

open Scanner in
/-- The tokens of a text that shouts a single token. -/
theorem tokenize_shouting {t : Token} {w : Text} (hshape : t.isShaped) (hw : t.Written w) :
    tokenize (shouting ++ w) =
      .ok ⟨shoutingTokens ++ [{ t with mark := ⟨24, 1, 25⟩ }], Mark.after ⟨24, 1, 25⟩ w⟩ := by
  have hgap : Gap False " " := .blank (by decide) .nil
  have hlast : (⟨(" " : Text) ++ (w ++ []), ⟨23, 1, 24⟩⟩ : Scanner).next =
      (.ok { t with mark := ⟨24, 1, 25⟩ }, ⟨[], Mark.after ⟨24, 1, 25⟩ w⟩) :=
    next_written hgap hshape hw (t.maximal_of_gap (by simp)) _
  rw [List.append_nil] at hlast
  have hend : Scans ⟨(" " : Text) ++ w, ⟨23, 1, 24⟩⟩ [{ t with mark := ⟨24, 1, 25⟩ }]
      (Mark.after ⟨24, 1, 25⟩ w) :=
    .more hlast (Token.kind_ne_eof_of_isShaped hshape) (.stop (next_gap .nil _) rfl)
  have hof := Scans.word (w := "of") (m := ⟨20, 1, 21⟩) hgap (by decide) hend
  have hcries := Scans.word (w := "cries") (m := ⟨14, 1, 15⟩) hgap (by decide) hof
  have hmany := Scans.word (w := "many") (m := ⟨9, 1, 10⟩) hgap (by decide) hcries
  have hthe := Scans.word (w := "the") (m := ⟨5, 1, 6⟩) hgap (by decide) hmany
  have hshout := Scans.word (w := "shout") (m := Mark.start) .nil (by decide) hthe
  exact tokenize_eq_ok.mpr hshout

/-- Shouts an integer that stands in the spell. -/
def cry (n : Int) : List Node :=
  [.shout (some 1) (.literal (some 1) (.int n) (some "INTEGER"))]

/-- A row of digits in the place of the integer is read as the integer that it stands for. -/
theorem parse_shouting {ds : Text} (hdigits : ds.length ≤ digitLimit) (stop : Mark) :
    parse false ⟨shoutingTokens ++ [⟨.integer, ds, ⟨24, 1, 25⟩⟩], stop⟩ = .ok (cry (value ds)) := by
  have hkinds : ∀ t ∈ shoutingTokens ++ [⟨.integer, ds, ⟨24, 1, 25⟩⟩], t.kind ≠ .eof := by
    simp [shoutingTokens]
  refine (parse_strict_eq_ok hkinds).mpr ⟨?_, ?_⟩
  · have hwords : Words ["the", "many", "cries", "of"] (shoutingTokens.drop 1) := by
      simp [Words, shoutingTokens, Token.isWord]
    have hinteger : Spells .expression (.literal (some 1) (.int (value ds)) (some "INTEGER"))
        [⟨.integer, ds, ⟨24, 1, 25⟩⟩] :=
      .integer (t := ⟨.integer, ds, ⟨24, 1, 25⟩⟩) rfl hdigits
    have hshout : Spells .statement _ (shoutingTokens ++ [⟨.integer, ds, ⟨24, 1, 25⟩⟩]) :=
      .shout (t := ⟨.identifier, "shout", ⟨0, 1, 1⟩⟩) rfl hwords hinteger
    have hall := Spells.cons hshout .nil
    rw [List.append_nil] at hall
    exact hall
  · simp [cry, Node.levels, Node.levelsOfAll, nestingLimit]

/-! ## In a run -/

/-- Digits can always be encoded. -/
theorem Utf8.unencodable?_of_digits {ds : Text} (h : ds.all CodePoint.isDigit = true) :
    unencodable? ds = none := by
  have hdrop : ds.dropWhile (!·.isSurrogate) = [] := by
    rw [List.dropWhile_eq_nil_iff]
    intro c hc
    have hdigit := List.all_eq_true.mp h c hc
    simp [CodePoint.isDigit, CodePoint.isSurrogate, CodePoint.between] at hdigit ⊢
    omega
  unfold unencodable?
  rw [hdrop]

namespace Casting

variable {terms : Terms} {s : RunState}

/-- As long as the limit is not reached, a tick at most counts. -/
theorem tick_of_le (h : ∀ m ∈ terms.limit, (s.steps + 1 : Nat) ≤ m) :
    ∃ steps, tick terms s = .ok () { s with steps } := by
  cases hlimit : terms.limit with
  | none =>
    refine ⟨s.steps, ?_⟩
    rw [tick, hlimit]
    rfl
  | some m => exact ⟨s.steps + 1, by rw [← tally_of_limited hlimit, tally_of_le h]⟩

/-- A spell that shouts a literal prints it, and does nothing else. -/
theorem run_shout_literal (passes : Nat) {line line' : Option Nat} {v : Value}
    {kind : Option Text} {text : Text} (hformat : v.format = .ok text)
    (htext : Utf8.unencodable? text = none)
    (h : ∀ m ∈ terms.limit, (s.steps + 1 : Nat) ≤ m) :
    ∃ steps, run terms passes [.shout line (.literal line' v kind)] s =
      (.success, { s with steps, trace := s.trace.push (.log text) }) := by
  obtain ⟨steps, htick⟩ := tick_of_le h
  refine ⟨steps, run_eq_success.mpr ?_⟩
  have hprint : print terms text { s with steps } =
      .ok () { s with steps, trace := s.trace.push (.log text) } := by
    rw [print_apply, htext, ite_self]
  refine bind_of_ok (a := ()) ?_
  refine (bind_of_ok htick).trans (bind_of_ok (a := .nothing) ?_)
  refine (bind_of_ok (a := v) rfl).trans ?_
  rw [hformat]
  exact bind_of_ok hprint

end Casting

/-! ## The headline -/

/-- **An integer survives being written and read.** If it has at most 4300 digits, a reply with its
text and any blanks around it is the integer. If it is not negative, its text is a single token of a
spell, which is the literal of the integer, and the spell that shouts it prints the text again. An
integer with more digits cannot be written. -/
theorem integer_survives (n : Int) :
    ((digits n.natAbs).length ≤ 4300 →
      (Value.int n).format = .ok (ofInt n) ∧
      (∀ u w : Text, (∀ c ∈ u, c.isBlank = true) → (∀ c ∈ w, c.isBlank = true) →
        Value.ofReply (some (u ++ ofInt n ++ w)) = .ok (.int n)) ∧
      (0 ≤ n → ∃ ts, tokenize (shouting ++ ofInt n) = .ok ts ∧
        ts.body.map Token.look = shouting.words.map (.identifier, ·) ++ [(.integer, ofInt n)] ∧
        (∀ lenient, parse lenient ts = .ok (cry n)) ∧
        ∀ (terms : Terms) (passes : Nat) (start : RunState),
          (∀ m ∈ terms.limit, (start.steps + 1 : Nat) ≤ m) →
            ∃ steps, run terms passes (cry n) start =
              (.success, { start with steps, trace := start.trace.push (.log (ofInt n)) }))) ∧
    (4300 < (digits n.natAbs).length → (Value.int n).format = .error .tooLongToWrite) := by
  have hformat := Value.format_int n
  refine ⟨fun hle => ?_, fun hlt => hformat.trans (if_neg (Nat.not_le.mpr hlt))⟩
  replace hformat := hformat.trans (if_pos hle)
  refine ⟨hformat, fun u w => Value.ofReply_ofInt hle, fun hn => ?_⟩
  -- Without a sign, the text is the row of digits that the scanner takes for one token.
  rw [ofInt_of_nonneg hn] at hformat ⊢
  have hwritten : (⟨.integer, digits n.natAbs, Mark.start⟩ : Token).Written (digits n.natAbs) :=
    Token.written_text (by simp)
  refine ⟨_, tokenize_shouting (Token.isShaped_digits _ _) hwritten, rfl, fun lenient => ?_,
    fun terms passes start => ?_⟩
  · have hparse := parse_shouting hle (Mark.after ⟨24, 1, 25⟩ (digits n.natAbs))
    rw [value_digits, Int.natAbs_of_nonneg hn] at hparse
    exact parse_of_strict hparse lenient
  · have hencodable := Utf8.unencodable?_of_digits (all_isDigit_digits n.natAbs)
    exact Casting.run_shout_literal passes hformat hencodable

end Grimoire
