import Grimoire.Proofs.Token.Failing
import Grimoire.Proofs.Token.Lines

/-!
# Texts one below the other

A text that can be cut into tokens, a line break, and any other text. Nothing at the end of the
first text reaches beyond the line break, and what the scanner has read before it plays no part in
what comes after it. So the tokens are those of the two texts, and where the second text cannot be
cut into tokens, both together fail in the same way; only the marks are further down.

* **`tokenize_below`** and **`tokenize_below_error`** say so for tokens and for errors.
* **`tokenize_joined`** puts both together.
-/

namespace Grimoire

/-! ## The same text further down -/

/-- An error so many code points and lines further down. -/
def LexError.down (pos line : Nat) (e : LexError) : LexError :=
  { e with mark := e.mark.down pos line }

namespace Scanner

/-- A text further down has the same tokens, further down. -/
theorem Scans.down {s : Scanner} {ts : List Token} {m : Mark} (h : Scans s ts m) (pos line : Nat) :
    Scans (s.placed [] pos line) (ts.map (Token.down pos line)) (m.down pos line) := by
  induction h with
  | @stop s s' t h ht =>
    have hnil := (next_eof_iff h).mp ht
    have hskip : (s.placed [] pos line).skipTrivia =
        ⟨s.skipTrivia.rest, s.skipTrivia.mark.down pos line⟩ := by
      unfold skipTrivia placed
      dsimp only
      rw [List.append_nil, Mark.after_down]
    have hnext : (s.placed [] pos line).next =
        (.ok (Token.eof (s.skipTrivia.mark.down pos line)), (s.placed [] pos line).skipTrivia) := by
      unfold next
      rw [hskip]
      exact readToken_nil hnil
    rw [next, readToken_nil hnil] at h
    obtain ⟨htoken, -⟩ := Prod.mk.inj h
    rw [← Except.ok.inj htoken]
    exact .stop hnext rfl
  | more h ht _ ih => exact .more (next_placed pos line (by simp) h ht) ht ih

/-- A text further down has the same error, further down. -/
theorem Fails.down {s : Scanner} {e : LexError} (h : Fails s e) (pos line : Nat) :
    Fails (s.placed [] pos line) (e.down pos line) := by
  induction h with
  | @here s s' e h =>
    obtain ⟨g, c, rest, hrest, hg, hflaw, hmark⟩ := flaw_of_next h
    obtain ⟨s₁, hnext⟩ := next_of_flaw hg hflaw (s.mark.down pos line)
    have herror : (⟨e.cause, (s.mark.down pos line).after g⟩ : LexError) = e.down pos line := by
      rw [Mark.after_down, ← hmark]
      rfl
    rw [herror, ← hrest] at hnext
    unfold placed
    rw [List.append_nil]
    exact .here hnext
  | later h ht _ ih => exact .later (next_placed pos line (by simp) h ht) ht ih

/-- **Failing line by line**: a text, and after a line break another one that has an error. -/
theorem Scans.fails_append_newline {s : Scanner} {u : Text} {ts : List Token} {m : Mark}
    {e : LexError} {pos line : Nat} (h : Scans s ts m)
    (hu : Fails ⟨u, ((s.mark.after s.rest).step '\n').down pos line⟩ e) :
    Fails (s.placed (('\n' : CodePoint) :: u) pos line) e := by
  have hnewline : ∀ c ∈ (('\n' : CodePoint) :: u).head?, c = '\n' := by
    intro c hc
    cases hc
    rfl
  induction h with
  | @stop s s' t h ht =>
    -- Only blanks and comments are left of the first text, and the scanner goes on to the second.
    have hnext := next_placed_newline ((next_eof_iff h).mp ht) u pos line
    cases hu with
    | here hu => exact .here (hnext.trans hu)
    | later hu hut hs' => exact .later (hnext.trans hu) hut hs'
  | @more s s' t ts m h ht _ ih =>
    rw [← (next_advances h ht).after_eq] at hu
    exact .later (next_placed pos line hnewline h ht) ht (ih hu)

end Scanner

/-! ## Two texts -/

/-- How many lines a text takes up, the last of which may be empty. -/
def Text.height (t : Text) : Nat := t.count ('\n' : CodePoint) + 1

/-- Where a text starts below another one: behind it and its line break, in the first column. -/
theorem Mark.below (a : Text) :
    ((Mark.start.after a).step '\n').down 0 0 = Mark.start.down (a.length + 1) a.height := by
  rw [Mark.step_newline_down, Mark.pos_after, Mark.line_after, Nat.add_comm Mark.start.line]
  show Mark.start.down (0 + a.length + 1 + 0) (a.height + 0) = _
  rw [Nat.zero_add]
  rfl

/-- The scanner of a text below another one. -/
theorem Scanner.start_placed_below (a b : Text) :
    (Scanner.start b).placed [] (a.length + 1) a.height =
      ⟨b, ((Mark.start.after a).step '\n').down 0 0⟩ := by
  rw [Mark.below, Scanner.placed]
  exact congrArg (Scanner.mk · _) (List.append_nil b)

/-- Two texts that can be cut into tokens give the tokens of both. -/
theorem tokenize_below {a b : Text} {ts us : Tokens} (ha : tokenize a = .ok ts)
    (hb : tokenize b = .ok us) :
    tokenize (a ++ "\n" ++ b) = .ok ⟨ts.body ++ us.body.map (Token.down (a.length + 1) a.height),
      us.stop.down (a.length + 1) a.height⟩ := by
  have hbelow := (Scanner.tokenize_eq_ok.mp hb).down (a.length + 1) a.height
  rw [Scanner.start_placed_below] at hbelow
  have hscans := (Scanner.tokenize_eq_ok.mp ha).append_newline hbelow
  rw [List.map_congr_left fun t _ => t.down_zero, List.map_id'] at hscans
  rw [Scanner.tokenize_eq_ok, List.append_assoc]
  exact hscans

/-- An error in the lower text is found where it stands in both. -/
theorem tokenize_below_error {a b : Text} {ts : Tokens} {e : LexError} (ha : tokenize a = .ok ts)
    (hb : tokenize b = .error e) :
    tokenize (a ++ "\n" ++ b) = .error (e.down (a.length + 1) a.height) := by
  have hbelow := (Scanner.tokenize_eq_error.mp hb).down (a.length + 1) a.height
  rw [Scanner.start_placed_below] at hbelow
  have hfails := (Scanner.tokenize_eq_ok.mp ha).fails_append_newline hbelow
  rw [Scanner.tokenize_eq_error, List.append_assoc]
  exact hfails

/-- **Texts with a line break between them are cut into tokens one by one.** A text that can be cut
into tokens has another one below it. The tokens of both are those of the first, without its end,
and those of the second with its end: their positions are larger by the length of the first text and
the line break, their lines by the number of lines of the first, and their columns are the same. If
the second text has an error, both have the same error, with its place shifted in the same way. -/
theorem tokenize_joined {a : Text} {ts : Tokens} (ha : tokenize a = .ok ts) (b : Text) :
    (∀ us, tokenize b = .ok us → ∃ vs, tokenize (a ++ "\n" ++ b) = .ok vs ∧
      vs.toList = ts.toList.dropLast ++
        us.toList.map (Token.down (a.length + 1) (1 + a.count ('\n' : CodePoint)))) ∧
    ∀ e, tokenize b = .error e → tokenize (a ++ "\n" ++ b) =
      .error (e.down (a.length + 1) (1 + a.count ('\n' : CodePoint))) := by
  have hheight : 1 + a.count ('\n' : CodePoint) = a.height := Nat.add_comm _ _
  rw [hheight]
  refine ⟨fun us hb => ⟨_, tokenize_below ha hb, ?_⟩, fun e hb => tokenize_below_error ha hb⟩
  simp only [Tokens.toList, List.dropLast_concat, List.map_append, List.append_assoc]
  rfl

/-- A number before a point, and a comment with a quote in it up to the end of the text. -/
def upperPiece : Text := "a = 1. # it's"

/-- The tokens of that text. The comment leaves no trace but the mark at the end. -/
def upperTokens : Tokens :=
  ⟨[⟨.identifier, "a", ⟨0, 1, 1⟩⟩, ⟨.symbol, "=", ⟨2, 1, 3⟩⟩, ⟨.integer, "1", ⟨4, 1, 5⟩⟩,
    ⟨.symbol, ".", ⟨5, 1, 6⟩⟩], ⟨13, 1, 14⟩⟩

/-- The comment ends with its line, and the point does not go on with the digit below it. With a
foreign code point after a string over two lines, both pieces fail at its place. -/
theorem tokenize_below_upperPiece :
    tokenize upperPiece = .ok upperTokens ∧
    (∃ vs, tokenize (upperPiece ++ "\n" ++ "2") = .ok vs ∧
      vs.toList = upperTokens.body ++ [⟨.integer, "2", ⟨14, 2, 1⟩⟩, .eof ⟨15, 2, 2⟩]) ∧
    tokenize (upperPiece ++ "\n" ++ "'b\nc' €") = .error ⟨.unexpected '€', ⟨20, 3, 4⟩⟩ := by
  have hupper : tokenize upperPiece = .ok upperTokens := by decide
  have hnumber : tokenize "2" = .ok ⟨[⟨.integer, "2", ⟨0, 1, 1⟩⟩], ⟨1, 1, 2⟩⟩ := by decide
  have hforeign : tokenize "'b\nc' €" = .error ⟨.unexpected '€', ⟨6, 2, 4⟩⟩ := by decide
  exact ⟨hupper, (tokenize_joined hupper "2").1 _ hnumber,
    (tokenize_joined hupper "'b\nc' €").2 _ hforeign⟩

end Grimoire
