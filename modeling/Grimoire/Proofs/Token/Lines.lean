import Mathlib.Data.List.TakeWhile
import Grimoire.Proofs.Token.Scanning

/-!
# Lines of tokens

A text that is put together from lines, each of which can be cut into tokens by itself, has the
tokens of its lines, one line after the other. Where the first token of a line comes from shows what
the line can look like: a blank line has no tokens, and a line with a word on it starts with that
word.
-/

namespace Grimoire

open Scanner

/-- The tokens of a text, if it can be cut into tokens. -/
def lineTokens (line : Text) : List Token :=
  match tokenize line with
  | .ok ts => ts.body
  | .error _ => []

/-- The tokens of lines that stand one below the other. The first line has the given position, and
so many lines are above it. -/
def tokensBelow (pos line : Nat) : List Text → List Token
  | [] => []
  | l :: ls =>
    (lineTokens l).map (Token.down pos line) ++
      tokensBelow ((Mark.start.after l).pos + 1 + pos) ((Mark.start.after l).line + line) ls

/-- Lines with a line break after each. -/
def Text.terminated : List Text → Text
  | [] => []
  | l :: ls => l ++ ('\n' : CodePoint) :: terminated ls

/-- Lines with line breaks between them lack only the last one. -/
theorem Text.join_append_newline {ls : List Text} (h : ls ≠ []) :
    Text.join "\n" ls ++ "\n" = Text.terminated ls := by
  induction ls with
  | nil => exact absurd rfl h
  | cons l ls ih =>
    cases ls with
    | nil => simp [Text.join, Text.terminated]; rfl
    | cons l' ls =>
      rw [Text.terminated, ← ih (List.cons_ne_nil _ _)]
      simp [Text.join]
      rfl

/-! ## Tokens line by line -/

/-- A line that can be cut into tokens is cut into its tokens. -/
theorem scans_lineTokens {l : Text} {ts : Tokens} (h : tokenize l = .ok ts) :
    Scans (Scanner.start l) (lineTokens l) ts.stop := by
  unfold lineTokens
  rw [h]
  exact tokenize_eq_ok.mp h

/-- After a line break the column is that of a new line, so only position and line tell where it
is. -/
theorem Mark.step_newline_down (m : Mark) (pos line : Nat) :
    (m.step '\n').down pos line = Mark.start.down (m.pos + 1 + pos) (m.line + line) := by
  unfold Mark.step Mark.down Mark.start
  rw [if_pos rfl, Nat.zero_add, Nat.add_right_comm m.line, Nat.add_comm 1]

/-- Lines that can each be cut into tokens can be cut together, one below the other. Induction on
the lines; each line break ends what the line has left open. -/
theorem scans_terminated {ls : List Text} (h : ∀ l ∈ ls, ∃ ts, tokenize l = .ok ts)
    (pos line : Nat) :
    ∃ stop, Scans ⟨Text.terminated ls, Mark.start.down pos line⟩
      (tokensBelow pos line ls) stop := by
  induction ls generalizing pos line with
  | nil => exact ⟨_, .stop rfl rfl⟩
  | cons l ls ih =>
    obtain ⟨ts, hts⟩ := h l List.mem_cons_self
    obtain ⟨stop, hls⟩ := ih (fun l hl => h l (List.mem_cons_of_mem _ hl)) _ _
    rw [← Mark.step_newline_down (Mark.start.after l) pos line] at hls
    exact ⟨stop, (scans_lineTokens hts).append_newline hls⟩

/-- A token that is not moved stays where it is. -/
theorem Token.down_zero (t : Token) : t.down 0 0 = t := rfl

/-- Moving down twice is moving down by the sum. -/
theorem Token.down_down (t : Token) (pos line pos' line' : Nat) :
    (t.down pos line).down pos' line' = t.down (pos + pos') (line + line') := by
  unfold Token.down Mark.down
  rw [Nat.add_assoc, Nat.add_assoc]

/-- Lines further down have the same tokens, further down. -/
theorem tokensBelow_down (ls : List Text) (pos line pos' line' : Nat) :
    tokensBelow (pos + pos') (line + line') ls =
      (tokensBelow pos line ls).map (Token.down pos' line') := by
  induction ls generalizing pos line with
  | nil => rfl
  | cons l ls ih =>
    have hdown : Token.down pos' line' ∘ Token.down pos line =
        Token.down (pos + pos') (line + line') :=
      funext fun t => t.down_down pos line pos' line'
    rw [tokensBelow, tokensBelow, List.map_append, List.map_map, hdown, ← Nat.add_assoc,
      ← Nat.add_assoc, ih]

/-- Where the lines after some lines are does not depend on them. -/
theorem tokensBelow_append (pos line : Nat) (ls : List Text) :
    ∃ pos' line', ∀ ls',
      tokensBelow pos line (ls ++ ls') = tokensBelow pos line ls ++ tokensBelow pos' line' ls' := by
  induction ls generalizing pos line with
  | nil => exact ⟨pos, line, fun _ => rfl⟩
  | cons l ls ih =>
    obtain ⟨pos', line', happend⟩ := ih ((Mark.start.after l).pos + 1 + pos)
      ((Mark.start.after l).line + line)
    refine ⟨pos', line', fun ls' => ?_⟩
    rw [List.cons_append, tokensBelow, happend, tokensBelow, List.append_assoc]

/-- Complete lines are cut into the tokens of the single lines. -/
theorem tokenize_lines {ls : List Text} (hne : ls ≠ []) (h : ∀ l ∈ ls, ∃ ts, tokenize l = .ok ts) :
    ∃ stop, tokenize (Text.join "\n" ls ++ "\n") = .ok ⟨tokensBelow 0 0 ls, stop⟩ := by
  obtain ⟨stop, hscans⟩ := scans_terminated h 0 0
  rw [← Text.join_append_newline hne] at hscans
  exact ⟨stop, tokenize_eq_ok.mpr hscans⟩

/-- The same without a line break after the last line. -/
theorem tokenize_join {ls : List Text} (h : ∀ l ∈ ls, ∃ ts, tokenize l = .ok ts) {ts : Tokens}
    (hts : tokenize (Text.join "\n" ls) = .ok ts) : ts.body = tokensBelow 0 0 ls := by
  by_cases hne : ls = []
  · subst hne
    cases hts
    rfl
  · obtain ⟨stop, hlines⟩ := tokenize_lines hne h
    have hend : Scans ⟨[], ((Mark.start.after (Text.join "\n" ls)).step '\n').down 0 0⟩ [] _ :=
      .stop rfl rfl
    have hterminated := tokenize_eq_ok.mp hts |>.append_newline hend
    rw [List.append_nil, List.map_congr_left fun t _ => t.down_zero, List.map_id'] at hterminated
    exact hterminated.unique (tokenize_eq_ok.mp hlines)

/-! ## Blank lines and first words -/

/-- A text is what is left after trimming it, with blanks around it. -/
theorem Text.exists_trim (t : Text) : ∃ u v, t = u ++ (t.trim ++ v) ∧
    (∀ c ∈ u, c.isBlank = true) ∧ ∀ c ∈ v, c.isBlank = true := by
  have hright : t.dropWhile CodePoint.isBlank = t.trim ++
      ((t.dropWhile CodePoint.isBlank).reverse.takeWhile CodePoint.isBlank).reverse := by
    unfold trim trimBy
    rw [← List.reverse_append, List.takeWhile_append_dropWhile, List.reverse_reverse]
  refine ⟨t.takeWhile CodePoint.isBlank,
    ((t.dropWhile CodePoint.isBlank).reverse.takeWhile CodePoint.isBlank).reverse,
    ?_, fun c => List.mem_takeWhile_imp, fun c hc => ?_⟩
  · rw [← hright, List.takeWhile_append_dropWhile]
  · exact List.mem_takeWhile_imp (List.mem_reverse.mp hc)

/-- Blanks in front are passed, and then whatever else is passed. -/
theorem trivia_blanks_append {u : Text} (hu : ∀ c ∈ u, c.isBlank = true) (t : Text) :
    trivia false (u ++ t) = u ++ trivia false t := by
  induction u with
  | nil => rfl
  | cons c u ih =>
    have hc := hu c List.mem_cons_self
    rw [List.cons_append, trivia_cons, hc, if_pos (by simp), if_neg Bool.false_ne_true,
      show (!true) = false from rfl, ih fun d hd => hu d (List.mem_cons_of_mem c hd)]
    rfl

/-- A blank line has no tokens. -/
theorem lineTokens_of_blank {l : Text} (h : l.trim = []) : lineTokens l = [] := by
  obtain ⟨u, v, hl, hu, hv⟩ := l.exists_trim
  rw [h, List.nil_append] at hl
  have htrivia : trivia false l = l := by
    have hblanks := trivia_blanks_append (u := u ++ v) (fun c hc => ?_) []
    · rw [List.append_nil, ← hl] at hblanks
      rw [hblanks]
      exact List.append_nil _
    · rcases List.mem_append.mp hc with hc | hc
      · exact hu c hc
      · exact hv c hc
  have hnext := readToken_nil (skipTrivia_rest_eq_nil.mpr htrivia : (start l).skipTrivia.rest = [])
  have htokens : tokenize l = .ok ⟨[], _⟩ := tokenize_eq_ok.mpr (.stop hnext rfl)
  unfold lineTokens
  rw [htokens]

/-- A line with a name or a symbol on it starts with a token that starts in the same way. -/
theorem lineTokens_of_trim {l : Text} {c : CodePoint} {cs : Text} (h : l.trim = c :: cs)
    (htrivia : (c.isBlank || decide (c = '#')) = false)
    (hc : (c.isQuote || c.isDigit) = false) {ts : Tokens} (hts : tokenize l = .ok ts) :
    ∃ t us, ts.body = t :: us ∧ t.text.head? = some c := by
  obtain ⟨u, v, hl, hu, -⟩ := l.exists_trim
  rw [h, List.cons_append] at hl
  rw [Bool.or_eq_false_iff] at hc
  -- The blanks before the first code point are passed, and nothing else.
  have hblanks : trivia false l = u := by
    rw [hl, trivia_blanks_append hu, trivia_cons, Bool.false_or, htrivia]
    exact List.append_nil u
  have hskip : (start l).skipTrivia.rest = c :: (cs ++ v) := by
    show l.drop (trivia false l).length = _
    rw [hblanks, hl, List.drop_left]
  have hcurrent : (start l).skipTrivia.current? = some c := by rw [current?, hskip]; rfl
  have hfirst {t : Token} {s' : Scanner} (h : (start l).next = (.ok t, s')) :
      t.text.head? = some c := by
    unfold next readToken at h
    rw [hcurrent] at h
    dsimp only at h
    rw [if_neg (by rw [hc.1]; exact Bool.false_ne_true),
      if_neg (by rw [hc.2]; exact Bool.false_ne_true)] at h
    split at h
    · rename_i hname
      obtain ⟨htoken, -⟩ := Prod.mk.inj h
      rw [← Except.ok.inj htoken]
      show ((start l).skipTrivia.rest.takeWhile _).head? = _
      rw [hskip, List.takeWhile_cons_of_pos (by rw [CodePoint.isNamePart, hname]; rfl)]
      rfl
    · split at h
      · obtain ⟨htoken, -⟩ := Prod.mk.inj h
        rw [← Except.ok.inj htoken]
        rfl
      · cases h
  obtain ⟨body, stop⟩ := ts
  cases tokenize_eq_ok.mp hts with
  | stop hnext heof =>
    have hnil := (next_eof_iff hnext).mp heof
    rw [hskip] at hnil
    cases hnil
  | more hnext => exact ⟨_, _, rfl, hfirst hnext⟩

end Grimoire
