import Mathlib.Data.List.Induction
import Grimoire.Proofs.Token.Rendering

/-!
# Where cutting a text into tokens fails

A text can be cut into tokens unless it has a flaw: a quote that is not closed, or a code point with
which nothing starts. Both are flaws only in the open, outside of the strings and comments that come
before. Whether a place is in the open depends on all of the text before it; a symbol put there is a
token of its own just where it is.

* **`Fails s e`** says without any fuel that the scanner comes to the error `e`.
* **`Token.Maximal.exchange`**: what follows a token, and does not make it longer, can be exchanged.
  So the tokens before a flaw are those before a symbol in its place, and the other way round
  (`Fails.exists_flaw`, `Scans.fails_of_flaw`).
* **`tokenize_fails_at_flaw`** says it in positions.
-/

namespace Grimoire

/-! ## Lines and columns -/

/-- Lines are counted by the line breaks that are passed. -/
theorem Mark.line_after (m : Mark) (t : Text) :
    (m.after t).line = m.line + t.count ('\n' : CodePoint) := by
  induction t generalizing m with
  | nil => rfl
  | cons c t ih =>
    rw [Mark.after_cons, ih, List.count_cons]
    unfold Mark.step
    by_cases hc : c = '\n'
    · rw [if_pos hc]
      simp [hc]
      omega
    · rw [if_neg hc]
      simp [hc]

/-- How many code points come after the last line break of a text. -/
def Text.sinceBreak (t : Text) : Nat := (t.reverse.takeWhile fun c : CodePoint => c ≠ '\n').length

/-- Columns are counted from the last line break on. Induction from the end of the text, where the
next code point is passed. -/
theorem Mark.column_after (t : Text) : (Mark.start.after t).column = 1 + t.sinceBreak := by
  induction t using List.reverseRecOn with
  | nil => rfl
  | append_singleton t c ih =>
    rw [Mark.after_append, Text.sinceBreak, List.reverse_concat]
    show ((Mark.start.after t).step c).column = _
    unfold Mark.step
    by_cases hc : c = '\n'
    · simp [hc]
    · have hother : decide (c ≠ '\n') = true := decide_eq_true hc
      unfold Text.sinceBreak at ih
      rw [if_neg hc, List.takeWhile_cons, hother, if_pos rfl, List.length_cons]
      show (Mark.start.after t).column + 1 = _
      omega

/-! ## Flaws -/

/-- A code point with which no token and no gap starts. -/
def CodePoint.isForeign (c : CodePoint) : Bool :=
  !(c.isBlank || decide (c = '#') || c.isQuote || c.isNameStart || c.isDigit || c.isSymbol)

/-- A foreign code point belongs to none of the classes. -/
theorem CodePoint.isForeign_iff {c : CodePoint} : c.isForeign ↔ c.startsGap = false ∧
    c.isQuote = false ∧ c.isNameStart = false ∧ c.isDigit = false ∧ c.isSymbol = false := by
  simp only [isForeign, startsGap, Bool.not_eq_true', Bool.or_eq_false_iff, and_assoc]

/-- `Flaw c rest cause`: a text that goes on with `c`, and with `rest` after it, cannot be cut into
tokens from there. -/
inductive Flaw : CodePoint → Text → LexCause → Prop where
  | unclosed {quote : CodePoint} {rest : Text} (hquote : quote.isQuote) (hrest : quote ∉ rest) :
      Flaw quote rest .unterminated
  | foreign {c : CodePoint} {rest : Text} (hc : c.isForeign) : Flaw c rest (.unexpected c)

/-- No token goes on with the code point, whatever comes after it. -/
def CodePoint.EndsToken (c : CodePoint) : Prop := c.isNamePart = false ∧ c ≠ '.'

namespace Flaw

variable {c : CodePoint} {rest : Text} {cause : LexCause}

/-- Whatever is flawed goes on with no token before it. -/
theorem endsToken (h : Flaw c rest cause) : c.EndsToken := by
  cases h with
  | unclosed hquote =>
    simp only [CodePoint.isQuote, Bool.or_eq_true, decide_eq_true_eq] at hquote
    rcases hquote with rfl | rfl <;> exact ⟨by decide, by decide⟩
  | foreign hc =>
    obtain ⟨-, -, hname, hdigit, hsymbol⟩ := CodePoint.isForeign_iff.mp hc
    refine ⟨?_, ?_⟩
    · rw [CodePoint.isNamePart, hname, hdigit]
      rfl
    · rintro rfl
      exact absurd hsymbol (by decide)

/-- Whatever is flawed is no part of a gap. -/
theorem not_startsGap (h : Flaw c rest cause) : c.startsGap = false := by
  cases h with
  | unclosed hquote => exact CodePoint.not_startsGap_of_quote hquote
  | foreign hc => exact (CodePoint.isForeign_iff.mp hc).1

/-- The text that is reported for a flaw, by its code point. -/
theorem message_eq (h : Flaw c rest cause) : cause.message =
    if c.isQuote then ("unterminated string" : Text)
    else "unexpected character '" ++ [c] ++ "'" := by
  cases h with
  | unclosed hquote => exact (if_pos hquote).symm
  | foreign hc =>
    rw [(CodePoint.isForeign_iff.mp hc).2.1]
    rfl

end Flaw

namespace Scanner

/-! ## The scanner at a flaw -/

/-- After the blanks and comments comes no blank and no comment. -/
theorem trivia_stops (inComment : Bool) (t : Text) :
    ∀ c ∈ (t.drop (trivia inComment t).length).head?, c.startsGap = false := by
  induction t generalizing inComment with
  | nil => nofun
  | cons d t ih =>
    rw [trivia_cons]
    split
    · exact ih _
    · rename_i hd
      intro c hc
      obtain rfl := Option.some.inj hc
      cases inComment with
      | true => exact absurd rfl hd
      | false =>
        rw [Bool.false_or] at hd
        exact Bool.eq_false_iff.mpr hd

/-- A scanner right at a flaw says which it is, and where. -/
theorem readToken_of_flaw {c : CodePoint} {rest : Text} {cause : LexCause} (h : Flaw c rest cause)
    (m : Mark) : ∃ s', (⟨c :: rest, m⟩ : Scanner).readToken = (.error ⟨cause, m⟩, s') := by
  cases h with
  | unclosed hquote hrest =>
    have hnil : (skipWhile (fun d => d ≠ c) ⟨rest, m.step c⟩).rest = [] := by
      apply List.dropWhile_eq_nil_iff.mpr
      rintro d hd
      apply decide_eq_true
      rintro rfl
      exact hrest hd
    refine ⟨skipWhile (fun d => d ≠ c) ⟨rest, m.step c⟩, ?_⟩
    show (if c.isQuote then _ else _) = _
    rw [if_pos hquote]
    exact if_pos hnil
  | foreign hc =>
    obtain ⟨-, hquote, hname, hdigit, hsymbol⟩ := CodePoint.isForeign_iff.mp hc
    refine ⟨⟨c :: rest, m⟩, ?_⟩
    simp [readToken, current?, hquote, hname, hdigit, hsymbol]

/-- Conversely, where no gap starts an error is about a flaw right there. -/
theorem flaw_of_readToken {s s' : Scanner} {c : CodePoint} {rest : Text} {e : LexError}
    (hs : s.rest = c :: rest) (hgap : c.startsGap = false) (h : s.readToken = (.error e, s')) :
    Flaw c rest e.cause ∧ e.mark = s.mark := by
  have hcurrent : s.current? = some c := by rw [current?, hs]; rfl
  unfold readToken at h
  rw [hcurrent] at h
  dsimp only at h
  split at h
  · rename_i hquote
    unfold readString at h
    rw [hcurrent, advance_of_rest hs] at h
    dsimp only at h
    split at h
    · -- Passing everything but the quote has left nothing, so it does not come again.
      rename_i hnil
      cases h
      refine ⟨.unclosed hquote fun hmem => ?_, rfl⟩
      have hall := List.dropWhile_eq_nil_iff.mp hnil c hmem
      exact of_decide_eq_true hall rfl
    · cases h
  · rename_i hquote
    split at h
    · cases h
    · rename_i hdigit
      split at h
      · cases h
      · rename_i hname
        split at h
        · cases h
        · rename_i hsymbol
          cases h
          refine ⟨.foreign (CodePoint.isForeign_iff.mpr ⟨hgap, ?_⟩), rfl⟩
          simp [hquote, hdigit, hname, hsymbol]

/-- The same with a gap before the flaw. -/
theorem next_of_flaw {g rest : Text} {c : CodePoint} {cause : LexCause} (hg : Gap False g)
    (h : Flaw c rest cause) (m : Mark) :
    ∃ s', (⟨g ++ c :: rest, m⟩ : Scanner).next = (.error ⟨cause, m.after g⟩, s') := by
  have htrivia : trivia false (g ++ c :: rest) = g := by
    apply hg.trivia_append False.elim
    intro d hd
    obtain rfl := Option.some.inj hd
    exact h.not_startsGap
  unfold next skipTrivia
  dsimp only
  rw [htrivia, List.drop_left]
  exact readToken_of_flaw h (m.after g)

/-- A scanner that finds an error has passed a gap and stands at a flaw. -/
theorem flaw_of_next {s s' : Scanner} {e : LexError} (h : s.next = (.error e, s')) :
    ∃ g c rest, s.rest = g ++ c :: rest ∧ Gap False g ∧ Flaw c rest e.cause ∧
      e.mark = s.mark.after g := by
  have hne : s.skipTrivia.rest ≠ [] := by
    intro hnil
    rw [next, readToken_nil hnil] at h
    cases h
  obtain ⟨c, rest, hrest⟩ := List.exists_cons_of_ne_nil hne
  have hstops := trivia_stops false s.rest c (by rw [show s.rest.drop _ = _ from hrest]; rfl)
  obtain ⟨hflaw, hmark⟩ := flaw_of_readToken hrest hstops h
  refine ⟨trivia false s.rest, c, rest, ?_, ?_, hflaw, hmark⟩
  · rw [← hrest]
    exact (trivia_append_drop false s.rest).symm
  · exact (trivia_gap False s.rest).1 fun heq => hne (skipTrivia_rest_eq_nil.mpr heq)

/-! ## Coming to an error -/

/-- `Fails s e`: after some tokens, the scanner comes to the error `e`. -/
inductive Fails : Scanner → LexError → Prop where
  | here {s s' : Scanner} {e : LexError} (h : s.next = (.error e, s')) : Fails s e
  | later {s s' : Scanner} {t : Token} {e : LexError} (h : s.next = (.ok t, s'))
      (ht : t.kind ≠ .eof) (hs' : Fails s' e) : Fails s e

/-- With fuel for each code point, the error is the one that the scanner comes to. -/
theorem tokens_eq_error {fuel : Nat} {s : Scanner} (hfuel : s.rest.length < fuel) {e : LexError} :
    tokens fuel s = .error e ↔ Fails s e := by
  induction fuel generalizing s with
  | zero => exact absurd hfuel (Nat.not_lt_zero _)
  | succ fuel ih =>
    obtain ⟨read, s', hnext⟩ : ∃ read s', s.next = (read, s') := ⟨_, _, rfl⟩
    rw [tokens, hnext]
    cases read with
    | error e' =>
      constructor
      · intro h
        cases h
        exact .here hnext
      · intro h
        cases h with
        | here h => cases hnext.symm.trans h; rfl
        | later h => cases hnext.symm.trans h
    | ok t =>
      dsimp only
      by_cases ht : t.kind = .eof
      · -- After the end there is nothing that could be wrong.
        rw [if_pos ht]
        constructor
        · intro h
          cases h
        · intro h
          cases h with
          | here h => cases hnext.symm.trans h
          | later h ht' => cases hnext.symm.trans h; exact absurd ht ht'
      · rw [if_neg ht]
        have hlt := (next_advances hnext ht).length_lt
        have hrest : tokens fuel s' = .error e ↔ Fails s' e := ih (by omega)
        constructor
        · intro h
          cases htokens : tokens fuel s' with
          | ok us => rw [htokens] at h; cases h
          | error e' =>
            rw [htokens] at h
            cases h
            exact .later hnext ht (hrest.mp htokens)
        · intro h
          cases h with
          | here h => cases hnext.symm.trans h
          | later h _ hs' =>
            cases hnext.symm.trans h
            rw [hrest.mpr hs']
            rfl

/-- The error of a text is the one that a scanner comes to from its start. -/
theorem tokenize_eq_error {text : Text} {e : LexError} :
    tokenize text = .error e ↔ Fails (Scanner.start text) e :=
  tokens_eq_error (Nat.lt_succ_self _)

end Scanner

/-! ## Before a flaw and before a symbol -/

/-- **What follows a token can be exchanged**, if it does not make the token longer. -/
theorem Token.Maximal.exchange {t : Token} {y u u' : Text} (h : t.Maximal (y ++ u))
    (hu' : ∀ c ∈ u'.head?, c.EndsToken) : t.Maximal (y ++ u') := by
  have hname : ∀ c ∈ u'.head?, c.isNamePart = false := fun c hc => (hu' c hc).1
  have hdigit : ∀ c ∈ u'.head?, c.isDigit = false := fun c hc =>
    (Bool.or_eq_false_iff.mp (hname c hc)).2
  unfold Maximal at h ⊢
  -- At most two code points after the token are looked at.
  match y with
  | [] =>
    split
    · exact hname
    · exact ⟨hdigit, fun hpoint => (hu' _ hpoint.1).2 rfl⟩
    · exact hdigit
    all_goals trivial
  | [d] =>
    split at h
    · exact h
    · refine ⟨h.1, fun hpoint => ?_⟩
      obtain ⟨c, hc, hcdigit⟩ := hpoint.2
      exact absurd hcdigit (by rw [hdigit c hc]; exact Bool.false_ne_true)
    · exact h
    all_goals trivial
  | d :: d' :: y => exact h

namespace Scanner

/-- A token is found in the same way with another text after it. -/
theorem next_exchange {s s' : Scanner} {t : Token} {y u u' : Text} (h : s.next = (.ok t, s'))
    (ht : t.kind ≠ .eof) (hrest : s'.rest = y ++ u) (hu' : ∀ c ∈ u'.head?, c.EndsToken) :
    ∃ z, s.rest = z ++ s'.rest ∧ s'.mark = s.mark.after z ∧
      (⟨z ++ (y ++ u'), s.mark⟩ : Scanner).next = (.ok t, ⟨y ++ u', s'.mark⟩) := by
  obtain ⟨g, w, hg, hw, hsplit, hshape, hmax, htmark, hmark⟩ := next_stands h ht
  rw [hrest] at hmax
  have hnext := next_written hg hshape hw (hmax.exchange hu') s.mark
  refine ⟨g ++ w, ?_, ?_, ?_⟩
  · rw [hsplit, List.append_assoc]
  · rw [hmark, Mark.after_append]
  · rw [List.append_assoc, hnext, ← hmark, ← htmark]

/-- A semicolon is a token of its own wherever no string and no comment is open. -/
theorem semicolon_endsToken : ∀ c ∈ (";" : Text).head?, c.EndsToken := by
  intro c hc
  obtain rfl := Option.some.inj hc
  exact ⟨by decide, by decide⟩

/-- A semicolon after a gap, at the end of a text. -/
theorem scans_semicolon {g : Text} (hg : Gap False g) (m : Mark) :
    ∃ stop, Scans ⟨g ++ ";", m⟩ [⟨.symbol, ";", m.after g⟩] stop := by
  have hwritten : (⟨.symbol, ";", m⟩ : Token).Written ";" := Token.written_text nofun
  have hmax : (⟨.symbol, ";", m⟩ : Token).Maximal [] := trivial
  have hsymbol := next_written hg rfl hwritten hmax m
  exact ⟨_, .more hsymbol nofun (.stop (next_gap .nil _) rfl)⟩

/-- **The tokens before a flaw** are those of the text up to there, and a semicolon that is put in
its place is a token of its own. Induction on the tokens up to the flaw. -/
theorem Fails.exists_flaw {s : Scanner} {e : LexError} (h : Fails s e) :
    ∃ x c rest ts stop, s.rest = x ++ c :: rest ∧ e.mark = s.mark.after x ∧ Flaw c rest e.cause ∧
      Scans ⟨x ++ ";", s.mark⟩ (ts ++ [⟨.symbol, ";", s.mark.after x⟩]) stop := by
  induction h with
  | @here s s' e h =>
    obtain ⟨g, c, rest, hrest, hg, hflaw, hmark⟩ := flaw_of_next h
    obtain ⟨stop, hscans⟩ := scans_semicolon hg s.mark
    exact ⟨g, c, rest, [], stop, hrest, hmark, hflaw, hscans⟩
  | @later s s' t e h ht _ ih =>
    obtain ⟨x, c, rest, ts, stop, hrest, hmark, hflaw, hscans⟩ := ih
    -- The semicolon does not make the token longer, and neither does the flaw.
    obtain ⟨z, hsplit, hz, hnext⟩ := next_exchange h ht hrest semicolon_endsToken
    have hafter : s.mark.after (z ++ x) = s'.mark.after x := by rw [Mark.after_append, hz]
    refine ⟨z ++ x, c, rest, t :: ts, stop, ?_, hmark.trans hafter.symm, hflaw, ?_⟩
    · rw [hsplit, hrest, List.append_assoc]
    · rw [hafter, List.append_assoc]
      exact .more hnext ht hscans

/-- Where tokens are found there is text. -/
theorem Scans.ne_nil {s : Scanner} {ts : List Token} {stop : Mark} (h : Scans s ts stop)
    (hts : ts ≠ []) : s.rest ≠ [] := by
  intro hnil
  cases h with
  | stop => exact hts rfl
  | more h ht =>
    have heof := (next_eof_iff h).mpr (skipTrivia_rest_eq_nil.mpr (by rw [hnil]; rfl))
    exact ht heof

/-- **A flaw where a semicolon would be a token of its own** is where the scanner comes to an error.
Induction on the tokens before it. -/
theorem Scans.fails_of_flaw {x : Text} {m m' stop : Mark} {ts : List Token}
    (h : Scans ⟨x ++ ";", m⟩ (ts ++ [⟨.symbol, ";", m'⟩]) stop)
    (hpos : m'.pos = m.pos + x.length) {c : CodePoint} {rest : Text} {cause : LexCause}
    (hflaw : Flaw c rest cause) : Fails ⟨x ++ c :: rest, m⟩ ⟨cause, m.after x⟩ := by
  induction ts generalizing x m with
  | nil =>
    cases h with
    | more h ht =>
      obtain ⟨g, w, hg, -, hsplit, -, -, hmark, -⟩ := next_stands h ht
      -- The semicolon stands right after the gap, so the gap is all of the text before it.
      have hlength : g.length = x.length := by
        have hgap := Mark.pos_after m g
        rw [← show m' = m.after g from hmark] at hgap
        omega
      obtain ⟨rfl, -⟩ := List.append_inj hsplit.symm hlength
      obtain ⟨s', herror⟩ := next_of_flaw hg hflaw m
      exact .here herror
  | cons t ts ih =>
    cases h with
    | @more s s' t _ _ h ht hscans =>
      have hne : s'.rest ≠ [] := hscans.ne_nil (by simp)
      have hends : ∀ d ∈ (c :: rest).head?, d.EndsToken := by
        intro d hd
        obtain rfl := Option.some.inj hd
        exact hflaw.endsToken
      -- The semicolon is not part of the first token, so what is left ends with it.
      obtain ⟨x', hx'⟩ : ∃ x', s'.rest = x' ++ ";" := by
        obtain ⟨g, w, -, -, hsplit, -⟩ := next_stands h ht
        have hsuffix : s'.rest <:+ x ++ [(';' : CodePoint)] := ⟨g ++ w, by
          rw [List.append_assoc, ← hsplit]
          rfl⟩
        rcases List.suffix_concat_iff.mp hsuffix with hnil | ⟨x', hx', -⟩
        · exact absurd hnil hne
        · exact ⟨x', hx'⟩
      obtain ⟨z, hsplit, hz, hnext⟩ := next_exchange h ht hx' hends
      obtain rfl : x = z ++ x' := by
        rw [hx', ← List.append_assoc] at hsplit
        exact List.append_cancel_right hsplit
      rw [List.append_assoc, Mark.after_append, ← show s'.mark = m.after z from hz]
      refine .later hnext ht (ih ?_ ?_)
      · rw [← hx']
        exact hscans
      · have hzpos := Mark.pos_after m z
        rw [← show s'.mark = m.after z from hz] at hzpos
        rw [List.length_append] at hpos
        omega

end Scanner

/-! ## Places of flaws -/

/-- The place is in the open: outside of the strings and comments that the text before it opens, a
semicolon is a token of its own, and the last one. -/
def Exposed (source : Text) (p : Nat) : Prop :=
  ∃ ts m stop, tokenize (source.take p ++ ";") = .ok ⟨ts ++ [⟨.symbol, ";", m⟩], stop⟩ ∧ m.pos = p

/-- There is a flaw in the open. -/
def FlawedAt (source : Text) (p : Nat) (cause : LexCause) : Prop :=
  Exposed source p ∧ ∃ c rest, source.drop p = c :: rest ∧ Flaw c rest cause

namespace FlawedAt

variable {source : Text} {p : Nat} {cause : LexCause}

/-- A flaw is inside the text. -/
theorem length_take (h : FlawedAt source p cause) : (source.take p).length = p := by
  obtain ⟨-, c, rest, hdrop, -⟩ := h
  have hlength := congrArg List.length hdrop
  rw [List.length_drop, List.length_cons] at hlength
  rw [List.length_take]
  omega

/-- A flaw in the open is what the error is about. -/
theorem tokenize_eq (h : FlawedAt source p cause) :
    tokenize source = .error ⟨cause, Mark.start.after (source.take p)⟩ := by
  have hlength := h.length_take
  obtain ⟨⟨ts, m, stop, htokens, hpos⟩, c, rest, hdrop, hflaw⟩ := h
  have hscans := Scanner.tokenize_eq_ok.mp htokens
  have hfails := hscans.fails_of_flaw (by rw [hpos, hlength]; exact (Nat.zero_add p).symm) hflaw
  rw [← hdrop, List.take_append_drop] at hfails
  exact Scanner.tokenize_eq_error.mpr hfails

end FlawedAt

/-- Every error is about a flaw in the open. -/
theorem exists_flawedAt {source : Text} {e : LexError} (h : tokenize source = .error e) :
    ∃ p, FlawedAt source p e.cause := by
  obtain ⟨x, c, rest, ts, stop, hrest, -, hflaw, hscans⟩ :=
    (Scanner.tokenize_eq_error.mp h).exists_flaw
  have hsource : source = x ++ c :: rest := hrest
  refine ⟨x.length, ⟨ts, Mark.start.after x, stop, ?_, ?_⟩, c, rest, ?_, hflaw⟩
  · rw [hsource, List.take_left]
    exact Scanner.tokenize_eq_ok.mpr hscans
  · rw [Mark.pos_after]
    exact Nat.zero_add _
  · rw [hsource, List.drop_left]

/-- **Cutting a text into tokens fails exactly at its first flaw.** It fails if and only if there is
a flaw in the open. There is only one such place; the error has its position, line and column, and
says which flaw it is. -/
theorem tokenize_fails_at_flaw (source : Text) :
    ((∃ e, tokenize source = .error e) ↔ ∃ p cause, FlawedAt source p cause) ∧
    (∀ p q cause cause', FlawedAt source p cause → FlawedAt source q cause' → p = q) ∧
    ∀ e p cause, tokenize source = .error e → FlawedAt source p cause →
      e.cause = cause ∧ e.mark.pos = p ∧
      e.mark.line = 1 + (source.take p).count ('\n' : CodePoint) ∧
      e.mark.column = 1 + Text.sinceBreak (source.take p) ∧
      ∀ c, source[p]? = some c → e.cause.message =
        if c.isQuote then ("unterminated string" : Text)
        else "unexpected character '" ++ [c] ++ "'" := by
  have hpos {p : Nat} {cause : LexCause} (h : FlawedAt source p cause) :
      (Mark.start.after (source.take p)).pos = p := by
    rw [Mark.pos_after, h.length_take]
    exact Nat.zero_add p
  refine ⟨⟨?_, ?_⟩, ?_, ?_⟩
  · rintro ⟨e, he⟩
    obtain ⟨p, hp⟩ := exists_flawedAt he
    exact ⟨p, e.cause, hp⟩
  · rintro ⟨p, cause, hp⟩
    exact ⟨_, hp.tokenize_eq⟩
  · -- A text has one error, and its position is that of the flaw.
    intro p q cause cause' hp hq
    have herror := Except.error.inj (hp.tokenize_eq.symm.trans hq.tokenize_eq)
    rw [← hpos hp, ← hpos hq]
    exact congrArg (·.mark.pos) herror
  · intro e p cause he hp
    obtain rfl := Except.error.inj (he.symm.trans hp.tokenize_eq)
    refine ⟨rfl, hpos hp, Mark.line_after _ _, Mark.column_after _, fun c hc => ?_⟩
    obtain ⟨-, d, rest, hdrop, hflaw⟩ := hp
    obtain rfl : d = c := by
      rw [← List.head?_drop, hdrop] at hc
      exact Option.some.inj hc
    exact hflaw.message_eq

/-- A quote in a comment and a foreign code point in a string are no flaws, and neither is the line
break in the string. The quote before `oops` is not closed. -/
def flawedSpell : Text := "# don't\nx = \"€\n\" + 'oops # \""

/-- The only flaw is the quote that is not closed. -/
theorem tokenize_flawedSpell :
    FlawedAt flawedSpell 19 .unterminated ∧
    (∀ q cause, FlawedAt flawedSpell q cause → q = 19) ∧
    ∃ e, tokenize flawedSpell = .error e ∧ e.mark = ⟨19, 3, 5⟩ ∧
      e.cause.message = ("unterminated string" : Text) := by
  have hexposed : tokenize (flawedSpell.take 19 ++ ";") =
      .ok ⟨[⟨.identifier, "x", ⟨8, 2, 1⟩⟩, ⟨.symbol, "=", ⟨10, 2, 3⟩⟩,
        ⟨.string, "€\n", ⟨12, 2, 5⟩⟩, ⟨.symbol, "+", ⟨17, 3, 3⟩⟩] ++
          [⟨.symbol, ";", ⟨19, 3, 5⟩⟩], ⟨20, 3, 6⟩⟩ := by decide
  have hflawed : FlawedAt flawedSpell 19 .unterminated :=
    ⟨⟨_, _, _, hexposed, rfl⟩, '\'', "oops # \"", rfl, .unclosed rfl (by decide)⟩
  obtain ⟨hiff, hunique, hreported⟩ := tokenize_fails_at_flaw flawedSpell
  obtain ⟨e, he⟩ := hiff.mpr ⟨19, _, hflawed⟩
  obtain ⟨-, hpos, hline, hcolumn, hmessage⟩ := hreported e 19 _ he hflawed
  refine ⟨hflawed, fun q cause hq => hunique q 19 cause _ hq hflawed, e, he, ?_,
    hmessage '\'' rfl⟩
  have hmark : e.mark = ⟨e.mark.pos, e.mark.line, e.mark.column⟩ := rfl
  rw [hmark, hpos, hline, hcolumn]
  rfl

end Grimoire
