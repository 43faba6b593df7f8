import Grimoire.Token.Scanner

/-!
# Scanning line by line

`Scans s ts stop` says without any fuel which tokens a scanner finds up to the end of its text. Two
things follow from the way in which tokens are read. No token and no comment goes on beyond a line
break unless it is a string that is open there, so the tokens of two texts with a line break between
them are those of the one and those of the other. And the marks of tokens are relative: a text
further down has the same tokens, further down. Both are one property of single tokens: what is read
does not depend on where the text stands, as long as the text ends there or goes on with a line
break.
-/

namespace Grimoire

/-- What is taken from a text does not depend on what comes after it, if it ends inside the text or
at the first code point after it. -/
theorem Text.span_append {p : CodePoint → Bool} {t u : Text}
    (h : t.dropWhile p = [] → ∀ c ∈ u.head?, p c = false) :
    (t ++ u).takeWhile p = t.takeWhile p ∧ (t ++ u).dropWhile p = t.dropWhile p ++ u := by
  induction t with
  | nil =>
    cases u with
    | nil => exact ⟨rfl, rfl⟩
    | cons c u =>
      have hc : ¬p c = true := Bool.eq_false_iff.mp (h rfl c rfl)
      exact ⟨List.takeWhile_cons_of_neg hc, List.dropWhile_cons_of_neg hc⟩
  | cons d t ih =>
    rw [List.cons_append]
    by_cases hd : p d = true
    · rw [List.dropWhile_cons_of_pos hd] at h
      rw [List.takeWhile_cons_of_pos hd, List.takeWhile_cons_of_pos hd,
        List.dropWhile_cons_of_pos hd, List.dropWhile_cons_of_pos hd, (ih h).1, (ih h).2]
      exact ⟨rfl, rfl⟩
    · rw [List.takeWhile_cons_of_neg hd, List.takeWhile_cons_of_neg hd,
        List.dropWhile_cons_of_neg hd, List.dropWhile_cons_of_neg hd]
      exact ⟨rfl, rfl⟩

/-! ## Marks -/

/-- A mark so many code points and lines further down. The column stays. -/
def Mark.down (pos line : Nat) (m : Mark) : Mark := ⟨m.pos + pos, m.line + line, m.column⟩

/-- A token so much further down. -/
def Token.down (pos line : Nat) (t : Token) : Token := { t with mark := t.mark.down pos line }

/-- What is passed from further down ends so much further down. -/
theorem Mark.after_down (pos line : Nat) (m : Mark) (t : Text) :
    (m.down pos line).after t = (m.after t).down pos line := by
  induction t generalizing m with
  | nil => rfl
  | cons c t ih =>
    rw [Mark.after_cons, Mark.after_cons, ← ih]
    have hstep : (m.down pos line).step c = (m.step c).down pos line := by
      unfold Mark.step Mark.down
      split
      · dsimp only
        rw [Nat.add_right_comm, Nat.add_right_comm m.line]
      · dsimp only
        rw [Nat.add_right_comm]
    rw [hstep]

/-- The same for a single code point. -/
theorem Mark.step_down (pos line : Nat) (m : Mark) (c : CodePoint) :
    (m.down pos line).step c = (m.step c).down pos line :=
  Mark.after_down pos line m [c]

namespace Scanner

/-! ## Getting on -/

/-- At the end of the text the token found is the end. -/
theorem readToken_nil {s : Scanner} (hs : s.rest = []) :
    s.readToken = (.ok (Token.eof s.mark), s) := by
  unfold readToken current?
  rw [hs]
  rfl

/-- The scanner gets on towards the end of its text: less is left, and the end is where it was. -/
structure Advances (s s' : Scanner) : Prop where
  length_lt : s'.rest.length < s.rest.length
  after_eq : s'.mark.after s'.rest = s.mark.after s.rest

/-- A scanner that has got on is not set back by passing more code points. -/
theorem Advances.skipWhile {s s' : Scanner} (h : Advances s s') (p : CodePoint → Bool) :
    Advances s (s'.skipWhile p) := by
  have happend := taken_append_rest p s'
  refine ⟨?_, ?_⟩
  · have hlength := congrArg List.length happend
    rw [List.length_append] at hlength
    have hlt := h.length_lt
    omega
  · rw [← h.after_eq]
    show (s'.mark.after (s'.taken p)).after _ = _
    rw [← Mark.after_append, happend]

/-- Passing a code point gets the scanner on, if there is one. -/
theorem advances_advance {s : Scanner} (hs : s.rest ≠ []) : Advances s s.advance := by
  obtain ⟨rest, mark⟩ := s
  cases rest with
  | nil => exact absurd rfl hs
  | cons c cs => exact ⟨Nat.lt_succ_self _, rfl⟩

/-- A scanner that has got on gets on further. -/
theorem Advances.advance {s s' : Scanner} (h : Advances s s') (hs' : s'.rest ≠ []) :
    Advances s s'.advance :=
  ⟨Nat.lt_trans (advances_advance hs').length_lt h.length_lt,
    (advances_advance hs').after_eq.trans h.after_eq⟩

/-- What starts with a code point that satisfies `p` is passed at least so far. -/
theorem advances_skipWhile {s : Scanner} {p : CodePoint → Bool} {c : CodePoint} {cs : Text}
    (hs : s.rest = c :: cs) (hc : p c = true) : Advances s (s.skipWhile p) := by
  have hadvance : s.skipWhile p = s.advance.skipWhile p := by
    obtain ⟨rest, mark⟩ := s
    cases hs
    unfold Scanner.skipWhile taken Scanner.advance
    dsimp only
    rw [List.dropWhile_cons_of_pos hc, List.takeWhile_cons_of_pos hc]
    rfl
  rw [hadvance]
  exact (advances_advance (by rw [hs]; exact List.cons_ne_nil c cs)).skipWhile p

/-- A token that is not the end takes up at least one code point. -/
theorem readToken_cons {s s' : Scanner} {t : Token} (hs : s.rest ≠ [])
    (h : s.readToken = (.ok t, s')) : t.kind ≠ .eof ∧ Advances s s' := by
  obtain ⟨c, cs, hrest⟩ := List.exists_cons_of_ne_nil hs
  have hcurrent : s.current? = some c := by rw [current?, hrest]; rfl
  unfold readToken at h
  rw [hcurrent] at h
  dsimp only at h
  split at h
  · -- A string goes up to the quote that closes it, or it is refused.
    unfold readString at h
    rw [hcurrent] at h
    dsimp only at h
    split at h
    · cases h
    · rename_i hne
      obtain ⟨htoken, rfl⟩ := Prod.mk.inj h
      rw [← Except.ok.inj htoken]
      exact ⟨nofun, ((advances_advance hs).skipWhile _).advance hne⟩
  split at h
  · -- Digits, and after a point that has a digit after it more digits.
    rename_i hdigit
    obtain ⟨htoken, rfl⟩ := Prod.mk.inj h
    rw [← Except.ok.inj htoken]
    have hwhole := advances_skipWhile hrest hdigit
    unfold readNumber
    dsimp only
    split
    · rename_i hpoint
      have hne : (s.skipWhile CodePoint.isDigit).rest ≠ [] := by
        intro hnil
        rw [current?, hnil] at hpoint
        cases hpoint.1
      exact ⟨nofun, (hwhole.advance hne).skipWhile _⟩
    · exact ⟨nofun, hwhole⟩
  split at h
  · rename_i hname
    obtain ⟨htoken, rfl⟩ := Prod.mk.inj h
    rw [← Except.ok.inj htoken]
    have hpart : c.isNamePart = true := by rw [CodePoint.isNamePart, hname]; rfl
    exact ⟨nofun, advances_skipWhile hrest hpart⟩
  split at h
  · obtain ⟨htoken, rfl⟩ := Prod.mk.inj h
    rw [← Except.ok.inj htoken]
    exact ⟨nofun, advances_advance hs⟩
  · cases h

/-! ## Blanks and comments -/

/-- Blanks and comments, one code point at a time: whether it belongs to them, and whether the next
one stands in a comment. -/
theorem trivia_cons (inComment : Bool) (c : CodePoint) (t : Text) :
    trivia inComment (c :: t) =
      if inComment || c.isBlank || c = '#' then
        c :: trivia (if inComment then c ≠ '\n' else !c.isBlank) t
      else [] := by
  rw [trivia]
  cases inComment with
  | true => rfl
  | false => cases hblank : c.isBlank <;> simp

/-- A text of nothing but blanks and comments, the last of which may be open, ends at a line
break. -/
theorem trivia_append_newline {inComment : Bool} {t : Text} (h : trivia inComment t = t)
    (u : Text) : trivia inComment (t ++ ('\n' : CodePoint) :: u) =
      t ++ ('\n' : CodePoint) :: trivia false u := by
  induction t generalizing inComment with
  | nil => cases inComment <;> rfl
  | cons c t ih =>
    rw [trivia_cons] at h
    rw [List.cons_append, trivia_cons, List.cons_append]
    split at h
    · rename_i hc
      rw [if_pos hc, ih (List.cons.inj h).2]
    · cases h

/-- Otherwise the blanks and comments end inside the text. -/
theorem trivia_append {inComment : Bool} {t : Text} (h : trivia inComment t ≠ t) (u : Text) :
    trivia inComment (t ++ u) = trivia inComment t := by
  induction t generalizing inComment with
  | nil => exact absurd rfl h
  | cons c t ih =>
    rw [trivia_cons] at h
    rw [List.cons_append, trivia_cons, trivia_cons]
    split at h
    · rename_i hc
      rw [if_pos hc, if_pos hc, ih fun heq => h (by rw [heq])]
    · rename_i hc
      rw [if_neg hc, if_neg hc]

/-- Nothing is left behind the blanks and comments exactly if there is nothing else. -/
theorem skipTrivia_rest_eq_nil {s : Scanner} :
    s.skipTrivia.rest = [] ↔ trivia false s.rest = s.rest := by
  show s.rest.drop (trivia false s.rest).length = [] ↔ _
  have happend := trivia_append_drop false s.rest
  constructor
  · intro h
    rw [h, List.append_nil] at happend
    exact happend
  · intro h
    rw [h]
    exact List.drop_length

/-! ## All tokens of a text -/

/-- `Scans s ts stop`: up to the end of its text, at `stop`, the scanner finds the tokens `ts`. -/
inductive Scans : Scanner → List Token → Mark → Prop where
  | stop {s s' : Scanner} {t : Token} (h : s.next = (.ok t, s')) (ht : t.kind = .eof) :
      Scans s [] t.mark
  | more {s s' : Scanner} {t : Token} {ts : List Token} {m : Mark} (h : s.next = (.ok t, s'))
      (ht : t.kind ≠ .eof) (hts : Scans s' ts m) : Scans s (t :: ts) m

/-- The end is found only when there is nothing left but blanks and comments. -/
theorem next_eof_iff {s s' : Scanner} {t : Token} (h : s.next = (.ok t, s')) :
    t.kind = .eof ↔ s.skipTrivia.rest = [] := by
  constructor
  · intro ht
    exact Decidable.byContradiction fun hne => (readToken_cons hne h).1 ht
  · intro hnil
    rw [next, readToken_nil hnil] at h
    obtain ⟨htoken, -⟩ := Prod.mk.inj h
    rw [← Except.ok.inj htoken]
    rfl

/-- A token that is not the end gets the scanner on, with whatever stands before it. -/
theorem next_advances {s s' : Scanner} {t : Token} (h : s.next = (.ok t, s'))
    (ht : t.kind ≠ .eof) : Advances s s' := by
  obtain ⟨-, hlt, hafter⟩ := readToken_cons (mt (next_eof_iff h).mpr ht) h
  refine ⟨Nat.lt_of_lt_of_le hlt ?_, hafter.trans ?_⟩
  · show (s.rest.drop _).length ≤ _
    rw [List.length_drop]
    exact Nat.sub_le _ _
  · show (s.mark.after (trivia false s.rest)).after (s.rest.drop _) = _
    rw [← Mark.after_append, trivia_append_drop]

/-- With fuel for each code point, the tokens are those that the scanner finds. -/
theorem tokens_eq_ok {fuel : Nat} {s : Scanner} (hfuel : s.rest.length < fuel) {ts : Tokens} :
    tokens fuel s = .ok ts ↔ Scans s ts.body ts.stop := by
  induction fuel generalizing s ts with
  | zero => exact absurd hfuel (Nat.not_lt_zero _)
  | succ fuel ih =>
    rw [tokens]
    obtain ⟨body, m⟩ := ts
    match hnext : s.next with
    | (.error e, s') =>
      refine ⟨nofun, fun h => ?_⟩
      cases h with
      | stop h | more h => cases hnext.symm.trans h
    | (.ok t, s') =>
      dsimp only
      by_cases ht : t.kind = .eof
      · -- Nothing comes after the end.
        rw [if_pos ht]
        constructor
        · intro h
          cases h
          exact .stop hnext ht
        · intro h
          cases h with
          | stop h => cases hnext.symm.trans h; rfl
          | more h ht' => cases hnext.symm.trans h; exact absurd ht ht'
      · -- The text after a token is shorter, so that the fuel suffices for it.
        rw [if_neg ht]
        have hlt := (next_advances hnext ht).length_lt
        constructor
        · intro h
          cases hrest : tokens fuel s' with
          | error e => rw [hrest] at h; cases h
          | ok us =>
            rw [hrest] at h
            cases h
            exact .more hnext ht ((ih (by omega)).mp hrest)
        · intro h
          cases h with
          | stop h ht' => cases hnext.symm.trans h; exact absurd ht' ht
          | @more _ _ _ us _ h _ hus =>
            cases hnext.symm.trans h
            rw [(@ih s' (by omega) ⟨us, m⟩).mpr hus]
            rfl

/-- There is only one way to cut a text into tokens. -/
theorem Scans.unique {s : Scanner} {ts us : List Token} {m n : Mark} (h : Scans s ts m)
    (h' : Scans s us n) : ts = us := by
  have hts := (@tokens_eq_ok _ s (Nat.lt_succ_self _) ⟨ts, m⟩).mpr h
  have hus := (@tokens_eq_ok _ s (Nat.lt_succ_self _) ⟨us, n⟩).mpr h'
  exact congrArg Tokens.body (Except.ok.inj (hts.symm.trans hus))

/-- The tokens of a text are those that a scanner finds from its start. -/
theorem tokenize_eq_ok {text : Text} {ts : Tokens} :
    tokenize text = .ok ts ↔ Scans (Scanner.start text) ts.body ts.stop :=
  tokens_eq_ok (Nat.lt_succ_self _)

/-- The end is not among the tokens. -/
theorem Scans.kind_ne_eof {s : Scanner} {ts : List Token} {m : Mark} (h : Scans s ts m) :
    ∀ t ∈ ts, t.kind ≠ .eof := by
  induction h with
  | stop => exact fun t ht => absurd ht List.not_mem_nil
  | more _ ht _ ih =>
    intro t hmem
    rcases List.mem_cons.mp hmem with rfl | hmem
    · exact ht
    · exact ih t hmem

/-! ## The same text in another place -/

/-- A scanner for the same text further down, and with more text after it. -/
def placed (u : Text) (pos line : Nat) (s : Scanner) : Scanner :=
  ⟨s.rest ++ u, s.mark.down pos line⟩

section Placed

variable {u : Text} (pos line : Nat)

/-- What is passed is the same further down, if it ends in the text or before what comes after
it. -/
theorem skipWhile_placed {p : CodePoint → Bool} {s : Scanner}
    (h : (s.skipWhile p).rest = [] → ∀ c ∈ u.head?, p c = false) :
    (s.placed u pos line).taken p = s.taken p ∧
      (s.placed u pos line).skipWhile p = (s.skipWhile p).placed u pos line := by
  obtain ⟨htake, hdrop⟩ := Text.span_append h
  have htaken : (s.placed u pos line).taken p = s.taken p := htake
  refine ⟨htaken, ?_⟩
  unfold skipWhile
  rw [htaken]
  unfold placed
  dsimp only
  rw [hdrop, Mark.after_down]

/-- A code point of the text is passed in the same way. -/
theorem advance_placed {s : Scanner} (hs : s.rest ≠ []) :
    (s.placed u pos line).advance = s.advance.placed u pos line := by
  obtain ⟨rest, mark⟩ := s
  cases rest with
  | nil => exact absurd rfl hs
  | cons c cs =>
    unfold placed advance
    dsimp only
    rw [← Mark.step_down]
    rfl

/-- A string that is closed in the text is read in the same way. -/
theorem readString_placed {s s' : Scanner} {t : Token} (hs : s.rest ≠ [])
    (h : s.readString = (.ok t, s')) :
    (s.placed u pos line).readString = (.ok (t.down pos line), s'.placed u pos line) := by
  obtain ⟨c, cs, hrest⟩ := List.exists_cons_of_ne_nil hs
  have hcurrent : s.current? = some c := by rw [current?, hrest]; rfl
  have hcurrent' : (s.placed u pos line).current? = some c := by rw [current?, placed, hrest]; rfl
  unfold readString at h ⊢
  rw [hcurrent] at h
  rw [hcurrent', advance_placed pos line hs]
  dsimp only at h ⊢
  by_cases hnil : (s.advance.skipWhile fun d => d ≠ c).rest = []
  · rw [if_pos hnil] at h
    cases h
  · rw [if_neg hnil] at h
    obtain ⟨htoken, rfl⟩ := Prod.mk.inj h
    obtain rfl := Except.ok.inj htoken
    -- The string is closed inside the first text, so what comes after it is not looked at.
    obtain ⟨htaken, hskip⟩ := skipWhile_placed (u := u) pos line fun h => absurd h hnil
    have hnil' : ((s.advance.skipWhile fun d => d ≠ c).placed u pos line).rest ≠ [] :=
      fun h => hnil (List.append_eq_nil_iff.mp h).1
    rw [htaken, hskip, advance_placed pos line hnil, if_neg hnil']
    rfl

variable (hu : ∀ c ∈ u.head?, c = '\n')

include hu

/-- A name ends at a line break at the latest, so what comes after it does not matter. -/
theorem readName_placed (s : Scanner) : (s.placed u pos line).readName =
    (s.readName.1.down pos line, s.readName.2.placed u pos line) := by
  have hstop : ∀ c ∈ u.head?, CodePoint.isNamePart c = false := fun c hc => by rw [hu c hc]; rfl
  obtain ⟨htaken, hskip⟩ := skipWhile_placed (s := s) pos line fun _ => hstop
  unfold readName
  rw [htaken, hskip]
  rfl

/-- Whether a point with a digit after it comes next is decided before the line break. -/
theorem pointed_placed (s : Scanner) :
    (s.placed u pos line).current? = some ('.' : CodePoint) ∧
        (s.placed u pos line).peek?.any CodePoint.isDigit ↔
      s.current? = some ('.' : CodePoint) ∧ s.peek?.any CodePoint.isDigit := by
  obtain ⟨rest, mark⟩ := s
  unfold placed current? peek?
  cases u with
  | nil => rw [List.append_nil]
  | cons d u =>
    obtain rfl := hu d rfl
    -- Both code points that are looked at may be missing from the text.
    match rest with
    | [] =>
      have hne : some ('\n' : CodePoint) ≠ some ('.' : CodePoint) := by decide
      exact ⟨fun h => absurd h.1 hne, fun h => absurd h.1 nofun⟩
    | [c] => exact ⟨fun h => absurd h.2 Bool.false_ne_true, fun h => absurd h.2 Bool.false_ne_true⟩
    | c :: d :: rest => exact Iff.rfl

/-- So is a number. -/
theorem readNumber_placed (s : Scanner) : (s.placed u pos line).readNumber =
    (s.readNumber.1.down pos line, s.readNumber.2.placed u pos line) := by
  have hstop : ∀ c ∈ u.head?, CodePoint.isDigit c = false := fun c hc => by rw [hu c hc]; rfl
  obtain ⟨htaken, hskip⟩ := skipWhile_placed (s := s) pos line fun _ => hstop
  have hpointed := pointed_placed pos line hu (s.skipWhile CodePoint.isDigit)
  unfold readNumber
  rw [htaken, hskip]
  dsimp only
  by_cases hpoint : (s.skipWhile CodePoint.isDigit).current? = some ('.' : CodePoint) ∧
      (s.skipWhile CodePoint.isDigit).peek?.any CodePoint.isDigit
  · have hne : (s.skipWhile CodePoint.isDigit).rest ≠ [] := by
      intro hnil
      rw [current?, hnil] at hpoint
      cases hpoint.1
    obtain ⟨htaken', hskip'⟩ :=
      skipWhile_placed (s := (s.skipWhile CodePoint.isDigit).advance) pos line fun _ => hstop
    rw [if_pos hpoint, if_pos (hpointed.mpr hpoint), advance_placed pos line hne, htaken', hskip']
    rfl
  · rw [if_neg hpoint, if_neg (mt hpointed.mp hpoint)]
    rfl

/-- **A token is read in the same way further down**, whatever follows after a line break. -/
theorem readToken_placed {s s' : Scanner} {t : Token} (hs : s.rest ≠ [])
    (h : s.readToken = (.ok t, s')) :
    (s.placed u pos line).readToken = (.ok (t.down pos line), s'.placed u pos line) := by
  obtain ⟨c, cs, hrest⟩ := List.exists_cons_of_ne_nil hs
  have hcurrent : s.current? = some c := by rw [current?, hrest]; rfl
  have hcurrent' : (s.placed u pos line).current? = some c := by rw [current?, placed, hrest]; rfl
  -- Both scanners see the same code point, so they go the same way through `readToken`.
  unfold readToken at h ⊢
  rw [hcurrent] at h
  rw [hcurrent', readNumber_placed pos line hu, readName_placed pos line hu,
    advance_placed pos line hs]
  dsimp only at h ⊢
  by_cases hquote : c.isQuote = true
  · rw [if_pos hquote] at h ⊢
    exact readString_placed pos line hs h
  rw [if_neg hquote] at h ⊢
  by_cases hdigit : c.isDigit = true
  · rw [if_pos hdigit] at h ⊢
    cases h
    rfl
  rw [if_neg hdigit] at h ⊢
  by_cases hname : c.isNameStart = true
  · rw [if_pos hname] at h ⊢
    cases h
    rfl
  rw [if_neg hname] at h ⊢
  by_cases hsymbol : c.isSymbol = true
  · rw [if_pos hsymbol] at h ⊢
    cases h
    rfl
  · rw [if_neg hsymbol] at h
    cases h

omit hu in
/-- Blanks and comments that end in the text are passed in the same way. -/
theorem skipTrivia_placed {s : Scanner} (h : s.skipTrivia.rest ≠ []) :
    (s.placed u pos line).skipTrivia = s.skipTrivia.placed u pos line := by
  have htrivia := trivia_append (mt skipTrivia_rest_eq_nil.mpr h) u
  have hle : (trivia false s.rest).length ≤ s.rest.length := by
    have happend := congrArg List.length (trivia_append_drop false s.rest)
    rw [List.length_append] at happend
    omega
  unfold skipTrivia placed
  dsimp only
  rw [htrivia, List.drop_append_of_le_length hle, Mark.after_down]

/-- The next token is found in the same way further down, if it is not the end. -/
theorem next_placed {s s' : Scanner} {t : Token} (h : s.next = (.ok t, s')) (ht : t.kind ≠ .eof) :
    (s.placed u pos line).next = (.ok (t.down pos line), s'.placed u pos line) := by
  have hne := mt (next_eof_iff h).mpr ht
  unfold next
  rw [skipTrivia_placed pos line hne]
  exact readToken_placed pos line hu hne h

end Placed

/-- A text of nothing but blanks and comments is passed with the line break after it. -/
theorem next_placed_newline {s : Scanner} (h : s.skipTrivia.rest = []) (u : Text)
    (pos line : Nat) :
    (s.placed (('\n' : CodePoint) :: u) pos line).next =
      (⟨u, ((s.mark.after s.rest).step '\n').down pos line⟩ : Scanner).next := by
  have htrivia := trivia_append_newline (skipTrivia_rest_eq_nil.mp h) u
  unfold next skipTrivia placed
  dsimp only
  rw [htrivia, Mark.after_append, Mark.after_cons, List.length_append, List.length_cons,
    List.drop_append, List.drop_eq_nil_of_le (Nat.le_add_right _ _), Nat.add_sub_cancel_left,
    Mark.after_down, Mark.step_down]
  rfl

/-- **Scanning line by line**: a text, and after a line break another one. -/
theorem Scans.append_newline {s : Scanner} {u : Text} {ts us : List Token} {m n : Mark}
    {pos line : Nat} (h : Scans s ts m)
    (hu : Scans ⟨u, ((s.mark.after s.rest).step '\n').down pos line⟩ us n) :
    Scans (s.placed (('\n' : CodePoint) :: u) pos line) (ts.map (Token.down pos line) ++ us) n := by
  have hnewline : ∀ c ∈ (('\n' : CodePoint) :: u).head?, c = '\n' := by
    intro c hc
    cases hc
    rfl
  induction h with
  | @stop s s' t h ht =>
    -- Only blanks and comments are left of the first text, and the scanner goes on to the second.
    have hnext := next_placed_newline ((next_eof_iff h).mp ht) u pos line
    cases hu with
    | stop hu hut => exact .stop (hnext.trans hu) hut
    | more hu hut hus => exact .more (hnext.trans hu) hut hus
  | @more s s' t ts m h ht _ ih =>
    rw [← (next_advances h ht).after_eq] at hu
    exact .more (next_placed pos line hnewline h ht) ht (ih hu)

end Scanner

end Grimoire
