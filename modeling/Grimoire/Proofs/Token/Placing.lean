import Grimoire.Proofs.Token.Segments

/-!
# A scanner knows its place

The operations of a scanner can be used in any order, past the end of the text and after failures.
All of them pass one code point after the other, and it is enough to know what one such step does:
the line and the column of the scanner remain those of its position in the text.

* **`Mark.Fits`** says what line and column a position has.
* **`Onward`** says that one scanner becomes the other by passing code points. All operations go
  onward, and so they keep a scanner in its place (`InPlace.onward`) and never lead back.
* **`Finds`** is what an operation does that reads a token: what it finds stands right where it
  began to read.
* **`keeps_its_place`** puts this together for any calls.
-/

namespace Grimoire

/-! ## Positions in a text -/

/-- The last line break before a position. -/
def Text.lastBreak? (text : Text) (pos : Nat) : Option Nat :=
  ((List.range pos).filter fun i => text[i]? = some ('\n' : CodePoint)).getLast?

/-- The last line break before a position comes before it. -/
theorem Text.lastBreak?_lt {text : Text} {pos i : Nat} (h : text.lastBreak? pos = some i) :
    i < pos :=
  List.mem_range.mp (List.mem_filter.mp (List.mem_of_getLast? h)).1

/-- One position further on, a line break that has just been passed is the last one. -/
theorem Text.lastBreak?_succ (text : Text) (pos : Nat) :
    text.lastBreak? (pos + 1) =
      if text[pos]? = some ('\n' : CodePoint) then some pos else text.lastBreak? pos := by
  unfold lastBreak?
  rw [List.range_succ, List.filter_append]
  split
  · rename_i hbreak
    rw [List.filter_cons_of_pos (by simpa using hbreak), List.filter_nil,
      List.getLast?_concat]
  · rename_i hbreak
    rw [List.filter_cons_of_neg (by simpa using hbreak), List.filter_nil, List.append_nil]

/-- The line and the column of a mark are those of its position in the text: lines are counted by
the line breaks before it, and columns from the last of these or from the start of the text. -/
structure Mark.Fits (text : Text) (m : Mark) : Prop where
  line : m.line = 1 + (text.take m.pos).count ('\n' : CodePoint)
  column : m.column = match text.lastBreak? m.pos with
    | some i => m.pos - i
    | none => m.pos + 1

namespace Mark.Fits

variable {text : Text} {m : Mark}

/-- The place in front of a text. -/
theorem start (text : Text) : Mark.start.Fits text := ⟨rfl, rfl⟩

/-- The place after a line break. -/
theorem newline (h : m.Fits text) (hbreak : text[m.pos]? = some ('\n' : CodePoint)) :
    (⟨m.pos + 1, m.line + 1, 1⟩ : Mark).Fits text := by
  refine ⟨?_, ?_⟩
  · show m.line + 1 = _
    rw [List.take_add_one, hbreak, List.count_append, h.line]
    rfl
  · show 1 = _
    rw [Text.lastBreak?_succ, if_pos hbreak]
    exact (Nat.add_sub_cancel_left m.pos 1).symm

/-- The place after anything else, and the one behind the end of the text. -/
theorem onLine (h : m.Fits text) (hbreak : text[m.pos]? ≠ some ('\n' : CodePoint)) :
    (⟨m.pos + 1, m.line, m.column + 1⟩ : Mark).Fits text := by
  refine ⟨?_, ?_⟩
  · show m.line = _
    have hcount : text[m.pos]?.toList.count ('\n' : CodePoint) = 0 := by
      rw [List.count_eq_zero, Option.mem_toList]
      exact hbreak
    rw [List.take_add_one, List.count_append, hcount, h.line, Nat.add_zero]
  · show m.column + 1 = _
    rw [Text.lastBreak?_succ, if_neg hbreak, h.column]
    cases hlast : text.lastBreak? m.pos with
    | none => rfl
    | some i => exact (Nat.succ_sub (Nat.le_of_lt (Text.lastBreak?_lt hlast))).symm

end Mark.Fits

namespace Scanner

/-! ## Going onward -/

/-- The scanner is where its mark says: the text goes on from there as the scanner sees it. -/
structure InPlace (text : Text) (s : Scanner) : Prop where
  rest : s.rest = text.drop s.mark.pos
  mark : s.mark.Fits text

/-- The second scanner comes from the first by passing code points. -/
inductive Onward : Scanner → Scanner → Prop where
  | refl (s : Scanner) : Onward s s
  | step {s s' : Scanner} (h : Onward s.advance s') : Onward s s'

namespace InPlace

variable {text : Text} {s s' : Scanner}

/-- A scanner starts in its place. -/
theorem start (text : Text) : (Scanner.start text).InPlace text := ⟨rfl, .start text⟩

/-- The next code point is the one at the scanner's position. -/
theorem current?_eq (h : s.InPlace text) : s.current? = text[s.mark.pos]? := by
  rw [current?, h.rest, List.head?_drop]

/-- The code point after the next one is the one after the scanner's position. -/
theorem peek?_eq (h : s.InPlace text) : s.peek? = text[s.mark.pos + 1]? := by
  rw [peek?, h.rest, List.tail_drop, List.head?_drop]

/-- **Passing a code point keeps the scanner in its place**, also where there is none left. -/
theorem advance (h : s.InPlace text) : s.advance.InPlace text := by
  have hcurrent := h.current?_eq
  have htail : s.rest.tail = text.drop (s.mark.pos + 1) := by rw [h.rest, List.tail_drop]
  unfold current? at hcurrent
  unfold Scanner.advance
  match hrest : s.rest with
  | [] =>
    rw [hrest] at hcurrent htail
    refine ⟨htail, h.mark.onLine ?_⟩
    rw [← hcurrent]
    nofun
  | c :: cs =>
    rw [hrest] at hcurrent htail
    unfold Mark.step
    dsimp only
    split
    · rename_i hc
      exact ⟨htail, h.mark.newline (by rw [← hcurrent, hc]; rfl)⟩
    · rename_i hc
      refine ⟨htail, h.mark.onLine ?_⟩
      rw [← hcurrent]
      exact fun heq => hc (Option.some.inj heq)

/-- So does passing any number of them. -/
theorem onward (h : s.InPlace text) (hs : Onward s s') : s'.InPlace text := by
  induction hs with
  | refl => exact h
  | step _ ih => exact ih h.advance

end InPlace

namespace Onward

variable {s s' s'' : Scanner}

/-- Going on from where one has come to is going on. -/
theorem trans (h : Onward s s') (h' : Onward s' s'') : Onward s s'' := by
  induction h with
  | refl => exact h'
  | step _ ih => exact .step (ih h')

/-- One more code point can always be passed. -/
theorem advance (h : Onward s s') : Onward s s'.advance := h.trans (.step (.refl _))

/-- Nothing leads back. -/
theorem pos_le (h : Onward s s') : s.mark.pos ≤ s'.mark.pos := by
  induction h with
  | refl => exact Nat.le_refl _
  | @step s s' _ ih =>
    have hstep : s.advance.mark.pos = s.mark.pos + 1 := by
      unfold Scanner.advance Mark.step
      split
      · rfl
      · split <;> rfl
    omega

/-- Passing a text is passing its code points. -/
theorem append (t u : Text) (m : Mark) : Onward ⟨t ++ u, m⟩ ⟨u, m.after t⟩ := by
  induction t generalizing m with
  | nil => exact .refl _
  | cons c t ih => exact .step (ih (m.step c))

/-- To pass code points of one kind is to go on. -/
theorem skipWhile (p : CodePoint → Bool) (s : Scanner) : Onward s (s.skipWhile p) := by
  have happend := append (s.taken p) (s.skipWhile p).rest s.mark
  rw [taken_append_rest] at happend
  exact happend

/-- To pass blanks and comments is to go on. -/
theorem skipTrivia (s : Scanner) : Onward s s.skipTrivia := by
  have happend := append (trivia false s.rest) s.skipTrivia.rest s.mark
  rw [show trivia false s.rest ++ s.skipTrivia.rest = s.rest from trivia_append_drop ..] at happend
  exact happend

end Onward
end Scanner

/-! ## What is read -/

/-- The text goes on with the token. A string stands between two quotes of one kind, whatever serves
as the quote, and past the end of the text a string is empty and the end is found. -/
def Token.StandsBefore (t : Token) (rest : Text) : Prop :=
  match t.kind with
  | .eof => rest = []
  | .string =>
    (∃ (quote : CodePoint) (after : Text),
      quote ∉ t.text ∧ rest = quote :: (t.text ++ quote :: after)) ∨ rest = [] ∧ t.text = []
  | .identifier | .integer | .float | .symbol => t.text <+: rest

/-- The text goes on with what is wrong: a quote that does not come again, or a code point with
which nothing starts. -/
def LexError.StandsBefore (e : LexError) (rest : Text) : Prop :=
  match e.cause with
  | .unterminated => ∃ (quote : CodePoint) (after : Text), quote ∉ after ∧ rest = quote :: after
  | .unexpected c => ∃ after : Text, rest = c :: after

namespace Scanner

/-- What is found by a scanner that reads from `s` on and is at `s'` afterwards: a token or an error
that stands at `s`. -/
inductive Finds (s : Scanner) : Except LexError Token → Scanner → Prop where
  | token {t : Token} {s' : Scanner} (hmark : t.mark = s.mark) (ht : t.StandsBefore s.rest)
      (h : Onward s s') : Finds s (.ok t) s'
  | error {e : LexError} {s' : Scanner} (hmark : e.mark = s.mark) (he : e.StandsBefore s.rest)
      (h : Onward s s') : Finds s (.error e) s'

/-- What is found has been found by going on. -/
theorem Finds.onward {s s' : Scanner} {result : Except LexError Token} (h : Finds s result s') :
    Onward s s' := by
  cases h with
  | token _ _ h | error _ _ h => exact h

/-- A name stands at the scanner, perhaps an empty one. -/
theorem finds_readName (s : Scanner) : Finds s (.ok s.readName.1) s.readName.2 :=
  .token rfl (List.takeWhile_prefix _) (.skipWhile _ s)

/-- The number that is read stands at the scanner, perhaps without any digit before a point. -/
theorem finds_readNumber (s : Scanner) : Finds s (.ok s.readNumber.1) s.readNumber.2 := by
  have hwhole := taken_append_rest CodePoint.isDigit s
  unfold readNumber
  dsimp only
  split
  · rename_i hpoint
    obtain ⟨ds, hds⟩ : ∃ ds, (s.skipWhile CodePoint.isDigit).rest = ('.' : CodePoint) :: ds :=
      List.head?_eq_some_iff.mp hpoint.1
    refine .token rfl ?_ ((Onward.skipWhile _ s).advance.trans (.skipWhile _ _))
    -- The digits after the point are the first ones of what follows it.
    rw [advance_of_rest hds, ← hwhole, hds]
    refine ⟨ds.dropWhile CodePoint.isDigit, ?_⟩
    show s.taken CodePoint.isDigit ++ "." ++ ds.takeWhile CodePoint.isDigit ++ _ = _
    rw [List.append_assoc, List.takeWhile_append_dropWhile, List.append_assoc]
    rfl
  · exact .token rfl (List.takeWhile_prefix _) (.skipWhile _ s)

/-- What comes before the next occurrence of a code point, which may be missing. -/
theorem exists_rest_skipWhile_ne (quote : CodePoint) (s : Scanner) :
    (quote ∉ s.rest ∧ (s.skipWhile fun c => c ≠ quote).rest = []) ∨
      ∃ after, quote ∉ (s.taken fun c => c ≠ quote) ∧
        (s.skipWhile fun c => c ≠ quote).rest = quote :: after ∧
        s.rest = (s.taken fun c => c ≠ quote) ++ quote :: after := by
  have hrest := taken_append_rest (fun c => c ≠ quote) s
  have hfree : quote ∉ (s.taken fun c => c ≠ quote) := fun hmem =>
    of_decide_eq_true (List.all_eq_true.mp (taken_all _ s) quote hmem) rfl
  cases hskip : (s.skipWhile fun c => c ≠ quote).rest with
  | nil =>
    rw [hskip, List.append_nil] at hrest
    rw [hrest] at hfree
    exact .inl ⟨hfree, rfl⟩
  | cons c after =>
    have hstops := skipWhile_stops (fun c => c ≠ quote) s c (by rw [hskip]; rfl)
    obtain rfl : c = quote := Decidable.not_not.mp (of_decide_eq_false hstops)
    rw [hskip] at hrest
    exact .inr ⟨after, hfree, rfl, hrest.symm⟩

/-- A string is closed by the next quote of its kind. Where there is none, the error is at the first
quote. -/
theorem finds_readString (s : Scanner) : Finds s s.readString.1 s.readString.2 := by
  unfold readString
  cases hrest : s.rest with
  | nil =>
    -- At the end of the text nothing serves as the quote.
    have hcurrent : s.current? = none := by rw [current?, hrest]; rfl
    rw [hcurrent]
    exact .token rfl (.inr ⟨hrest, rfl⟩) (.step (.step (.refl _)))
  | cons quote cs =>
    have hcurrent : s.current? = some quote := by rw [current?, hrest]; rfl
    rw [hcurrent, advance_of_rest hrest]
    dsimp only
    have hopened : Onward s ⟨cs, s.mark.step quote⟩ := by
      rw [← advance_of_rest hrest]
      exact .step (.refl _)
    rcases exists_rest_skipWhile_ne quote ⟨cs, s.mark.step quote⟩ with
      ⟨hfree, hnil⟩ | ⟨after, hfree, hafter, hcs⟩
    · rw [if_pos hnil]
      exact .error rfl ⟨quote, cs, hfree, hrest⟩ (hopened.trans (.skipWhile _ _))
    · rw [if_neg (by rw [hafter]; exact List.cons_ne_nil _ _)]
      refine .token rfl (.inl ⟨quote, after, hfree, ?_⟩) (hopened.trans (.skipWhile _ _)).advance
      rw [hrest]
      exact congrArg (quote :: ·) hcs

/-- Whatever is read right at the scanner stands there. -/
theorem finds_readToken (s : Scanner) : Finds s s.readToken.1 s.readToken.2 := by
  cases hrest : s.rest with
  | nil =>
    rw [readToken_nil hrest]
    exact .token rfl hrest (.refl s)
  | cons c cs =>
    have hcurrent : s.current? = some c := by rw [current?, hrest]; rfl
    unfold readToken
    rw [hcurrent]
    dsimp only
    split_ifs
    · exact finds_readString s
    · exact finds_readNumber s
    · exact finds_readName s
    · refine .token rfl ?_ (.step (.refl _))
      show [c] <+: s.rest
      rw [hrest]
      exact ⟨cs, rfl⟩
    · exact .error rfl ⟨cs, hrest⟩ (.refl s)

/-! ## Any calls -/

/-- What can be asked of a scanner. -/
inductive Call where
  | advance
  | peek
  | skipBlanks
  | skipComment
  | readName
  | readNumber
  | readString
  | next

/-- What a scanner answers. -/
inductive Answer where
  | nothing
  | seen (c? : Option CodePoint)
  | read (result : Except LexError Token)

/-- Does what is asked for: the answer, and the scanner after it. -/
def perform (s : Scanner) : Call → Answer × Scanner
  | .advance => (.nothing, s.advance)
  | .peek => (.seen s.peek?, s)
  | .skipBlanks => (.nothing, s.skipBlanks)
  | .skipComment => (.nothing, s.skipComment)
  | .readName => (.read (.ok s.readName.1), s.readName.2)
  | .readNumber => (.read (.ok s.readNumber.1), s.readNumber.2)
  | .readString => (.read s.readString.1, s.readString.2)
  | .next => (.read s.next.1, s.next.2)

/-- The scanner after some calls, whatever their answers are. -/
def afterCalls (s : Scanner) (calls : List Call) : Scanner :=
  calls.foldl (fun s call => (s.perform call).2) s

/-- The answer is about the text at the right place: what is seen is the code point after the
scanner, and a token or an error carries a mark that fits, between the scanner before the call and
the one after it, and stands in the text there. -/
inductive Answer.Fits (text : Text) (s s' : Scanner) : Answer → Prop where
  | nothing : Fits text s s' .nothing
  | seen : Fits text s s' (.seen text[s.mark.pos + 1]?)
  | token {t : Token} (hmark : t.mark.Fits text) (hafter : s.mark.pos ≤ t.mark.pos)
      (hbefore : t.mark.pos ≤ s'.mark.pos) (ht : t.StandsBefore (text.drop t.mark.pos)) :
      Fits text s s' (.read (.ok t))
  | error {e : LexError} (hmark : e.mark.Fits text) (hafter : s.mark.pos ≤ e.mark.pos)
      (hbefore : e.mark.pos ≤ s'.mark.pos) (he : e.StandsBefore (text.drop e.mark.pos)) :
      Fits text s s' (.read (.error e))

section Calls

variable {text : Text} {s s₁ s' : Scanner}

/-- What is found after passing some code points carries the mark of the place where it is found. -/
theorem Finds.fits {result : Except LexError Token} (h : Finds s₁ result s')
    (hs : s.InPlace text) (honward : Onward s s₁) : Answer.Fits text s s' (.read result) := by
  have hplace := hs.onward honward
  have hrest := hplace.rest
  have hfits := hplace.mark
  have hafter := honward.pos_le
  cases h with
  | token hmark ht h =>
    rw [hrest] at ht
    rw [← hmark] at ht hfits hafter
    exact .token hfits hafter (by rw [hmark]; exact h.pos_le) ht
  | error hmark he h =>
    rw [hrest] at he
    rw [← hmark] at he hfits hafter
    exact .error hfits hafter (by rw [hmark]; exact h.pos_le) he

/-- No call leads back, because each passes code points only. -/
theorem onward_perform (s : Scanner) (call : Call) : Onward s (s.perform call).2 := by
  cases call with
  | advance => exact .step (.refl _)
  | peek => exact .refl s
  | skipBlanks | skipComment => exact .skipWhile _ s
  | readName => exact (finds_readName s).onward
  | readNumber => exact (finds_readNumber s).onward
  | readString => exact (finds_readString s).onward
  | next => exact (Onward.skipTrivia s).trans (finds_readToken s.skipTrivia).onward

/-- No row of calls leads back. Induction on the calls. -/
theorem onward_afterCalls (s : Scanner) (calls : List Call) : Onward s (s.afterCalls calls) := by
  induction calls generalizing s with
  | nil => exact .refl s
  | cons call calls ih => exact (onward_perform s call).trans (ih _)

/-- Every answer of a scanner in its place fits the text. -/
theorem fits_perform (h : s.InPlace text) (call : Call) :
    (s.perform call).1.Fits text s (s.perform call).2 := by
  cases call with
  | advance | skipBlanks | skipComment => exact .nothing
  | peek =>
    show Answer.Fits text s s (.seen s.peek?)
    rw [h.peek?_eq]
    exact .seen
  | readName => exact (finds_readName s).fits h (.refl s)
  | readNumber => exact (finds_readNumber s).fits h (.refl s)
  | readString => exact (finds_readString s).fits h (.refl s)
  | next => exact (finds_readToken s.skipTrivia).fits h (.skipTrivia s)

end Calls

/-- **A scanner knows its place**, whatever has been asked of it, past the end of the text and after
failures. It sees the code point at its position, or none behind the end. Its line is one more than
the line breaks before its position, and its column counts from the last of them. Further calls
never lead back, and every token and every error carries the position, line and column at which it
stands in the text. -/
theorem keeps_its_place (text : Text) (calls : List Call) :
    let s := (start text).afterCalls calls
    s.current? = text[s.mark.pos]? ∧
    s.mark.line = 1 + (text.take s.mark.pos).count ('\n' : CodePoint) ∧
    (s.mark.column = match text.lastBreak? s.mark.pos with
      | some i => s.mark.pos - i
      | none => s.mark.pos + 1) ∧
    (∀ more, s.mark.pos ≤ (s.afterCalls more).mark.pos) ∧
    ∀ call, (s.perform call).1.Fits text s (s.perform call).2 := by
  intro s
  have hplace : s.InPlace text := (InPlace.start text).onward (onward_afterCalls _ calls)
  exact ⟨hplace.current?_eq, hplace.mark.line, hplace.mark.column,
    fun more => (onward_afterCalls s more).pos_le, fits_perform hplace⟩

end Scanner
end Grimoire
