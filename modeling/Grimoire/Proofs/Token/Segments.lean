import Mathlib.Data.List.TakeWhile
import Grimoire.Proofs.Token.Scanning
import Grimoire.Proofs.Token.Shape

/-!
# Cutting a text without loss

The tokens of a text stand in it one after the other, each as it is written, and what lies between
them is nothing but blanks and comments. No name and no number could be longer than it is.

* **`Segments`** says so from left to right: a gap, a token, and the rest of the text. It is what
  the scanner keeps up from token to token (`Scans.segments`), and each token is looked at once
  (`readToken_stands`).
* **`tokenize_faithful`** says it in positions: where each token starts and stops, what the text is
  between these places, and what comes before, between and after the tokens.
-/

namespace Grimoire

/-! ## Gaps, spans and boundaries -/

/-- Blanks and comments. A comment goes up to the end of its line; only where the gap is `final`, at
the end of the text, it may lack the line break. -/
inductive Gap (final : Prop) : Text → Prop where
  | nil : Gap final []
  | blank {c : CodePoint} {g : Text} (hc : c.isBlank) (hg : Gap final g) : Gap final (c :: g)
  | comment {words g : Text} (hwords : ('\n' : CodePoint) ∉ words) (hg : Gap final g) :
      Gap final (('#' : CodePoint) :: (words ++ ('\n' : CodePoint) :: g))
  | unended {words : Text} (hfinal : final) (hwords : ('\n' : CodePoint) ∉ words) :
      Gap final (('#' : CodePoint) :: words)

namespace Token

/-- How the token is written: a string between two quotes of a kind that it does not hold, and any
other token as it is. -/
def Written (t : Token) (w : Text) : Prop :=
  if t.kind = .string then
    ∃ quote : CodePoint, quote.isQuote ∧ quote ∉ t.text ∧ w = quote :: (t.text ++ [quote])
  else w = t.text

/-- How many code points the token takes up. -/
def width (t : Token) : Nat := if t.kind = .string then t.text.length + 2 else t.text.length

/-- The position of the first code point that the token takes up. -/
def start (t : Token) : Nat := t.mark.pos

/-- The position after the last code point that the token takes up. -/
def stop (t : Token) : Nat := t.mark.pos + t.width

/-- With the text `rest` after it, the token could not be longer. -/
def Maximal (t : Token) (rest : Text) : Prop :=
  match t.kind with
  | .identifier => ∀ c ∈ rest.head?, c.isNamePart = false
  | .integer =>
    (∀ c ∈ rest.head?, c.isDigit = false) ∧
      ¬(rest.head? = some ('.' : CodePoint) ∧ ∃ c ∈ rest.tail.head?, c.isDigit)
  | .float => ∀ c ∈ rest.head?, c.isDigit = false
  | .string | .symbol | .eof => True

/-- Only a string is written with more code points than its text has: the two quotes. -/
theorem Written.length_eq {t : Token} {w : Text} (h : t.Written w) : w.length = t.width := by
  unfold Written at h
  unfold width
  by_cases hkind : t.kind = .string
  · rw [if_pos hkind] at h ⊢
    obtain ⟨quote, -, -, rfl⟩ := h
    rw [List.length_cons, List.length_append, List.length_singleton]
  · rw [if_neg hkind] at h ⊢
    rw [h]

/-- No token is empty: only a string has no code points of its own, and it has its quotes. -/
theorem start_lt_stop_of_isShaped {t : Token} (h : t.isShaped) : t.start < t.stop := by
  suffices hwidth : 0 < t.width by
    unfold start stop
    omega
  unfold width
  split
  · omega
  · refine List.length_pos_iff.mpr fun hnil => ?_
    unfold isShaped at h
    rw [hnil] at h
    cases hkind : t.kind <;> rw [hkind] at h <;> contradiction

end Token

/-- Where the last of some tokens stops. Where there are none, this is `pos`. -/
def endOf (pos : Nat) (ts : List Token) : Nat := ts.foldl (fun _ t => t.stop) pos

/-- `Segments pos text ts`: the text, which starts at `pos`, is made of the tokens `ts` and of gaps
around them. -/
inductive Segments : Nat → Text → List Token → Prop where
  | last {pos : Nat} {g : Text} (hg : Gap True g) : Segments pos g []
  | token {pos : Nat} {g w rest : Text} {t : Token} {ts : List Token} (hg : Gap False g)
      (ht : t.Written w) (hshape : t.isShaped) (hpos : t.start = pos + g.length)
      (hmax : t.Maximal rest) (hrest : Segments t.stop rest ts) :
      Segments pos (g ++ (w ++ rest)) (t :: ts)

/-! ## What is skipped -/

/-- The position counts code points, whatever they are. -/
theorem Mark.pos_after (m : Mark) (t : Text) : (m.after t).pos = m.pos + t.length := by
  induction t generalizing m with
  | nil => rfl
  | cons c t ih =>
    have hstep : (m.step c).pos = m.pos + 1 := by
      unfold Mark.step
      split <;> rfl
    rw [Mark.after_cons, ih, hstep, List.length_cons]
    omega

/-- What is skipped is a gap. Induction on the text, inside and outside of comments at once: inside
a comment, either there is no line break before the end of the text, or a gap follows it. -/
theorem trivia_gap (final : Prop) (t : Text) :
    ((Scanner.trivia false t = t → final) → Gap final (Scanner.trivia false t)) ∧
    ((Scanner.trivia true t = t → final) →
      (final ∧ ('\n' : CodePoint) ∉ Scanner.trivia true t) ∨
      ∃ words g, ('\n' : CodePoint) ∉ words ∧ Gap final g ∧
        Scanner.trivia true t = words ++ ('\n' : CodePoint) :: g) := by
  induction t with
  | nil => exact ⟨fun _ => .nil, fun h => .inl ⟨h rfl, List.not_mem_nil⟩⟩
  | cons c t ih =>
    obtain ⟨ihout, ihin⟩ := ih
    constructor
    · intro hfinal
      rw [Scanner.trivia_cons] at hfinal ⊢
      -- Outside of comments: a blank, the beginning of a comment, or something else.
      by_cases hblank : c.isBlank = true
      · simp only [hblank, Bool.false_or, Bool.true_or, if_true, Bool.not_true, Bool.false_eq_true,
          if_false] at hfinal ⊢
        exact .blank hblank (ihout fun heq => hfinal (by rw [heq]))
      · by_cases hhash : c = '#'
        · subst hhash
          simp only [hblank, Bool.false_or, decide_true, if_true, Bool.not_false,
            Bool.false_eq_true, if_false] at hfinal ⊢
          rcases ihin fun heq => hfinal (by rw [heq]) with
            ⟨hend, hwords⟩ | ⟨words, g, hwords, hg, heq⟩
          · exact .unended hend hwords
          · rw [heq]
            exact .comment hwords hg
        · simp only [hblank, hhash, Bool.false_or, decide_false, Bool.false_eq_true, if_false]
          exact .nil
    · intro hfinal
      rw [Scanner.trivia_cons] at hfinal ⊢
      simp only [Bool.true_or, if_true] at hfinal ⊢
      -- Inside a comment: only a line break leads out of it.
      by_cases hbreak : c = '\n'
      · subst hbreak
        simp only [ne_eq, not_true_eq_false, decide_false] at hfinal ⊢
        exact .inr ⟨[], _, List.not_mem_nil, ihout fun heq => hfinal (by rw [heq]), rfl⟩
      · have hne : ('\n' : CodePoint) ≠ c := fun h => hbreak h.symm
        simp only [ne_eq, hbreak, not_false_eq_true, decide_true] at hfinal ⊢
        rcases ihin fun heq => hfinal (by rw [heq]) with
          ⟨hend, hwords⟩ | ⟨words, g, hwords, hg, heq⟩
        · exact .inl ⟨hend, List.not_mem_cons_of_ne_of_not_mem hne hwords⟩
        · rw [heq]
          exact .inr ⟨c :: words, g, List.not_mem_cons_of_ne_of_not_mem hne hwords, hg, rfl⟩

namespace Scanner

/-! ## What a token takes up -/

/-- The token stands at the scanner `s`, which is at `s'` after it. -/
structure Stands (t : Token) (s s' : Scanner) : Prop where
  mark : t.mark = s.mark
  shape : t.isShaped
  written : ∃ w, t.Written w ∧ s.rest = w ++ s'.rest ∧ s'.mark = s.mark.after w
  maximal : t.Maximal s'.rest

/-- The code point after what has been passed is the first that does not belong to it. -/
theorem skipWhile_stops (p : CodePoint → Bool) (s : Scanner) :
    ∀ c ∈ (s.skipWhile p).rest.head?, p c = false := by
  intro c hc
  have hhead := List.head?_dropWhile_not p s.rest
  rw [show (s.rest.dropWhile p).head? = some c from hc] at hhead
  exact hhead

/-- Whatever is passed satisfies the predicate. -/
theorem taken_all (p : CodePoint → Bool) (s : Scanner) : (s.taken p).all p = true :=
  List.all_eq_true.mpr fun _ => List.mem_takeWhile_imp

/-- What is passed starts with the code point that comes next, if that satisfies the predicate. -/
theorem taken_of_rest {p : CodePoint → Bool} {s : Scanner} {c : CodePoint} {cs : Text}
    (hs : s.rest = c :: cs) (hc : p c = true) : s.taken p = c :: cs.takeWhile p := by
  unfold taken
  rw [hs, List.takeWhile_cons_of_pos hc]

/-- A name goes up to the first code point that cannot belong to it. -/
theorem readName_stands {s : Scanner} {c : CodePoint} {cs : Text} (hs : s.rest = c :: cs)
    (hc : c.isNameStart = true) : Stands s.readName.1 s s.readName.2 := by
  have hpart : c.isNamePart = true := by rw [CodePoint.isNamePart, hc, Bool.true_or]
  refine ⟨rfl, ?_, ?_, ?_⟩
  · have hall := taken_all CodePoint.isNamePart s
    show (s.taken CodePoint.isNamePart).isName = true
    rw [taken_of_rest hs hpart] at hall ⊢
    rw [List.all_cons, Bool.and_eq_true] at hall
    rw [Text.isName, hc, hall.2, Bool.true_and]
  · exact ⟨s.taken CodePoint.isNamePart, rfl, (taken_append_rest _ s).symm, rfl⟩
  · exact skipWhile_stops _ s

/-- The scanner after the code point that comes next. -/
theorem advance_of_rest {s : Scanner} {c : CodePoint} {cs : Text} (hs : s.rest = c :: cs) :
    s.advance = ⟨cs, s.mark.step c⟩ := by
  unfold advance
  rw [hs]

/-- Digits are all of a text up to its first point. -/
theorem takeWhile_digits {whole : Text} (hwhole : whole.all CodePoint.isDigit = true)
    (fraction : Text) :
    (whole ++ (('.' : CodePoint) :: fraction)).takeWhile CodePoint.isDigit = whole := by
  have hpoint : ¬CodePoint.isDigit '.' = true := by decide
  rw [List.takeWhile_append_of_pos (List.all_eq_true.mp hwhole),
    List.takeWhile_cons_of_neg hpoint, List.append_nil]

/-- Digits on both sides of a point make a decimal. -/
theorem isDecimal_of_digits {whole fraction : Text} (hne : whole.isEmpty = false)
    (hwhole : whole.all CodePoint.isDigit = true) (hfraction : fraction.isDigits = true) :
    (whole ++ (('.' : CodePoint) :: fraction)).isDecimal = true := by
  unfold Text.isDecimal
  rw [takeWhile_digits hwhole]
  dsimp only
  rw [List.drop_left]
  dsimp only
  rw [hne, hfraction]
  rfl

/-- Digits, a point, and a scanner with a digit before it: the number goes on to the last digit. -/
theorem fraction_stands {s s₁ : Scanner} {whole : Text} (hne : whole.isEmpty = false)
    (hwhole : whole.all CodePoint.isDigit = true)
    (hrest : s.rest = whole ++ (('.' : CodePoint) :: s₁.rest))
    (hmark : s₁.mark = (s.mark.after whole).step '.') (hdigit : s₁.current?.any CodePoint.isDigit) :
    Stands ⟨.float, whole ++ "." ++ s₁.taken CodePoint.isDigit, s.mark⟩ s
      (s₁.skipWhile CodePoint.isDigit) := by
  have htext : whole ++ "." ++ s₁.taken CodePoint.isDigit =
      whole ++ (('.' : CodePoint) :: s₁.taken CodePoint.isDigit) := List.append_assoc _ _ _
  have hdigits : (s₁.taken CodePoint.isDigit).isDigits = true := by
    obtain ⟨rest, mark⟩ := s₁
    cases rest with
    | nil => cases hdigit
    | cons d ds =>
      rw [Text.isDigits, taken_all, taken_of_rest rfl hdigit]
      rfl
  refine ⟨rfl, ?_, ⟨whole ++ "." ++ s₁.taken CodePoint.isDigit, rfl, ?_, ?_⟩, ?_⟩
  · show Text.isDecimal _ = true
    rw [htext]
    exact isDecimal_of_digits hne hwhole hdigits
  · rw [htext, hrest, List.append_assoc, List.cons_append, taken_append_rest]
  · show s₁.mark.after (s₁.taken CodePoint.isDigit) = _
    rw [htext, Mark.after_append, Mark.after_cons, hmark]
  · exact skipWhile_stops _ s₁

/-- A number goes up to the last digit, and past a point only if a digit follows. -/
theorem readNumber_stands {s : Scanner} {c : CodePoint} {cs : Text} (hs : s.rest = c :: cs)
    (hc : c.isDigit = true) : Stands s.readNumber.1 s s.readNumber.2 := by
  have hne : (s.taken CodePoint.isDigit).isEmpty = false := by
    rw [taken_of_rest hs hc]
    rfl
  have hrest := taken_append_rest CodePoint.isDigit s
  unfold readNumber
  dsimp only
  split
  · rename_i hpoint
    -- A point comes after the digits, and a digit after the point.
    obtain ⟨ds, hds⟩ : ∃ ds, (s.skipWhile CodePoint.isDigit).rest = ('.' : CodePoint) :: ds :=
      List.head?_eq_some_iff.mp hpoint.1
    have hpeek : ds.head?.any CodePoint.isDigit = true := by
      have hpeek := hpoint.2
      unfold peek? at hpeek
      rw [hds] at hpeek
      exact hpeek
    rw [advance_of_rest hds]
    refine fraction_stands hne (taken_all _ s) ?_ rfl hpeek
    rw [← hrest, hds]
  · rename_i hpoint
    -- There is no point, or no digit after it, and so the number could not be longer.
    refine ⟨rfl, ?_, ?_, ?_⟩
    · show (s.taken CodePoint.isDigit).isDigits = true
      rw [Text.isDigits, hne, taken_all]
      rfl
    · exact ⟨s.taken CodePoint.isDigit, rfl, hrest.symm, rfl⟩
    · refine ⟨skipWhile_stops _ s, fun hmore => hpoint ⟨hmore.1, ?_⟩⟩
      obtain ⟨d, hd, hdigit⟩ := hmore.2
      show Option.any _ (List.head? _) = true
      rw [hd]
      exact hdigit

/-- A text without the quote can stand between two of it. -/
theorem isQuotable_of_notMem {quote : CodePoint} {t : Text} (hquote : quote.isQuote = true)
    (ht : quote ∉ t) : t.isQuotable = true := by
  have hfree : t.contains quote = false := by
    rw [List.contains_eq_mem]
    exact decide_eq_false ht
  unfold CodePoint.isQuote at hquote
  unfold Text.isQuotable
  rcases Bool.or_eq_true_iff.mp hquote with h | h
  · rw [← of_decide_eq_true h, hfree]
    rfl
  · rw [← of_decide_eq_true h, hfree, Bool.not_false, Bool.or_true]

/-- A string stands between its quote and the next quote of the same kind. -/
theorem readString_stands {s s' : Scanner} {t : Token} {quote : CodePoint} {cs : Text}
    (hs : s.rest = quote :: cs) (hquote : quote.isQuote = true) (h : s.readString = (.ok t, s')) :
    Stands t s s' := by
  have hcurrent : s.current? = some quote := by rw [current?, hs]; rfl
  unfold readString at h
  rw [hcurrent, advance_of_rest hs] at h
  dsimp only at h
  split at h
  · cases h
  · rename_i hne
    obtain ⟨htoken, rfl⟩ := Prod.mk.inj h
    rw [← Except.ok.inj htoken]
    have hrest := taken_append_rest (fun c => c ≠ quote) ⟨cs, s.mark.step quote⟩
    obtain ⟨d, ds, hds⟩ := List.exists_cons_of_ne_nil hne
    -- The string stops at a code point that is the quote, and holds none before it.
    obtain rfl : d = quote := by
      have hstops :=
        skipWhile_stops (fun c => c ≠ quote) ⟨cs, s.mark.step quote⟩ d (by rw [hds]; rfl)
      exact Decidable.not_not.mp (of_decide_eq_false hstops)
    have hfree : d ∉ taken (fun c => c ≠ d) ⟨cs, s.mark.step d⟩ := fun hmem =>
      of_decide_eq_true (List.all_eq_true.mp (taken_all _ _) d hmem) rfl
    rw [advance_of_rest hds]
    refine ⟨rfl, isQuotable_of_notMem hquote hfree, ⟨_, ⟨d, hquote, hfree, rfl⟩, ?_, ?_⟩, trivial⟩
    · rw [hds] at hrest
      show s.rest = d :: (_ ++ [d]) ++ ds
      rw [hs, List.cons_append, List.append_assoc]
      exact congrArg (d :: ·) hrest.symm
    · show (Mark.after _ _).step d = _
      rw [Mark.after_cons, Mark.after_append]
      rfl

/-- **Whatever token is read stands at the scanner.** The first code point decides its kind. -/
theorem readToken_stands {s s' : Scanner} {t : Token} (hs : s.rest ≠ [])
    (h : s.readToken = (.ok t, s')) : Stands t s s' := by
  obtain ⟨c, cs, hrest⟩ := List.exists_cons_of_ne_nil hs
  have hcurrent : s.current? = some c := by rw [current?, hrest]; rfl
  unfold readToken at h
  rw [hcurrent] at h
  dsimp only at h
  -- One case for each class of code points, in the order in which they are tried.
  split at h
  · rename_i hquote
    exact readString_stands hrest hquote h
  split at h
  · rename_i hdigit
    obtain ⟨htoken, rfl⟩ := Prod.mk.inj h
    rw [← Except.ok.inj htoken]
    exact readNumber_stands hrest hdigit
  split at h
  · rename_i hname
    obtain ⟨htoken, rfl⟩ := Prod.mk.inj h
    rw [← Except.ok.inj htoken]
    exact readName_stands hrest hname
  split at h
  · rename_i hsymbol
    obtain ⟨htoken, rfl⟩ := Prod.mk.inj h
    rw [← Except.ok.inj htoken]
    have hshape : ([c] : Text).all CodePoint.isSymbol = true := by
      rw [List.all_cons, hsymbol, List.all_nil, Bool.and_true]
    rw [advance_of_rest hrest]
    exact ⟨rfl, hshape, ⟨[c], rfl, hrest, rfl⟩, trivial⟩
  · cases h

/-! ## From token to token -/

/-- A token, the gap before it, and how it is written. -/
theorem next_stands {s s' : Scanner} {t : Token} (h : s.next = (.ok t, s')) (ht : t.kind ≠ .eof) :
    ∃ g w, Gap False g ∧ t.Written w ∧ s.rest = g ++ (w ++ s'.rest) ∧ t.isShaped ∧
      t.Maximal s'.rest ∧ t.mark = s.mark.after g ∧ s'.mark = (s.mark.after g).after w := by
  have hne := mt (next_eof_iff h).mpr ht
  have hgap := (trivia_gap False s.rest).1 fun heq =>
    hne (skipTrivia_rest_eq_nil.mpr heq)
  obtain ⟨hmark, hshape, ⟨w, hw, hrest, hmark'⟩, hmax⟩ := readToken_stands hne h
  refine ⟨trivia false s.rest, w, hgap, hw, ?_, hshape, hmax, hmark, hmark'⟩
  rw [← hrest]
  exact (trivia_append_drop false s.rest).symm

/-- **The scanner keeps up the segments**, token by token, and stops at the end of its text. -/
theorem Scans.segments {s : Scanner} {ts : List Token} {m : Mark} (h : Scans s ts m) :
    Segments s.mark.pos s.rest ts ∧ m.pos = s.mark.pos + s.rest.length := by
  induction h with
  | @stop s s' t h ht =>
    -- Only a gap is left, which may end in an open comment.
    have hnil := (next_eof_iff h).mp ht
    have htrivia := skipTrivia_rest_eq_nil.mp hnil
    have hgap := (trivia_gap True s.rest).1 fun _ => trivial
    rw [htrivia] at hgap
    refine ⟨.last hgap, ?_⟩
    rw [next, readToken_nil hnil] at h
    obtain ⟨htoken, -⟩ := Prod.mk.inj h
    rw [← Except.ok.inj htoken]
    show (s.mark.after (trivia false s.rest)).pos = _
    rw [htrivia, Mark.pos_after]
  | @more s s' t ts m h ht _ ih =>
    obtain ⟨g, w, hgap, hw, hsplit, hshape, hmax, hmark, hmark'⟩ := next_stands h ht
    have hstart : t.start = s.mark.pos + g.length := by
      rw [Token.start, hmark]
      exact Mark.pos_after _ _
    have hstop : s'.mark.pos = t.stop := by
      rw [hmark', Mark.pos_after, hw.length_eq, Token.stop, hmark]
    rw [hstop] at ih
    refine ⟨?_, ?_⟩
    · rw [hsplit]
      exact .token hgap hw hshape hstart hmax ih.1
    · have hlength := congrArg List.length hsplit
      have hstopped : t.stop = t.start + t.width := rfl
      rw [List.length_append, List.length_append, hw.length_eq] at hlength
      omega

end Scanner

/-! ## Positions -/

namespace Segments

variable {pos : Nat} {text : Text} {ts : List Token}

/-- The tokens come one after the other, and after the place where the text starts. -/
theorem pairwise (h : Segments pos text ts) :
    ts.Pairwise (fun t u => t.stop ≤ u.start) ∧ ∀ t ∈ ts, pos ≤ t.start := by
  induction h with
  | last => exact ⟨.nil, fun t ht => absurd ht List.not_mem_nil⟩
  | @token pos g w rest t ts _ _ _ hpos _ _ ih =>
    have hstop : t.start ≤ t.stop := Nat.le_add_right _ _
    refine ⟨List.pairwise_cons.mpr ⟨ih.2, ih.1⟩, fun u hu => ?_⟩
    rcases List.mem_cons.mp hu with rfl | hu
    · omega
    · have hlater := ih.2 u hu
      omega

/-- The text up to the end of a token, and what is left after it. -/
theorem drop_stop {above g w : Text} {t : Token} (rest : Text) (ht : t.Written w)
    (hpos : t.start = above.length + g.length) :
    above ++ (g ++ (w ++ rest)) = (above ++ (g ++ w)) ++ rest ∧
      (above ++ (g ++ w)).length = t.stop := by
  constructor
  · simp only [List.append_assoc]
  · have hstop : t.stop = t.start + t.width := rfl
    simp only [List.length_append, ht.length_eq]
    omega

/-- What comes after the last token is a gap. -/
theorem gap_last (h : Segments pos text ts) {above : Text} (habove : above.length = pos) :
    Gap True ((above ++ text).drop (endOf pos ts)) := by
  induction h generalizing above with
  | @last pos g hg =>
    show Gap True ((above ++ g).drop pos)
    rw [← habove, List.drop_left]
    exact hg
  | token _ ht _ hpos _ _ ih =>
    rw [← habove] at hpos
    obtain ⟨hsplit, hstop⟩ := drop_stop _ ht hpos
    rw [hsplit]
    exact ih hstop

/-- What stands where a token is, after it, and before it up to the end of the token before. -/
theorem at_token (h : Segments pos text ts) {above : Text} (habove : above.length = pos)
    {before after : List Token} {t : Token} (hts : ts = before ++ t :: after) :
    t.isShaped ∧ t.Written ((above ++ text).extract t.start t.stop) ∧
      t.Maximal ((above ++ text).drop t.stop) ∧
      Gap False ((above ++ text).extract (endOf pos before) t.start) := by
  induction h generalizing above before with
  | last => exact absurd hts (by simp)
  | @token pos g w rest u us hg hu hshape hpos hmax _ ih =>
    rw [← habove] at hpos
    obtain ⟨hsplit, hstop⟩ := drop_stop rest hu hpos
    cases before with
    -- The token is further on, behind the first one.
    | cons b before =>
      obtain ⟨rfl, hus⟩ := List.cons.inj hts
      rw [hsplit]
      exact ih hstop hus
    | nil =>
      -- It is the first token, so what is before it is the gap.
      obtain ⟨rfl, rfl⟩ := List.cons.inj hts
      have hwidth : u.stop - u.start = w.length := by
        rw [hu.length_eq]
        exact Nat.add_sub_cancel_left _ _
      refine ⟨hshape, ?_, ?_, ?_⟩
      · have hdrop : (above ++ (g ++ (w ++ rest))).drop u.start = w ++ rest := by
          rw [hpos, ← List.append_assoc, ← List.length_append, List.drop_left]
        rw [List.extract_eq_take_drop, hdrop, hwidth, List.take_left]
        exact hu
      · rw [hsplit, ← hstop, List.drop_left]
        exact hmax
      · show Gap False (List.extract _ pos u.start)
        rw [List.extract_eq_take_drop, ← habove, List.drop_left, hpos, Nat.add_sub_cancel_left,
          List.take_left]
        exact hg

end Segments

/-- **Cutting a text into tokens is faithful.** Exactly one token is the end; it comes last, and its
position is the length of the text. The other tokens come one after the other without overlap. Each
has the shape of its kind, stands in the text where it says, as it is written, and no name and no
number could be longer. Before, between and after the tokens there are only blanks and comments, and
each comment goes up to the end of its line or of the text. -/
theorem tokenize_faithful {source : Text} {ts : Tokens} (h : tokenize source = .ok ts) :
    ts.toList = ts.body ++ [Token.eof ts.stop] ∧ (∀ t ∈ ts.body, t.kind ≠ .eof) ∧
    ts.stop.pos = source.length ∧
    ts.body.Pairwise (fun t u => t.stop ≤ u.start) ∧
    (∀ before t after, ts.body = before ++ t :: after →
      t.isShaped ∧ t.start < t.stop ∧ t.Written (source.extract t.start t.stop) ∧
      t.Maximal (source.drop t.stop) ∧
      Gap False (source.extract (endOf 0 before) t.start)) ∧
    Gap True (source.drop (endOf 0 ts.body)) := by
  have hscans := Scanner.tokenize_eq_ok.mp h
  obtain ⟨hsegments, hstop⟩ : Segments 0 source ts.body ∧ ts.stop.pos = 0 + source.length :=
    hscans.segments
  have habove : ([] : Text).length = 0 := rfl
  refine ⟨rfl, hscans.kind_ne_eof, by omega, hsegments.pairwise.1, ?_, hsegments.gap_last habove⟩
  intro before t after hbody
  obtain ⟨hshape, hwritten, hmax, hgap⟩ := hsegments.at_token habove hbody
  exact ⟨hshape, Token.start_lt_stop_of_isShaped hshape, hwritten, hmax, hgap⟩

/-- Tokens without blanks between them, a string over two lines that holds a quote and a number
sign, two points in a row of digits, and a comment that ends with the text. -/
def crowdedLine : Text := "a_1=\"don't #1\n\"1.5.2 # end"

/-- The tokens of that line. -/
def crowdedTokens : Tokens :=
  ⟨[⟨.identifier, "a_1", ⟨0, 1, 1⟩⟩, ⟨.symbol, "=", ⟨3, 1, 4⟩⟩,
    ⟨.string, "don't #1\n", ⟨4, 1, 5⟩⟩, ⟨.float, "1.5", ⟨15, 2, 2⟩⟩, ⟨.symbol, ".", ⟨18, 2, 5⟩⟩,
    ⟨.integer, "2", ⟨19, 2, 6⟩⟩], ⟨26, 2, 13⟩⟩

/-- The string takes up what stands between its quotes, the first number stops before the second
point, and what is left after the last token is a comment. -/
theorem tokenize_crowdedLine :
    tokenize crowdedLine = .ok crowdedTokens ∧
    (⟨.string, "don't #1\n", ⟨4, 1, 5⟩⟩ : Token).Written "\"don't #1\n\"" ∧
    (⟨.float, "1.5", ⟨15, 2, 2⟩⟩ : Token).Maximal ".2 # end" ∧ Gap True " # end" := by
  have h : tokenize crowdedLine = .ok crowdedTokens := by decide
  obtain ⟨-, -, -, -, htoken, hgap⟩ := tokenize_faithful h
  refine ⟨h, ?_, ?_, hgap⟩
  · exact (htoken (crowdedTokens.body.take 2) _ (crowdedTokens.body.drop 3) rfl).2.2.1
  · exact (htoken (crowdedTokens.body.take 3) _ (crowdedTokens.body.drop 4) rfl).2.2.2.1

end Grimoire
