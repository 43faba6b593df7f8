import Grimoire.Proofs.Token.Segments

/-!
# Writing tokens and cutting them out again

Tokens can be written down with any gaps between them, as long as no two tokens touch. Cutting such
a text into tokens gives the tokens back.

* **`Rendered`** says which texts are written in this way: a gap before the first token, a gap that
  is not empty before each of the others, and a gap at the end, where a comment may lack its line
  break.
* **`readToken_written`** is the crux: a token that could not be longer is read as it is written. It
  is the converse of `readToken_stands`. That a token could not be longer is all that a gap after it
  is needed for (`Token.maximal_of_gap`).
* **`tokenize_rendered`** follows by induction on the tokens. What the scanner finds in any text has
  the right shape, so it can be written down and found again.
-/

namespace Grimoire

/-! ## Classes of code points

The first code point of a token decides what is read, so the classes must not overlap. -/

namespace CodePoint

variable {c : CodePoint}

/-- Gaps start with blanks and number signs. -/
def startsGap (c : CodePoint) : Bool := c.isBlank || decide (c = '#')

theorem eq_ofChar_iff {d : Char} : c = (d : CodePoint) ↔ c.value = d.toNat :=
  ⟨congrArg value, @ext_value c d⟩

/-- Digits are told apart from quotes by the order in which the scanner asks. -/
theorem not_quote_of_digit (h : c.isDigit = true) : c.isQuote = false := by
  simp [isDigit, isQuote, between, eq_ofChar_iff] at h ⊢
  omega

/-- What starts a name starts nothing that the scanner asks for before. -/
theorem not_quote_or_digit_of_nameStart (h : c.isNameStart = true) :
    c.isQuote = false ∧ c.isDigit = false := by
  simp [isNameStart, isDigit, isQuote, between, eq_ofChar_iff] at h ⊢
  omega

/-- Symbols belong to no other class. -/
theorem others_of_symbol (h : c.isSymbol = true) :
    c.isQuote = false ∧ c.isDigit = false ∧ c.isNameStart = false ∧ c.startsGap = false := by
  have hall : ∀ d ∈ Text.ofString "\x7b\x7d()[]=;.,:+-*/", d.isQuote = false ∧ d.isDigit = false ∧
      d.isNameStart = false ∧ d.startsGap = false := by
    decide
  exact hall c (List.contains_iff_mem.mp h)

/-- A quote starts no gap. -/
theorem not_startsGap_of_quote (h : c.isQuote = true) : c.startsGap = false := by
  simp only [isQuote, Bool.or_eq_true, decide_eq_true_eq] at h
  rcases h with rfl | rfl <;> decide

/-- Nothing that belongs to a name starts a gap. -/
theorem not_startsGap_of_namePart (h : c.isNamePart = true) : c.startsGap = false := by
  simp [isNamePart, isNameStart, isDigit, startsGap, isBlank, between, eq_ofChar_iff] at h ⊢
  omega

/-- A digit can go on with a name. -/
theorem isNamePart_of_digit (h : c.isDigit = true) : c.isNamePart = true := by
  rw [isNamePart, h, Bool.or_true]

/-- What can start a name can go on with it. -/
theorem isNamePart_of_nameStart (h : c.isNameStart = true) : c.isNamePart = true := by
  rw [isNamePart, h, Bool.true_or]

end CodePoint

/-! ## Gaps -/

namespace Gap

variable {final : Prop} {g : Text}

/-- A gap that is not empty starts with a blank or a number sign. -/
theorem head_startsGap (h : Gap final g) : ∀ c ∈ g.head?, c.startsGap = true := by
  cases h with
  | nil => simp
  | blank hc => simp [CodePoint.startsGap, hc]
  | comment | unended => simp [CodePoint.startsGap]

/-- A comment goes on to the end of its line. -/
theorem trivia_comment {words : Text} (h : ('\n' : CodePoint) ∉ words) :
    Scanner.trivia true words = words := by
  induction words with
  | nil => rfl
  | cons c words ih =>
    rw [List.mem_cons, not_or] at h
    have hc : c ≠ '\n' := fun heq => h.1 heq.symm
    rw [Scanner.trivia_cons]
    simp [hc, ih h.2]

/-- A number sign opens a comment. -/
theorem trivia_hash (t : Text) :
    Scanner.trivia false (('#' : CodePoint) :: t) = ('#' : CodePoint) :: Scanner.trivia true t :=
  rfl

/-- A gap is skipped as a whole, and nothing after it that does not start a gap. Only after a
comment without a line break there must not be anything at all. -/
theorem trivia_append (h : Gap final g) {rest : Text} (hfinal : final → rest = [])
    (hrest : ∀ c ∈ rest.head?, c.startsGap = false) : Scanner.trivia false (g ++ rest) = g := by
  induction h with
  | nil =>
    cases rest with
    | nil => rfl
    | cons c rest =>
      have hc := hrest c rfl
      unfold CodePoint.startsGap at hc
      rw [List.nil_append, Scanner.trivia_cons, Bool.false_or, hc]
      rfl
  | blank hc _ ih => simp [Scanner.trivia_cons, hc, ih]
  | @comment words g hwords _ ih =>
    have hcomment := Scanner.trivia_append_newline (trivia_comment hwords) (g ++ rest)
    simp [trivia_hash, hcomment, ih]
  | unended hf hwords => simp [hfinal hf, trivia_hash, trivia_comment hwords]

end Gap

/-! ## Single tokens -/

namespace Token

/-- Before a gap and at the end of a text no token could be longer. -/
theorem maximal_of_gap (t : Token) {rest : Text} (h : ∀ c ∈ rest.head?, c.startsGap = true) :
    t.Maximal rest := by
  have hname : ∀ c ∈ rest.head?, c.isNamePart = false := by
    intro c hc
    apply Bool.eq_false_iff.mpr
    intro hpart
    have hgap := CodePoint.not_startsGap_of_namePart hpart
    simp [h c hc] at hgap
  have hdigit : ∀ c ∈ rest.head?, c.isDigit = false := by
    intro c hc
    apply Bool.eq_false_iff.mpr
    intro hdigit
    have hpart := CodePoint.isNamePart_of_digit hdigit
    simp [hname c hc] at hpart
  unfold Maximal
  split
  · exact hname
  · refine ⟨hdigit, fun hpoint => ?_⟩
    have hgap := h _ hpoint.1
    revert hgap
    decide
  · exact hdigit
  all_goals trivial

/-- All tokens but strings are written as their text. -/
theorem written_text {t : Token} (h : t.kind ≠ .string) : t.Written t.text := by
  rw [Written, if_neg h]

/-- A token of the right shape can be written, a string between quotes that it does not hold. -/
theorem exists_written {t : Token} (h : t.isShaped) : ∃ w, t.Written w := by
  by_cases hkind : t.kind = .string
  · simp only [isShaped, hkind, Text.isQuotable, Bool.or_eq_true, Bool.not_eq_true',
      List.contains_eq_mem, decide_eq_false_iff_not] at h
    simp only [Written, hkind, if_true]
    rcases h with h | h
    · exact ⟨_, '"', by decide, h, rfl⟩
    · exact ⟨_, '\'', by decide, h, rfl⟩
  · exact ⟨_, written_text hkind⟩

/-- The code points with which a token of the given kind, as it is written, can start. -/
def opens : TokenKind → CodePoint → Bool
  | .identifier => CodePoint.isNameStart
  | .integer | .float => CodePoint.isDigit
  | .string => CodePoint.isQuote
  | .symbol => CodePoint.isSymbol
  | .eof => fun _ => false

/-- No token starts as a gap does, so a gap ends where a token starts. -/
theorem not_startsGap_of_opens {kind : TokenKind} {c : CodePoint} (h : opens kind c = true) :
    c.startsGap = false := by
  cases kind with
  | identifier => exact CodePoint.not_startsGap_of_namePart (CodePoint.isNamePart_of_nameStart h)
  | integer | float => exact CodePoint.not_startsGap_of_namePart (CodePoint.isNamePart_of_digit h)
  | string => exact CodePoint.not_startsGap_of_quote h
  | symbol => exact (CodePoint.others_of_symbol h).2.2.2
  | eof => cases h

/-- Digits, a point and digits: the parts of a decimal number. -/
theorem exists_of_isDecimal {t : Text} (h : t.isDecimal = true) :
    ∃ whole fraction : Text, t = whole ++ (('.' : CodePoint) :: fraction) ∧
      whole.isDigits = true ∧ fraction.isDigits = true := by
  have hsplit := List.prefix_iff_eq_append.mp (List.takeWhile_prefix (l := t) CodePoint.isDigit)
  have hall := List.all_takeWhile (p := CodePoint.isDigit) (l := t)
  unfold Text.isDecimal at h
  dsimp only at h
  split at h
  · cases h
  · rename_i c cs hdrop
    simp only [Bool.and_eq_true, decide_eq_true_eq] at h
    obtain ⟨⟨hne, rfl⟩, hcs⟩ := h
    rw [hdrop] at hsplit
    refine ⟨_, cs, hsplit.symm, ?_, hcs⟩
    rw [Text.isDigits, hne, hall, Bool.and_self]

/-- Digits start with a digit. -/
theorem exists_cons_of_isDigits {t : Text} (h : t.isDigits = true) :
    ∃ c cs, t = c :: cs ∧ c.isDigit = true := by
  cases t with
  | nil => cases h
  | cons c cs =>
    simp only [Text.isDigits, List.all_cons, Bool.and_eq_true] at h
    exact ⟨c, cs, rfl, h.2.1⟩

/-- A token of the right shape, as it is written, starts with a code point of its class. -/
theorem Written.opens {t : Token} {w : Text} (hw : t.Written w) (h : t.isShaped) :
    ∃ c cs, w = c :: cs ∧ Token.opens t.kind c = true := by
  unfold Written at hw
  unfold isShaped at h
  cases hkind : t.kind with
  | identifier =>
    simp only [hkind, reduceCtorEq, if_false] at hw h
    rw [hw]
    cases htext : t.text with
    | nil => simp [htext, Text.isName] at h
    | cons c cs =>
      simp only [htext, Text.isName, Bool.and_eq_true] at h
      exact ⟨c, cs, rfl, h.1⟩
  | integer =>
    simp only [hkind, reduceCtorEq, if_false] at hw h
    rw [hw]
    exact exists_cons_of_isDigits h
  -- A decimal starts with the first digit of its whole part.
  | float =>
    simp only [hkind, reduceCtorEq, if_false] at hw h
    obtain ⟨whole, fraction, htext, hwhole, -⟩ := exists_of_isDecimal h
    obtain ⟨c, cs, rfl, hc⟩ := exists_cons_of_isDigits hwhole
    exact ⟨c, _, hw.trans htext, hc⟩
  | string =>
    simp only [hkind, if_true] at hw
    obtain ⟨quote, hquote, -, rfl⟩ := hw
    exact ⟨quote, _, rfl, hquote⟩
  | symbol =>
    simp only [hkind, reduceCtorEq, if_false, Bool.and_eq_true, decide_eq_true_eq] at hw h
    obtain ⟨c, hc⟩ := List.length_eq_one_iff.mp h.1
    rw [hc] at hw h
    simp only [List.all_cons, Bool.and_eq_true] at h
    exact ⟨c, [], hw, h.2.1⟩
  | eof => simp [hkind] at h

end Token

namespace Scanner

/-- What satisfies `p` is taken as a whole, up to a text that does not go on with it. -/
theorem skipWhile_append {p : CodePoint → Bool} {w rest : Text} (hw : w.all p = true)
    (hrest : ∀ c ∈ rest.head?, p c = false) (m : Mark) :
    (⟨w ++ rest, m⟩ : Scanner).taken p = w ∧
      (⟨w ++ rest, m⟩ : Scanner).skipWhile p = ⟨rest, m.after w⟩ := by
  have hall := List.all_eq_true.mp hw
  obtain ⟨htake, hdrop⟩ := Text.span_append (t := w) fun _ => hrest
  rw [List.takeWhile_eq_self_iff.mpr hall] at htake
  rw [List.dropWhile_eq_nil_iff.mpr hall, List.nil_append] at hdrop
  have htaken : (⟨w ++ rest, m⟩ : Scanner).taken p = w := htake
  refine ⟨htaken, ?_⟩
  unfold skipWhile
  rw [htaken]
  simp only [hdrop]

/-- A name is read up to a code point that cannot go on with it. -/
theorem readName_written {w rest : Text} (hw : w.all CodePoint.isNamePart = true)
    (hrest : ∀ c ∈ rest.head?, c.isNamePart = false) (m : Mark) :
    (⟨w ++ rest, m⟩ : Scanner).readName = (⟨.identifier, w, m⟩, ⟨rest, m.after w⟩) := by
  obtain ⟨htaken, hskip⟩ := skipWhile_append hw hrest m
  unfold readName
  rw [htaken, hskip]

/-- Digits are read as an integer up to a code point that cannot go on with them. -/
theorem readNumber_integer {w rest : Text} (hw : w.all CodePoint.isDigit = true)
    (hrest : ∀ c ∈ rest.head?, c.isDigit = false)
    (hpoint : ¬(rest.head? = some ('.' : CodePoint) ∧ ∃ c ∈ rest.tail.head?, c.isDigit))
    (m : Mark) :
    (⟨w ++ rest, m⟩ : Scanner).readNumber = (⟨.integer, w, m⟩, ⟨rest, m.after w⟩) := by
  obtain ⟨htaken, hskip⟩ := skipWhile_append hw hrest m
  unfold readNumber
  rw [htaken, hskip]
  apply if_neg
  rintro ⟨hcurrent, hpeek⟩
  obtain ⟨c, hc, hdigit⟩ := (Option.any_eq_true _ _).mp hpeek
  exact hpoint ⟨hcurrent, c, hc, hdigit⟩

/-- Digits, a point and digits are read as one number. -/
theorem readNumber_float {whole fraction rest : Text} (hwhole : whole.all CodePoint.isDigit = true)
    (hfraction : fraction.isDigits = true) (hrest : ∀ c ∈ rest.head?, c.isDigit = false)
    (m : Mark) :
    (⟨whole ++ (('.' : CodePoint) :: fraction) ++ rest, m⟩ : Scanner).readNumber =
      (⟨.float, whole ++ (('.' : CodePoint) :: fraction), m⟩,
        ⟨rest, m.after (whole ++ (('.' : CodePoint) :: fraction))⟩) := by
  obtain ⟨d, ds, hds, hd⟩ := Token.exists_cons_of_isDigits hfraction
  have hpoint : ∀ c ∈ (('.' : CodePoint) :: (fraction ++ rest)).head?, c.isDigit = false := by
    intro c hc
    obtain rfl := Option.some.inj hc
    decide
  simp only [Text.isDigits, Bool.and_eq_true] at hfraction
  obtain ⟨htaken, hskip⟩ := skipWhile_append hwhole hpoint m
  obtain ⟨htaken', hskip'⟩ := skipWhile_append hfraction.2 hrest ((m.after whole).step '.')
  rw [List.append_assoc, List.cons_append]
  unfold readNumber
  rw [htaken, hskip]
  -- The point is looked at together with the digit after it.
  have hmore : (⟨('.' : CodePoint) :: (fraction ++ rest), m.after whole⟩ : Scanner).current? =
      some ('.' : CodePoint) ∧
      (⟨('.' : CodePoint) :: (fraction ++ rest), m.after whole⟩ : Scanner).peek?.any
        CodePoint.isDigit := by
    simp [current?, peek?, hds, hd]
  have htext : whole ++ "." ++ fraction = whole ++ (('.' : CodePoint) :: fraction) :=
    List.append_assoc _ _ _
  rw [if_pos hmore, advance_of_rest rfl]
  dsimp only
  rw [htaken', hskip', htext, Mark.after_append, Mark.after_cons]

/-- A string is read up to its second quote, whatever else it holds. -/
theorem readString_written {quote : CodePoint} {t : Text} (ht : quote ∉ t) (rest : Text)
    (m : Mark) :
    (⟨quote :: (t ++ [quote]) ++ rest, m⟩ : Scanner).readString =
      (.ok ⟨.string, t, m⟩, ⟨rest, m.after (quote :: (t ++ [quote]))⟩) := by
  have hall : t.all (fun c => c ≠ quote) = true := by
    apply List.all_eq_true.mpr
    intro c hc
    apply decide_eq_true
    rintro rfl
    exact ht hc
  have hstop : ∀ c ∈ (quote :: rest).head?, decide (c ≠ quote) = false := by simp
  obtain ⟨htaken, hskip⟩ := skipWhile_append hall hstop (m.step quote)
  have hshape : quote :: (t ++ [quote]) ++ rest = quote :: (t ++ quote :: rest) := by simp
  unfold readString
  rw [hshape]
  show (if _ then _ else _) = _
  rw [advance_of_rest rfl, htaken, hskip, if_neg (List.cons_ne_nil _ _), advance_of_rest rfl,
    Mark.after_cons, Mark.after_append]
  rfl

/-- **A token is read as it is written**, if the text after it does not make it longer. -/
theorem readToken_written {t : Token} {w rest : Text} (hshape : t.isShaped) (hw : t.Written w)
    (hmax : t.Maximal rest) (m : Mark) :
    (⟨w ++ rest, m⟩ : Scanner).readToken = (.ok { t with mark := m }, ⟨rest, m.after w⟩) := by
  obtain ⟨c, cs, hcons, hc⟩ := hw.opens hshape
  have hcurrent : (⟨w ++ rest, m⟩ : Scanner).current? = some c := by rw [hcons]; rfl
  obtain ⟨kind, text, mark⟩ := t
  unfold readToken
  rw [hcurrent]
  dsimp only
  unfold Token.Written at hw
  unfold Token.isShaped at hshape
  unfold Token.Maximal at hmax
  -- The first code point leads to the reader of its class, and nothing after the token is read
  -- along.
  cases kind with
  | identifier =>
    obtain ⟨hquote, hdigit⟩ := CodePoint.not_quote_or_digit_of_nameStart hc
    simp only [reduceCtorEq, if_false] at hw hshape hmax
    subst hw
    have hall : w.all CodePoint.isNamePart = true := by
      rw [hcons] at hshape ⊢
      simp only [Text.isName, Bool.and_eq_true] at hshape
      rw [List.all_cons, CodePoint.isNamePart_of_nameStart hc, hshape.2, Bool.and_self]
    simp [hquote, hdigit, show c.isNameStart = true from hc, readName_written hall hmax]
  | integer =>
    simp only [reduceCtorEq, if_false] at hw hshape hmax
    subst hw
    simp only [Text.isDigits, Bool.and_eq_true] at hshape
    simp [CodePoint.not_quote_of_digit hc, show c.isDigit = true from hc,
      readNumber_integer hshape.2 hmax.1 hmax.2]
  | float =>
    simp only [reduceCtorEq, if_false] at hw hshape hmax
    subst hw
    obtain ⟨whole, fraction, rfl, hwhole, hfraction⟩ := Token.exists_of_isDecimal hshape
    simp only [Text.isDigits, Bool.and_eq_true] at hwhole
    simp only [CodePoint.not_quote_of_digit hc, show c.isDigit = true from hc,
      readNumber_float hwhole.2 hfraction hmax, if_true, Bool.false_eq_true, if_false]
  | string =>
    simp only [if_true] at hw
    obtain ⟨quote, hquote, hfree, rfl⟩ := hw
    rw [if_pos (show c.isQuote = true from hc)]
    exact readString_written hfree rest m
  | symbol =>
    obtain ⟨hquote, hdigit, hname, -⟩ := CodePoint.others_of_symbol hc
    simp only [reduceCtorEq, if_false, Bool.and_eq_true, decide_eq_true_eq] at hw hshape
    subst hw
    have hnil : cs = [] := by
      rw [hcons] at hshape
      simpa using hshape.1
    simp [hquote, hdigit, hname, show c.isSymbol = true from hc, hcons, hnil, advance]
  | eof => cases hshape

/-- With a gap before it, too. -/
theorem next_written {t : Token} {g w rest : Text} (hg : Gap False g) (hshape : t.isShaped)
    (hw : t.Written w) (hmax : t.Maximal rest) (m : Mark) :
    (⟨g ++ (w ++ rest), m⟩ : Scanner).next =
      (.ok { t with mark := m.after g }, ⟨rest, (m.after g).after w⟩) := by
  have htrivia : trivia false (g ++ (w ++ rest)) = g := by
    apply hg.trivia_append False.elim
    obtain ⟨c, cs, rfl, hc⟩ := hw.opens hshape
    simp [Token.not_startsGap_of_opens hc]
  unfold next skipTrivia
  dsimp only
  rw [htrivia, List.drop_left]
  exact readToken_written hshape hw hmax (m.after g)

/-- After a gap at the end of the text there are no more tokens. -/
theorem next_gap {g : Text} (hg : Gap True g) (m : Mark) :
    (⟨g, m⟩ : Scanner).next = (.ok (Token.eof (m.after g)), ⟨[], m.after g⟩) := by
  have htrivia : trivia false (g ++ []) = g := hg.trivia_append (fun _ => rfl) (by simp)
  rw [List.append_nil] at htrivia
  unfold next skipTrivia
  dsimp only
  rw [htrivia, List.drop_length]
  exact readToken_nil rfl

end Scanner

/-! ## All tokens -/

/-- `Spaced ts text`: the text goes on with the tokens `ts`, each after a gap that is not empty, and
with a last gap. -/
inductive Spaced : List Token → Text → Prop where
  | last {g : Text} (hg : Gap True g) : Spaced [] g
  | more {g w rest : Text} {t : Token} {ts : List Token} (hg : Gap False g) (hne : g ≠ [])
      (hw : t.Written w) (hrest : Spaced ts rest) : Spaced (t :: ts) (g ++ (w ++ rest))

/-- `Rendered ts text`: the text is a way to write down the tokens `ts`. -/
inductive Rendered : List Token → Text → Prop where
  | blank {lead trail : Text} (hlead : Gap False lead) (htrail : Gap True trail) :
      Rendered [] (lead ++ trail)
  | tokens {lead w rest : Text} {t : Token} {ts : List Token} (hlead : Gap False lead)
      (hw : t.Written w) (hrest : Spaced ts rest) : Rendered (t :: ts) (lead ++ (w ++ rest))

/-- A gap can be extended, as long as its comments are ended. -/
theorem Gap.append {final : Prop} {g g' : Text} (hg : Gap False g) (hg' : Gap final g') :
    Gap final (g ++ g') := by
  induction hg with
  | nil => exact hg'
  | blank hc _ ih => exact .blank hc ih
  | @comment words g hwords _ ih =>
    rw [List.cons_append, List.append_assoc, List.cons_append]
    exact .comment hwords ih
  | unended hfinal => exact hfinal.elim

namespace Spaced

variable {ts : List Token} {text : Text}

/-- Whatever is spaced starts with a gap, which keeps the token before it from going on. -/
theorem head_startsGap (h : Spaced ts text) : ∀ c ∈ text.head?, c.startsGap = true := by
  cases h with
  | last hg => exact hg.head_startsGap
  | more hg hne =>
    intro c hc
    obtain ⟨d, g, rfl⟩ := List.exists_cons_of_ne_nil hne
    exact hg.head_startsGap c hc

/-- **The tokens are found one after the other.** A gap before each token keeps the one before it
from going on. -/
theorem scans (h : Spaced ts text) (hshape : ∀ t ∈ ts, t.isShaped) (m : Mark) :
    ∃ us stop, Scanner.Scans ⟨text, m⟩ us stop ∧ us.map Token.look = ts.map Token.look := by
  induction h generalizing m with
  | last hg => exact ⟨[], _, .stop (Scanner.next_gap hg m) rfl, rfl⟩
  | @more g w rest t ts hg hne hw hrest ih =>
    have ht := hshape t List.mem_cons_self
    obtain ⟨us, stop, hscans, hlooks⟩ :=
      ih (fun u hu => hshape u (List.mem_cons_of_mem t hu)) ((m.after g).after w)
    have hnext := Scanner.next_written hg ht hw (t.maximal_of_gap hrest.head_startsGap) m
    refine ⟨_, stop, .more hnext (Token.kind_ne_eof_of_isShaped ht) hscans, ?_⟩
    simp [hlooks, Token.look]

/-- Any tokens of the right shape can be written down, here with a blank before each. -/
theorem exists_text (hshape : ∀ t ∈ ts, t.isShaped) : ∃ text, Spaced ts text := by
  induction ts with
  | nil => exact ⟨[], .last .nil⟩
  | cons t ts ih =>
    obtain ⟨w, hw⟩ := Token.exists_written (hshape t List.mem_cons_self)
    obtain ⟨rest, hrest⟩ := ih fun u hu => hshape u (List.mem_cons_of_mem t hu)
    exact ⟨_, .more (g := " ") (.blank (by decide) .nil) (by decide) hw hrest⟩

end Spaced

namespace Rendered

variable {ts : List Token} {text : Text}

/-- Tokens of the right shape that are written down are found again, but for their marks. -/
theorem tokenize_eq (h : Rendered ts text) (hshape : ∀ t ∈ ts, t.isShaped) :
    ∃ us, tokenize text = .ok us ∧ us.body.map Token.look = ts.map Token.look := by
  have hscans : ∃ us stop, Scanner.Scans (Scanner.start text) us stop ∧
      us.map Token.look = ts.map Token.look := by
    cases h with
    | blank hlead htrail => exact (Spaced.last (hlead.append htrail)).scans hshape Mark.start
    | @tokens lead w rest t ts hlead hw hrest =>
      have ht := hshape t List.mem_cons_self
      obtain ⟨us, stop, hus, hlooks⟩ :=
        hrest.scans (fun u hu => hshape u (List.mem_cons_of_mem t hu))
          ((Mark.start.after lead).after w)
      have hnext := Scanner.next_written hlead ht hw (t.maximal_of_gap hrest.head_startsGap)
        Mark.start
      refine ⟨_, stop, .more hnext (Token.kind_ne_eof_of_isShaped ht) hus, ?_⟩
      simp [hlooks, Token.look]
  obtain ⟨us, stop, hus, hlooks⟩ := hscans
  exact ⟨⟨us, stop⟩, Scanner.tokenize_eq_ok.mpr hus, hlooks⟩

/-- Any tokens of the right shape can be written down, with no gap in front. -/
theorem exists_text (hshape : ∀ t ∈ ts, t.isShaped) : ∃ text, Rendered ts text := by
  cases ts with
  | nil => exact ⟨_, .blank .nil .nil⟩
  | cons t ts =>
    obtain ⟨w, hw⟩ := Token.exists_written (hshape t List.mem_cons_self)
    obtain ⟨rest, hrest⟩ := Spaced.exists_text fun u hu => hshape u (List.mem_cons_of_mem t hu)
    exact ⟨_, .tokens .nil hw hrest⟩

end Rendered

/-- What the scanner finds has the shape of its kind. -/
theorem Segments.isShaped {pos : Nat} {text : Text} {ts : List Token} (h : Segments pos text ts) :
    ∀ t ∈ ts, t.isShaped := by
  induction h with
  | last => simp
  | token _ _ hshape _ _ _ ih => exact List.forall_mem_cons.mpr ⟨hshape, ih⟩

/-- The end looks the same in every text. -/
theorem Tokens.map_look (ts : Tokens) :
    ts.toList.map Token.look = ts.body.map Token.look ++ [(.eof, [])] := by
  simp [Tokens.toList, Token.look, Token.eof]

/-- **Cutting a text into tokens undoes writing them down.** However tokens of the right shape are
written, with gaps of any kind before, between and after them, the text has just these tokens, and
then the end. The tokens of any text can be written down, and every such text has them again. -/
theorem tokenize_rendered :
    (∀ (ts : List Token) (text : Text), (∀ t ∈ ts, t.isShaped) → Rendered ts text →
      ∃ us, tokenize text = .ok us ∧
        us.toList.map Token.look = ts.map Token.look ++ [(.eof, [])]) ∧
    ∀ (source : Text) (ts : Tokens), tokenize source = .ok ts →
      (∃ text, Rendered ts.body text) ∧
      ∀ text, Rendered ts.body text →
        ∃ us, tokenize text = .ok us ∧ us.toList.map Token.look = ts.toList.map Token.look := by
  have hfound : ∀ (ts : List Token) (text : Text), (∀ t ∈ ts, t.isShaped) → Rendered ts text →
      ∃ us, tokenize text = .ok us ∧
        us.toList.map Token.look = ts.map Token.look ++ [(.eof, [])] := by
    intro ts text hshape hrendered
    obtain ⟨us, hus, hlooks⟩ := hrendered.tokenize_eq hshape
    refine ⟨us, hus, ?_⟩
    rw [us.map_look, hlooks]
  refine ⟨hfound, fun source ts hts => ?_⟩
  have hshape := (Scanner.tokenize_eq_ok.mp hts).segments.1.isShaped
  refine ⟨Rendered.exists_text hshape, fun text hrendered => ?_⟩
  rw [ts.map_look]
  exact hfound ts.body text hshape hrendered

/-- A point between two numbers that does not belong to either, quotes in a comment, and a number
sign and a quote of the other kind in a string. -/
def asides : Text := "# it's \"so\n1 .\t2#'\n\"don't #\" 1.5 # end"

/-- The tokens that are told apart there. -/
def asideTokens : List Token :=
  [⟨.integer, "1", Mark.start⟩, ⟨.symbol, ".", Mark.start⟩, ⟨.integer, "2", Mark.start⟩,
    ⟨.string, "don't #", Mark.start⟩, ⟨.float, "1.5", Mark.start⟩]

theorem asideTokens_rendered : Rendered asideTokens asides := by
  have hlead : Gap False "# it's \"so\n" :=
    @Gap.comment _ " it's \"so" [] (by decide) .nil
  have hblank : Gap False " " := .blank (by decide) .nil
  have htab : Gap False "\t" := .blank (by decide) .nil
  have hquote : Gap False "#'\n" := @Gap.comment _ "'" [] (by decide) .nil
  have htrail : Gap True " # end" := .blank (by decide) (.unended trivial (by decide))
  have hstring : (⟨.string, "don't #", Mark.start⟩ : Token).Written "\"don't #\"" :=
    ⟨'"', by decide, by decide, by decide⟩
  have hend : Spaced (asideTokens.drop 3) "#'\n\"don't #\" 1.5 # end" :=
    .more hquote (by decide) hstring
      (.more hblank (by decide) (Token.written_text (by decide)) (.last htrail))
  exact .tokens hlead (Token.written_text (by decide))
    (.more hblank (by decide) (Token.written_text (by decide))
      (.more htab (by decide) (Token.written_text (by decide)) hend))

/-- The tokens are found in the text, and those of a crowded text can be set apart. -/
theorem tokenize_asides :
    (∀ t ∈ asideTokens, t.isShaped) ∧
    (∃ us, tokenize asides = .ok us ∧
      us.toList.map Token.look = asideTokens.map Token.look ++ [(.eof, [])]) ∧
    tokenize crowdedLine = .ok crowdedTokens ∧ ∃ text, Rendered crowdedTokens.body text := by
  have hshape : ∀ t ∈ asideTokens, t.isShaped := by decide
  have hcrowded : tokenize crowdedLine = .ok crowdedTokens := by decide
  exact ⟨hshape, tokenize_rendered.1 _ _ hshape asideTokens_rendered, hcrowded,
    (tokenize_rendered.2 _ _ hcrowded).1⟩

end Grimoire
