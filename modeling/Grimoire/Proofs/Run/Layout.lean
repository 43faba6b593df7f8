import Grimoire.Proofs.Tree.Likeness
import Grimoire.Proofs.Tree.Parsing

/-!
# Layout has no meaning

Blanks, comments, the kind of quotes and the places of tokens are left behind when a text is cut
into tokens, apart from the marks of the tokens. Neither the reader nor a run decides anything by a
mark.

* **`parse_alike`**: tokens that look alike are read alike. A whole spell is read with cursors that
  are alike in all positions, so what is known of the rules holds up to the end.
* **`layout_has_no_meaning`** takes this to texts and to runs.
-/

namespace Grimoire

open Rule Grammar

/-! ## Whole spells -/

/-- The statements that a reader outside all blocks finds, or finds missing, are alike. -/
def Node.AlikeIfAny (a b : Option Node) : Prop :=
  a.map (Node.mapLine fun _ => 0) = b.map (Node.mapLine fun _ => 0)

/-- A statement that may be missing is read alike, in both modes. -/
theorem alike_statement? (lenient : Bool) :
    Alike True Node.AlikeIfAny (statement? lenient nestingLimit)
      (statement? lenient nestingLimit) := by
  rw [statement?_eq]
  refine .get_bind fun n c₁ c₂ hc hn => ?_
  rw [hc.blockDepth, order?_alike (hc.current hn)]
  split
  · exact .pure rfl
  · refine (alike_statement ⟨Nat.le_refl _, fun _ => rfl⟩).bind fun a b hab => .pure ?_
    exact congrArg some hab

/-- The statements of a spell are read alike with the same fuel. -/
theorem alike_statements (lenient : Bool) (fuel : Nat) :
    Alike True Node.AllAlike (statements lenient fuel) (statements lenient fuel) := by
  induction fuel with
  | zero => exact .pure rfl
  | succ fuel ih =>
    refine .get_bind fun n c₁ c₂ hc hn => ?_
    rw [hc.atEnd hn]
    split
    · exact .pure rfl
    · refine (alike_statement? lenient).bind fun a b hab => ?_
      cases a with
      | none =>
        cases b with
        | none => exact .pure rfl
        | some b => cases hab
      | some a =>
        cases b with
        | none => cases hab
        | some b => exact ih.bind fun as bs habs => .pure (.cons (Option.some.inj hab) habs)

/-- What the row of statements returns is what is read. -/
theorem parse_of_ok {lenient : Bool} {ts : Tokens} {p : List Node} {c : Cursor}
    (h : statements lenient (ts.body.length + 1) (Cursor.start ts) = .ok p c) :
    parse lenient ts = .ok p := by
  unfold parse program
  rw [show statements lenient ((Cursor.start ts).rest.length + 1) (Cursor.start ts) = .ok p c
    from h]
  rfl

/-- A failure as a whole spell reports it: nesting beyond the limit is a refusal like any other. -/
def ParseFailure.reported (c : Cursor) : ParseFailure → ParseFailure
  | .tooDeep => .refused ⟨.tooDeep, c.current, c.pos⟩
  | failure => failure

/-- Where the row of statements fails, a failure is reported. -/
theorem parse_of_error {lenient : Bool} {ts : Tokens} {f : ParseFailure} {c : Cursor}
    (h : statements lenient (ts.body.length + 1) (Cursor.start ts) = .error f c) :
    parse lenient ts = .error (f.reported c) := by
  unfold parse program
  rw [show statements lenient ((Cursor.start ts).rest.length + 1) (Cursor.start ts) = .error f c
    from h]
  cases f <;> rfl

/-- Failures that are alike are reported alike where the cursors are. -/
theorem ParseFailure.Alike.reported {f g : ParseFailure} (h : f.Alike g) {n : Nat} {c₁ c₂ : Cursor}
    (hc : Cursor.Alike n c₁ c₂) (hn : c₁.pos < n) : (f.reported c₁).Alike (g.reported c₂) := by
  cases f with
  | refused e =>
    cases g with
    | refused e' => exact h
    | tooDeep | tooLong => cases h
  | tooDeep =>
    obtain rfl : ParseFailure.tooDeep = g := h
    exact ⟨rfl, hc.current hn, hc.pos⟩
  | tooLong digits =>
    obtain rfl : ParseFailure.tooLong digits = g := h
    rfl

/-- Two readings of spells agree: both fail alike, or both give trees that are alike. -/
inductive ReadAlike : Except ParseFailure (List Node) → Except ParseFailure (List Node) → Prop where
  | ok {p q : List Node} (h : Node.AllAlike p q) : ReadAlike (.ok p) (.ok q)
  | error {f g : ParseFailure} (h : f.Alike g) : ReadAlike (.error f) (.error g)

/-- **Tokens that look alike are read alike.** -/
theorem parse_alike {ts us : Tokens} (h : ts.toList.map Token.look = us.toList.map Token.look)
    (lenient : Bool) : ReadAlike (parse lenient ts) (parse lenient us) := by
  have hlook (i : Nat) : ts.toList[i]?.map Token.look = us.toList[i]?.map Token.look := by
    rw [← List.getElem?_map, h, List.getElem?_map]
  have hfuel : ts.body.length = us.body.length := by
    have hlength := congrArg List.length h
    simpa [Tokens.toList] using hlength
  have hends (n : Nat) := (alike_statements lenient (ts.body.length + 1)).ends n
    (Cursor.start ts) (Cursor.start us) (Cursor.alike_start fun i _ => hlook i)
  cases hts : statements lenient (ts.body.length + 1) (Cursor.start ts) with
  | ok p c₁ =>
    -- a position beyond the place where the reading ends
    have hends := hends (c₁.pos + 1) (by rw [after_of_ok hts]; omega)
    rw [hts] at hends
    obtain ⟨q, c₂, hus, hpq, -⟩ := hends.of_ok
    rw [parse_of_ok hts, parse_of_ok (hfuel ▸ hus)]
    exact .ok hpq
  | error f c₁ =>
    have hends := hends (c₁.pos + 1) (by rw [after_of_error hts]; omega)
    rw [hts] at hends
    rcases hends.of_error with ⟨g, c₂, hus, hfg, hc⟩ | ⟨-, hdeep⟩
    · rw [parse_of_error hts, parse_of_error (hfuel ▸ hus)]
      exact .error (hfg.reported hc (Nat.lt_succ_self _))
    · exact absurd trivial hdeep

/-! ## Texts and runs -/

/-- What a failure says apart from the place of its token: the category and the text of a refusal
with the number of tokens before it, or the fault that is none. -/
def ParseFailure.bare : ParseFailure → (Category × Text × Nat) ⊕ Fault
  | .refused e => .inl (e.diagnostic.category, e.diagnostic.text, e.pos)
  | .tooDeep => .inr .tooDeep
  | .tooLong digits => .inr (.tooLongToRead digits)

/-- No message shows a place. -/
theorem ParseFailure.Alike.bare_eq {f g : ParseFailure} (h : f.Alike g) : f.bare = g.bare := by
  cases f with
  | refused e =>
    cases g with
    | refused e' =>
      obtain ⟨hcause, htoken, hpos⟩ := h
      have hmessage : e.message = e'.message := by
        unfold ParseError.message
        rw [hcause, htoken.describe]
      show Sum.inl (Category.syntactic, e.message, e.pos) =
        Sum.inl (Category.syntactic, e'.message, e'.pos)
      rw [hmessage, hpos]
    | tooDeep | tooLong => cases h
  | tooDeep =>
    obtain rfl : ParseFailure.tooDeep = g := h
    rfl
  | tooLong digits =>
    obtain rfl : ParseFailure.tooLong digits = g := h
    rfl

/-- Spells that are alike run in the same way. -/
theorem run_eq_of_allAlike {p q : List Node} (h : Node.AllAlike p q) (terms : Terms) (passes : Nat)
    (start : RunState) : run terms passes p start = run terms passes q start := by
  rw [← run_mapLine terms passes (fun _ => 0) p, ← run_mapLine terms passes (fun _ => 0) q]
  unfold Node.AllAlike at h
  rw [h]

/-- After the tokens have been found, only the parser can fail. -/
theorem readSpell_of_tokenize {lenient : Bool} {source : Text} {ts : Tokens}
    (h : tokenize source = .ok ts) :
    readSpell lenient source = (parse lenient ts).mapError .parsing := by
  unfold readSpell
  rw [h]

/-- **Layout has no meaning.** Two texts whose tokens have the same kinds and texts are both refused
in the same words and after the same number of tokens, or both are read, as trees that are the same
apart from their lines. Runs of these trees on any terms and from any state are the same in all
respects: how they end, what is printed and asked for, how many steps are counted, and what names
are bound to. -/
theorem layout_has_no_meaning {a b : Text} {ts us : Tokens} (ha : tokenize a = .ok ts)
    (hb : tokenize b = .ok us) (h : ts.toList.map Token.look = us.toList.map Token.look)
    (lenient : Bool) :
    (∃ f g, readSpell lenient a = .error (.parsing f) ∧ readSpell lenient b = .error (.parsing g) ∧
      f.bare = g.bare) ∨
    ∃ p q, readSpell lenient a = .ok p ∧ readSpell lenient b = .ok q ∧
      p.map (Node.mapLine fun _ => 0) = q.map (Node.mapLine fun _ => 0) ∧
      ∀ terms passes start, run terms passes p start = run terms passes q start := by
  have hread := parse_alike h lenient
  rw [readSpell_of_tokenize ha, readSpell_of_tokenize hb]
  generalize parse lenient ts = x at hread
  generalize parse lenient us = y at hread
  cases hread with
  | error hfg => exact .inl ⟨_, _, rfl, rfl, hfg.bare_eq⟩
  | ok hpq => exact .inr ⟨_, _, rfl, rfl, hpq, run_eq_of_allAlike hpq⟩

/-- A spell with a comment, a line break and blanks. -/
def spaciousSpell : Text := "shout the many cries # of what?\n  of 'hex' #"

/-- Its tokens. -/
def spaciousTokens : Tokens :=
  ⟨[⟨.identifier, "shout", ⟨0, 1, 1⟩⟩, ⟨.identifier, "the", ⟨6, 1, 7⟩⟩,
    ⟨.identifier, "many", ⟨10, 1, 11⟩⟩, ⟨.identifier, "cries", ⟨15, 1, 16⟩⟩,
    ⟨.identifier, "of", ⟨34, 2, 3⟩⟩, ⟨.string, "hex", ⟨37, 2, 6⟩⟩], ⟨44, 2, 13⟩⟩

/-- The same spell on one line, with the other kind of quotes. -/
def crampedSpell : Text := "shout the many cries of\"hex\""

/-- The tokens of that spell. -/
def crampedTokens : Tokens :=
  ⟨[⟨.identifier, "shout", ⟨0, 1, 1⟩⟩, ⟨.identifier, "the", ⟨6, 1, 7⟩⟩,
    ⟨.identifier, "many", ⟨10, 1, 11⟩⟩, ⟨.identifier, "cries", ⟨15, 1, 16⟩⟩,
    ⟨.identifier, "of", ⟨21, 1, 22⟩⟩, ⟨.string, "hex", ⟨23, 1, 24⟩⟩], ⟨28, 1, 29⟩⟩

/-- The tree of either spell, whose string stands on its own line. -/
def hexSpell (line : Nat) : List Node :=
  [.shout (some 1) (.literal (some line) (.text "hex") (some "STRING"))]

/-- The string of the first spell stands on another line, and a run does not look at that. -/
theorem spaciousSpell_as_crampedSpell :
    tokenize spaciousSpell = .ok spaciousTokens ∧ tokenize crampedSpell = .ok crampedTokens ∧
    spaciousTokens.toList.map Token.look = crampedTokens.toList.map Token.look ∧
    readSpell false spaciousSpell = .ok (hexSpell 2) ∧
    readSpell false crampedSpell = .ok (hexSpell 1) ∧
    ∀ terms passes start,
      run terms passes (hexSpell 2) start = run terms passes (hexSpell 1) start := by
  have hts : tokenize spaciousSpell = .ok spaciousTokens := by decide
  have hus : tokenize crampedSpell = .ok crampedTokens := by decide
  have hlook : spaciousTokens.toList.map Token.look = crampedTokens.toList.map Token.look := by
    decide
  have hread : readSpell false spaciousSpell = .ok (hexSpell 2) := by
    rw [readSpell_of_tokenize hts]
    rfl
  have hread' : readSpell false crampedSpell = .ok (hexSpell 1) := by
    rw [readSpell_of_tokenize hus]
    rfl
  refine ⟨hts, hus, hlook, hread, hread', ?_⟩
  rcases layout_has_no_meaning hts hus hlook false with ⟨f, g, hf, -⟩ | ⟨p, q, hp, hq, -, hrun⟩
  · rw [hread] at hf
    cases hf
  · rw [hread] at hp
    rw [hread'] at hq
    rw [Except.ok.inj hp, Except.ok.inj hq]
    exact hrun

end Grimoire
