import Grimoire.Proofs.Tree.Grammatical
import Grimoire.Proofs.Tree.Leniency

/-!
# Whole spells

The strict reader accepts exactly the spellings of the grammar that are not nested too deeply, and
the grammar is unambiguous: tokens spell at most one tree. Unambiguity holds without any nesting
limit, although it is read off the reader, because the contract of the reader holds for every limit.
-/

namespace Grimoire

open Rule Grammar

/-! ## The reader of whole spells -/

/-- Outside all blocks a strict reader goes on up to the end of the spell. -/
theorem statements_strict (fuel : Nat) :
    statements false fuel = manyAtMost Cursor.atEnd (statement nestingLimit) fuel := by
  induction fuel with
  | zero => rfl
  | succ fuel ih =>
    funext c
    rw [statements, manyAtMost, get_bind, get_bind, ih]
    by_cases hend : c.atEnd = true
    · rw [if_pos hend, if_pos hend]
    · rw [if_neg hend, if_neg hend, statement?_strict]
      simp only [bind_assoc, pure_bind]

/-- Before a statement the cursor is not at the end. -/
theorem atEnd_of_atOrder {c : Cursor} (h : AtOrder c) : c.atEnd = false := by
  rw [Cursor.atEnd, h.1]
  rfl

/-- Statements up to the end of the spell, with fuel for every token that is left. -/
theorem manyAtMost_atEnd {d : Nat} {c c' : Cursor} {ss : List Node} :
    manyAtMost Cursor.atEnd (statement d) (c.rest.length + 1) c = .ok ss c' ↔
      c'.atEnd = true ∧ ∃ ts, c.Passes ts c' ∧ Fits .program d (.program ss) ts :=
  manyAtMost_eq_ok (reads_statement d) (fun _ => atEnd_of_atOrder) (Nat.lt_succ_self _)

/-- With no end in the middle, the end is reached when all tokens are passed. -/
theorem passes_to_end {ts : Tokens} (hts : ∀ t ∈ ts.body, t.kind ≠ .eof) {us : List Token}
    {c' : Cursor} : (Cursor.start ts).Passes us c' ∧ c'.atEnd = true ↔
      us = ts.body ∧ c' = ⟨[], ts.stop, ts.body.length, 0⟩ := by
  constructor
  · rintro ⟨hpass, hend⟩
    have hrest : ts.body = us ++ c'.rest := hpass.rest
    have hnil : c'.rest = [] := by
      cases hc : c'.rest with
      | nil => rfl
      | cons t rest =>
        have hkind : t.kind = .eof := by
          simpa [Cursor.atEnd, Cursor.current, hc] using hend
        exact absurd hkind (hts t (by rw [hrest, hc]; simp))
    rw [hnil, List.append_nil] at hrest
    have hpos : c'.pos = us.length := hpass.pos.trans (Nat.zero_add _)
    rw [Cursor.mk.injEq, hrest]
    exact ⟨rfl, hnil, hpass.stop, hpos, hpass.blockDepth⟩
  · rintro ⟨rfl, rfl⟩
    exact ⟨⟨(List.append_nil _).symm, rfl, (Nat.zero_add _).symm, rfl⟩, rfl⟩

/-- The strict reader accepts what is spelled and fits the limit, and returns just that. -/
theorem parse_strict_eq_ok {ts : Tokens} (hts : ∀ t ∈ ts.body, t.kind ≠ .eof)
    {spell : List Node} :
    parse false ts = .ok spell ↔ Fits .program nestingLimit (.program spell) ts.body := by
  -- The loop of a strict reader ends at the end of the spell only, where all tokens are passed.
  have hmany {ss : List Node} {c' : Cursor} :
      manyAtMost Cursor.atEnd (statement nestingLimit) (ts.body.length + 1) (Cursor.start ts)
        = .ok ss c' ↔ c' = ⟨[], ts.stop, ts.body.length, 0⟩ ∧
          Fits .program nestingLimit (.program ss) ts.body := by
    refine manyAtMost_atEnd.trans ?_
    constructor
    · rintro ⟨hend, us, hpass, hfits⟩
      obtain ⟨rfl, rfl⟩ := (passes_to_end hts).mp ⟨hpass, hend⟩
      exact ⟨rfl, hfits⟩
    · rintro ⟨rfl, hfits⟩
      have h := (passes_to_end hts).mpr ⟨rfl, rfl⟩
      exact ⟨h.2, ts.body, h.1, hfits⟩
  rw [parse, program, statements_strict,
    show (Cursor.start ts).rest.length + 1 = ts.body.length + 1 from rfl]
  cases h : manyAtMost Cursor.atEnd (statement nestingLimit) (ts.body.length + 1)
    (Cursor.start ts) with
  | ok ss c' =>
    obtain ⟨-, hfits⟩ := hmany.mp h
    simp only [Node.statements, Except.ok.injEq]
    constructor
    · rintro rfl
      exact hfits
    · intro hfits'
      rw [hmany.mpr ⟨rfl, hfits'⟩] at h
      cases h
      rfl
  | error failure c' =>
    have hno : ¬Fits .program nestingLimit (.program spell) ts.body := by
      intro hfits
      rw [hmany.mpr ⟨rfl, hfits⟩] at h
      cases h
    cases failure <;> simp [hno]

/-- To read a source is to read its tokens. -/
theorem readSpell_eq_ok {lenient : Bool} {source : Text} {spell : List Node} :
    readSpell lenient source = .ok spell ↔
      ∃ ts, tokenize source = .ok ts ∧ parse lenient ts = .ok spell := by
  unfold readSpell
  cases tokenize source with
  | error e => simp
  | ok ts => cases hparse : parse lenient ts <;> simp [Except.mapError, hparse]

/-! ## Unambiguity -/

theorem passes_all (ts : List Token) :
    (⟨ts, Mark.start, 0, 0⟩ : Cursor).Passes ts ⟨[], Mark.start, ts.length, 0⟩ :=
  ⟨(List.append_nil ts).symm, rfl, (Nat.zero_add _).symm, rfl⟩

/-- A rule reads at most one item from given tokens. -/
theorem Rule.Reads.unique {α : Type} {r : Rule α} {item : α → List Token → Prop} (h : Reads r item)
    {a b : α} {ts : List Token} (ha : item a ts) (hb : item b ts) : a = b := by
  have hra := (h _ _ _).mpr ⟨ts, passes_all ts, ha⟩
  have hrb := (h _ _ _).mpr ⟨ts, passes_all ts, hb⟩
  rw [hra] at hrb
  cases hrb
  rfl

/-- What comes after a statement does not matter for where the statement ends. -/
theorem Spells.statement_end {s s' : Node} {ts ts' us us' : List Token}
    (h : Spells .statement s ts) (h' : Spells .statement s' ts') (heq : ts ++ us = ts' ++ us') :
    ts = ts' := by
  have hreads := reads_statement (max s.levels s'.levels) ⟨ts ++ us, Mark.start, 0, 0⟩
  have hend := (hreads s ⟨us, Mark.start, ts.length, 0⟩).mpr
    ⟨ts, ⟨rfl, rfl, (Nat.zero_add _).symm, rfl⟩, h, Nat.le_max_left _ _⟩
  have hend' := (hreads s' ⟨us', Mark.start, ts'.length, 0⟩).mpr
    ⟨ts', ⟨heq, rfl, (Nat.zero_add _).symm, rfl⟩, h', Nat.le_max_right _ _⟩
  rw [hend] at hend'
  obtain rfl : us = us' := congrArg Cursor.rest (EStateM.Result.ok.inj hend').2
  exact List.append_cancel_right heq

/-- Tokens spell at most one list of statements. -/
theorem Spells.program_unique {ss ss' : List Node} {ts : List Token}
    (h : Spells .program (.program ss) ts) (h' : Spells .program (.program ss') ts) : ss = ss' := by
  have hmany {ss : List Node} {d : Nat} (hfits : Fits .program d (.program ss) ts) :
      manyAtMost Cursor.atEnd (statement d) (ts.length + 1) ⟨ts, Mark.start, 0, 0⟩ =
        .ok ss ⟨[], Mark.start, ts.length, 0⟩ :=
    manyAtMost_atEnd.mpr ⟨rfl, ts, passes_all ts, hfits⟩
  -- a limit that is high enough for both
  have hss := hmany (d := max (Node.program ss).levels (Node.program ss').levels)
    ⟨h, Nat.le_max_left _ _⟩
  have hss' := hmany (d := max (Node.program ss).levels (Node.program ss').levels)
    ⟨h', Nat.le_max_right _ _⟩
  rw [hss] at hss'
  cases hss'
  rfl

/-- Tokens spell at most one tree in a role. -/
theorem Spells.unique {role : Role} {node node' : Node} {ts : List Token}
    (h : Spells role node ts) (h' : Spells role node' ts) : node = node' := by
  cases role with
  | expression =>
    exact (reads_expression (max node.levels node'.levels)).unique
      ⟨h, Nat.le_max_left _ _⟩ ⟨h', Nat.le_max_right _ _⟩
  | statement =>
    exact (reads_statement (max node.levels node'.levels)).unique
      ⟨h, Nat.le_max_left _ _⟩ ⟨h', Nat.le_max_right _ _⟩
  -- A block is as unique as the statements in it: both are read after the same `do`.
  | block =>
    cases h with
    | block _ hs =>
      cases h' with
      | block _ hs' => rw [hs.program_unique hs']
  | program =>
    obtain ⟨ss, rfl⟩ : ∃ ss, node = .program ss := by cases h <;> exact ⟨_, rfl⟩
    obtain ⟨ss', rfl⟩ : ∃ ss, node' = .program ss := by cases h' <;> exact ⟨_, rfl⟩
    rw [h.program_unique h']

/-! ## The headline -/

/-- A node in any of the smaller roles carries the line of the first token of its spelling. -/
theorem Spells.line_eq {role : Role} {node : Node} {ts : List Token} (h : Spells role node ts)
    (hrole : role ≠ .program) : ∃ t us, ts = t :: us ∧ node.line? = some t.mark.line := by
  cases role with
  | expression =>
    obtain ⟨t, us, rfl, hline, -⟩ := h.expression_head
    exact ⟨t, us, rfl, hline⟩
  | statement =>
    obtain ⟨t, us, rfl, hline, -⟩ := h.statement_head
    exact ⟨t, us, rfl, hline⟩
  | block =>
    cases h with
    | block => exact ⟨_, _, rfl, rfl⟩
  | program => exact absurd rfl hrole

/-- **The strict reader and the grammar.** On tokens with no end among them, the strict reader
returns a spell exactly if the tokens spell it and it is not nested beyond the limit. Tokens spell
at most one tree. Every tree of the grammar that is not nested beyond the limit, and nothing else,
is what the reader makes of some tokens of the right shape, which spell it. A node carries the line
of the first token of its spelling. -/
theorem parse_strict_iff_spells :
    (∀ ts : Tokens, (∀ t ∈ ts.body, t.kind ≠ .eof) → ∀ spell : List Node,
      parse false ts = .ok spell ↔
        Spells .program (.program spell) ts.body ∧ (Node.program spell).levels ≤ nestingLimit) ∧
    (∀ role node node' ts, Spells role node ts → Spells role node' ts → node = node') ∧
    (∀ spell, (Node.program spell).levels ≤ nestingLimit →
      (Grammatical .program (.program spell) ↔ ∃ ts : Tokens, (∀ t ∈ ts.body, t.isShaped) ∧
        Spells .program (.program spell) ts.body ∧ parse false ts = .ok spell)) ∧
    ∀ role node ts, role ≠ .program → Spells role node ts →
      ∃ t us, ts = t :: us ∧ node.line? = some t.mark.line := by
  refine ⟨?_, ?_, ?_, ?_⟩
  · intro ts hts spell
    exact parse_strict_eq_ok hts
  · intro role node node' ts h h'
    exact h.unique h'
  · intro spell hlevels
    rw [grammatical_iff_spellable]
    constructor
    · rintro ⟨body, hspells, hshape⟩
      have hne : ∀ t ∈ body, t.kind ≠ .eof :=
        fun t ht => Token.kind_ne_eof_of_isShaped (hshape t ht)
      have hparse : parse false ⟨body, Mark.start⟩ = .ok spell :=
        (parse_strict_eq_ok hne).mpr ⟨hspells, hlevels⟩
      exact ⟨⟨body, Mark.start⟩, hshape, hspells, hparse⟩
    · rintro ⟨ts, hshape, hspells, -⟩
      exact ⟨ts.body, hspells, hshape⟩
  · intro role node ts hrole h
    exact h.line_eq hrole

/-- Words that also close or join phrases are names where an expression should stand. -/
theorem parse_strict_closing_words_as_names :
    let ts : Tokens :=
      ⟨(Text.words "whilst the spell done is true do shout the many cries of and done").map
        (Token.ofWord 1), Mark.start⟩
    (∀ t ∈ ts.body, t.kind ≠ .eof) ∧ Spells .program (.program
      [.loop (some 1) (.name (some 1) "done")
        (.block (some 1) [.shout (some 1) (.name (some 1) "and")])]) ts.body := by
  have hkind : ∀ t ∈ (Text.words
      "whilst the spell done is true do shout the many cries of and done").map (Token.ofWord 1),
      t.kind ≠ .eof := by
    decide
  exact ⟨hkind, ((parse_strict_iff_spells.1 _ hkind _).mp rfl).1⟩

end Grimoire
