import Grimoire.Proofs.Tree.Contract

/-!
# Reading is spelling backwards

The rules of the grammar succeed exactly on spellings: `reads_expression` and `reads_statement` are
the contracts of the two rules that tie the knot. Both are proved by induction on the nesting limit,
and in both one direction goes by the rule that was used and the other by the form of the spelling.

A block needs more than a contract, because it is read up to a token that it leaves where it is:
`block_eq_ok` says which tokens these are. That the loop over its statements does not run out of
fuel is part of `manyAtMost_eq_ok`.
-/

namespace Grimoire

namespace Grammar

open Rule

/-! ## Expressions -/

/-- One alternative of a comparison: its first word is taken without looking at it again. -/
theorem alternative_eq_ok {c c' : Cursor} {first phrase : Text} {words : List Text}
    {op op' : BinaryOp} (hfirst : c.atWord first) (hwords : phrase.words = words) :
    (do let _ ← advance; eatPhrase phrase; return op : Rule BinaryOp) c = .ok op' c' ↔
      ∃ ts, c.Passes ts c' ∧ op' = op ∧ Words (first :: words) ts := by
  have hadvance : eatWord first c = advance c := by
    show (if c.atWord first then advance else refuse (.expectedWord first)) c = _
    rw [if_pos hfirst]
  have hreads := ((reads_eatWord first).bind fun _ =>
    (reads_eatPhrase hwords).bind fun _ => Reads.pure op) c op' c'
  rw [bind_eq_ok, hadvance, ← bind_eq_ok] at hreads
  rw [hreads]
  refine exists_congr fun ts => and_congr_right fun _ => ?_
  rw [words_cons]
  constructor
  · rintro ⟨t, _, _, ⟨ht, rfl⟩, ⟨-, us, _, hus, ⟨rfl, rfl⟩, rfl⟩, rfl⟩
    exact ⟨rfl, t, us, ht, hus, by rw [List.append_nil]; rfl⟩
  · rintro ⟨rfl, t, us, ht, hus, rfl⟩
    exact ⟨t, [t], us, ⟨ht, rfl⟩, ⟨(), us, [], hus, ⟨rfl, rfl⟩, by rw [List.append_nil]⟩, rfl⟩

/-- At one word, the cursor is at no other. -/
theorem not_atWord {c : Cursor} {word other : Text} (h : c.atWord word) (hne : word ≠ other) :
    ¬c.atWord other := by
  intro hother
  rw [← (Token.isWord_iff.mp h).2, ← (Token.isWord_iff.mp hother).2] at hne
  exact hne rfl

/-- The reader of a comparison looks for its four beginnings in turn. -/
theorem comparator_apply (c : Cursor) :
    comparator c =
      if c.atWord "equal" then
        (do let _ ← advance; eatPhrase "to"; return .equal : Rule BinaryOp) c
      else if c.atWord "not" then
        (do let _ ← advance; eatPhrase "equal to"; return .unequal : Rule BinaryOp) c
      else if c.atWord "greater" then
        (do let _ ← advance; eatPhrase "than"; return .greater : Rule BinaryOp) c
      else if c.atWord "less" then
        (do let _ ← advance; eatPhrase "than"; return .less : Rule BinaryOp) c
      else (refuse .notAComparison : Rule BinaryOp) c := by
  unfold comparator
  rw [get_bind]
  split_ifs <;> rfl

/-- The words of a comparison decide its operator. -/
theorem reads_comparator :
    Reads comparator fun op ts => ∃ words, (op, words) ∈ comparators ∧ Words words ts := by
  intro c op c'
  rw [comparator_apply]
  constructor
  · intro h
    split_ifs at h with h₁ h₂ h₃ h₄
    · obtain ⟨ts, hts, rfl, hw⟩ := (alternative_eq_ok h₁ rfl).mp h
      exact ⟨ts, hts, _, by decide, hw⟩
    · obtain ⟨ts, hts, rfl, hw⟩ := (alternative_eq_ok h₂ rfl).mp h
      exact ⟨ts, hts, _, by decide, hw⟩
    · obtain ⟨ts, hts, rfl, hw⟩ := (alternative_eq_ok h₃ rfl).mp h
      exact ⟨ts, hts, _, by decide, hw⟩
    · obtain ⟨ts, hts, rfl, hw⟩ := (alternative_eq_ok h₄ rfl).mp h
      exact ⟨ts, hts, _, by decide, hw⟩
    · exact absurd h refuse_ne_ok
  · rintro ⟨ts, hts, words, hop, hw⟩
    -- the first word of the alternative stands before the cursor, so the earlier ones do not
    have hat {first : Text} {rest : List Text} (h : Words (first :: rest) ts) : c.atWord first := by
      obtain ⟨t, us, ht, -, rfl⟩ := words_cons.mp h
      rw [Cursor.atWord, hts.current]
      exact ht
    simp only [comparators, List.mem_cons, Prod.mk.injEq, List.not_mem_nil, or_false] at hop
    rcases hop with ⟨rfl, rfl⟩ | ⟨rfl, rfl⟩ | ⟨rfl, rfl⟩ | ⟨rfl, rfl⟩
    · rw [if_pos (hat hw)]
      exact (alternative_eq_ok (hat hw) rfl).mpr ⟨ts, hts, rfl, hw⟩
    · rw [if_neg (not_atWord (hat hw) (by decide)), if_pos (hat hw)]
      exact (alternative_eq_ok (hat hw) rfl).mpr ⟨ts, hts, rfl, hw⟩
    · rw [if_neg (not_atWord (hat hw) (by decide)), if_neg (not_atWord (hat hw) (by decide)),
        if_pos (hat hw)]
      exact (alternative_eq_ok (hat hw) rfl).mpr ⟨ts, hts, rfl, hw⟩
    · rw [if_neg (not_atWord (hat hw) (by decide)), if_neg (not_atWord (hat hw) (by decide)),
        if_neg (not_atWord (hat hw) (by decide)), if_pos (hat hw)]
      exact (alternative_eq_ok (hat hw) rfl).mpr ⟨ts, hts, rfl, hw⟩

/-- A comparison: one side, the words between, the other side. -/
theorem reads_comparison {x : Rule Node} {P : Node → List Token → Prop} (hx : Reads x P)
    (line : Option Nat) :
    Reads (comparison line x) fun e ts => ∃ as words q bs a op b, P a as ∧
      (op, words) ∈ comparators ∧ Words words q ∧ P b bs ∧ e = .binary line a op b ∧
        ts = as ++ (q ++ bs) := by
  refine (hx.bind fun a => reads_comparator.bind fun op => hx.bind fun b =>
    .pure (Node.binary line a op b)).congr fun e ts => ?_
  constructor
  · -- Nothing is read after the second side, so only an empty list has to be taken away.
    rintro ⟨a, as, -, ha, ⟨op, q, -, ⟨words, hop, hq⟩, ⟨b, bs, -, hb, ⟨rfl, rfl⟩, rfl⟩, rfl⟩, rfl⟩
    exact ⟨as, words, q, bs, a, op, b, ha, hop, hq, hb, rfl, by rw [List.append_nil]⟩
  · rintro ⟨as, words, q, bs, a, op, b, ha, hop, hq, hb, rfl, rfl⟩
    exact ⟨a, as, _, ha, ⟨op, q, _, ⟨words, hop, hq⟩, ⟨b, bs, [], hb, ⟨rfl, rfl⟩,
      by rw [List.append_nil]⟩, rfl⟩, rfl⟩

/-- A question is its words and nothing else. -/
theorem reads_reply {x : Rule Node} (line : Option Nat) :
    Reads (reply line x) fun e ts =>
      Words ["the", "source", "of", "the", "messages"] ts ∧ e = .ask line := by
  have hphrase : (Text.ofString "the source of the messages").words =
      ["the", "source", "of", "the", "messages"] := rfl
  refine ((reads_eatPhrase hphrase).bind fun _ => .pure (Node.ask line)).congr fun e ts => ?_
  constructor
  · rintro ⟨-, p, -, hp, ⟨rfl, rfl⟩, rfl⟩
    exact ⟨by rwa [List.append_nil], rfl⟩
  · rintro ⟨hp, rfl⟩
    exact ⟨(), ts, [], hp, ⟨rfl, rfl⟩, by rw [List.append_nil]⟩

/-- The first token of an expression decides what it is, and is taken in any case. -/
theorem expression_succ (d : Nat) (c : Cursor) :
    expression (d + 1) c =
      match c.current.kind with
      | .string => .ok (.literal c.current.line (.text c.current.text) (some "STRING")) c.next
      | .integer =>
        match Numeral.read? c.current.text with
        | some n => .ok (.literal c.current.line (.int n) (some "INTEGER")) c.next
        | none => .error (.tooLong c.current.text.length) c.next
      | .float =>
        .ok (.literal c.current.line (.float (floatValue c.current.text)) (some "FLOAT")) c.next
      | .identifier =>
        match phrases.lookup c.current.text with
        | some phrase => phrase c.current.line (expression d) c.next
        | none => .ok (.name c.current.line c.current.text) c.next
      | .symbol | .eof => .error (.refused ⟨.notAnExpression, c.current, c.pos⟩) c := by
  rw [expression, get_bind]
  cases c.current.kind with
  | integer =>
    simp only
    show (match Numeral.read? c.current.text with
      | some n => _
      | none => _ : Rule Node) c.next = _
    cases Numeral.read? c.current.text <;> rfl
  | identifier =>
    simp only
    show (match phrases.lookup c.current.text with
      | some phrase => _
      | none => _ : Rule Node) c.next = _
    cases phrases.lookup c.current.text <;> rfl
  | _ => rfl

/-- What a table gives stands in the table. -/
theorem mem_of_lookup_eq_some {α β : Type} [BEq α] [LawfulBEq α] {l : List (α × β)} {a : α} {b : β}
    (h : l.lookup a = some b) : (a, b) ∈ l := by
  obtain ⟨l₁, l₂, rfl, -⟩ := List.lookup_eq_some_iff.mp h
  simp

/-- A word that starts no phrase is a name. -/
theorem lookup_phrases_eq_none {word : Text} :
    phrases.lookup word = none ↔ word ∉ phraseWords := by
  simp [List.lookup_eq_none_iff, phrases, phraseWords]

/-- The part `node` can be read within `d` levels from the tokens. -/
def Fits (role : Role) (d : Nat) (node : Node) (ts : List Token) : Prop :=
  Spells role node ts ∧ node.levels ≤ d

/-- What a phrase rule reads after its first word completes the spelling of an expression. -/
theorem fits_of_phrase {d : Nat} (ih : Reads (expression d) (Fits .expression d)) {t : Token}
    (hkind : t.kind = .identifier) {phrase : Option Nat → Rule Node → Rule Node}
    (hmem : (t.text, phrase) ∈ phrases) {c c' : Cursor} {e : Node}
    (h : phrase t.line (expression d) c = .ok e c') :
    ∃ us, c.Passes us c' ∧ Fits .expression (d + 1) e (t :: us) := by
  have hword {word : Text} (htext : t.text = word) : t.isWord word :=
    Token.isWord_iff.mpr ⟨hkind, htext⟩
  -- One case for each phrase, in the order of the table.
  simp only [phrases, List.mem_cons, Prod.mk.injEq, List.not_mem_nil, or_false] at hmem
  rcases hmem with ⟨ht, rfl⟩ | ⟨ht, rfl⟩ | ⟨ht, rfl⟩ | ⟨ht, rfl⟩ | ⟨ht, rfl⟩ | ⟨ht, rfl⟩ |
    ⟨ht, rfl⟩ | ⟨ht, rfl⟩
  · obtain ⟨us, hus, p, as, q, bs, a, b, hp, ⟨ha, hla⟩, hq, ⟨hb, hlb⟩, rfl, rfl⟩ :=
      (reads_between rfl ih rfl ih (fun a b => .binary t.line a .add b) _ _ _).mp h
    exact ⟨_, hus, .combine (hword ht) hp ha hq hb, by simp only [Node.levels]; omega⟩
  · obtain ⟨us, hus, p, as, q, bs, a, b, hp, ⟨ha, hla⟩, hq, ⟨hb, hlb⟩, rfl, rfl⟩ :=
      (reads_between rfl ih rfl ih (fun a b => .binary t.line b .subtract a) _ _ _).mp h
    exact ⟨_, hus, .remove (hword ht) hp ha hq hb, by simp only [Node.levels]; omega⟩
  · obtain ⟨us, hus, p, as, bs, q, a, b, hp, ⟨ha, hla⟩, ⟨hb, hlb⟩, hq, rfl, rfl⟩ :=
      (reads_after rfl ih ih rfl (fun a b => .binary t.line a .multiply b) _ _ _).mp h
    exact ⟨_, hus, .duplicate (hword ht) hp ha hb hq, by simp only [Node.levels]; omega⟩
  · obtain ⟨us, hus, p, as, bs, q, a, b, hp, ⟨ha, hla⟩, ⟨hb, hlb⟩, hq, rfl, rfl⟩ :=
      (reads_after rfl ih ih rfl (fun a b => .binary t.line a .divide b) _ _ _).mp h
    exact ⟨_, hus, .split (hword ht) hp ha hb hq, by simp only [Node.levels]; omega⟩
  · obtain ⟨us, hus, hp, rfl⟩ := (reads_reply t.line _ _ _).mp h
    exact ⟨_, hus, .reply (hword ht) hp, by simp only [Node.levels]; omega⟩
  · obtain ⟨us, hus, p, as, a, hp, ⟨ha, hla⟩, rfl, rfl⟩ :=
      (reads_operand rfl ih (fun a => .unary t.line .ord a) _ _ _).mp h
    exact ⟨_, hus, .code (hword ht) hp ha, by simp only [Node.levels]; omega⟩
  · obtain ⟨us, hus, p, as, a, hp, ⟨ha, hla⟩, rfl, rfl⟩ :=
      (reads_operand rfl ih (fun a => .unary t.line .chr a) _ _ _).mp h
    exact ⟨_, hus, .character (hword ht) hp ha, by simp only [Node.levels]; omega⟩
  · obtain ⟨us, hus, as, words, q, bs, a, op, b, ⟨ha, hla⟩, hop, hq, ⟨hb, hlb⟩, rfl, rfl⟩ :=
      (reads_comparison ih t.line _ _ _).mp h
    exact ⟨_, hus, .comparison (hword ht) ha hop hq hb, by simp only [Node.levels]; omega⟩

/-- Whatever is read as an expression is the spelling of one. -/
theorem fits_of_expression {d : Nat} (ih : Reads (expression d) (Fits .expression d))
    {c c' : Cursor} {e : Node} (h : expression (d + 1) c = .ok e c') :
    ∃ ts, c.Passes ts c' ∧ Fits .expression (d + 1) e ts := by
  rw [expression_succ] at h
  generalize ht : c.current = t at h
  have hpass (hne : t.kind ≠ .eof) : c.Passes [t] c.next :=
    (Cursor.passes_singleton hne).mpr ⟨ht, rfl⟩
  cases hkind : t.kind with
  | string =>
    rw [hkind] at h
    cases h
    exact ⟨[t], hpass (by simp [hkind]), .text hkind, by simp [Node.levels]⟩
  | integer =>
    rw [hkind] at h
    simp only [Numeral.read?] at h
    -- A number with too many digits is a failure, not an expression.
    by_cases hdigits : t.text.length ≤ Numeral.digitLimit
    · rw [if_pos hdigits] at h
      cases h
      exact ⟨[t], hpass (by simp [hkind]), .integer hkind hdigits, by simp [Node.levels]⟩
    · rw [if_neg hdigits] at h
      cases h
  | float =>
    rw [hkind] at h
    cases h
    exact ⟨[t], hpass (by simp [hkind]), .float hkind, by simp [Node.levels]⟩
  | identifier =>
    rw [hkind] at h
    simp only at h
    cases hlookup : phrases.lookup t.text with
    | none =>
      rw [hlookup] at h
      cases h
      exact ⟨[t], hpass (by simp [hkind]), .name hkind (lookup_phrases_eq_none.mp hlookup),
        by simp [Node.levels]⟩
    | some phrase =>
      rw [hlookup] at h
      obtain ⟨us, hus, hfits⟩ := fits_of_phrase ih hkind (mem_of_lookup_eq_some hlookup) h
      exact ⟨t :: us, Cursor.passes_cons.mpr ⟨_, hpass (by simp [hkind]), hus⟩, hfits⟩
  | symbol | eof =>
    rw [hkind] at h
    cases h

/-- If the words after the first one are read as a phrase asks, the whole is read as its
expression. -/
theorem expression_of_phrase {d : Nat} {c c' : Cursor} {t : Token} {us : List Token} {e : Node}
    {word : Text} {phrase : Option Nat → Rule Node → Rule Node} (ht : t.isWord word)
    (hlookup : phrases.lookup word = some phrase) (hpass : c.Passes (t :: us) c')
    (h : ∀ c₁ : Cursor, c₁.Passes us c' → phrase t.line (expression d) c₁ = .ok e c') :
    expression (d + 1) c = .ok e c' := by
  obtain ⟨hkind, rfl⟩ := Token.isWord_iff.mp ht
  obtain ⟨c₁, hfirst, hrest⟩ := Cursor.passes_cons.mp hpass
  obtain ⟨-, rfl⟩ := (Cursor.passes_singleton (by simp [hkind])).mp hfirst
  rw [expression_succ, hpass.current, hkind]
  simp only [hlookup]
  exact h _ hrest

/-- Every spelling of an expression is read as that expression. -/
theorem expression_of_fits {d : Nat} (ih : Reads (expression d) (Fits .expression d))
    {c c' : Cursor} {e : Node} {ts : List Token} (hpass : c.Passes ts c')
    (hfits : Fits .expression (d + 1) e ts) : expression (d + 1) c = .ok e c' := by
  obtain ⟨hspells, hlevels⟩ := hfits
  -- a token by itself
  have hsingle {t : Token} (hpass : c.Passes [t] c') (hne : t.kind ≠ .eof) : c' = c.next :=
    ((Cursor.passes_singleton hne).mp hpass).2.symm
  cases hspells with
  | text ht => rw [expression_succ, hpass.current, ht, hsingle hpass (by simp [ht])]
  | integer ht hdigits =>
    rw [expression_succ, hpass.current, ht, hsingle hpass (by simp [ht])]
    simp only [Numeral.read?, if_pos hdigits]
  | float ht => rw [expression_succ, hpass.current, ht, hsingle hpass (by simp [ht])]
  | name ht hword =>
    rw [expression_succ, hpass.current, ht, hsingle hpass (by simp [ht])]
    simp only [lookup_phrases_eq_none.mpr hword]
  | combine ht hp ha hq hb =>
    simp only [Node.levels] at hlevels
    refine expression_of_phrase ht rfl hpass fun c₁ hrest => ?_
    exact (reads_between rfl ih rfl ih (fun a b => .binary _ a .add b) _ _ _).mpr
      ⟨_, hrest, _, _, _, _, _, _, hp, ⟨ha, by omega⟩, hq, ⟨hb, by omega⟩, rfl, rfl⟩
  | remove ht hp ha hq hb =>
    simp only [Node.levels] at hlevels
    refine expression_of_phrase ht rfl hpass fun c₁ hrest => ?_
    exact (reads_between rfl ih rfl ih (fun a b => .binary _ b .subtract a) _ _ _).mpr
      ⟨_, hrest, _, _, _, _, _, _, hp, ⟨ha, by omega⟩, hq, ⟨hb, by omega⟩, rfl, rfl⟩
  | duplicate ht hp ha hb hq =>
    simp only [Node.levels] at hlevels
    refine expression_of_phrase ht rfl hpass fun c₁ hrest => ?_
    exact (reads_after rfl ih ih rfl (fun a b => .binary _ a .multiply b) _ _ _).mpr
      ⟨_, hrest, _, _, _, _, _, _, hp, ⟨ha, by omega⟩, ⟨hb, by omega⟩, hq, rfl, rfl⟩
  | split ht hp ha hb hq =>
    simp only [Node.levels] at hlevels
    refine expression_of_phrase ht rfl hpass fun c₁ hrest => ?_
    exact (reads_after rfl ih ih rfl (fun a b => .binary _ a .divide b) _ _ _).mpr
      ⟨_, hrest, _, _, _, _, _, _, hp, ⟨ha, by omega⟩, ⟨hb, by omega⟩, hq, rfl, rfl⟩
  | reply ht hp =>
    refine expression_of_phrase ht rfl hpass fun c₁ hrest => ?_
    exact (reads_reply _ _ _ _).mpr ⟨_, hrest, hp, rfl⟩
  | code ht hp ha =>
    simp only [Node.levels] at hlevels
    refine expression_of_phrase ht rfl hpass fun c₁ hrest => ?_
    exact (reads_operand rfl ih (fun a => .unary _ .ord a) _ _ _).mpr
      ⟨_, hrest, _, _, _, hp, ⟨ha, by omega⟩, rfl, rfl⟩
  | character ht hp ha =>
    simp only [Node.levels] at hlevels
    refine expression_of_phrase ht rfl hpass fun c₁ hrest => ?_
    exact (reads_operand rfl ih (fun a => .unary _ .chr a) _ _ _).mpr
      ⟨_, hrest, _, _, _, hp, ⟨ha, by omega⟩, rfl, rfl⟩
  | comparison ht ha hop hq hb =>
    simp only [Node.levels] at hlevels
    refine expression_of_phrase ht rfl hpass fun c₁ hrest => ?_
    exact (reads_comparison ih _ _ _ _).mpr
      ⟨_, hrest, _, _, _, _, _, _, _, ⟨ha, by omega⟩, hop, hq, ⟨hb, by omega⟩, rfl, rfl⟩

/-- With `d` levels to go, the rule for expressions reads the spellings that need no more of
them. -/
theorem reads_expression (d : Nat) : Reads (expression d) (Fits .expression d) := by
  -- One level of the rule looks at the levels below it only.
  induction d with
  | zero =>
    intro c e c'
    constructor
    · intro h
      cases h
    · rintro ⟨ts, -, hspells, hlevels⟩
      cases hspells <;> simp [Node.levels] at hlevels
  | succ d ih =>
    intro c e c'
    constructor
    · intro h
      exact fits_of_expression ih h
    · rintro ⟨ts, hpass, hfits⟩
      exact expression_of_fits ih hpass hfits

/-! ## Sequences of statements -/

theorem fits_nil {d : Nat} {ts : List Token} : Fits .program d (.program []) ts ↔ ts = [] := by
  constructor
  · rintro ⟨hspells, -⟩
    cases hspells
    rfl
  · rintro rfl
    exact ⟨.nil, Nat.zero_le d⟩

/-- A list of statements is spelled by its head and its tail, neither of them nested too deep. -/
theorem fits_cons {d : Nat} {s : Node} {ss : List Node} {ts : List Token} :
    Fits .program d (.program (s :: ss)) ts ↔
      ∃ us vs, Fits .statement d s us ∧ Fits .program d (.program ss) vs ∧ ts = us ++ vs := by
  have hlevels : (Node.program (s :: ss)).levels = max s.levels (Node.program ss).levels := by
    simp only [Node.levels, Node.levelsOfAll]
  constructor
  · rintro ⟨hspells, hle⟩
    rw [hlevels] at hle
    cases hspells with
    | cons hs hss => exact ⟨_, _, ⟨hs, by omega⟩, ⟨hss, by omega⟩, rfl⟩
  · rintro ⟨us, vs, ⟨hs, hls⟩, ⟨hss, hlss⟩, rfl⟩
    exact ⟨.cons hs hss, by rw [hlevels]; omega⟩

/-- A cursor before a word that starts a statement. -/
def AtOrder (c : Cursor) : Prop := c.current.kind = .identifier ∧ c.current.text ∈ orderWords

/-- A statement starts with one of its five words, so it takes a token at least. -/
theorem atOrder_of_fits {d : Nat} {c c' : Cursor} {s : Node} {ts : List Token}
    (hpass : c.Passes ts c') (hfits : Fits .statement d s ts) : AtOrder c ∧ ts ≠ [] := by
  obtain ⟨t, us, rfl, -, hkind, htext⟩ := hfits.1.statement_head
  rw [AtOrder, hpass.current]
  exact ⟨⟨hkind, htext⟩, List.cons_ne_nil t us⟩

/-- Statements are read until the cursor satisfies `done`. The fuel is never used up, because every
statement takes a token. -/
theorem manyAtMost_eq_ok {d : Nat} {done : Cursor → Bool} {rule : Rule Node}
    (hrule : Reads rule (Fits .statement d)) (hdone : ∀ c, AtOrder c → done c = false)
    {fuel : Nat} {c c' : Cursor} {ss : List Node} (hfuel : c.rest.length < fuel) :
    manyAtMost done rule fuel c = .ok ss c' ↔
      done c' = true ∧ ∃ ts, c.Passes ts c' ∧ Fits .program d (.program ss) ts := by
  induction fuel generalizing c ss with
  | zero => omega
  | succ fuel ih =>
    -- what is left for the rest of the fuel
    have hshorter {c₁ : Cursor} {s : Node} {us : List Token} (hpass : c.Passes us c₁)
        (hfits : Fits .statement d s us) : c₁.rest.length < fuel := by
      have hne := List.length_pos_of_ne_nil (atOrder_of_fits hpass hfits).2
      rw [hpass.rest, List.length_append] at hfuel
      omega
    rw [manyAtMost, get_bind]
    by_cases hc : done c = true
    · rw [if_pos hc, pure_eq_ok]
      constructor
      · rintro ⟨rfl, rfl⟩
        exact ⟨hc, [], Cursor.passes_nil.mpr rfl, fits_nil.mpr rfl⟩
      · rintro ⟨hc', ts, hpass, hfits⟩
        cases ss with
        | nil =>
          rw [fits_nil.mp hfits, Cursor.passes_nil] at hpass
          exact ⟨rfl, hpass.symm⟩
        | cons s ss =>
          obtain ⟨us, vs, hs, -, rfl⟩ := fits_cons.mp hfits
          obtain ⟨c₁, hus, -⟩ := Cursor.passes_append.mp hpass
          rw [hdone c (atOrder_of_fits hus hs).1] at hc
          cases hc
    · rw [if_neg hc]
      constructor
      · intro h
        obtain ⟨s, c₁, hs, h⟩ := bind_eq_ok.mp h
        obtain ⟨ss', c₂, hss, h⟩ := bind_eq_ok.mp h
        obtain ⟨rfl, rfl⟩ := pure_eq_ok.mp h
        obtain ⟨us, hus, hs⟩ := (hrule _ _ _).mp hs
        obtain ⟨hc', vs, hvs, hss⟩ := (ih (hshorter hus hs)).mp hss
        exact ⟨hc', us ++ vs, Cursor.passes_append.mpr ⟨c₁, hus, hvs⟩,
          fits_cons.mpr ⟨us, vs, hs, hss, rfl⟩⟩
      · rintro ⟨hc', ts, hpass, hfits⟩
        cases ss with
        | nil =>
          rw [fits_nil.mp hfits, Cursor.passes_nil] at hpass
          rw [hpass] at hc'
          exact absurd hc' hc
        | cons s ss =>
          obtain ⟨us, vs, hs, hss, rfl⟩ := fits_cons.mp hfits
          obtain ⟨c₁, hus, hvs⟩ := Cursor.passes_append.mp hpass
          refine bind_eq_ok.mpr ⟨s, c₁, (hrule _ _ _).mpr ⟨us, hus, hs⟩, ?_⟩
          exact bind_eq_ok.mpr ⟨ss, c', (ih (hshorter hus hs)).mpr ⟨hc', vs, hvs, hss⟩, rfl⟩

/-! ## Blocks -/

/-- A block ends before `done`, before `else` and at the end of the spell. -/
def closes (c : Cursor) : Bool := c.atEnd || c.atWord "done" || c.atWord "else"

/-- No word that starts a statement closes a block. -/
theorem closes_of_atOrder {c : Cursor} (h : AtOrder c) : closes c = false := by
  have htext : c.current.text ≠ "done" ∧ c.current.text ≠ "else" := by
    have hmem := h.2
    generalize c.current.text = text at hmem
    revert text
    decide
  simp [closes, Cursor.atEnd, Cursor.atWord, Token.isWord, h.1, htext]

/-- The words that close a block do close it. -/
theorem closes_of_atWord {c : Cursor} {word : Text} (h : c.atWord word)
    (hword : word = "done" ∨ word = "else") : closes c = true := by
  rcases hword with rfl | rfl <;> simp [closes, h]

/-- Opening a block leaves its mark on the cursor; closing it takes the mark away. -/
theorem passes_in_block {c c' : Cursor} {ts : List Token} :
    c.Passes ts c' ↔ ({ c with blockDepth := c.blockDepth + 1 } : Cursor).Passes ts
      { c' with blockDepth := c'.blockDepth + 1 } := by
  constructor
  · intro h
    exact ⟨h.rest, h.stop, h.pos, congrArg (· + 1) h.blockDepth⟩
  · intro h
    exact ⟨h.rest, h.stop, h.pos, Nat.succ.inj h.blockDepth⟩

/-- A block is the word `do` and its statements. -/
theorem fits_block {d : Nat} {b : Node} {ts : List Token} :
    Fits .block d b ts ↔ ∃ t us ss, t.isWord "do" ∧ Fits .program d (.program ss) us ∧
      b = .block t.line ss ∧ ts = t :: us := by
  constructor
  · rintro ⟨hspells, hlevels⟩
    cases hspells with
    | block ht hs => exact ⟨_, _, _, ht, ⟨hs, by simpa only [Node.levels] using hlevels⟩, rfl, rfl⟩
  · rintro ⟨t, us, ss, ht, ⟨hs, hlevels⟩, rfl, rfl⟩
    exact ⟨.block ht hs, by simpa only [Node.levels] using hlevels⟩

/-- A block is read up to the token that closes it, which is left where it is. -/
theorem block_eq_ok {d : Nat} {rule : Rule Node} (hrule : Reads rule (Fits .statement d))
    {c c' : Cursor} {b : Node} :
    block rule c = .ok b c' ↔ closes c' = true ∧ ∃ ts, c.Passes ts c' ∧ Fits .block d b ts := by
  -- the statements of the block are read with the block open
  have hmany {c₁ c₂ : Cursor} {ss : List Node} :
      many closes rule c₁ = .ok ss c₂ ↔
        closes c₂ = true ∧ ∃ ts, c₁.Passes ts c₂ ∧ Fits .program d (.program ss) ts :=
    manyAtMost_eq_ok hrule (fun _ => closes_of_atOrder) (Nat.lt_succ_self _)
  constructor
  · intro h
    obtain ⟨t, c₁, ht, h⟩ := bind_eq_ok.mp h
    obtain ⟨-, hpass, hword, rfl⟩ := (reads_eatWord _ _ _ _).mp ht
    obtain ⟨_, c₂, hopen, h⟩ := bind_eq_ok.mp h
    obtain ⟨ss, c₃, hss, h⟩ := bind_eq_ok.mp h
    obtain ⟨_, c₄, hclose, h⟩ := bind_eq_ok.mp h
    obtain ⟨rfl, rfl⟩ := pure_eq_ok.mp h
    cases hopen
    cases hclose
    -- The mark set by `do` is gone after the block, so the cursor has only moved.
    obtain ⟨hcloses, ts, hts, hfits⟩ := hmany.mp hss
    refine ⟨hcloses, t :: ts, Cursor.passes_cons.mpr ⟨c₁, hpass, ?_⟩,
      fits_block.mpr ⟨t, ts, ss, hword, hfits, rfl, rfl⟩⟩
    refine ⟨hts.rest, hts.stop, hts.pos, ?_⟩
    show c₃.blockDepth - 1 = c₁.blockDepth
    rw [hts.blockDepth, Nat.add_sub_cancel]
  · rintro ⟨hcloses, ts, hpass, hfits⟩
    obtain ⟨t, us, ss, hword, hss, rfl, rfl⟩ := fits_block.mp hfits
    obtain ⟨c₁, hfirst, hrest⟩ := Cursor.passes_cons.mp hpass
    refine bind_eq_ok.mpr ⟨t, c₁, (reads_eatWord _ _ _ _).mpr ⟨_, hfirst, hword, rfl⟩, ?_⟩
    refine bind_eq_ok.mpr ⟨(), _, rfl, ?_⟩
    refine bind_eq_ok.mpr ⟨ss, { c' with blockDepth := c'.blockDepth + 1 },
      hmany.mpr ⟨hcloses, us, passes_in_block.mp hrest, hss⟩, ?_⟩
    exact bind_eq_ok.mpr ⟨(), _, rfl, rfl⟩

/-! ## Statements -/

/-- The name in a statement is an expression that starts with a word. -/
theorem reads_spellName {d : Nat} (after : Text) :
    Reads (spellName after (expression d)) fun e ts =>
      Fits .expression d e ts ∧ StartsWithName ts := by
  intro c e c'
  show (get >>= fun c : Cursor => if c.current.kind = .identifier then expression d
    else refuse (.expectedName after)) c = _ ↔ _
  rw [get_bind]
  -- what stands before the cursor is the first token of the expression
  have hstarts {ts : List Token} (hpass : c.Passes ts c') (hfits : Fits .expression d e ts) :
      StartsWithName ts ↔ c.current.kind = .identifier := by
    obtain ⟨t, us, rfl, -⟩ := hfits.1.expression_head
    rw [hpass.current]
    simp [StartsWithName]
  by_cases hname : c.current.kind = .identifier
  · rw [if_pos hname, reads_expression d c e c']
    refine exists_congr fun ts => and_congr_right fun hpass => ?_
    exact ⟨fun hfits => ⟨hfits, (hstarts hpass hfits).mpr hname⟩, And.left⟩
  · rw [if_neg hname]
    constructor
    · intro h
      exact absurd h refuse_ne_ok
    · rintro ⟨ts, hpass, hfits, hstart⟩
      exact absurd ((hstarts hpass hfits).mp hstart) hname

/-- A statement with blocks ends with the word `done`. -/
theorem reads_done (node : Node) :
    Reads (do let _ ← eatWord "done"; return node) fun e ts =>
      ∃ t, t.isWord "done" ∧ e = node ∧ ts = [t] := by
  refine ((reads_eatWord "done").bind fun _ => Reads.pure node).congr fun e ts => ?_
  constructor
  · rintro ⟨t, _, _, ⟨ht, rfl⟩, ⟨rfl, rfl⟩, rfl⟩
    exact ⟨t, ht, rfl, rfl⟩
  · rintro ⟨t, ht, rfl, rfl⟩
    exact ⟨t, [t], [], ⟨ht, rfl⟩, ⟨rfl, rfl⟩, rfl⟩

/-- The end of a loop: a block and `done`. -/
theorem reads_loopEnd {d : Nat} {rule : Rule Node} (hrule : Reads rule (Fits .statement d))
    (build : Node → Node) :
    Reads (do let b ← block rule; let _ ← eatWord "done"; return build b) fun e ts =>
      ∃ b bs t, Fits .block d b bs ∧ t.isWord "done" ∧ e = build b ∧ ts = bs ++ [t] := by
  intro c e c'
  constructor
  · intro h
    obtain ⟨b, c₁, hb, h⟩ := bind_eq_ok.mp h
    obtain ⟨-, bs, hbs, hb⟩ := (block_eq_ok hrule).mp hb
    obtain ⟨_, hdone, t, ht, rfl, rfl⟩ := (reads_done (build b) _ _ _).mp h
    exact ⟨_, Cursor.passes_append.mpr ⟨c₁, hbs, hdone⟩, b, bs, t, hb, ht, rfl, rfl⟩
  · rintro ⟨ts, hpass, b, bs, t, hb, ht, rfl, rfl⟩
    obtain ⟨c₁, hbs, hdone⟩ := Cursor.passes_append.mp hpass
    have hat : c₁.atWord "done" := by rwa [Cursor.atWord, hdone.current]
    refine bind_eq_ok.mpr ⟨b, c₁,
      (block_eq_ok hrule).mpr ⟨closes_of_atWord hat (.inl rfl), bs, hbs, hb⟩, ?_⟩
    exact (reads_done (build b) _ _ _).mpr ⟨_, hdone, t, ht, rfl, rfl⟩

/-- The end of a branch: a block, perhaps an alternative, and `done`. -/
theorem reads_branchEnd {d : Nat} {rule : Rule Node} (hrule : Reads rule (Fits .statement d))
    (build : Node → Node → Node) :
    Reads (do
      let b ← block rule
      let c ← do
        if (← get).atWord "else" then
          let _ ← advance
          block rule
        else pure .missing
      let _ ← eatWord "done"
      return build b c) fun e ts =>
        ∃ b bs, Fits .block d b bs ∧
          ((∃ t, t.isWord "done" ∧ e = build b .missing ∧ ts = bs ++ [t]) ∨
            ∃ t c cs t', t.isWord "else" ∧ Fits .block d c cs ∧ t'.isWord "done" ∧
              e = build b c ∧ ts = bs ++ (t :: (cs ++ [t']))) := by
  intro c e c'
  constructor
  · intro h
    obtain ⟨b, c₁, hb, h⟩ := bind_eq_ok.mp h
    obtain ⟨-, bs, hbs, hb⟩ := (block_eq_ok hrule).mp hb
    rw [get_bind] at h
    -- The block stops before `done` or `else`, and that word decides.
    by_cases helse : c₁.atWord "else"
    · rw [if_pos helse] at h
      obtain ⟨t, c₂, ht, h⟩ := bind_eq_ok.mp h
      cases ht
      obtain ⟨a, c₃, ha, h⟩ := bind_eq_ok.mp h
      obtain ⟨-, cs, hcs, ha⟩ := (block_eq_ok hrule).mp ha
      obtain ⟨us, hdone, t', ht', rfl, rfl⟩ := (reads_done (build b a) _ _ _).mp h
      have hne : c₁.current.kind ≠ .eof := by simp [(Token.isWord_iff.mp helse).1]
      refine ⟨_, Cursor.passes_append.mpr ⟨c₁, hbs, ?_⟩, b, bs, hb,
        .inr ⟨c₁.current, a, cs, t', helse, ha, ht', rfl, rfl⟩⟩
      exact Cursor.passes_cons.mpr ⟨c₁.next, (Cursor.passes_singleton hne).mpr ⟨rfl, rfl⟩,
        Cursor.passes_append.mpr ⟨c₃, hcs, hdone⟩⟩
    · rw [if_neg helse] at h
      obtain ⟨us, hdone, t', ht', rfl, rfl⟩ := (reads_done (build b .missing) _ _ _).mp h
      exact ⟨_, Cursor.passes_append.mpr ⟨c₁, hbs, hdone⟩, b, bs, hb, .inl ⟨t', ht', rfl, rfl⟩⟩
  · rintro ⟨ts, hpass, b, bs, hb, ⟨t, ht, rfl, rfl⟩ | ⟨t, a, cs, t', ht, ha, ht', rfl, rfl⟩⟩
    · obtain ⟨c₁, hbs, hdone⟩ := Cursor.passes_append.mp hpass
      have hat : c₁.atWord "done" := by rwa [Cursor.atWord, hdone.current]
      refine bind_eq_ok.mpr ⟨b, c₁,
        (block_eq_ok hrule).mpr ⟨closes_of_atWord hat (.inl rfl), bs, hbs, hb⟩, ?_⟩
      rw [get_bind, if_neg (not_atWord hat (by decide))]
      -- With `done` before the cursor there is no alternative to read.
      exact (reads_done (build b .missing) _ _ _).mpr ⟨_, hdone, t, ht, rfl, rfl⟩
    · obtain ⟨c₁, hbs, hrest⟩ := Cursor.passes_append.mp hpass
      have hat : c₁.atWord "else" := by rwa [Cursor.atWord, hrest.current]
      obtain ⟨c₂, helse, hrest⟩ := Cursor.passes_cons.mp hrest
      obtain ⟨c₃, hcs, hdone⟩ := Cursor.passes_append.mp hrest
      have hat' : c₃.atWord "done" := by rwa [Cursor.atWord, hdone.current]
      obtain ⟨-, rfl⟩ :=
        (Cursor.passes_singleton (by simp [(Token.isWord_iff.mp ht).1])).mp helse
      refine bind_eq_ok.mpr ⟨b, c₁,
        (block_eq_ok hrule).mpr ⟨closes_of_atWord hat (.inr rfl), bs, hbs, hb⟩, ?_⟩
      rw [get_bind, if_pos hat]
      refine bind_eq_ok.mpr ⟨_, _, rfl, ?_⟩
      refine bind_eq_ok.mpr ⟨a, c₃,
        (block_eq_ok hrule).mpr ⟨closes_of_atWord hat' (.inl rfl), cs, hcs, ha⟩, ?_⟩
      exact (reads_done (build b a) _ _ _).mpr ⟨_, hdone, t', ht', rfl, rfl⟩

/-- The statements with a condition: their words, the condition, `is true`, and the rest. -/
theorem reads_conditional {d : Nat} {phrase : Text} {words : List Text} {rest : Node → Rule Node}
    {R : Node → Node → List Token → Prop} (hwords : phrase.words = words)
    (hrest : ∀ a, Reads (rest a) (R a)) :
    Reads (do eatPhrase phrase; let a ← expression d; eatPhrase "is true"; rest a) fun e ts =>
      ∃ p as q us a, Words words p ∧ Fits .expression d a as ∧ Words ["is", "true"] q ∧
        R a e us ∧ ts = p ++ (as ++ (q ++ us)) := by
  have htrue : (Text.ofString "is true").words = ["is", "true"] := rfl
  refine ((reads_eatPhrase hwords).bind fun _ => (reads_expression d).bind fun a =>
    (reads_eatPhrase htrue).bind fun _ => hrest a).congr fun e ts => ?_
  constructor
  · rintro ⟨-, p, -, hp, ⟨a, as, -, ha, ⟨-, q, us, hq, hus, rfl⟩, rfl⟩, rfl⟩
    exact ⟨p, as, q, us, a, hp, ha, hq, hus, rfl⟩
  · rintro ⟨p, as, q, us, a, hp, ha, hq, hus, rfl⟩
    exact ⟨(), p, _, hp, ⟨a, as, _, ha, ⟨(), q, us, hq, hus, rfl⟩, rfl⟩, rfl⟩

/-- Reads a statement as a strict reader does. -/
def statement (depth : Nat) : Rule Node := kept (statement? false depth)

/-- One level of the reader of statements, in either mode. -/
theorem statement?_succ (lenient : Bool) (d : Nat) (c : Cursor) :
    statement? lenient (d + 1) c =
      match order? c.current with
      | some order =>
        (do return some (← order c.current.line (expression d) (kept (statement? lenient d))) :
          Rule (Option Node)) c
      | none =>
        if lenient && c.blockDepth = 0 then .ok none c
        else .error (.refused ⟨.notAStatement, c.current, c.pos⟩) c := by
  rw [statement?, get_bind]
  cases order? c.current with
  | some order => rfl
  | none =>
    dsimp only
    split <;> rfl

/-- A statement that is there is kept as it is. -/
theorem kept_some (rule : Rule Node) : kept (do return some (← rule)) = rule := by
  funext c
  show EStateM.bind (EStateM.bind rule _) _ c = rule c
  unfold EStateM.bind
  cases rule c <;> rfl

/-- One level of what a block keeps, in either mode. -/
theorem kept_succ (lenient : Bool) (d : Nat) (c : Cursor) :
    kept (statement? lenient (d + 1)) c =
      match order? c.current with
      | some order => order c.current.line (expression d) (kept (statement? lenient d)) c
      | none =>
        if lenient && c.blockDepth = 0 then .ok .missing c
        else .error (.refused ⟨.notAStatement, c.current, c.pos⟩) c := by
  have hkept {x : Rule (Option Node)} (h : statement? lenient (d + 1) c = x c) :
      kept (statement? lenient (d + 1)) c = kept x c := bind_congr_at h fun _ _ _ => rfl
  have hsucc := statement?_succ lenient d c
  cases horder : order? c.current with
  | some order =>
    rw [horder] at hsucc
    have hread := congrFun (kept_some (order c.current.line (expression d)
      (kept (statement? lenient d)))) c
    exact (hkept (x := do return some (← order c.current.line _ _)) hsucc).trans hread
  | none =>
    rw [horder] at hsucc
    dsimp only at hsucc ⊢
    split at hsucc <;> rename_i htest
    · rw [if_pos htest]
      exact hkept (x := pure none) hsucc
    · rw [if_neg htest]
      exact hkept (x := refuse .notAStatement) hsucc

/-- One level of the strict reader, which refuses whatever starts no statement. -/
theorem statement_succ (d : Nat) (c : Cursor) :
    statement (d + 1) c =
      match order? c.current with
      | some order => order c.current.line (expression d) (statement d) c
      | none => .error (.refused ⟨.notAStatement, c.current, c.pos⟩) c :=
  kept_succ false d c

/-- The strict reader as a rule that looks at the cursor first. -/
theorem statement_eq (d : Nat) :
    statement (d + 1) = (do
      let c ← get
      match order? c.current with
      | some order => order c.current.line (expression d) (statement d)
      | none => refuse .notAStatement) := by
  funext c
  rw [statement_succ, get_bind]
  cases order? c.current <;> rfl

/-- A rule for statements is found by the word that it is listed under. -/
theorem order?_eq_some {t : Token}
    {order : Option Nat → Rule Node → Rule Node → Rule Node} (h : order? t = some order) :
    t.kind = .identifier ∧ (t.text, order) ∈ orders := by
  unfold order? at h
  split at h
  · next hkind => exact ⟨hkind, mem_of_lookup_eq_some h⟩
  · cases h

/-- What the rule of a statement reads is the spelling of a statement. -/
theorem fits_of_order {d : Nat} (ih : Reads (statement d) (Fits .statement d)) {text : Text}
    {order : Option Nat → Rule Node → Rule Node → Rule Node} (hmem : (text, order) ∈ orders)
    {c c' : Cursor} {s : Node}
    (h : order c.current.line (expression d) (statement d) c = .ok s c') :
    ∃ ts, c.Passes ts c' ∧ Fits .statement (d + 1) s ts := by
  have hexpr := reads_expression d
  -- One case for each statement, in the order of the table. Its first word is read once more.
  simp only [orders, List.mem_cons, Prod.mk.injEq, List.not_mem_nil, or_false] at hmem
  rcases hmem with ⟨-, rfl⟩ | ⟨-, rfl⟩ | ⟨-, rfl⟩ | ⟨-, rfl⟩ | ⟨-, rfl⟩
  · obtain ⟨ts, hts, p, as, a, hp, ⟨ha, hla⟩, rfl, rfl⟩ :=
      (reads_operand rfl hexpr (fun a => .shout c.current.line a) _ _ _).mp h
    obtain ⟨t, p', ht, hp', rfl⟩ := words_cons.mp hp
    rw [hts.current]
    exact ⟨_, hts, .shout ht hp' ha, by simp only [Node.levels]; omega⟩
  · obtain ⟨ts, hts, p, ns, q, as, n, a, hp, ⟨⟨hn, hln⟩, hname⟩, hq, ⟨ha, hla⟩, rfl, rfl⟩ :=
      (reads_between rfl (reads_spellName _) rfl hexpr (fun n a => .create c.current.line n a)
        _ _ _).mp h
    obtain ⟨t, p', ht, hp', rfl⟩ := words_cons.mp hp
    rw [hts.current]
    exact ⟨_, hts, .create ht hp' hn hname hq ha, by simp only [Node.levels]; omega⟩
  · obtain ⟨ts, hts, p, ns, q, as, n, a, hp, ⟨⟨hn, hln⟩, hname⟩, hq, ⟨ha, hla⟩, rfl, rfl⟩ :=
      (reads_between rfl (reads_spellName _) rfl hexpr (fun n a => .assign c.current.line n a)
        _ _ _).mp h
    obtain ⟨t, p', ht, hp', rfl⟩ := words_cons.mp hp
    rw [hts.current]
    exact ⟨_, hts, .assign ht hp' hn hname hq ha, by simp only [Node.levels]; omega⟩
  · obtain ⟨ts, hts, p, as, q, us, a, hp, ⟨ha, hla⟩, hq, ⟨b, bs, ⟨hb, hlb⟩, hend⟩, rfl⟩ :=
      (reads_conditional rfl (fun a => reads_branchEnd ih (.branch c.current.line a)) _ _ _).mp h
    obtain ⟨t, p', ht, hp', rfl⟩ := words_cons.mp hp
    rcases hend with ⟨t', ht', rfl, rfl⟩ | ⟨t', e, es, t'', ht', ⟨he, hle⟩, ht'', rfl, rfl⟩
    · rw [hts.current]
      exact ⟨_, hts, .branch ht hp' ha hq hb ht', by simp only [Node.levels]; omega⟩
    · rw [hts.current]
      exact ⟨_, hts, .branchElse ht hp' ha hq hb ht' he ht'', by simp only [Node.levels]; omega⟩
  · obtain ⟨ts, hts, p, as, q, us, a, hp, ⟨ha, hla⟩, hq, hend, rfl⟩ :=
      (reads_conditional rfl (fun a => reads_loopEnd ih (.loop c.current.line a)) _ _ _).mp h
    obtain ⟨b, bs, t', ⟨hb, hlb⟩, ht', rfl, rfl⟩ := hend
    obtain ⟨t, p', ht, hp', rfl⟩ := words_cons.mp hp
    rw [hts.current]
    exact ⟨_, hts, .loop ht hp' ha hq hb ht', by simp only [Node.levels]; omega⟩

/-- If the words after the first one are read as an order asks, the whole is read as its
statement. -/
theorem statement_of_order {d : Nat} {c c' : Cursor} {t : Token} {us : List Token} {s : Node}
    {word : Text} {order : Option Nat → Rule Node → Rule Node → Rule Node} (ht : t.isWord word)
    (hlookup : orders.lookup word = some order) (hpass : c.Passes (t :: us) c')
    (h : order t.line (expression d) (statement d) c = .ok s c') :
    statement (d + 1) c = .ok s c' := by
  obtain ⟨hkind, rfl⟩ := Token.isWord_iff.mp ht
  rw [statement_succ, hpass.current, order?, if_pos hkind, hlookup]
  exact h

/-- Every spelling of a statement is read as that statement. -/
theorem statement_of_fits {d : Nat} (ih : Reads (statement d) (Fits .statement d))
    {c c' : Cursor} {s : Node} {ts : List Token} (hpass : c.Passes ts c')
    (hfits : Fits .statement (d + 1) s ts) : statement (d + 1) c = .ok s c' := by
  obtain ⟨hspells, hlevels⟩ := hfits
  have hexpr := reads_expression d
  -- the rule of a statement reads its first word once more
  have hfirst {t : Token} {word : Text} {words : List Text} {p : List Token} (ht : t.isWord word)
      (hp : Words words p) : Words (word :: words) (t :: p) := words_cons.mpr ⟨t, p, ht, hp, rfl⟩
  cases hspells with
  | shout ht hp ha =>
    simp only [Node.levels] at hlevels
    refine statement_of_order ht rfl hpass ?_
    exact (reads_operand rfl hexpr (fun a => .shout _ a) _ _ _).mpr
      ⟨_, hpass, _, _, _, hfirst ht hp, ⟨ha, by omega⟩, rfl, rfl⟩
  | create ht hp hn hname hq ha =>
    simp only [Node.levels] at hlevels
    refine statement_of_order ht rfl hpass ?_
    exact (reads_between rfl (reads_spellName _) rfl hexpr (fun n a => .create _ n a) _ _ _).mpr
      ⟨_, hpass, _, _, _, _, _, _, hfirst ht hp, ⟨⟨hn, by omega⟩, hname⟩, hq, ⟨ha, by omega⟩, rfl,
        rfl⟩
  | assign ht hp hn hname hq ha =>
    simp only [Node.levels] at hlevels
    refine statement_of_order ht rfl hpass ?_
    exact (reads_between rfl (reads_spellName _) rfl hexpr (fun n a => .assign _ n a) _ _ _).mpr
      ⟨_, hpass, _, _, _, _, _, _, hfirst ht hp, ⟨⟨hn, by omega⟩, hname⟩, hq, ⟨ha, by omega⟩, rfl,
        rfl⟩
  | branch ht hp ha hq hb hd =>
    simp only [Node.levels] at hlevels
    refine statement_of_order ht rfl hpass ?_
    exact (reads_conditional rfl (fun a => reads_branchEnd ih (.branch _ a)) _ _ _).mpr
      ⟨_, hpass, _, _, _, _, _, hfirst ht hp, ⟨ha, by omega⟩, hq,
        ⟨_, _, ⟨hb, by omega⟩, .inl ⟨_, hd, rfl, rfl⟩⟩, rfl⟩
  | branchElse ht hp ha hq hb he hc hd =>
    simp only [Node.levels] at hlevels
    refine statement_of_order ht rfl hpass ?_
    exact (reads_conditional rfl (fun a => reads_branchEnd ih (.branch _ a)) _ _ _).mpr
      ⟨_, hpass, _, _, _, _, _, hfirst ht hp, ⟨ha, by omega⟩, hq,
        ⟨_, _, ⟨hb, by omega⟩, .inr ⟨_, _, _, _, he, ⟨hc, by omega⟩, hd, rfl, rfl⟩⟩, rfl⟩
  | loop ht hp ha hq hb hd =>
    simp only [Node.levels] at hlevels
    refine statement_of_order ht rfl hpass ?_
    exact (reads_conditional rfl (fun a => reads_loopEnd ih (.loop _ a)) _ _ _).mpr
      ⟨_, hpass, _, _, _, _, _, hfirst ht hp, ⟨ha, by omega⟩, hq,
        ⟨_, _, _, ⟨hb, by omega⟩, hd, rfl, rfl⟩, rfl⟩

/-- With `d` levels to go, the strict rule for statements reads the spellings that need no more of
them. -/
theorem reads_statement (d : Nat) : Reads (statement d) (Fits .statement d) := by
  induction d with
  | zero =>
    intro c s c'
    constructor
    · intro h
      cases h
    · rintro ⟨ts, -, hspells, hlevels⟩
      cases hspells <;> simp [Node.levels] at hlevels
  | succ d ih =>
    intro c s c'
    constructor
    · intro h
      rw [statement_succ] at h
      cases horder : order? c.current with
      | none =>
        rw [horder] at h
        cases h
      | some order =>
        rw [horder] at h
        exact fits_of_order ih (order?_eq_some horder).2 h
    · rintro ⟨ts, hpass, hfits⟩
      exact statement_of_fits ih hpass hfits

end Grammar
end Grimoire
