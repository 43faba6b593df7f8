import Grimoire.Proofs.Tree.Spelling

/-!
# Contracts of rules

What it takes to say that a rule of the grammar accepts exactly one kind of phrase.

* **`Cursor.Passes`** says that a cursor moves over some tokens, and nothing else happens to it.
* **`Rule.Reads`** is the contract of a rule: it succeeds exactly when the cursor passes tokens that
  make up an item, and the item is its result. Contracts of parts give the contract of the whole
  (`Reads.bind`), so a phrase needs no look at the cursor.
* **`reads_operand`**, **`reads_between`** and **`reads_after`** are the contracts of the three
  shapes that most phrases have.
-/

namespace Grimoire

/-! ## Moving over tokens -/

/-- The cursor `c` moves over the tokens `ts` and becomes `c'`. -/
structure Cursor.Passes (c : Cursor) (ts : List Token) (c' : Cursor) : Prop where
  rest : c.rest = ts ++ c'.rest
  stop : c'.stop = c.stop
  pos : c'.pos = c.pos + ts.length
  blockDepth : c'.blockDepth = c.blockDepth

namespace Cursor

theorem passes_nil {c c' : Cursor} : c.Passes [] c' ↔ c' = c := by
  constructor
  · intro h
    rw [Cursor.mk.injEq]
    exact ⟨h.rest.symm, h.stop, h.pos, h.blockDepth⟩
  · rintro rfl
    exact ⟨rfl, rfl, rfl, rfl⟩

/-- Moving over two lists of tokens in a row is moving over both. -/
theorem passes_append {c c'' : Cursor} {ts us : List Token} :
    c.Passes (ts ++ us) c'' ↔ ∃ c', c.Passes ts c' ∧ c'.Passes us c'' := by
  constructor
  · intro h
    refine ⟨{ c with rest := us ++ c''.rest, pos := c.pos + ts.length }, ⟨?_, rfl, rfl, rfl⟩,
      ⟨rfl, h.stop, ?_, h.blockDepth⟩⟩
    · rw [h.rest, List.append_assoc]
    · rw [h.pos, List.length_append, Nat.add_assoc]
  · rintro ⟨c', h, h'⟩
    refine ⟨?_, h'.stop.trans h.stop, ?_, h'.blockDepth.trans h.blockDepth⟩
    · rw [h.rest, h'.rest, List.append_assoc]
    · rw [h'.pos, h.pos, List.length_append, Nat.add_assoc]

/-- To pass over a list of tokens is to pass over its head and then over its tail. -/
theorem passes_cons {c c'' : Cursor} {t : Token} {ts : List Token} :
    c.Passes (t :: ts) c'' ↔ ∃ c', c.Passes [t] c' ∧ c'.Passes ts c'' := by
  show c.Passes ([t] ++ ts) c'' ↔ _
  exact passes_append

theorem Passes.current {c c' : Cursor} {t : Token} {ts : List Token} (h : c.Passes (t :: ts) c') :
    c.current = t := by
  simp [Cursor.current, h.rest]

/-- A token that is not the end of the spell is passed by one step. -/
theorem passes_singleton {c c' : Cursor} {t : Token} (ht : t.kind ≠ .eof) :
    c.Passes [t] c' ↔ c.current = t ∧ c.next = c' := by
  obtain ⟨rest, stop, pos, blockDepth⟩ := c
  obtain ⟨rest', stop', pos', blockDepth'⟩ := c'
  constructor
  · rintro ⟨hrest, hstop, hpos, hdepth⟩
    simp only [List.cons_append, List.nil_append, List.length_singleton] at hrest hstop hpos hdepth
    subst hrest hstop hpos hdepth
    exact ⟨rfl, by simp [Cursor.next, Cursor.atEnd, Cursor.current, ht]⟩
  · rintro ⟨hcur, hnext⟩
    cases rest with
    | nil =>
      -- past the last token there is only the end of the spell
      rw [← hcur] at ht
      exact absurd rfl ht
    | cons t' rest =>
      simp only [Cursor.current, List.headD_cons] at hcur
      subst hcur
      simp only [Cursor.next, Cursor.atEnd, Cursor.current, List.headD_cons, ht, decide_false,
        Bool.false_eq_true, if_false, List.tail_cons] at hnext
      cases hnext
      exact ⟨rfl, rfl, rfl, rfl⟩

end Cursor

/-! ## Contracts of rules -/

namespace Rule

variable {α β : Type}

/-- The rule succeeds exactly when the cursor passes tokens that make up an item, and the item is
its result. -/
def Reads (r : Rule α) (item : α → List Token → Prop) : Prop :=
  ∀ c a c', r c = .ok a c' ↔ ∃ ts, c.Passes ts c' ∧ item a ts

theorem bind_eq_ok {x : Rule α} {f : α → Rule β} {c c'' : Cursor} {b : β} :
    (x >>= f) c = .ok b c'' ↔ ∃ a c', x c = .ok a c' ∧ f a c' = .ok b c'' := by
  show EStateM.bind x f c = _ ↔ _
  unfold EStateM.bind
  cases x c with
  | ok a c' => simp
  | error e c' => simp

theorem pure_eq_ok {a b : α} {c c' : Cursor} :
    (pure a : Rule α) c = .ok b c' ↔ a = b ∧ c = c' := by
  show EStateM.Result.ok a c = _ ↔ _
  rw [EStateM.Result.ok.injEq]

/-- A rule that has succeeded hands its result and its cursor on. -/
theorem bind_of_ok {x : Rule α} {f : α → Rule β} {c c' : Cursor} {a : α} (h : x c = .ok a c') :
    (x >>= f) c = f a c' := by
  show EStateM.bind x f c = _
  unfold EStateM.bind
  rw [h]

theorem bind_of_error {x : Rule α} {f : α → Rule β} {c c' : Cursor} {e : ParseFailure}
    (h : x c = .error e c') : (x >>= f) c = .error e c' := by
  show EStateM.bind x f c = _
  unfold EStateM.bind
  rw [h]

/-- Rules in a row do the same as others if the first ones do, and the second ones wherever the
first lead. -/
theorem bind_congr_at {x y : Rule α} {f g : α → Rule β} {c : Cursor} (hxy : x c = y c)
    (hfg : ∀ a c', y c = .ok a c' → f a c' = g a c') : (x >>= f) c = (y >>= g) c := by
  cases hy : y c with
  | ok a c' => rw [bind_of_ok (hxy.trans hy), bind_of_ok hy, hfg a c' hy]
  | error failure c' => rw [bind_of_error (hxy.trans hy), bind_of_error hy]

/-- To look at the cursor does not move it. -/
theorem get_bind {f : Cursor → Rule α} {c : Cursor} : (get >>= f) c = f c c := rfl

theorem refuse_ne_ok {cause : ParseCause} {a : α} {c c' : Cursor} :
    (refuse cause : Rule α) c ≠ .ok a c' := by
  intro h
  cases h

namespace Reads

variable {x : Rule α} {f : α → Rule β} {P Q : α → List Token → Prop} {R : α → β → List Token → Prop}

/-- To return a result is to read an item of no tokens. -/
theorem pure (a : α) : Reads (Pure.pure a : Rule α) fun b ts => b = a ∧ ts = [] := by
  intro c b c'
  rw [pure_eq_ok]
  constructor
  · rintro ⟨rfl, rfl⟩
    exact ⟨[], Cursor.passes_nil.mpr rfl, rfl, rfl⟩
  · rintro ⟨ts, hpass, rfl, rfl⟩
    exact ⟨rfl, (Cursor.passes_nil.mp hpass).symm⟩

/-- One rule after the other reads one item after the other. -/
theorem bind (hx : Reads x P) (hf : ∀ a, Reads (f a) (R a)) :
    Reads (x >>= f) fun b ts => ∃ a us vs, P a us ∧ R a b vs ∧ ts = us ++ vs := by
  intro c b c''
  rw [bind_eq_ok]
  constructor
  · rintro ⟨a, c', hxc, hfc⟩
    obtain ⟨us, hus, ha⟩ := (hx _ _ _).mp hxc
    obtain ⟨vs, hvs, hb⟩ := (hf a _ _ _).mp hfc
    exact ⟨us ++ vs, Cursor.passes_append.mpr ⟨c', hus, hvs⟩, a, us, vs, ha, hb, rfl⟩
  · rintro ⟨ts, hts, a, us, vs, ha, hb, rfl⟩
    obtain ⟨c', hus, hvs⟩ := Cursor.passes_append.mp hts
    exact ⟨a, c', (hx _ _ _).mpr ⟨us, hus, ha⟩, (hf a _ _ _).mpr ⟨vs, hvs, hb⟩⟩

/-- What a rule reads may be described in other words. -/
theorem congr (hx : Reads x P) (h : ∀ a ts, P a ts ↔ Q a ts) : Reads x Q := by
  intro c a c'
  rw [hx c a c']
  simp only [h]

end Reads

/-- To eat a word is to read one token that is that word. -/
theorem reads_eatWord (word : Text) :
    Reads (eatWord word) fun t ts => t.isWord word ∧ ts = [t] := by
  intro c t c'
  show (get >>= fun c : Cursor =>
    if c.atWord word then advance else refuse (.expectedWord word)) c = _ ↔ _
  rw [get_bind]
  by_cases hword : c.current.isWord word
  · rw [if_pos (show c.atWord word = true from hword)]
    -- A word is not the end of the spell, so taking it moves the cursor.
    have hkind : c.current.kind ≠ .eof := by
      rw [(Token.isWord_iff.mp hword).1]
      decide
    constructor
    · intro h
      cases h
      exact ⟨_, (Cursor.passes_singleton hkind).mpr ⟨rfl, rfl⟩, hword, rfl⟩
    · rintro ⟨ts, hts, ht, rfl⟩
      obtain rfl := hts.current
      obtain ⟨-, rfl⟩ := (Cursor.passes_singleton hkind).mp hts
      rfl
  · rw [if_neg (show ¬c.atWord word = true from hword)]
    constructor
    · intro h
      exact absurd h refuse_ne_ok
    · rintro ⟨ts, hts, ht, rfl⟩
      rw [hts.current] at hword
      exact absurd ht hword

/-- To eat several words is to read them one after the other. -/
theorem reads_eatWords (words : List Text) : Reads (eatWords words) fun _ ts => Words words ts := by
  induction words with
  | nil => exact (Reads.pure ()).congr (by simp)
  | cons word words ih =>
    refine ((reads_eatWord word).bind fun _ => ih).congr fun _ ts => ?_
    rw [words_cons]
    constructor
    · rintro ⟨t, _, us, ⟨ht, rfl⟩, hus, rfl⟩
      exact ⟨t, us, ht, hus, rfl⟩
    · rintro ⟨t, us, ht, hus, rfl⟩
      exact ⟨t, [t], us, ⟨ht, rfl⟩, hus, rfl⟩

/-- To eat a phrase is to read the words it is made of. -/
theorem reads_eatPhrase {phrase : Text} {words : List Text} (h : phrase.words = words) :
    Reads (eatPhrase phrase) fun _ ts => Words words ts :=
  h ▸ reads_eatWords phrase.words

/-! ### The shapes of phrases

Most phrases have one of three shapes: the words and one part, two parts with words between them, or
two parts with words after them. -/

section Shapes

variable {x y : Rule Node} {P Q : Node → List Token → Prop} {phrase sep : Text} {ps qs : List Text}

/-- A phrase with one operand at its end, such as *may the sorcerers cast their spells on* an
operand. -/
theorem reads_operand (hp : phrase.words = ps) (hx : Reads x P) (build : Node → Node) :
    Reads (do eatPhrase phrase; return build (← x)) fun e ts =>
      ∃ p as a, Words ps p ∧ P a as ∧ e = build a ∧ ts = p ++ as := by
  refine ((reads_eatPhrase hp).bind fun _ => hx.bind fun a => .pure (build a)).congr fun e ts => ?_
  constructor
  · rintro ⟨-, p, -, hp, ⟨a, as, -, ha, ⟨rfl, rfl⟩, rfl⟩, rfl⟩
    exact ⟨p, as, a, hp, ha, rfl, by rw [List.append_nil]⟩
  · rintro ⟨p, as, a, hp, ha, rfl, rfl⟩
    exact ⟨(), p, as, hp, ⟨a, as, [], ha, ⟨rfl, rfl⟩, by rw [List.append_nil]⟩, rfl⟩

/-- A phrase with words between its two operands, such as *combine the power of* one *and* the
other. -/
theorem reads_between (hp : phrase.words = ps) (hx : Reads x P) (hq : sep.words = qs)
    (hy : Reads y Q) (build : Node → Node → Node) :
    Reads (do eatPhrase phrase; let a ← x; eatPhrase sep; return build a (← y)) fun e ts =>
      ∃ p as q bs a b, Words ps p ∧ P a as ∧ Words qs q ∧ Q b bs ∧ e = build a b ∧
        ts = p ++ (as ++ (q ++ bs)) := by
  refine ((reads_eatPhrase hp).bind fun _ => hx.bind fun a =>
    reads_operand hq hy (build a)).congr fun e ts => ?_
  constructor
  · rintro ⟨-, p, -, hp, ⟨a, as, -, ha, ⟨q, bs, b, hq, hb, rfl, rfl⟩, rfl⟩, rfl⟩
    exact ⟨p, as, q, bs, a, b, hp, ha, hq, hb, rfl, rfl⟩
  · rintro ⟨p, as, q, bs, a, b, hp, ha, hq, hb, rfl, rfl⟩
    exact ⟨(), p, _, hp, ⟨a, as, _, ha, ⟨q, bs, b, hq, hb, rfl, rfl⟩, rfl⟩, rfl⟩

/-- A phrase with words after its two operands, such as *split the power of* one and the other
*times*. -/
theorem reads_after (hp : phrase.words = ps) (hx : Reads x P) (hy : Reads y Q)
    (hq : sep.words = qs) (build : Node → Node → Node) :
    Reads (do eatPhrase phrase; let a ← x; let b ← y; eatPhrase sep; return build a b) fun e ts =>
      ∃ p as bs q a b, Words ps p ∧ P a as ∧ Q b bs ∧ Words qs q ∧ e = build a b ∧
        ts = p ++ (as ++ (bs ++ q)) := by
  refine ((reads_eatPhrase hp).bind fun _ => hx.bind fun a => hy.bind fun b =>
    (reads_eatPhrase hq).bind fun _ => .pure (build a b)).congr fun e ts => ?_
  constructor
  · rintro ⟨-, p, -, hp, ⟨a, as, -, ha, ⟨b, bs, -, hb, ⟨-, q, -, hq, ⟨rfl, rfl⟩, rfl⟩, rfl⟩, rfl⟩,
      rfl⟩
    exact ⟨p, as, bs, q, a, b, hp, ha, hb, hq, rfl, by rw [List.append_nil]⟩
  · rintro ⟨p, as, bs, q, a, b, hp, ha, hb, hq, rfl, rfl⟩
    exact ⟨(), p, _, hp, ⟨a, as, _, ha, ⟨b, bs, _, hb, ⟨(), q, [], hq, ⟨rfl, rfl⟩,
      by rw [List.append_nil]⟩, rfl⟩, rfl⟩, rfl⟩

end Shapes
end Rule

end Grimoire
