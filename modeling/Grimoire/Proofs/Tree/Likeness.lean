import Grimoire.Proofs.Token.Shape
import Grimoire.Proofs.Tree.Leniency
import Grimoire.Proofs.Tree.Relining

/-!
# Reading tokens that look alike

A rule decides by the kinds and the texts of the tokens that it passes, and of the token before
which it stops. It looks at no mark, and at no token further on.

* **`Cursor.Alike n`** relates two cursors in the same position whose tokens before position `n`
  have the same kinds and texts.
* **`Rule.Alike`** relates two rules that do the same on such cursors, as long as the first one ends
  before position `n`: they return trees that differ in their lines only, or they fail in the same
  way and in the same position. Nesting is told apart: two rules with different nesting limits are
  related as long as the first does not run into its limit.
* **`alike_expression`** and **`alike_statement`** relate the rules that tie the knot. One case for
  each phrase is all that is needed, since the relation respects sequences (`Alike.bind`).
-/

namespace Grimoire

/-! ## Likeness -/

/-- The tokens have the same kind and the same text, whatever their places are. -/
def Token.Alike (t u : Token) : Prop := t.kind = u.kind ∧ t.text = u.text

/-- Tokens with one look are alike. -/
theorem Token.alike_of_look {t u : Token} (h : t.look = u.look) : t.Alike u := Prod.mk.inj h

theorem Token.Alike.refl (t : Token) : t.Alike t := ⟨rfl, rfl⟩

/-- Of tokens that are alike, both are a given word or neither is. -/
theorem Token.Alike.isWord {t u : Token} (h : t.Alike u) (word : Text) :
    t.isWord word = u.isWord word := by
  unfold Token.isWord
  rw [h.1, h.2]

/-- Tokens that are alike are described in the same way. -/
theorem Token.Alike.describe {t u : Token} (h : t.Alike u) : t.describe = u.describe := by
  unfold Token.describe Token.text?
  rw [h.1, h.2]

/-- The trees are the same apart from the numbers of their lines. -/
def Node.Alike (a b : Node) : Prop := a.mapLine (fun _ => 0) = b.mapLine (fun _ => 0)

/-- The failures are the same apart from the places of their tokens. -/
def ParseFailure.Alike : ParseFailure → ParseFailure → Prop
  | .refused e, .refused e' => e.cause = e'.cause ∧ e.token.Alike e'.token ∧ e.pos = e'.pos
  | failure, failure' => failure = failure'

namespace Cursor

/-- The token `i` places after the cursor. Past the last token there is only the end. -/
def ahead (c : Cursor) (i : Nat) : Token := c.rest.getD i (Token.eof c.stop)

theorem ahead_zero (c : Cursor) : c.ahead 0 = c.current := by
  obtain ⟨rest, stop, pos, blockDepth⟩ := c
  cases rest <;> rfl

/-- What is ahead of the next cursor is one place further ahead now. -/
theorem ahead_next {c : Cursor} (h : c.atEnd = false) (i : Nat) :
    c.next.ahead i = c.ahead (i + 1) := by
  unfold next
  rw [h]
  obtain ⟨rest, stop, pos, blockDepth⟩ := c
  cases rest <;> rfl

/-- The cursors are in the same position, and their tokens before position `n` look alike. -/
structure Alike (n : Nat) (c₁ c₂ : Cursor) : Prop where
  pos : c₁.pos = c₂.pos
  blockDepth : c₁.blockDepth = c₂.blockDepth
  ahead : ∀ i, c₁.pos + i < n → (c₁.ahead i).Alike (c₂.ahead i)

theorem Alike.refl (n : Nat) (c : Cursor) : Alike n c c :=
  ⟨rfl, rfl, fun i _ => .refl (c.ahead i)⟩

theorem Alike.current {n : Nat} {c₁ c₂ : Cursor} (h : Alike n c₁ c₂) (hn : c₁.pos < n) :
    c₁.current.Alike c₂.current := by
  rw [← ahead_zero, ← ahead_zero]
  exact h.ahead 0 hn

theorem Alike.atEnd {n : Nat} {c₁ c₂ : Cursor} (h : Alike n c₁ c₂) (hn : c₁.pos < n) :
    c₁.atEnd = c₂.atEnd := by
  unfold Cursor.atEnd
  rw [(h.current hn).1]

/-- Cursors that are alike stay so when both move on. -/
theorem Alike.next {n : Nat} {c₁ c₂ : Cursor} (h : Alike n c₁ c₂) (hn : c₁.pos < n) :
    Alike n c₁.next c₂.next := by
  have hends := h.atEnd hn
  cases hend : c₁.atEnd with
  | true =>
    unfold Cursor.next
    rw [← hends, hend]
    exact h
  | false =>
    -- Both cursors have moved by one, so what was one place further ahead is now compared.
    have hahead (i : Nat) (hi : c₁.pos + 1 + i < n) :
        (c₁.next.ahead i).Alike (c₂.next.ahead i) := by
      rw [ahead_next hend, ahead_next (hends.symm.trans hend)]
      exact h.ahead (i + 1) (by omega)
    unfold Cursor.next at hahead ⊢
    rw [← hends, hend] at hahead ⊢
    exact ⟨congrArg (· + 1) h.pos, h.blockDepth, hahead⟩

/-- From the first cursor one looks ahead along the whole list of tokens. -/
theorem ahead_start (ts : Tokens) (i : Nat) :
    (start ts).ahead i = ts.toList[i]?.getD (Token.eof ts.stop) := by
  show ts.body.getD i (Token.eof ts.stop) = _
  rw [List.getD_eq_getElem?_getD]
  by_cases hi : i < ts.body.length
  · rw [Tokens.toList, List.getElem?_append_left hi]
  · rw [Tokens.toList, List.getElem?_append_right (by omega), List.getElem?_eq_none (by omega)]
    cases i - ts.body.length <;> rfl

/-- Tokens that look alike up to position `n` are read from cursors that are alike. -/
theorem alike_start {n : Nat} {ts us : Tokens}
    (h : ∀ i < n, ts.toList[i]?.map Token.look = us.toList[i]?.map Token.look) :
    Alike n (start ts) (start us) := by
  refine ⟨rfl, rfl, fun i hi => ?_⟩
  have hi' : ts.toList[i]?.map Token.look = us.toList[i]?.map Token.look := h i (by
    show i < n
    have hpos : (start ts).pos = 0 := rfl
    omega)
  rw [ahead_start, ahead_start]
  apply Token.alike_of_look
  cases ht : ts.toList[i]? with
  | none =>
    rw [ht, Option.map_none, eq_comm, Option.map_eq_none_iff] at hi'
    rw [hi']
    rfl
  | some t =>
    rw [ht, Option.map_some, eq_comm, Option.map_eq_some_iff] at hi'
    obtain ⟨u, hu, hlook⟩ := hi'
    rw [hu]
    exact hlook.symm

/-- A cursor never moves back. -/
theorem pos_le_next (c : Cursor) : c.pos ≤ c.next.pos := by
  unfold Cursor.next
  split
  · exact Nat.le_refl _
  · exact Nat.le_succ _

end Cursor

namespace Rule

variable {α β γ δ : Type}

/-- The cursor with which a rule ends, however it ends. -/
def after (x : Rule α) (c : Cursor) : Cursor :=
  match x c with
  | .ok _ c' => c'
  | .error _ c' => c'

/-- Two rules end in the same way, with cursors that are alike. Nothing is said where the first one
runs into its nesting limit, unless `deep`. -/
inductive Ends (deep : Prop) (R : α → β → Prop) (n : Nat) :
    EStateM.Result ParseFailure Cursor α → EStateM.Result ParseFailure Cursor β → Prop where
  | ok {a : α} {b : β} {c₁ c₂ : Cursor} (hab : R a b) (hc : Cursor.Alike n c₁ c₂) :
      Ends deep R n (.ok a c₁) (.ok b c₂)
  | error {f g : ParseFailure} {c₁ c₂ : Cursor} (hfg : f.Alike g) (hc : Cursor.Alike n c₁ c₂) :
      Ends deep R n (.error f c₁) (.error g c₂)
  | tooDeep {c₁ : Cursor} {r : EStateM.Result ParseFailure Cursor β} (hdeep : ¬deep) :
      Ends deep R n (.error .tooDeep c₁) r

/-- The rules do the same on cursors that are alike, as far as the first one goes. -/
structure Alike (deep : Prop) (R : α → β → Prop) (x : Rule α) (y : Rule β) : Prop where
  onward : ∀ c, c.pos ≤ (x.after c).pos
  ends : ∀ n c₁ c₂, Cursor.Alike n c₁ c₂ → (x.after c₁).pos < n → Ends deep R n (x c₁) (y c₂)

variable {deep : Prop} {R : α → β → Prop} {S : γ → δ → Prop}

/-- If the first rule succeeds, so does the second, with something alike. -/
theorem Ends.of_ok {n : Nat} {a : α} {c₁ : Cursor} {r : EStateM.Result ParseFailure Cursor β}
    (h : Ends deep R n (.ok a c₁) r) : ∃ b c₂, r = .ok b c₂ ∧ R a b ∧ Cursor.Alike n c₁ c₂ := by
  cases h with
  | ok hab hc => exact ⟨_, _, rfl, hab, hc⟩

/-- If the first rule fails, so does the second, unless nesting does not count and was too deep. -/
theorem Ends.of_error {n : Nat} {f : ParseFailure} {c₁ : Cursor}
    {r : EStateM.Result ParseFailure Cursor β} (h : Ends deep R n (.error f c₁) r) :
    (∃ g c₂, r = .error g c₂ ∧ f.Alike g ∧ Cursor.Alike n c₁ c₂) ∨ f = .tooDeep ∧ ¬deep := by
  cases h with
  | error hfg hc => exact .inl ⟨_, _, rfl, hfg, hc⟩
  | tooDeep hdeep => exact .inr ⟨rfl, hdeep⟩

theorem after_of_ok {x : Rule α} {c c' : Cursor} {a : α} (h : x c = .ok a c') :
    x.after c = c' := by
  rw [after, h]

theorem after_of_error {x : Rule α} {c c' : Cursor} {e : ParseFailure} (h : x c = .error e c') :
    x.after c = c' := by
  rw [after, h]

theorem after_bind_of_ok {x : Rule α} {f : α → Rule γ} {c c' : Cursor} {a : α}
    (h : x c = .ok a c') : (x >>= f).after c = (f a).after c' := by
  unfold after
  rw [bind_of_ok h]

namespace Alike

/-- Whatever a rule returns, the other rule returns something like it. -/
theorem exists_of_ok {x : Rule α} {y : Rule β} (h : Alike deep R x y) {c c' : Cursor} {a : α}
    (ha : x c = .ok a c') : ∃ b, R a b := by
  have hends := h.ends ((x.after c).pos + 1) c c (.refl _ c) (Nat.lt_succ_self _)
  rw [ha] at hends
  obtain ⟨b, -, -, hab, -⟩ := hends.of_ok
  exact ⟨b, hab⟩

/-- **Likeness respects sequences.** The second rules are applied in the positions where the first
ones end, which are no further on than the end of the sequence. -/
theorem bind {x : Rule α} {y : Rule β} {f : α → Rule γ} {g : β → Rule δ} (hxy : Alike deep R x y)
    (hfg : ∀ a b, R a b → Alike deep S (f a) (g b)) : Alike deep S (x >>= f) (y >>= g) := by
  -- The first rule ends no further on than both together, so likeness up to the end of both is
  -- enough for it.
  have honward (c : Cursor) : (x.after c).pos ≤ ((x >>= f).after c).pos := by
    cases hx : x c with
    | error e c' =>
      have hend : (x >>= f).after c = x.after c := by
        rw [after_of_error hx, after_of_error (bind_of_error hx)]
      exact Nat.le_of_eq (congrArg Cursor.pos hend.symm)
    | ok a c' =>
      obtain ⟨b, hab⟩ := hxy.exists_of_ok hx
      rw [after_of_ok hx, after_bind_of_ok hx]
      exact (hfg a b hab).onward c'
  refine ⟨fun c => Nat.le_trans (hxy.onward c) (honward c), fun n c₁ c₂ hc hn => ?_⟩
  have hends := hxy.ends n c₁ c₂ hc (Nat.lt_of_le_of_lt (honward c₁) hn)
  cases hx : x c₁ with
  | error e c₁' =>
    rw [hx] at hends
    rw [bind_of_error hx]
    rcases hends.of_error with ⟨e', c₂', hy, he, hc'⟩ | ⟨rfl, hdeep⟩
    · rw [bind_of_error hy]
      exact .error he hc'
    · exact .tooDeep hdeep
  | ok a c₁' =>
    rw [hx] at hends
    rw [after_bind_of_ok hx] at hn
    -- Both second rules go on from cursors that are alike again.
    obtain ⟨b, c₂', hy, hab, hc'⟩ := hends.of_ok
    rw [bind_of_ok hx, bind_of_ok hy]
    exact (hfg a b hab).ends n c₁' c₂' hc' hn

theorem pure {a : α} {b : β} (h : R a b) : Alike deep R (Pure.pure a) (Pure.pure b) :=
  ⟨fun _ => Nat.le_refl _, fun _ _ _ hc _ => .ok h hc⟩

/-- What comes after a look at the cursor, if likeness of cursors is enough for it. -/
theorem get_bind {F : Cursor → Rule α} {G : Cursor → Rule β}
    (h : ∀ n c₁ c₂, Cursor.Alike n c₁ c₂ → c₁.pos < n → Alike deep R (F c₁) (G c₂)) :
    Alike deep R (get >>= F) (get >>= G) := by
  have honward (c : Cursor) : c.pos ≤ ((F c).after c).pos :=
    (h (c.pos + 1) c c (.refl _ c) (Nat.lt_succ_self _)).onward c
  refine ⟨honward, fun n c₁ c₂ hc hn => ?_⟩
  exact (h n c₁ c₂ hc (Nat.lt_of_le_of_lt (honward c₁) hn)).ends n c₁ c₂ hc hn

/-- A refusal names the current token, which is one alike on both sides. -/
theorem refuse (cause : ParseCause) :
    Alike deep R (refuse cause : Rule α) (refuse cause : Rule β) := by
  refine ⟨fun _ => Nat.le_refl _, fun n c₁ c₂ hc hn => ?_⟩
  exact .error ⟨rfl, hc.current hn, hc.pos⟩ hc

theorem throw (failure : ParseFailure) (h : failure.Alike failure) :
    Alike deep R (throw failure : Rule α) (throw failure : Rule β) :=
  ⟨fun _ => Nat.le_refl _, fun _ _ _ hc _ => .error h hc⟩

theorem advance : Alike deep Token.Alike advance advance := by
  refine ⟨Cursor.pos_le_next, fun n c₁ c₂ hc hn => ?_⟩
  have hpos := Nat.lt_of_le_of_lt c₁.pos_le_next hn
  exact .ok (hc.current hpos) (hc.next hpos)

/-- To count the open blocks in the same way keeps cursors alike. -/
theorem modifyDepth (f : Nat → Nat) : Alike deep (fun _ _ => True)
    (modify fun c => { c with blockDepth := f c.blockDepth })
    (modify fun c => { c with blockDepth := f c.blockDepth }) :=
  ⟨fun _ => Nat.le_refl _,
    fun _ _ _ hc _ => .ok trivial ⟨hc.pos, congrArg f hc.blockDepth, hc.ahead⟩⟩

theorem eatWord (word : Text) : Alike deep Token.Alike (eatWord word) (eatWord word) := by
  refine get_bind fun n c₁ c₂ hc hn => ?_
  unfold Cursor.atWord
  rw [(hc.current hn).isWord word]
  split
  · exact advance
  · exact refuse _

theorem eatWords (words : List Text) : Alike deep (fun _ _ => True) (eatWords words)
    (eatWords words) := by
  induction words with
  | nil => exact .pure trivial
  | cons word words ih => exact (eatWord word).bind fun _ _ _ => ih

theorem eatPhrase (phrase : Text) : Alike deep (fun _ _ => True) (eatPhrase phrase)
    (eatPhrase phrase) := eatWords phrase.words

/-! ### The shapes of phrases -/

section Shapes

variable {x x' y y' : Rule Node}

theorem operand (phrase : Text) (hx : Alike deep Node.Alike x x') {build build' : Node → Node}
    (h : ∀ a a', a.Alike a' → (build a).Alike (build' a')) :
    Alike deep Node.Alike (do Rule.eatPhrase phrase; return build (← x))
      (do Rule.eatPhrase phrase; return build' (← x')) :=
  (eatPhrase phrase).bind fun _ _ _ => hx.bind fun a a' ha => .pure (h a a' ha)

theorem between (phrase sep : Text) (hx : Alike deep Node.Alike x x')
    (hy : Alike deep Node.Alike y y') {build build' : Node → Node → Node}
    (h : ∀ a a' b b', a.Alike a' → b.Alike b' → (build a b).Alike (build' a' b')) :
    Alike deep Node.Alike
      (do Rule.eatPhrase phrase; let a ← x; Rule.eatPhrase sep; return build a (← y))
      (do Rule.eatPhrase phrase; let a ← x'; Rule.eatPhrase sep; return build' a (← y')) :=
  (eatPhrase phrase).bind fun _ _ _ => hx.bind fun a a' ha =>
    operand sep hy fun b b' hb => h a a' b b' ha hb

theorem operands (phrase sep : Text) (hx : Alike deep Node.Alike x x')
    (hy : Alike deep Node.Alike y y') {build build' : Node → Node → Node}
    (h : ∀ a a' b b', a.Alike a' → b.Alike b' → (build a b).Alike (build' a' b')) :
    Alike deep Node.Alike
      (do Rule.eatPhrase phrase; let a ← x; let b ← y; Rule.eatPhrase sep; return build a b)
      (do Rule.eatPhrase phrase; let a ← x'; let b ← y'; Rule.eatPhrase sep; return build' a b) :=
  (eatPhrase phrase).bind fun _ _ _ => hx.bind fun a a' ha => hy.bind fun b b' hb =>
    (eatPhrase sep).bind fun _ _ _ => .pure (h a a' b b' ha hb)

end Shapes
end Alike
end Rule

/-! ## Trees with other lines -/

namespace Node

variable {l m : Nat} {a a' b b' c c' : Node}

theorem Alike.binary (op : BinaryOp) (ha : a.Alike a') (hb : b.Alike b') :
    (Node.binary (some l) a op b).Alike (.binary (some m) a' op b') := by
  unfold Node.Alike mapLine
  rw [ha, hb]
  rfl

theorem Alike.unary (op : UnaryOp) (ha : a.Alike a') :
    (Node.unary (some l) op a).Alike (.unary (some m) op a') := by
  unfold Node.Alike mapLine
  rw [ha]
  rfl

theorem Alike.shout (ha : a.Alike a') : (Node.shout (some l) a).Alike (.shout (some m) a') := by
  unfold Node.Alike mapLine
  rw [ha]
  rfl

theorem Alike.create (ha : a.Alike a') (hb : b.Alike b') :
    (Node.create (some l) a b).Alike (.create (some m) a' b') := by
  unfold Node.Alike mapLine
  rw [ha, hb]
  rfl

theorem Alike.assign (ha : a.Alike a') (hb : b.Alike b') :
    (Node.assign (some l) a b).Alike (.assign (some m) a' b') := by
  unfold Node.Alike mapLine
  rw [ha, hb]
  rfl

theorem Alike.branch (ha : a.Alike a') (hb : b.Alike b') (hc : c.Alike c') :
    (Node.branch (some l) a b c).Alike (.branch (some m) a' b' c') := by
  unfold Node.Alike mapLine
  rw [ha, hb, hc]
  rfl

theorem Alike.loop (ha : a.Alike a') (hb : b.Alike b') :
    (Node.loop (some l) a b).Alike (.loop (some m) a' b') := by
  unfold Node.Alike mapLine
  rw [ha, hb]
  rfl

/-- The trees of two lists are alike, one by one. -/
def AllAlike (as bs : List Node) : Prop :=
  as.map (mapLine fun _ => 0) = bs.map (mapLine fun _ => 0)

theorem AllAlike.cons {as bs : List Node} (h : a.Alike b) (hs : AllAlike as bs) :
    AllAlike (a :: as) (b :: bs) := by
  unfold AllAlike
  rw [List.map_cons, List.map_cons, h, hs]

theorem Alike.block {as bs : List Node} (h : AllAlike as bs) :
    (Node.block (some l) as).Alike (.block (some m) bs) := by
  unfold Node.Alike mapLine
  rw [mapLineOfAll_eq_map, mapLineOfAll_eq_map, h]
  rfl

end Node

namespace Grammar

open Rule

variable {deep : Prop}

/-! ## Expressions -/

/-- The words of a comparison name the same operator on both sides. -/
theorem alike_comparator : Alike deep Eq comparator comparator := by
  refine .get_bind fun n c₁ c₂ hc hn => ?_
  have halternative (phrase : Text) (op : BinaryOp) : Alike deep Eq
      (do let _ ← advance; eatPhrase phrase; return op)
      (do let _ ← advance; eatPhrase phrase; return op) :=
    .bind .advance fun _ _ _ => (Alike.eatPhrase phrase).bind fun _ _ _ => .pure rfl
  unfold Cursor.atWord
  simp only [(hc.current hn).isWord]
  split_ifs
  · exact halternative _ _
  · exact halternative _ _
  · exact halternative _ _
  · exact halternative _ _
  · exact .refuse _

/-- Each phrase is read in the same way from tokens that look alike, if its parts are. -/
theorem alike_phrase {x y : Rule Node} (h : Alike deep Node.Alike x y) {word : Text}
    {phrase : Option Nat → Rule Node → Rule Node} (hmem : (word, phrase) ∈ phrases) (l m : Nat) :
    Alike deep Node.Alike (phrase (some l) x) (phrase (some m) y) := by
  simp only [phrases, List.mem_cons, Prod.mk.injEq, List.not_mem_nil, or_false] at hmem
  rcases hmem with ⟨-, rfl⟩ | ⟨-, rfl⟩ | ⟨-, rfl⟩ | ⟨-, rfl⟩ | ⟨-, rfl⟩ | ⟨-, rfl⟩ |
    ⟨-, rfl⟩ | ⟨-, rfl⟩
  · exact .between _ _ h h fun _ _ _ _ => .binary .add
  · exact .between _ _ h h fun _ _ _ _ hright hleft => .binary .subtract hleft hright
  · exact .operands _ _ h h fun _ _ _ _ => .binary .multiply
  · exact .operands _ _ h h fun _ _ _ _ => .binary .divide
  · exact (Alike.eatPhrase _).bind fun _ _ _ => .pure rfl
  · exact .operand _ h fun _ _ => .unary .ord
  · exact .operand _ h fun _ _ => .unary .chr
  · refine h.bind fun a a' ha => alike_comparator.bind fun op op' hop => h.bind fun b b' hb => ?_
    subst hop
    exact .pure (.binary op ha hb)

/-- Two nesting limits: the first is not higher, and where nesting counts they are the same. -/
def Nests (deep : Prop) (d d' : Nat) : Prop := d ≤ d' ∧ (deep → d = d')

/-- A limit that is not higher than another one leaves no more of it on the level below. -/
theorem Nests.of_succ {d d' : Nat} (h : Nests deep (d + 1) d') :
    ∃ e, d' = e + 1 ∧ Nests deep d e := by
  obtain ⟨hle, heq⟩ := h
  refine ⟨d' - 1, by omega, by omega, fun hdeep => ?_⟩
  have := heq hdeep
  omega

/-- At a nesting limit of zero there is nothing to compare unless nesting counts. -/
theorem alike_tooDeep {d' : Nat} (h : Nests deep 0 d') {rule : Nat → Rule Node}
    (hrule : rule 0 = throw .tooDeep) : Alike deep Node.Alike (rule 0) (rule d') := by
  by_cases hdeep : deep
  · obtain rfl := h.2 hdeep
    rw [hrule]
    exact .throw _ rfl
  · rw [hrule]
    exact ⟨fun _ => Nat.le_refl _, fun _ _ _ _ _ => .tooDeep hdeep⟩

/-- Expressions are read alike from tokens that are alike. -/
theorem alike_expression {d d' : Nat} (h : Nests deep d d') :
    Alike deep Node.Alike (expression d) (expression d') := by
  induction d generalizing d' with
  | zero => exact alike_tooDeep h rfl
  | succ d ih =>
    obtain ⟨e, rfl, hnests⟩ := h.of_succ
    refine .get_bind fun n c₁ c₂ hc hn => ?_
    -- the kind and the text of the token decide; only the line of the node may differ
    obtain ⟨hkind, htext⟩ := hc.current hn
    dsimp only
    rw [hkind, htext]
    cases c₂.current.kind with
    | string | float => exact .bind .advance fun _ _ _ => .pure rfl
    | integer =>
      refine .bind .advance fun _ _ _ => ?_
      cases Numeral.read? c₂.current.text with
      | some number => exact .pure rfl
      | none => exact .throw _ rfl
    | identifier =>
      refine .bind .advance fun _ _ _ => ?_
      cases hlookup : phrases.lookup c₂.current.text with
      | some phrase => exact alike_phrase (ih hnests) (mem_of_lookup_eq_some hlookup) _ _
      | none => exact .pure rfl
    | symbol | eof => exact .refuse _

/-! ## Statements in a row -/

/-- The rule takes at least one token whenever it succeeds. -/
def Progresses (rule : Rule Node) : Prop :=
  ∀ c a c', rule c = .ok a c' → c'.rest.length < c.rest.length

/-- A statement takes at least its first word. -/
theorem progresses_statement (d : Nat) : Progresses (statement d) := by
  intro c s c' h
  obtain ⟨ts, hpass, hfits⟩ := (reads_statement d c s c').mp h
  have hne := List.length_pos_of_ne_nil (atOrder_of_fits hpass hfits).2
  rw [hpass.rest, List.length_append]
  omega

/-- Fuel beyond the number of tokens makes no difference, whatever comes of the reading. -/
theorem manyAtMost_fuel {done : Cursor → Bool} {rule : Rule Node} (hrule : Progresses rule)
    {fuel fuel' : Nat} {c : Cursor} (h : c.rest.length < fuel) (h' : c.rest.length < fuel') :
    manyAtMost done rule fuel c = manyAtMost done rule fuel' c := by
  induction fuel generalizing fuel' c with
  | zero => omega
  | succ fuel ih =>
    obtain ⟨fuel', rfl⟩ : ∃ k, fuel' = k + 1 := ⟨fuel' - 1, by omega⟩
    rw [manyAtMost, manyAtMost, Rule.get_bind, Rule.get_bind]
    split
    · rfl
    · refine bind_congr_at rfl fun node c' hnode => ?_
      -- The rest is read with one less fuel, and at least one token less is left.
      have hshorter := hrule c node c' hnode
      have hrest : manyAtMost done rule fuel c' = manyAtMost done rule fuel' c' :=
        ih (by omega) (by omega)
      exact bind_congr_at hrest fun _ _ _ => rfl

/-- Any fuel that exceeds the number of tokens will do. -/
theorem many_eq_manyAtMost {done : Cursor → Bool} {rule : Rule Node} (hrule : Progresses rule)
    {fuel : Nat} {c : Cursor} (h : c.rest.length < fuel) :
    many done rule c = manyAtMost done rule fuel c :=
  manyAtMost_fuel hrule (Nat.lt_succ_self _) h

/-- Cursors that are alike satisfy a test alike. -/
def Shared (test : Cursor → Bool) : Prop :=
  ∀ n c₁ c₂, Cursor.Alike n c₁ c₂ → c₁.pos < n → test c₁ = test c₂

/-- Statements in a row are read alike with the same fuel. -/
theorem alike_manyAtMost {done : Cursor → Bool} (hdone : Shared done) {x y : Rule Node}
    (h : Alike deep Node.Alike x y) (fuel : Nat) :
    Alike deep Node.AllAlike (manyAtMost done x fuel) (manyAtMost done y fuel) := by
  induction fuel with
  | zero => exact .pure rfl
  | succ fuel ih =>
    refine .get_bind fun n c₁ c₂ hc hn => ?_
    rw [hdone n c₁ c₂ hc hn]
    split
    · exact .pure rfl
    · exact h.bind fun a b hab => ih.bind fun as bs habs => .pure (.cons hab habs)

/-- Statements in a row are read alike, although the numbers of tokens that follow may differ. -/
theorem alike_many {done : Cursor → Bool} (hdone : Shared done) {x y : Rule Node}
    (h : Alike deep Node.Alike x y) (hx : Progresses x) (hy : Progresses y) :
    Alike deep Node.AllAlike (many done x) (many done y) := by
  have hafter {fuel : Nat} {c : Cursor} (hfuel : c.rest.length < fuel) :
      (many done x).after c = (manyAtMost done x fuel).after c := by
    unfold Rule.after
    rw [many_eq_manyAtMost hx hfuel]
  refine ⟨fun c => ?_, fun n c₁ c₂ hc hn => ?_⟩
  · rw [hafter (Nat.lt_succ_self _)]
    exact (alike_manyAtMost hdone h _).onward c
  · -- fuel that is enough for both
    have hfuel₁ : c₁.rest.length < max c₁.rest.length c₂.rest.length + 1 := by omega
    have hfuel₂ : c₂.rest.length < max c₁.rest.length c₂.rest.length + 1 := by omega
    rw [hafter hfuel₁] at hn
    rw [many_eq_manyAtMost hx hfuel₁, many_eq_manyAtMost hy hfuel₂]
    exact (alike_manyAtMost hdone h _).ends n c₁ c₂ hc hn

/-- Whether the end is reached is the same on both sides. -/
theorem shared_atEnd : Shared Cursor.atEnd := fun _ _ _ hc hn => hc.atEnd hn

theorem shared_closes : Shared closes := by
  intro n c₁ c₂ hc hn
  unfold closes Cursor.atWord
  rw [hc.atEnd hn, (hc.current hn).isWord, (hc.current hn).isWord]

/-! ## Statements -/

/-- Blocks are read alike if their statements are. -/
theorem alike_block {x y : Rule Node} (h : Alike deep Node.Alike x y) (hx : Progresses x)
    (hy : Progresses y) : Alike deep Node.Alike (block x) (block y) := by
  refine (Alike.eatWord "do").bind fun t u htu => ?_
  refine (Alike.modifyDepth (· + 1)).bind fun _ _ _ => ?_
  refine (alike_many shared_closes h hx hy).bind fun as bs hab => ?_
  exact (Alike.modifyDepth (· - 1)).bind fun _ _ _ => .pure (.block hab)

theorem alike_spellName {x y : Rule Node} (h : Alike deep Node.Alike x y) (after : Text) :
    Alike deep Node.Alike (spellName after x) (spellName after y) := by
  refine .get_bind fun n c₁ c₂ hc hn => ?_
  rw [(hc.current hn).1]
  split
  · exact h
  · exact .refuse _

/-- The alternative of a branch, and what comes after it. -/
theorem alike_alternative {x x' : Rule Node} {f f' : Node → Rule Node}
    (hx : Alike deep Node.Alike x x')
    (hf : ∀ c c', c.Alike c' → Alike deep Node.Alike (f c) (f' c')) :
    Alike deep Node.Alike
      (do if (← get).atWord "else" then let _ ← advance; f (← x) else f .missing)
      (do if (← get).atWord "else" then let _ ← advance; f' (← x') else f' .missing) := by
  refine .get_bind fun n c₁ c₂ hc hn => ?_
  unfold Cursor.atWord
  rw [(hc.current hn).isWord]
  split
  · exact .bind .advance fun _ _ _ => hx.bind hf
  · exact hf _ _ rfl

/-- Each statement is read in the same way from tokens that look alike, if its parts are. -/
theorem alike_order {x x' y y' : Rule Node} (hx : Alike deep Node.Alike x x')
    (hblock : Alike deep Node.Alike (block y) (block y'))
    {word : Text} {order : Option Nat → Rule Node → Rule Node → Rule Node}
    (hmem : (word, order) ∈ orders) (l m : Nat) :
    Alike deep Node.Alike (order (some l) x y) (order (some m) x' y') := by
  simp only [orders, List.mem_cons, Prod.mk.injEq, List.not_mem_nil, or_false] at hmem
  rcases hmem with ⟨-, rfl⟩ | ⟨-, rfl⟩ | ⟨-, rfl⟩ | ⟨-, rfl⟩ | ⟨-, rfl⟩
  · exact .operand _ hx fun _ _ => .shout
  · exact .between _ _ (alike_spellName hx _) hx fun _ _ _ _ => .create
  · exact .between _ _ (alike_spellName hx _) hx fun _ _ _ _ => .assign
  · refine (Alike.eatPhrase _).bind fun _ _ _ => hx.bind fun a a' ha => ?_
    refine (Alike.eatPhrase _).bind fun _ _ _ => hblock.bind fun b b' hb => ?_
    refine alike_alternative hblock fun c c' hc => ?_
    exact (Alike.eatWord "done").bind fun _ _ _ => .pure (.branch ha hb hc)
  · refine (Alike.eatPhrase _).bind fun _ _ _ => hx.bind fun a a' ha => ?_
    refine (Alike.eatPhrase _).bind fun _ _ _ => hblock.bind fun b b' hb => ?_
    exact (Alike.eatWord "done").bind fun _ _ _ => .pure (.loop ha hb)

/-- Tokens that are alike start the same kind of statement. -/
theorem order?_alike {t u : Token} (h : t.Alike u) : order? t = order? u := by
  unfold order?
  rw [h.1, h.2]

/-- Statements are read alike from tokens that are alike. -/
theorem alike_statement {d d' : Nat} (h : Nests deep d d') :
    Alike deep Node.Alike (statement d) (statement d') := by
  induction d generalizing d' with
  | zero => exact alike_tooDeep h rfl
  | succ d ih =>
    obtain ⟨e, rfl, hnests⟩ := h.of_succ
    rw [statement_eq, statement_eq]
    refine .get_bind fun n c₁ c₂ hc hn => ?_
    rw [order?_alike (hc.current hn)]
    cases horder : order? c₂.current with
    | none => exact .refuse _
    | some order =>
      have hblock := alike_block (ih hnests) (progresses_statement d) (progresses_statement e)
      exact alike_order (alike_expression hnests) hblock (order?_eq_some horder).2 _ _

end Grammar
end Grimoire
