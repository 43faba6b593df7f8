import Grimoire.Proofs.Tree.Completion
import Grimoire.Proofs.Tree.Parts

/-!
# Lenient reading

A lenient reader takes a token that starts no statement for the end of the spell, but only where no
block is open; a strict one refuses it. Up to such a token the two readers do the same.

* **`Rule.Confines`** is about the number of open blocks. A statement that has begun refuses a token
  for starting no statement only where one of its own blocks is open, and leaves the number as it
  was where it succeeds.
* **`statements_lockstep`** follows both readers through a spell. They come to the same, or the
  strict one refuses the token before which the lenient one ends.
* **`lenient_reads_longest_run`** says what the lenient reader returns and when it fails, in terms
  of the strict reader and of the beginnings of the tokens.
-/

namespace Grimoire

/-! ## Open blocks -/

namespace Rule

variable {α β : Type} {k : Nat} {x : Rule α} {f : α → Rule β}

/-- The rule leaves as many blocks open as there were. Where it refuses a token for starting no
statement, there are `k` more open blocks at least, and `k` tokens at least have been passed. -/
structure Confines (k : Nat) (r : Rule α) : Prop where
  passes : ∀ c a c', r c = .ok a c' → c'.blockDepth = c.blockDepth ∧ c.pos ≤ c'.pos
  refuses : ∀ c e c', r c = .error (.refused e) c' → e.cause = .notAStatement →
    c.blockDepth + k ≤ c'.blockDepth ∧ c.pos + k ≤ c'.pos

namespace Confines

/-- Where `l` more blocks are open, `k ≤ l` more are. -/
theorem mono {l : Nat} (hx : Confines l x) (h : k ≤ l) : Confines k x := by
  refine ⟨hx.passes, fun c e c' herror hcause => ?_⟩
  have := hx.refuses c e c' herror hcause
  omega

/-- Two rules in a row, the second of which starts with as many open blocks as the first. -/
theorem bind (hx : Confines k x) (hf : ∀ a, Confines k (f a)) : Confines k (x >>= f) := by
  refine ⟨fun c b c' hok => ?_, fun c e c' herror hcause => ?_⟩
  · obtain ⟨a, c₁, ha, hb⟩ := bind_eq_ok.mp hok
    have hfirst := hx.passes c a c₁ ha
    have hsecond := (hf a).passes c₁ b c' hb
    omega
  · cases hxc : x c with
    | error failure c₁ =>
      rw [bind_of_error hxc] at herror
      cases herror
      exact hx.refuses c e c' hxc hcause
    | ok a c₁ =>
      rw [bind_of_ok hxc] at herror
      have hfirst := hx.passes c a c₁ hxc
      have hsecond := (hf a).refuses c₁ e c' herror hcause
      omega

/-- What comes after a look at the cursor, if it holds whatever is seen. -/
theorem get_bind {F : Cursor → Rule α} (h : ∀ c, Confines k (F c)) : Confines k (get >>= F) :=
  ⟨fun c => (h c).passes c, fun c => (h c).refuses c⟩

theorem pure (a : α) : Confines k (Pure.pure a) := by
  refine ⟨fun c b c' hok => ?_, fun c e c' herror => ?_⟩
  · obtain ⟨-, rfl⟩ := pure_eq_ok.mp hok
    exact ⟨rfl, Nat.le_refl _⟩
  · cases herror

/-- A refusal for any other cause than a missing statement. -/
theorem refuse {cause : ParseCause} (h : cause ≠ .notAStatement) :
    Confines k (refuse cause : Rule α) := by
  refine ⟨fun c a c' hok => absurd hok refuse_ne_ok, fun c e c' herror hcause => ?_⟩
  cases herror
  exact absurd hcause h

/-- A failure that is no refusal. -/
theorem throw {failure : ParseFailure} (h : ∀ e, failure ≠ .refused e) :
    Confines k (throw failure : Rule α) := by
  refine ⟨fun c a c' hok => ?_, fun c e c' herror => ?_⟩
  · cases hok
  · cases herror
    exact absurd rfl (h e)

theorem advance : Confines k advance := by
  refine ⟨fun c t c' hok => ?_, fun c e c' herror => ?_⟩
  · cases hok
    refine ⟨?_, c.pos_le_next⟩
    unfold Cursor.next
    split <;> rfl
  · cases herror

theorem eatWord (word : Text) : Confines k (eatWord word) := by
  refine get_bind fun c => ?_
  split
  · exact advance
  · exact refuse nofun

theorem eatWords (words : List Text) : Confines k (eatWords words) := by
  induction words with
  | nil => exact .pure ()
  | cons word words ih => exact (eatWord word).bind fun _ => ih

theorem eatPhrase (phrase : Text) : Confines k (eatPhrase phrase) := eatWords phrase.words

/-! ### The shapes of phrases -/

variable {y z : Rule Node}

theorem operand (phrase : Text) (hy : Confines k y) (build : Node → Node) :
    Confines k (do Rule.eatPhrase phrase; return build (← y)) :=
  (eatPhrase phrase).bind fun _ => hy.bind fun a => .pure (build a)

theorem between (phrase sep : Text) (hy : Confines k y) (hz : Confines k z)
    (build : Node → Node → Node) :
    Confines k (do Rule.eatPhrase phrase; let a ← y; Rule.eatPhrase sep; return build a (← z)) :=
  (eatPhrase phrase).bind fun _ => hy.bind fun a => operand sep hz (build a)

theorem operands (phrase sep : Text) (hy : Confines k y) (hz : Confines k z)
    (build : Node → Node → Node) :
    Confines k
      (do Rule.eatPhrase phrase; let a ← y; let b ← z; Rule.eatPhrase sep; return build a b) :=
  (eatPhrase phrase).bind fun _ => hy.bind fun a => hz.bind fun b =>
    (eatPhrase sep).bind fun _ => .pure (build a b)

end Confines
end Rule

namespace Grammar

open Rule

variable {k : Nat} {rule : Rule Node}

theorem confines_comparator : Confines k comparator := by
  have halternative (phrase : Text) (op : BinaryOp) :
      Confines k (do let _ ← advance; eatPhrase phrase; return op) :=
    .bind .advance fun _ => (Confines.eatPhrase phrase).bind fun _ => .pure op
  refine .get_bind fun c => ?_
  split_ifs
  · exact halternative _ _
  · exact halternative _ _
  · exact halternative _ _
  · exact halternative _ _
  · exact .refuse nofun

/-- Every phrase, if its operands are expressions of that sort. -/
theorem confines_phrase (h : Confines k rule) {word : Text}
    {phrase : Option Nat → Rule Node → Rule Node} (hmem : (word, phrase) ∈ phrases)
    (line : Option Nat) : Confines k (phrase line rule) := by
  -- One case for each phrase, in the order of the table.
  simp only [phrases, List.mem_cons, Prod.mk.injEq, List.not_mem_nil, or_false] at hmem
  rcases hmem with ⟨-, rfl⟩ | ⟨-, rfl⟩ | ⟨-, rfl⟩ | ⟨-, rfl⟩ | ⟨-, rfl⟩ | ⟨-, rfl⟩ |
    ⟨-, rfl⟩ | ⟨-, rfl⟩
  · exact .between _ _ h h fun a b => .binary line a .add b
  · exact .between _ _ h h fun a b => .binary line b .subtract a
  · exact .operands _ _ h h fun a b => .binary line a .multiply b
  · exact .operands _ _ h h fun a b => .binary line a .divide b
  · exact (Confines.eatPhrase _).bind fun _ => .pure _
  · exact .operand _ h (.unary line .ord)
  · exact .operand _ h (.unary line .chr)
  · exact h.bind fun a => confines_comparator.bind fun op => h.bind fun b => .pure _

/-- An expression holds no statements, so it refuses no token for starting none. -/
theorem confines_expression (k d : Nat) : Confines k (expression d) := by
  induction d with
  | zero => exact .throw nofun
  | succ d ih =>
    refine .get_bind fun c => ?_
    dsimp only
    cases c.current.kind with
    | string | float => exact .bind .advance fun _ => .pure _
    | integer =>
      refine .bind .advance fun _ => ?_
      cases Numeral.read? c.current.text with
      | some number => exact .pure _
      | none => exact .throw nofun
    | identifier =>
      refine .bind .advance fun _ => ?_
      cases hlookup : phrases.lookup c.current.text with
      | some phrase => exact confines_phrase ih (mem_of_lookup_eq_some hlookup) _
      | none => exact .pure _
    | symbol | eof => exact .refuse nofun

theorem confines_manyAtMost (h : Confines k rule) (done : Cursor → Bool) (fuel : Nat) :
    Confines k (manyAtMost done rule fuel) := by
  induction fuel with
  | zero => exact .pure []
  | succ fuel ih =>
    refine .get_bind fun c => ?_
    split
    · exact .pure []
    · exact h.bind fun node => ih.bind fun nodes => .pure (node :: nodes)

/-- A block counts as open while its statements are read. -/
theorem confines_block (h : Confines 0 rule) : Confines 1 (block rule) := by
  have hmany : Confines 0 (many closes rule) := .get_bind fun c => confines_manyAtMost h closes _
  refine ⟨fun c b c' hok => ?_, fun c e c' herror hcause => ?_⟩
  · obtain ⟨t, c₁, hword, hok⟩ := bind_eq_ok.mp hok
    obtain ⟨_, c₂, hopen, hok⟩ := bind_eq_ok.mp hok
    obtain ⟨ss, c₃, hss, hok⟩ := bind_eq_ok.mp hok
    obtain ⟨_, c₄, hclose, hok⟩ := bind_eq_ok.mp hok
    obtain ⟨-, rfl⟩ := pure_eq_ok.mp hok
    cases hopen
    cases hclose
    have hbefore := (Confines.eatWord (k := 0) "do").passes c t c₁ hword
    have hinside := hmany.passes _ ss c₃ hss
    dsimp only at hinside ⊢
    omega
  · cases hword : eatWord "do" c with
    | error failure c₁ =>
      have hfirst : block rule c = .error failure c₁ := bind_of_error hword
      rw [hfirst] at herror
      cases herror
      exact (Confines.eatWord "do").refuses c e c' hword hcause
    | ok t c₁ =>
      obtain ⟨-, hpass, -, rfl⟩ := (reads_eatWord "do" c t c₁).mp hword
      have hpos : c₁.pos = c.pos + 1 := hpass.pos
      have hdepth := hpass.blockDepth
      have hopened : block rule c = (many closes rule >>= fun ss => do
          modify fun c => { c with blockDepth := c.blockDepth - 1 }
          return .block (some t.mark.line) ss)
            { c₁ with blockDepth := c₁.blockDepth + 1 } := bind_of_ok hword
      rw [hopened] at herror
      cases hss : many closes rule { c₁ with blockDepth := c₁.blockDepth + 1 } with
      | error failure c₂ =>
        rw [bind_of_error hss] at herror
        cases herror
        have hinside := hmany.refuses _ e c' hss hcause
        dsimp only at hinside
        omega
      | ok ss c₂ =>
        -- closing the block does not fail
        rw [bind_of_ok hss] at herror
        cases herror

/-- The name in a statement opens no block. -/
theorem confines_spellName (after : Text) (h : Confines k rule) :
    Confines k (spellName after rule) := by
  refine .get_bind fun c => ?_
  split
  · exact h
  · exact .refuse nofun

/-- The alternative of a branch, and what comes after it. -/
theorem confines_alternative {f : Node → Rule Node} (h : Confines k rule)
    (hf : ∀ node, Confines k (f node)) :
    Confines k (do
      if (← get).atWord "else" then let _ ← advance; f (← rule) else f .missing) := by
  refine .get_bind fun c => ?_
  split
  · exact .bind .advance fun _ => h.bind hf
  · exact hf _

/-- A statement that has begun refuses a token for starting no statement only inside its blocks. -/
theorem confines_order {d : Nat} (h : Confines 0 rule) {word : Text}
    {order : Option Nat → Rule Node → Rule Node → Rule Node} (hmem : (word, order) ∈ orders)
    (line : Option Nat) : Confines 1 (order line (expression d) rule) := by
  have hx := confines_expression 1 d
  have hblock := confines_block h
  have hdone (node : Node) : Confines 1 (do let _ ← eatWord "done"; return node) :=
    (Confines.eatWord "done").bind fun _ => .pure node
  simp only [orders, List.mem_cons, Prod.mk.injEq, List.not_mem_nil, or_false] at hmem
  rcases hmem with ⟨-, rfl⟩ | ⟨-, rfl⟩ | ⟨-, rfl⟩ | ⟨-, rfl⟩ | ⟨-, rfl⟩
  · exact .operand _ hx (.shout line)
  · exact .between _ _ (confines_spellName _ hx) hx (.create line)
  · exact .between _ _ (confines_spellName _ hx) hx (.assign line)
  · refine (Confines.eatPhrase _).bind fun _ => hx.bind fun a => ?_
    refine (Confines.eatPhrase _).bind fun _ => hblock.bind fun b => ?_
    exact confines_alternative hblock fun c => hdone (.branch line a b c)
  · refine (Confines.eatPhrase _).bind fun _ => hx.bind fun a => ?_
    exact (Confines.eatPhrase _).bind fun _ => hblock.bind fun b => hdone (.loop line a b)

/-- The open blocks after a statement are those before it; where a statement is missing, there are
at least as many. -/
theorem confines_statement (d : Nat) : Confines 0 (statement d) := by
  induction d with
  | zero => exact .throw nofun
  | succ d ih =>
    rw [statement_eq]
    refine .get_bind fun c => ?_
    cases horder : order? c.current with
    | some order => exact (confines_order ih (order?_eq_some horder).2 _).mono (Nat.zero_le 1)
    | none =>
      refine ⟨fun c a c' hok => absurd hok refuse_ne_ok, fun c e c' herror hcause => ?_⟩
      cases herror
      exact ⟨Nat.le_refl _, Nat.le_refl _⟩

/-- A statement that has begun can miss another one within one of its blocks only. -/
theorem lt_of_begun {d : Nat} {c c' : Cursor} {e : ParseError}
    (hbegun : (order? c.current).isSome) (h : statement d c = .error (.refused e) c')
    (hcause : e.cause = .notAStatement) : c.blockDepth < c'.blockDepth ∧ c.pos < c'.pos := by
  cases d with
  | zero => cases h
  | succ d =>
    rw [statement_succ] at h
    cases horder : order? c.current with
    | none =>
      rw [horder] at hbegun
      cases hbegun
    | some order =>
      rw [horder] at h
      have hconfines := confines_order (d := d) (confines_statement d) (order?_eq_some horder).2
      exact (hconfines _).refuses c e c' h hcause

end Grammar

open Rule Grammar

/-! ## Beginnings of spells -/

/-- Whole statements at the beginning of a spell are its first statements. -/
theorem Spells.program_strip {ss ss' : List Node} {us vs : List Token}
    (h : Spells .program (.program ss) us) (h' : Spells .program (.program ss') (us ++ vs)) :
    ∃ rest, ss' = ss ++ rest ∧ Spells .program (.program rest) vs := by
  induction ss generalizing ss' us with
  | nil =>
    cases h
    exact ⟨ss', rfl, h'⟩
  | cons s ss ih =>
    cases h with
    | @cons ts us' _ _ hs hss =>
      generalize hts : ts ++ us' ++ vs = ws at h'
      cases h' with
      | nil =>
        obtain ⟨t, us, rfl, -⟩ := hs.statement_head
        cases hts
      | @cons ts' ws' s' ss' hs' hss' =>
        rw [List.append_assoc] at hts
        -- Both lists start with the same statement, because its tokens tell where it ends.
        obtain rfl := hs.statement_end hs' hts
        obtain rfl := hs.unique hs'
        obtain rfl := List.append_cancel_left hts
        obtain ⟨rest, rfl, hrest⟩ := ih hss hss'
        exact ⟨rest, rfl, hrest⟩

/-- A statement that is refused has not come to its end: what it has passed is no row of whole
statements. -/
theorem not_spells_of_refused {d : Nat} {c c' : Cursor} {e : ParseError} {us : List Token}
    (h : statement d c = .error (.refused e) c') (hmoves : c.Moves us c') (hne : us ≠ [])
    {ss : List Node} : ¬Spells .program (.program ss) us := by
  intro hss
  cases hss with
  | nil => exact hne rfl
  | @cons ts vs s ss hs hss =>
    -- The statement reads its own spelling, if only the nesting limit is high enough.
    have hok : statement (max d s.levels) c =
        .ok s { c with rest := vs ++ c'.rest, pos := c.pos + ts.length } := by
      refine (reads_statement _ _ _ _).mpr ⟨ts, ⟨?_, rfl, rfl, rfl⟩, hs, Nat.le_max_right _ _⟩
      rw [hmoves.rest, List.append_assoc]
    have hnests : Nests False d (max d s.levels) := ⟨Nat.le_max_left d s.levels, False.elim⟩
    have hends := (alike_statement hnests).ends (c'.pos + 1) c c (.refl _ c)
      (by rw [Rule.after_of_error h]; omega)
    rw [h, hok] at hends
    rcases hends.of_error with ⟨g, c₂, hg, -⟩ | ⟨htooDeep, -⟩
    · cases hg
    · cases htooDeep

/-! ## Both readers -/

/-- A cursor is before a statement if there is a rule for the word it is at. -/
theorem atOrder_iff {c : Cursor} : AtOrder c ↔ (order? c.current).isSome = true := by
  constructor
  · intro h
    rw [← Option.not_isNone, order?_of_atOrder h]
    rfl
  · intro h
    obtain ⟨order, horder⟩ := Option.isSome_iff_exists.mp h
    obtain ⟨hkind, hmem⟩ := order?_eq_some horder
    exact ⟨hkind, List.mem_map_of_mem (f := Prod.fst) hmem⟩

/-- Where a lenient reader ends: with no block open, before anything that starts no statement. -/
def Cursor.rests (c : Cursor) : Bool :=
  c.atEnd || (decide (c.blockDepth = 0) && (order? c.current).isNone)

/-- A lenient reader does not stop before a statement. -/
theorem Cursor.rests_of_atOrder {c : Cursor} (h : AtOrder c) : c.rests = false := by
  unfold Cursor.rests
  rw [atEnd_of_atOrder h, order?_of_atOrder h, Bool.and_false, Bool.or_false]

/-- Outside all blocks it stops wherever no statement starts. -/
theorem Cursor.rests_iff {c : Cursor} (hdepth : c.blockDepth = 0) :
    c.rests = true ↔ ¬AtOrder c := by
  constructor
  · intro h horder
    rw [Cursor.rests_of_atOrder horder] at h
    cases h
  · intro h
    rw [atOrder_iff, Option.not_isSome_iff_eq_none] at h
    unfold Cursor.rests
    rw [h, hdepth]
    exact Bool.or_true _

/-- A lenient reader reads strict statements until it rests: at the end, or outside all blocks where
no statement starts. -/
theorem statements_lenient (fuel : Nat) :
    statements true fuel = manyAtMost Cursor.rests (statement nestingLimit) fuel := by
  induction fuel with
  | zero => rfl
  | succ fuel ih =>
    funext c
    rw [statements, manyAtMost, get_bind, get_bind, ih]
    unfold Cursor.rests
    cases c.atEnd with
    | true => rfl
    | false =>
      rw [if_neg Bool.false_ne_true, Bool.false_or]
      cases hrests : decide (c.blockDepth = 0) && (order? c.current).isNone with
      | true =>
        -- outside all blocks and before no statement: this is where it rests
        have hnone : statement? true nestingLimit c = .ok none c := by
          rw [statement?_eq, get_bind, Bool.true_and, hrests]
          rfl
        rw [bind_of_ok hnone]
        rfl
      | false =>
        -- before a statement, or in a block, it reads as a strict reader does
        have hsome : statement? true nestingLimit c =
            (do return some (← statement nestingLimit) : Rule (Option Node)) c := by
          rw [statement?_eq, get_bind, Bool.true_and, hrests]
          rfl
        rw [bind_congr_at hsome fun _ _ _ => rfl, if_neg Bool.false_ne_true]
        simp only [bind_assoc, pure_bind]

/-- Where no statement starts, a strict reader refuses the token it is at. -/
theorem statement_of_not_atOrder {c : Cursor} (h : ¬AtOrder c) :
    statement nestingLimit c = .error (.refused ⟨.notAStatement, c.current, c.pos⟩) c := by
  rw [atOrder_iff, Option.not_isSome_iff_eq_none] at h
  exact (statement_succ _ c).trans (by rw [h])

/-- **Both readers in step.** With no block open the lenient reader does what the strict one does,
which refuses no token for starting no statement outside all blocks; or it ends before a token that
the strict one refuses for that reason. -/
theorem statements_lockstep (fuel : Nat) {c : Cursor} (hdepth : c.blockDepth = 0) :
    (statements true fuel c = statements false fuel c ∧
      ∀ e c', statements false fuel c = .error (.refused e) c' → e.cause = .notAStatement →
        0 < c'.blockDepth) ∨
    ∃ ss c', statements true fuel c = .ok ss c' ∧ c'.blockDepth = 0 ∧
      statements false fuel c = .error (.refused ⟨.notAStatement, c'.current, c'.pos⟩) c' := by
  rw [statements_lenient, statements_strict]
  induction fuel generalizing c with
  | zero => exact .inl ⟨rfl, fun e c' herror => by cases herror⟩
  | succ fuel ih =>
    rw [manyAtMost, manyAtMost, get_bind, get_bind]
    cases hend : c.atEnd with
    | true =>
      have hrests : c.rests = true := by
        unfold Cursor.rests
        rw [hend, Bool.true_or]
      rw [hrests]
      exact .inl ⟨rfl, fun e c' herror => by cases herror⟩
    | false =>
      rw [if_neg Bool.false_ne_true]
      by_cases horder : AtOrder c
      · rw [Cursor.rests_of_atOrder horder, if_neg Bool.false_ne_true]
        cases hstatement : statement nestingLimit c with
        | error failure c₁ =>
          -- Both fail inside a statement, which is refused in one of its blocks if at all.
          rw [bind_of_error hstatement, bind_of_error hstatement]
          refine .inl ⟨rfl, fun e c' herror hcause => ?_⟩
          cases herror
          exact Nat.lt_of_le_of_lt (Nat.zero_le _)
            (lt_of_begun (atOrder_iff.mp horder) hstatement hcause).1
        | ok node c₁ =>
          have hdepth₁ := ((confines_statement nestingLimit).passes c node c₁ hstatement).1
          rw [bind_of_ok hstatement, bind_of_ok hstatement]
          rcases ih (hdepth₁.trans hdepth) with ⟨heq, hinside⟩ | ⟨ss, c', hok, hdepth', herror⟩
          · left
            cases hrest : manyAtMost Cursor.atEnd (statement nestingLimit) fuel c₁ with
            | ok nodes c₂ =>
              rw [hrest] at heq
              rw [bind_of_ok heq, bind_of_ok hrest]
              exact ⟨rfl, fun e c' herror => by cases herror⟩
            | error failure c₂ =>
              rw [hrest] at heq
              rw [bind_of_error heq, bind_of_error hrest]
              refine ⟨rfl, fun e c' herror => ?_⟩
              cases herror
              exact hinside e _ hrest
          · right
            rw [bind_of_ok hok, bind_of_error herror]
            exact ⟨node :: ss, c', rfl, hdepth', rfl⟩
      · right
        rw [(Cursor.rests_iff hdepth).mpr horder, bind_of_error (statement_of_not_atOrder horder)]
        exact ⟨[], c, rfl, hdepth, rfl⟩

/-- A reading in vain fails in a statement, after some whole ones. -/
theorem exists_failing_statement {d fuel : Nat} {c c' : Cursor} {failure : ParseFailure}
    (h : manyAtMost Cursor.atEnd (statement d) fuel c = .error failure c') :
    ∃ us ss c₁, c.Passes us c₁ ∧ Spells .program (.program ss) us ∧
      statement d c₁ = .error failure c' := by
  induction fuel generalizing c with
  | zero => cases h
  | succ fuel ih =>
    rw [manyAtMost, get_bind] at h
    split at h
    · cases h
    · cases hstatement : statement d c with
      | error failure' c₁ =>
        rw [bind_of_error hstatement] at h
        cases h
        -- the first statement fails, with none before it
        exact ⟨[], [], c, Cursor.passes_nil.mpr rfl, .nil, hstatement⟩
      | ok s c₁ =>
        rw [bind_of_ok hstatement] at h
        cases hrest : manyAtMost Cursor.atEnd (statement d) fuel c₁ with
        | ok nodes c₂ =>
          rw [bind_of_ok hrest] at h
          cases h
        | error failure' c₂ =>
          rw [bind_of_error hrest] at h
          cases h
          obtain ⟨ts, hts, hs, -⟩ := (reads_statement d c s c₁).mp hstatement
          obtain ⟨us, ss, c₃, hus, hss, hfailing⟩ := ih hrest
          exact ⟨ts ++ us, s :: ss, c₃, Cursor.passes_append.mpr ⟨c₁, hts, hus⟩, .cons hs hss,
            hfailing⟩

/-! ## Whole spells -/

/-- A source is accepted when the row of its statements is. -/
theorem parse_eq_ok {lenient : Bool} {ts : Tokens} {spell : List Node} :
    parse lenient ts = .ok spell ↔
      ∃ c, statements lenient (ts.body.length + 1) (Cursor.start ts) = .ok spell c := by
  have hfuel : (Cursor.start ts).rest.length + 1 = ts.body.length + 1 := rfl
  unfold parse program
  rw [hfuel]
  cases statements lenient (ts.body.length + 1) (Cursor.start ts) with
  | ok nodes c => simp [Node.statements]
  | error failure c => cases failure <;> simp

/-- A refusal for starting no statement is none that stands for too deep a nesting. -/
theorem statements_of_program_refused {lenient : Bool} {ts : Tokens} {e : ParseError} {c : Cursor}
    (h : program lenient (Cursor.start ts) = .error (.refused e) c)
    (hcause : e.cause = .notAStatement) :
    statements lenient (ts.body.length + 1) (Cursor.start ts) = .error (.refused e) c := by
  unfold program at h
  show statements lenient ((Cursor.start ts).rest.length + 1) (Cursor.start ts) = _
  cases hstatements : statements lenient ((Cursor.start ts).rest.length + 1) (Cursor.start ts) with
  | ok nodes c' =>
    rw [hstatements] at h
    cases h
  | error failure c' =>
    rw [hstatements] at h
    cases failure with
    | refused e' =>
      cases h
      rfl
    | tooDeep =>
      cases h
      cases hcause
    | tooLong digits => cases h

namespace Tokens

variable {ts : Tokens}

/-- The token in position `k` starts no statement: it is the end of the spell, or none of the words
that start one. -/
def RestsAt (ts : Tokens) (k : Nat) : Prop :=
  ∃ t, ts.toList[k]? = some t ∧ ¬(t.kind = .identifier ∧ t.text ∈ orderWords)

/-- The reader rests no further on than the end of the tokens. -/
theorem RestsAt.le {k : Nat} (h : ts.RestsAt k) : k ≤ ts.body.length := by
  obtain ⟨t, ht, -⟩ := h
  obtain ⟨hlt, -⟩ := List.getElem?_eq_some_iff.mp ht
  rw [Tokens.toList, List.length_append, List.length_singleton] at hlt
  omega

/-- The tokens up to the position of the cursor are those it has moved over. -/
theorem take_of_moves {us : List Token} {c : Cursor} (h : (Cursor.start ts).Moves us c) :
    ts.body.take c.pos = us := by
  have hbody : ts.body = us ++ c.rest := h.rest
  have hpos : c.pos = us.length := h.pos.trans (Nat.zero_add _)
  rw [hbody, hpos, List.take_left]

/-- From the first cursor, every position among the tokens can be reached. -/
theorem passes_take {k : Nat} (hk : k ≤ ts.body.length) :
    (Cursor.start ts).Passes (ts.body.take k) ⟨ts.body.drop k, ts.stop, k, 0⟩ := by
  refine ⟨(List.take_append_drop k ts.body).symm, rfl, ?_, rfl⟩
  show k = 0 + (ts.body.take k).length
  rw [List.length_take, Nat.min_eq_left hk, Nat.zero_add]

/-- A longer beginning is the shorter one and what comes between. -/
theorem take_eq_append {k l : Nat} (h : k ≤ l) :
    ts.body.take l = ts.body.take k ++ (ts.body.take l).drop k := by
  have hsplit := List.take_append_drop k (ts.body.take l)
  rw [List.take_take, Nat.min_eq_left h] at hsplit
  exact hsplit.symm

/-- A beginning of whole statements that ends before no further one is the longest. -/
theorem RestsAt.longest {k k' : Nat} {ss ss' : List Node} (hrests : ts.RestsAt k)
    (h : Spells .program (.program ss) (ts.body.take k)) (hk' : k' ≤ ts.body.length)
    (h' : Spells .program (.program ss') (ts.body.take k')) : k' ≤ k ∧ ss' <+: ss := by
  have hk := hrests.le
  rcases Nat.lt_or_ge k k' with hlt | hle
  · -- The longer beginning would go on with a statement, but there starts none.
    obtain ⟨t, ht, hno⟩ := hrests
    rw [take_eq_append (Nat.le_of_lt hlt)] at h'
    obtain ⟨rest, -, hrest⟩ := h.program_strip h'
    generalize hvs : (ts.body.take k').drop k = vs at hrest
    cases hrest with
    | nil =>
      have hlength := congrArg List.length hvs
      rw [List.length_drop, List.length_take, List.length_nil] at hlength
      omega
    | cons hs _ =>
      obtain ⟨u, us, rfl, -, hkind, htext⟩ := hs.statement_head
      have hu : ts.body[k]? = some u := by
        have hhead := congrArg (·[0]?) hvs
        simpa [List.getElem?_drop, List.getElem?_take, hlt] using hhead
      have hbody : ts.toList[k]? = some u := by
        rw [Tokens.toList, List.getElem?_append_left (by omega), hu]
      rw [ht] at hbody
      cases hbody
      exact absurd ⟨hkind, htext⟩ hno
  · rw [take_eq_append hle] at h
    obtain ⟨rest, rfl, -⟩ := h'.program_strip h
    exact ⟨hle, List.prefix_append ss' rest⟩

end Tokens

/-- What a lenient reader returns is what a strict one makes of a beginning that is followed by no
statement. -/
theorem parse_lenient_eq_ok {ts : Tokens} (hts : ∀ t ∈ ts.body, t.kind ≠ .eof) (stop : Mark)
    {spell : List Node} :
    parse true ts = .ok spell ↔
      ∃ k, ts.RestsAt k ∧ parse false ⟨ts.body.take k, stop⟩ = .ok spell := by
  have hstrict (k : Nat) : parse false ⟨ts.body.take k, stop⟩ = .ok spell ↔
      Fits .program nestingLimit (.program spell) (ts.body.take k) :=
    parse_strict_eq_ok fun t ht => hts t (List.mem_of_mem_take ht)
  have hlenient {c : Cursor} :
      statements true (ts.body.length + 1) (Cursor.start ts) = .ok spell c ↔ c.rests = true ∧
        ∃ us, (Cursor.start ts).Passes us c ∧ Fits .program nestingLimit (.program spell) us := by
    rw [statements_lenient]
    exact manyAtMost_eq_ok (reads_statement nestingLimit) (fun _ => Cursor.rests_of_atOrder)
      (Nat.lt_succ_self _)
  rw [parse_eq_ok]
  constructor
  · rintro ⟨c, hc⟩
    obtain ⟨hrests, us, hpass, hfits⟩ := hlenient.mp hc
    have hno := (Cursor.rests_iff hpass.blockDepth).mp hrests
    refine ⟨c.pos, ⟨c.current, hpass.moves.getElem?_toList, hno⟩, (hstrict c.pos).mpr ?_⟩
    rw [Tokens.take_of_moves hpass.moves]
    exact hfits
  · rintro ⟨k, hrests, hparse⟩
    have hpass := Tokens.passes_take hrests.le
    obtain ⟨t, ht, hno⟩ := hrests
    refine ⟨_, hlenient.mpr ⟨?_, _, hpass, (hstrict k).mp hparse⟩⟩
    -- the token before the cursor is the one in position `k`
    rw [hpass.moves.getElem?_toList] at ht
    cases ht
    exact (Cursor.rests_iff hpass.blockDepth).mpr hno

/-- A lenient reader fails where a strict one does and with the same failure, unless that is a
statement missing outside all blocks: there it stops and has read a spell. -/
theorem program_lenient_eq_error {ts : Tokens} {failure : ParseFailure} {c : Cursor} :
    program true (Cursor.start ts) = .error failure c ↔
      program false (Cursor.start ts) = .error failure c ∧
        ¬∃ e, failure = .refused e ∧ e.cause = .notAStatement ∧ c.blockDepth = 0 := by
  rcases statements_lockstep (ts.body.length + 1) (c := Cursor.start ts) rfl with
    ⟨heq, hinside⟩ | ⟨ss, c', hok, hdepth, herror⟩
  · -- Either both readers go the same way to the end, and a missing statement is inside a block.
    have hprograms : program true (Cursor.start ts) = program false (Cursor.start ts) := by
      unfold program
      rw [show statements true ((Cursor.start ts).rest.length + 1) (Cursor.start ts) = _ from heq]
      rfl
    rw [hprograms]
    refine ⟨fun h => ⟨h, ?_⟩, And.left⟩
    rintro ⟨e, rfl, hcause, hzero⟩
    have hpos := hinside e c (statements_of_program_refused h hcause) hcause
    omega
  · -- Or the lenient one rests where the strict one misses a statement outside all blocks.
    have hlenient : program true (Cursor.start ts) = .ok (.program ss) c' := by
      unfold program
      rw [show statements true ((Cursor.start ts).rest.length + 1) (Cursor.start ts) = _ from hok]
    have hstrict : program false (Cursor.start ts) =
        .error (.refused ⟨.notAStatement, c'.current, c'.pos⟩) c' := by
      unfold program
      rw [show statements false ((Cursor.start ts).rest.length + 1) (Cursor.start ts) = _
        from herror]
    rw [hlenient, hstrict]
    constructor
    · intro h
      cases h
    · rintro ⟨h, hno⟩
      cases h
      exact absurd ⟨_, rfl, rfl, hdepth⟩ hno

/-- **The number of open blocks is right**: where a token is refused for starting no statement, no
block is open exactly if there are only whole statements before it. -/
theorem blockDepth_eq_zero_iff {ts : Tokens} {e : ParseError} {c : Cursor}
    (h : program false (Cursor.start ts) = .error (.refused e) c)
    (hcause : e.cause = .notAStatement) :
    c.blockDepth = 0 ↔ ∃ ss, Spells .program (.program ss) (ts.body.take c.pos) := by
  have hstatements := statements_of_program_refused h hcause
  rw [statements_strict] at hstatements
  obtain ⟨us, ss, c₁, hpass, hss, hfailing⟩ := exists_failing_statement hstatements
  have hdepth : c₁.blockDepth = 0 := hpass.blockDepth
  by_cases horder : AtOrder c₁
  · -- The statement that fails has begun, and one of its blocks is open.
    have hlt := lt_of_begun (atOrder_iff.mp horder) hfailing hcause
    refine ⟨fun hzero => by omega, ?_⟩
    rintro ⟨ss', hss'⟩
    obtain ⟨-, -, vs, ws, hmoves, -⟩ := (viable_statement nestingLimit).refuses c₁ e c hfailing
    rw [Tokens.take_of_moves (hpass.moves.append hmoves)] at hss'
    obtain ⟨rest, -, hrest⟩ := hss.program_strip hss'
    refine absurd hrest (not_spells_of_refused hfailing hmoves ?_)
    rintro rfl
    have hpos := hmoves.pos
    rw [List.length_nil] at hpos
    omega
  · -- There starts no statement at all, and the cursor has not moved on.
    rw [statement_of_not_atOrder horder] at hfailing
    cases hfailing
    refine ⟨fun _ => ⟨ss, ?_⟩, fun _ => hdepth⟩
    rw [Tokens.take_of_moves hpass.moves]
    exact hss

/-- In what has been read there is a statement in each place for one. -/
theorem missing_notMem_statements {lenient : Bool} {ts : Tokens} {spell : List Node}
    (h : parse lenient ts = .ok spell) {node : Node} (hwithin : node.Within (.program spell)) :
    .missing ∉ node.statements := by
  intro hmem
  obtain ⟨us, hus⟩ := parse_spelled h
  rcases hus.of_within hwithin with rfl | ⟨role, vs, hvs⟩
  · cases hmem
  · have hnone {ss : List Node} {ws : List Token} (hss : Spells .program (.program ss) ws) :
        .missing ∉ ss := by
      intro hmissing
      obtain ⟨ws', hspells⟩ := hss.statement_of_mem hmissing
      cases hspells
    cases hvs with
    | block _ hs => exact hnone hs hmem
    | cons hs hss => exact hnone (.cons hs hss) hmem
    | _ => cases hmem

/-- **A lenient reader reads the longest run of statements.** What a strict reader accepts, it reads
in the same way. What it returns is what a strict reader makes of the tokens before a place where no
statement starts, and this is the longest beginning of the tokens, with the most statements, that a
strict reader accepts. It fails exactly where a strict reader fails in the same way, with the same
cursor, unless that one refuses a token for starting no statement with no block open; and no block
is open where there are only whole statements before that token. Neither reader ever leaves the
place of a statement empty, at any depth. -/
theorem lenient_reads_longest_run {ts : Tokens} (hts : ∀ t ∈ ts.body, t.kind ≠ .eof)
    (stop : Mark) :
    (∀ spell, parse false ts = .ok spell → parse true ts = .ok spell) ∧
    (∀ spell, parse true ts = .ok spell ↔
      ∃ k, ts.RestsAt k ∧ parse false ⟨ts.body.take k, stop⟩ = .ok spell) ∧
    (∀ k spell, ts.RestsAt k → parse false ⟨ts.body.take k, stop⟩ = .ok spell →
      ∀ k' spell', k' ≤ ts.body.length → parse false ⟨ts.body.take k', stop⟩ = .ok spell' →
        k' ≤ k ∧ spell' <+: spell) ∧
    (∀ failure c, program true (Cursor.start ts) = .error failure c ↔
      program false (Cursor.start ts) = .error failure c ∧
        ¬∃ e, failure = .refused e ∧ e.cause = .notAStatement ∧ c.blockDepth = 0) ∧
    (∀ e c, program false (Cursor.start ts) = .error (.refused e) c → e.cause = .notAStatement →
      (c.blockDepth = 0 ↔ ∃ ss, Spells .program (.program ss) (ts.body.take c.pos))) ∧
    ∀ (lenient : Bool) (spell : List Node) (node : Node), parse lenient ts = .ok spell →
      node.Within (.program spell) → Node.missing ∉ node.statements := by
  have hspells {k : Nat} {spell : List Node}
      (h : parse false ⟨ts.body.take k, stop⟩ = .ok spell) :
      Spells .program (.program spell) (ts.body.take k) :=
    ((parse_strict_eq_ok fun t ht => hts t (List.mem_of_mem_take ht)).mp h).1
  refine ⟨fun spell h => parse_of_strict h true, fun spell => parse_lenient_eq_ok hts stop, ?_,
    fun failure c => program_lenient_eq_error, fun e c => blockDepth_eq_zero_iff,
    fun lenient spell node h => missing_notMem_statements h⟩
  intro k spell hrests h k' spell' hk' h'
  exact hrests.longest (hspells h) hk' (hspells h')

/-- A word that starts no statement, after a whole statement. -/
def strayOutside : Tokens :=
  ⟨(Text.words "shout the many cries of moon done shout the many cries of sun").map
    (Token.ofWord 1), Mark.start⟩

/-- A word that starts no statement, in a block. -/
def strayInside : Tokens :=
  ⟨(Text.words "whilst the spell x is true do moon done").map (Token.ofWord 1), Mark.start⟩

/-- A lenient reader ends before the first of the two stray words, and refuses the second. -/
theorem lenient_stops_at_stray_word :
    (∀ t ∈ strayOutside.body, t.kind ≠ .eof) ∧ (∀ t ∈ strayInside.body, t.kind ≠ .eof) ∧
    parse true strayOutside = .ok [.shout (some 1) (.name (some 1) "moon")] ∧
    ∃ c, program true (Cursor.start strayInside) =
      .error (.refused ⟨.notAStatement, .ofWord 1 "moon", 7⟩) c ∧ c.blockDepth = 1 := by
  have houtside : ∀ t ∈ strayOutside.body, t.kind ≠ .eof := by decide
  have hinside : ∀ t ∈ strayInside.body, t.kind ≠ .eof := by decide
  have hrests : strayOutside.RestsAt 6 := ⟨.ofWord 1 "done", rfl, by decide⟩
  obtain ⟨-, hreturns, -⟩ := lenient_reads_longest_run houtside Mark.start
  obtain ⟨-, -, -, hfails, -⟩ := lenient_reads_longest_run hinside Mark.start
  refine ⟨houtside, hinside, (hreturns _).mpr ⟨6, hrests, rfl⟩, _, (hfails _ _).mpr ⟨rfl, ?_⟩, rfl⟩
  rintro ⟨e, -, -, hzero⟩
  exact absurd hzero (by decide)

end Grimoire
