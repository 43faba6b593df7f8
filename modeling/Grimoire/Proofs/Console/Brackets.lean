import Grimoire.Console.Balance
import Grimoire.Proofs.Tree.Spelling
import Grimoire.Proofs.Tree.Within

/-!
# Open blocks and the grammar

The words that open and close branches and loops are counted without reading the grammar. Where no
name gets in the way, the count agrees with it. The tokens of any phrase open as many blocks as they
close, they never close one that they have not opened, and each word that is counted as an opening
one starts a branch or a loop; `Balanced` says so, and it is kept by putting phrases together. In
the middle of a branch or a loop at least one block is open.
-/

namespace Grimoire

/-! ## Counting -/

/-- The words that count. -/
def blockWords : List Text := ["cast", "whilst", "done"]

/-- A token that is no block word opens and closes nothing. -/
theorem Token.balance_eq_zero {t : Token} (h : t.kind = .identifier → t.text ∉ blockWords)
    (n : Token) : t.balance n = 0 := by
  unfold Token.balance
  by_cases hkind : t.kind = .identifier
  · have hwords := h hkind
    simp only [blockWords, List.mem_cons, List.not_mem_nil, or_false, not_or] at hwords
    rw [if_neg (not_not.mpr hkind), if_neg (fun h => hwords.1 h.1),
      if_neg (fun h => hwords.2.1 h.1), if_neg hwords.2.2]
  · rw [if_pos hkind]

/-- The same of a given word. -/
theorem Token.balance_word {t : Token} {word : Text} (h : t.isWord word) (hword : word ∉ blockWords)
    (n : Token) : t.balance n = 0 :=
  Token.balance_eq_zero (fun _ => (Token.isWord_iff.mp h).2 ▸ hword) n

/-- The word `done` closes, whatever comes next. -/
theorem Token.balance_done {t : Token} (h : t.isWord "done") (n : Token) : t.balance n = -1 := by
  obtain ⟨hkind, htext⟩ := Token.isWord_iff.mp h
  unfold Token.balance
  rw [if_neg (not_not.mpr hkind), htext]
  rfl

/-- The word `cast` opens before `only`. -/
theorem Token.balance_cast {t n : Token} (h : t.isWord "cast") :
    t.balance n = if n.text? = some ("only" : Text) then 1 else 0 := by
  obtain ⟨hkind, htext⟩ := Token.isWord_iff.mp h
  unfold Token.balance
  rw [if_neg (not_not.mpr hkind), htext]
  by_cases hn : n.text? = some ("only" : Text)
  · rw [if_pos ⟨rfl, hn⟩, if_pos hn]
  · rw [if_neg (fun h => hn h.2), if_neg hn]
    rfl

/-- The word `whilst` opens before `the`. -/
theorem Token.balance_whilst {t n : Token} (h : t.isWord "whilst") :
    t.balance n = if n.text? = some ("the" : Text) then 1 else 0 := by
  obtain ⟨hkind, htext⟩ := Token.isWord_iff.mp h
  unfold Token.balance
  rw [if_neg (not_not.mpr hkind), htext]
  by_cases hn : n.text? = some ("the" : Text)
  · rw [if_neg (fun h => absurd h.1 (by decide)), if_pos ⟨rfl, hn⟩, if_pos hn]
  · rw [if_neg (fun h => absurd h.1 (by decide)), if_neg (fun h => hn h.2), if_neg hn]
    rfl

/-- The token after another one decides only whether a block is opened. -/
theorem Token.balance_eq_of_ne_one {t n m : Token} (hn : t.balance n ≠ 1) (hm : t.balance m ≠ 1) :
    t.balance n = t.balance m := by
  by_cases hcast : t.isWord "cast"
  · rw [balance_cast hcast] at hn hm ⊢
    rw [balance_cast hcast, if_neg fun h => hn (if_pos h), if_neg fun h => hm (if_pos h)]
  by_cases hwhilst : t.isWord "whilst"
  · rw [balance_whilst hwhilst] at hn hm ⊢
    rw [balance_whilst hwhilst, if_neg fun h => hn (if_pos h), if_neg fun h => hm (if_pos h)]
  by_cases hdone : t.isWord "done"
  · rw [balance_done hdone, balance_done hdone]
  · have hwords (hkind : t.kind = .identifier) : t.text ∉ blockWords := by
      intro hmem
      simp only [blockWords, List.mem_cons, List.not_mem_nil, or_false] at hmem
      rcases hmem with htext | htext | htext
      · exact hcast (Token.isWord_iff.mpr ⟨hkind, htext⟩)
      · exact hwhilst (Token.isWord_iff.mpr ⟨hkind, htext⟩)
      · exact hdone (Token.isWord_iff.mpr ⟨hkind, htext⟩)
    rw [balance_eq_zero hwords, balance_eq_zero hwords]

/-- A word has its text. -/
theorem Token.text?_of_isWord {t : Token} {word : Text} (h : t.isWord word) :
    t.text? = some word := by
  obtain ⟨hkind, htext⟩ := Token.isWord_iff.mp h
  rw [Token.text?, hkind, htext]
  rfl

/-- The first token counts by the one after it. -/
theorem balance_cons (t : Token) (ts : List Token) (n : Token) :
    balance (t :: (ts ++ [n])) = t.balance (ts.headD n) + balance (ts ++ [n]) := by
  cases ts <;> rfl

theorem headD_append (us vs : List Token) (n : Token) :
    (us ++ vs).headD n = us.headD (vs.headD n) := by
  cases us <;> rfl

/-- Two lists of tokens count for their sum; the last token of the first sees the second. -/
theorem balance_append (us vs : List Token) (n : Token) :
    balance (us ++ (vs ++ [n])) = balance (us ++ [vs.headD n]) + balance (vs ++ [n]) := by
  induction us with
  | nil => exact (Int.zero_add _).symm
  | cons t us ih =>
    rw [List.cons_append, List.cons_append, ← List.append_assoc, balance_cons, balance_cons,
      headD_append, List.append_assoc, ih, Int.add_assoc]

/-- One more token counts by what comes after it. -/
theorem balance_concat (us : List Token) (t n : Token) :
    balance (us ++ [t] ++ [n]) = balance (us ++ [t]) + t.balance n := by
  have hone : balance ([t] ++ [n]) = t.balance n := Int.add_zero _
  rw [List.append_assoc, balance_append, hone]
  rfl

/-! ## Where blocks are opened -/

/-- A branch or a loop is spelled by the first of the tokens. -/
def OpensCompound (ts : List Token) : Prop :=
  ∃ node us vs, ts = us ++ vs ∧ Spells .statement node us ∧ node.isCompound

/-- A statement that is opened by a list is opened by a longer one. -/
theorem OpensCompound.append {ts : List Token} (h : OpensCompound ts) (us : List Token) :
    OpensCompound (ts ++ us) := by
  obtain ⟨node, vs, ws, rfl, hnode, hform⟩ := h
  exact ⟨node, vs, ws ++ us, List.append_assoc _ _ _, hnode, hform⟩

/-- It starts with one of two words. -/
theorem OpensCompound.head_mem {t : Token} {ts : List Token} (h : OpensCompound (t :: ts)) :
    t.text ∈ (["cast", "whilst"] : List Text) := by
  obtain ⟨node, us, vs, heq, hnode, hform⟩ := h
  cases hnode with
  | branch ht | branchElse ht | loop ht =>
    obtain ⟨rfl, -⟩ := List.cons.inj heq
    rw [(Token.isWord_iff.mp ht).2]
    decide
  | _ => cases hform

/-- What is counted as the first word of a block because of the word after it is the first word of a
branch or a loop. -/
def OpensProperly (ts : List Token) : Prop :=
  ∀ us t vs, ts = us ++ t :: vs → ∀ n, t.balance n ≠ 1 → t.balance (vs.headD n) = 1 →
    OpensCompound (t :: vs)

namespace OpensProperly

theorem nil : OpensProperly [] := by
  intro us t vs h
  cases us <;> cases h

/-- One more token in front, if it opens a statement where it opens at all. -/
theorem cons {t : Token} {ts : List Token}
    (ht : ∀ n, t.balance (ts.headD n) = 1 → OpensCompound (t :: ts)) (h : OpensProperly ts) :
    OpensProperly (t :: ts) := by
  intro us u vs heq n hn hone
  cases us with
  | nil =>
    obtain ⟨rfl, rfl⟩ := List.cons.inj heq
    exact ht n hone
  | cons v us => exact h us u vs (List.cons.inj heq).2 n hn hone

/-- Two lists in a row, if the first one counts alike before everything. -/
theorem append {ts us : List Token} (hts : OpensProperly ts)
    (hfixed : ∀ n m, balance (ts ++ [n]) = balance (ts ++ [m])) (hus : OpensProperly us) :
    OpensProperly (ts ++ us) := by
  intro vs t ws heq n hn hone
  rcases List.append_eq_append_iff.mp heq with ⟨as, rfl, rfl⟩ | ⟨bs, rfl, hbs⟩
  · exact hus as t ws rfl n hn hone
  cases bs with
  | nil => exact hus [] t ws hbs.symm n hn hone
  | cons b bs =>
    obtain ⟨rfl, rfl⟩ := List.cons.inj hbs
    cases bs with
    | nil =>
      -- What the last token counts for does not depend on what comes after it.
      have hlast := hfixed (us.headD n) n
      rw [balance_concat, balance_concat] at hlast
      have hone : t.balance (us.headD n) = 1 := hone
      omega
    | cons b bs => exact (hts vs t (b :: bs) rfl n hn hone).append us

end OpensProperly

/-! ## Balanced tokens -/

/-- The tokens close all blocks that they open, and no others, whatever comes after them. What opens
a block is the first word of a branch or a loop. -/
structure Balanced (ts : List Token) : Prop where
  total : ∀ n, balance (ts ++ [n]) = 0
  cut : ∀ us vs, ts = us ++ vs → ∀ n, 0 ≤ balance (us ++ [vs.headD n])
  opening : OpensProperly ts

namespace Balanced

theorem nil : Balanced [] where
  total _ := rfl
  cut us vs h n := by
    rw [(List.append_eq_nil_iff.mp h.symm).1]
    exact Int.le_refl 0
  opening := .nil

/-- Two balanced lists in a row are balanced. -/
theorem append {ts us : List Token} (ht : Balanced ts) (hu : Balanced us) :
    Balanced (ts ++ us) where
  total n := by
    rw [List.append_assoc, balance_append, ht.total, hu.total]
    rfl
  cut vs ws h n := by
    rcases List.append_eq_append_iff.mp h with ⟨as, rfl, rfl⟩ | ⟨bs, rfl, rfl⟩
    · rw [List.append_assoc, balance_append, ht.total, Int.zero_add]
      exact hu.cut as ws rfl n
    · rw [headD_append]
      exact ht.cut vs bs rfl _
  opening := ht.opening.append (fun n m => (ht.total n).trans (ht.total m).symm) hu.opening

/-- A token that does not count in front of the others. -/
theorem cons {t : Token} {ts : List Token} (ht : ∀ n, t.balance (ts.headD n) = 0)
    (h : Balanced ts) : Balanced (t :: ts) where
  total n := by
    rw [List.cons_append, balance_cons, ht, h.total]
    rfl
  cut us vs heq n := by
    cases us with
    | nil => exact Int.le_refl 0
    | cons u us =>
      rw [List.cons_append] at heq
      obtain ⟨rfl, rfl⟩ := List.cons.inj heq
      have hhead := ht n
      rw [headD_append] at hhead
      rw [List.cons_append, balance_cons, hhead, Int.zero_add]
      exact h.cut us vs rfl n
  opening := .cons (fun n hone => by rw [ht n] at hone; cases hone) h.opening

/-- A word that opens and closes nothing may stand in front. -/
theorem word {t : Token} {word : Text} {ts : List Token} (ht : t.isWord word)
    (hword : word ∉ blockWords) (h : Balanced ts) : Balanced (t :: ts) :=
  cons (fun _ => Token.balance_word ht hword _) h

/-- Words that open and close nothing are balanced. -/
theorem words {words : List Text} {ts : List Token} (h : Words words ts)
    (hwords : ∀ word ∈ words, word ∉ blockWords) : Balanced ts := by
  induction h with
  | nil => exact nil
  | cons ht _ ih =>
    have hrest := ih fun word hword => hwords word (List.mem_cons_of_mem _ hword)
    exact word ht (hwords _ List.mem_cons_self) hrest

end Balanced

/-- The tokens of a branch or a loop: a word that opens a block, one that closes it, and balanced
tokens in between. -/
def Wrapped (ts : List Token) : Prop :=
  ∃ t inner d, ts = t :: (inner ++ [d]) ∧ (∀ n, t.balance (inner.headD n) = 1) ∧
    d.isWord "done" ∧ Balanced inner

namespace Wrapped

/-- A list between an opening and a closing word counts for nothing. -/
theorem total {ts : List Token} (h : Wrapped ts) (n : Token) : balance (ts ++ [n]) = 0 := by
  obtain ⟨t, inner, d, rfl, ht, hd, hinner⟩ := h
  rw [List.cons_append, balance_cons, headD_append, ht, balance_concat, hinner.total,
    Token.balance_done hd]
  rfl

/-- In the middle of a branch or a loop a block is open. -/
theorem inside {us vs : List Token} (h : Wrapped (us ++ vs)) (hus : us ≠ []) (hvs : vs ≠ [])
    (n : Token) : 1 ≤ balance (us ++ [vs.headD n]) := by
  obtain ⟨t, inner, d, heq, ht, -, hinner⟩ := h
  obtain ⟨u, us, rfl⟩ := List.exists_cons_of_ne_nil hus
  obtain ⟨vs, v, rfl⟩ : ∃ ws w, vs = ws ++ [w] := ⟨_, _, (List.dropLast_append_getLast hvs).symm⟩
  rw [List.cons_append] at heq
  obtain ⟨rfl, hinner_eq⟩ := List.cons.inj heq
  rw [← List.append_assoc] at hinner_eq
  obtain ⟨rfl, hv⟩ := List.append_inj' hinner_eq rfl
  obtain rfl := List.singleton_inj.mp hv
  -- The first word opens a block, and those after it close only what they have opened.
  have hone := ht v
  have hcut := hinner.cut us vs rfl v
  rw [headD_append] at hone
  rw [headD_append, List.cons_append, balance_cons]
  show 1 ≤ u.balance (us.headD (vs.headD v)) + balance (us ++ [vs.headD v])
  omega

/-- It is balanced: before the closing word one statement is open. -/
theorem balanced {ts : List Token} (h : Wrapped ts) (hopens : OpensCompound ts) : Balanced ts where
  total := h.total
  cut us vs heq n := by
    by_cases hus : us = []
    · rw [hus]
      exact Int.le_refl 0
    by_cases hvs : vs = []
    · rw [heq, hvs, List.append_nil] at h
      rw [hvs]
      exact Int.le_of_eq (h.total n).symm
    · rw [heq] at h
      exact Int.le_trans Int.one_nonneg (h.inside hus hvs n)
  opening := by
    obtain ⟨t, inner, d, rfl, -, hd, hinner⟩ := h
    refine .cons (fun _ _ => hopens) (hinner.opening.append (fun n m => ?_) (.cons ?_ .nil))
    · rw [hinner.total, hinner.total]
    · intro n hone
      rw [Token.balance_done hd] at hone
      cases hone

end Wrapped

/-! ## Phrases -/

/-- No expression inside a node is one of the words that count. -/
def Node.Plain (node : Node) : Prop := ∀ word ∈ blockWords, ¬node.Names word

instance (node : Node) : Decidable node.Plain :=
  inferInstanceAs (Decidable (∀ word ∈ blockWords, ¬node.Names word))

theorem Node.Plain.of_child {node parent : Node} (h : parent.Plain)
    (hmem : node ∈ parent.children) : node.Plain :=
  fun word hword hnames => h word hword (hnames.of_child hmem)

/-- A spell is plain if its statements are. -/
theorem Node.plain_program {ss : List Node} : (program ss).Plain ↔ ∀ s ∈ ss, s.Plain := by
  constructor
  · exact fun h s hs => h.of_child hs
  · intro h word hword hnames
    obtain ⟨line, hwithin⟩ := hnames
    rcases within_iff.mp hwithin with heq | ⟨s, hs, hinner⟩
    · cases heq
    · exact h s hs word hword ⟨line, hinner⟩

/-- A spell of some statements of a plain one is plain. -/
theorem Node.Plain.of_subset {ss ss' : List Node} (h : (program ss').Plain) (hsub : ss ⊆ ss') :
    (program ss).Plain :=
  plain_program.mpr fun s hs => plain_program.mp h s (hsub hs)

/-- The word `cast` in the middle of an expression does not count. -/
theorem Balanced.codeWords {ts : List Token}
    (h : Words ["the", "sorcerers", "cast", "their", "spells", "on"] ts) : Balanced ts := by
  -- What decides is the word after `cast`.
  obtain ⟨t₁, us₁, h₁, hus₁, rfl⟩ := words_cons.mp h
  obtain ⟨t₂, us₂, h₂, hus₂, rfl⟩ := words_cons.mp hus₁
  obtain ⟨t₃, us₃, h₃, hus₃, rfl⟩ := words_cons.mp hus₂
  refine .word h₁ (by decide) (.word h₂ (by decide) (.cons (fun n => ?_) (.words hus₃ (by decide))))
  obtain ⟨t₄, us₄, h₄, -, rfl⟩ := words_cons.mp hus₃
  rw [List.headD_cons, Token.balance_cast h₃, Token.text?_of_isWord h₄]
  rfl

/-- The tokens of a phrase are balanced, and those of a branch or a loop are wrapped. Induction over
the rules of the grammar. -/
theorem Spells.balanced_and_wrapped {role : Role} {node : Node} {ts : List Token}
    (h : Spells role node ts) (hplain : node.Plain) :
    Balanced ts ∧ (node.isCompound → Wrapped ts) := by
  -- For a branch or a loop it is enough to see what is wrapped by its first word and `done`.
  have hcompound {node : Node} {ts : List Token} (h : Spells .statement node ts)
      (hform : node.isCompound) (hwrapped : Wrapped ts) :
      Balanced ts ∧ (node.isCompound → Wrapped ts) :=
    ⟨hwrapped.balanced ⟨node, ts, [], (List.append_nil ts).symm, h, hform⟩, fun _ => hwrapped⟩
  have hcast {t : Token} {p : List Token} (ht : t.isWord "cast")
      (hp : Words ["only", "if", "the", "spell"] p) (vs : List Token) (n : Token) :
      t.balance ((p ++ vs).headD n) = 1 := by
    obtain ⟨u, us, hu, -, rfl⟩ := words_cons.mp hp
    show t.balance u = 1
    rw [Token.balance_cast ht, if_pos (Token.text?_of_isWord hu)]
  have hwhilst {t : Token} {p : List Token} (ht : t.isWord "whilst")
      (hp : Words ["the", "spell"] p) (vs : List Token) (n : Token) :
      t.balance ((p ++ vs).headD n) = 1 := by
    obtain ⟨u, us, hu, -, rfl⟩ := words_cons.mp hp
    show t.balance u = 1
    rw [Token.balance_whilst ht, if_pos (Token.text?_of_isWord hu)]
  induction h with
  | text ht | integer ht _ | float ht =>
    refine ⟨.cons (fun n => Token.balance_eq_zero (fun hkind => ?_) _) .nil, nofun⟩
    rw [ht] at hkind
    cases hkind
  | name ht hword =>
    -- Here it matters that no name is one of the words that count.
    refine ⟨.cons (fun n => Token.balance_eq_zero (fun _ hmem => ?_) _) .nil, nofun⟩
    exact hplain _ hmem ⟨_, .refl⟩
  | combine ht hp _ hq _ iha ihb | remove ht hp _ hq _ iha ihb =>
    have ha := (iha (hplain.of_child (by simp [Node.children]))).1
    have hb := (ihb (hplain.of_child (by simp [Node.children]))).1
    exact ⟨.word ht (by decide) ((Balanced.words hp (by decide)).append
      (ha.append ((Balanced.words hq (by decide)).append hb))), nofun⟩
  | duplicate ht hp _ _ hq iha ihb | split ht hp _ _ hq iha ihb =>
    have ha := (iha (hplain.of_child (by simp [Node.children]))).1
    have hb := (ihb (hplain.of_child (by simp [Node.children]))).1
    exact ⟨.word ht (by decide) ((Balanced.words hp (by decide)).append
      (ha.append (hb.append (Balanced.words hq (by decide))))), nofun⟩
  | reply ht hp => exact ⟨.word ht (by decide) (.words hp (by decide)), nofun⟩
  | code ht hp _ iha =>
    have ha := (iha (hplain.of_child (by simp [Node.children]))).1
    exact ⟨.word ht (by decide) ((Balanced.codeWords hp).append ha), nofun⟩
  | character ht hp _ iha | shout ht hp _ iha =>
    have ha := (iha (hplain.of_child (by simp [Node.children]))).1
    exact ⟨.word ht (by decide) ((Balanced.words hp (by decide)).append ha), nofun⟩
  | comparison ht _ hop hq _ iha ihb =>
    have ha := (iha (hplain.of_child (by simp [Node.children]))).1
    have hb := (ihb (hplain.of_child (by simp [Node.children]))).1
    have hwords : ∀ op ∈ comparators, ∀ word ∈ op.2, word ∉ blockWords := by decide
    exact ⟨.word ht (by decide) (ha.append ((Balanced.words hq (hwords _ hop)).append hb)), nofun⟩
  | create ht hp _ _ hq _ ihn iha | assign ht hp _ _ hq _ ihn iha =>
    have hn := (ihn (hplain.of_child (by simp [Node.children]))).1
    have ha := (iha (hplain.of_child (by simp [Node.children]))).1
    exact ⟨.word ht (by decide) ((Balanced.words hp (by decide)).append
      (hn.append ((Balanced.words hq (by decide)).append ha))), nofun⟩
  | @branch t d p q as bs a b ht hp hsa hq hsb hd iha ihb =>
    have ha := (iha (hplain.of_child (by simp [Node.children]))).1
    have hb := (ihb (hplain.of_child (by simp [Node.children]))).1
    refine hcompound (.branch ht hp hsa hq hsb hd) rfl ?_
    refine ⟨t, p ++ (as ++ (q ++ bs)), d, by simp, hcast ht hp _, hd, ?_⟩
    exact (Balanced.words hp (by decide)).append (ha.append
      ((Balanced.words hq (by decide)).append hb))
  | @branchElse t e d p q as bs cs a b c ht hp hsa hq hsb he hsc hd iha ihb ihc =>
    have ha := (iha (hplain.of_child (by simp [Node.children]))).1
    have hb := (ihb (hplain.of_child (by simp [Node.children]))).1
    have hc := (ihc (hplain.of_child (by simp [Node.children]))).1
    refine hcompound (.branchElse ht hp hsa hq hsb he hsc hd) rfl ?_
    refine ⟨t, p ++ (as ++ (q ++ (bs ++ e :: cs))), d, by simp, hcast ht hp _, hd, ?_⟩
    exact (Balanced.words hp (by decide)).append (ha.append
      ((Balanced.words hq (by decide)).append (hb.append (.word he (by decide) hc))))
  | @loop t d p q as bs a b ht hp hsa hq hsb hd iha ihb =>
    have ha := (iha (hplain.of_child (by simp [Node.children]))).1
    have hb := (ihb (hplain.of_child (by simp [Node.children]))).1
    refine hcompound (.loop ht hp hsa hq hsb hd) rfl ?_
    refine ⟨t, p ++ (as ++ (q ++ bs)), d, by simp, hwhilst ht hp _, hd, ?_⟩
    exact (Balanced.words hp (by decide)).append (ha.append
      ((Balanced.words hq (by decide)).append hb))
  | block ht _ ih =>
    have hprogram := Node.plain_program.mpr fun s hs => hplain.of_child hs
    exact ⟨.word ht (by decide) (ih hprogram).1, nofun⟩
  | nil => exact ⟨.nil, nofun⟩
  | cons _ _ ih ihs =>
    have hhead := (ih (hplain.of_child List.mem_cons_self)).1
    have hrest := (ihs (hplain.of_subset (List.subset_cons_self _ _))).1
    exact ⟨hhead.append hrest, nofun⟩

end Grimoire
