import Mathlib
import Grimoire.Proofs.Console.Layout

/-!
# Where the count of open blocks is right

A word that opens or closes a block in one place may be a plain name in another, and the count of
open blocks does not look at the grammar. `Node.duties` says what each token of a spelling is there
for, so that the branches and loops that are begun and not yet closed can be counted at any place of
a spell (`Node.openAfter`).

* **`Spells.performs`**: a token that is no name counts for what it is there for.
* **`Performs.agrees_iff`**: so the count is right at all places if and only if no name counts.
* **`open_blocks_counted_iff`**: the same for a spell that is read from a text.
-/

namespace Grimoire

/-- What a token is there for. -/
inductive Duty where
  /-- The first word of a branch or a loop. -/
  | opens
  /-- The word `done` at the end of a branch or a loop. -/
  | closes
  | names
  /-- A literal, or any other word of a phrase. -/
  | fills
deriving DecidableEq

/-- How many more blocks are open after the token than before it. -/
def Duty.weight : Duty → Int
  | opens => 1
  | closes => -1
  | names | fills => 0

/-- The duties of the words of a phrase that opens and closes nothing. -/
def Duty.words (n : Nat) : List Duty := List.replicate n fills

open Duty (words)

namespace Node

mutual

/-- The duties of the tokens that spell a node, in the order of the tokens. -/
def duties : Node → List Duty
  | .literal .. => words 1
  | .name .. => [.names]
  | .ask _ => words 6
  | .binary _ a .add b => words 4 ++ (a.duties ++ (words 1 ++ b.duties))
  -- What is removed comes first.
  | .binary _ a .subtract b => words 4 ++ (b.duties ++ (words 1 ++ a.duties))
  | .binary _ a .multiply b | .binary _ a .divide b =>
    words 4 ++ (a.duties ++ (b.duties ++ words 1))
  | .binary _ a .unequal b => words 1 ++ (a.duties ++ (words 3 ++ b.duties))
  | .binary _ a _ b => words 1 ++ (a.duties ++ (words 2 ++ b.duties))
  | .unary _ .ord a => words 7 ++ a.duties
  | .unary _ _ a => words 6 ++ a.duties
  | .shout _ a => words 5 ++ a.duties
  | .create _ n a => words 5 ++ (n.duties ++ (words 4 ++ a.duties))
  | .assign _ n a => words 4 ++ (n.duties ++ (words 1 ++ a.duties))
  | .branch _ a b .missing =>
    .opens :: (words 4 ++ (a.duties ++ (words 2 ++ (b.duties ++ [.closes]))))
  | .branch _ a b c =>
    .opens :: (words 4 ++ (a.duties ++ (words 2 ++ (b.duties ++ (words 1 ++
      (c.duties ++ [.closes]))))))
  | .loop _ a b => .opens :: (words 2 ++ (a.duties ++ (words 2 ++ (b.duties ++ [.closes]))))
  | .block _ ss => words 1 ++ dutiesOfAll ss
  | .program ss => dutiesOfAll ss
  | .bare | .missing => []

/-- The duties in several nodes, one after the other. -/
def dutiesOfAll : List Node → List Duty
  | [] => []
  | s :: ss => s.duties ++ dutiesOfAll ss

end

/-- A branch with an alternative. -/
theorem duties_branch {c : Node} (hc : c ≠ .missing) (line : Option Nat) (a b : Node) :
    (Node.branch line a b c).duties = .opens :: (words 4 ++ (a.duties ++ (words 2 ++
      (b.duties ++ (words 1 ++ (c.duties ++ [.closes])))))) := by
  cases c with
  | missing => exact absurd rfl hc
  | _ => rfl

/-- How many branches and loops of a node have been begun and not been closed after the first `k`
tokens of its spelling. -/
def openAfter (node : Node) (k : Nat) : Int :=
  (node.duties.take k).count .opens - (node.duties.take k).count .closes

end Node

namespace Duty

/-- How many more blocks are open after tokens with these duties than before them. -/
def total (ds : List Duty) : Int := (ds.map weight).sum

@[simp] theorem total_nil : total [] = 0 := rfl

@[simp] theorem total_cons (d : Duty) (ds : List Duty) : total (d :: ds) = d.weight + total ds :=
  List.sum_cons

@[simp] theorem total_append (ds es : List Duty) : total (ds ++ es) = total ds + total es := by
  rw [total, List.map_append, List.sum_append]
  rfl

/-- Words that only fill a phrase count for nothing. -/
@[simp] theorem total_words (n : Nat) : total (words n) = 0 := by
  induction n with
  | zero => rfl
  | succ n ih => exact (total_cons fills (words n)).trans ((Int.zero_add _).trans ih)

/-- What the duties count for is how many open more than close. -/
theorem count_sub_count (ds : List Duty) :
    (ds.count .opens : Int) - ds.count .closes = total ds := by
  induction ds with
  | nil => rfl
  | cons d ds ih =>
    rw [total_cons, ← ih, List.count_cons, List.count_cons]
    cases d <;> simp [weight] <;> omega

end Duty

/-- How many statements are open is what the duties so far count for. -/
theorem Node.openAfter_eq (node : Node) (k : Nat) :
    node.openAfter k = Duty.total (node.duties.take k) := Duty.count_sub_count _

mutual

/-- All that is begun in a spelling is closed in it. -/
theorem Node.total_duties : (node : Node) → Duty.total node.duties = 0
  | .literal .. | .name .. | .ask _ | .bare | .missing => rfl
  | .binary _ a op b => by
    have ha := total_duties a
    have hb := total_duties b
    cases op <;> simp [duties, ha, hb]
  | .unary _ op a => by
    have ha := total_duties a
    cases op <;> simp [duties, ha]
  | .shout _ a => by simp [duties, total_duties a]
  | .create _ n a | .assign _ n a => by simp [duties, total_duties n, total_duties a]
  | .branch _ a b c => by
    have ha := total_duties a
    have hb := total_duties b
    have hc := total_duties c
    by_cases hmissing : c = .missing
    · simp [hmissing, duties, Duty.weight, ha, hb]
    · simp [duties_branch hmissing, Duty.weight, ha, hb, hc]
  | .loop _ a b => by simp [duties, Duty.weight, total_duties a, total_duties b]
  | .block _ ss | .program ss => by simp [duties, total_dutiesOfAll ss]

/-- After whole statements none is open. -/
theorem Node.total_dutiesOfAll : (ss : List Node) → Duty.total (dutiesOfAll ss) = 0
  | [] => rfl
  | s :: ss => by simp [dutiesOfAll, total_duties s, total_dutiesOfAll ss]

end

/-! ## Tokens that do their duty -/

/-- The tokens do their duties, one after the other. A token that is no name counts for as much as
its duty weighs, whatever comes after the last token. -/
inductive Performs : List Duty → List Token → Prop where
  | nil : Performs [] []
  | name {t : Token} {ds : List Duty} {ts : List Token} (ht : t.kind = .identifier)
      (h : Performs ds ts) : Performs (.names :: ds) (t :: ts)
  | word {d : Duty} {t : Token} {ds : List Duty} {ts : List Token} (hd : d ≠ .names)
      (ht : ∀ n, t.balance (ts.headD n) = d.weight) (h : Performs ds ts) :
      Performs (d :: ds) (t :: ts)

namespace Performs

/-- Lists that do their duties do them in a row. -/
theorem append {ds es : List Duty} {ts us : List Token} (h : Performs ds ts) (h' : Performs es us) :
    Performs (ds ++ es) (ts ++ us) := by
  induction h with
  | nil => exact h'
  | name ht _ ih => exact .name ht ih
  | word hd ht _ ih =>
    refine .word hd (fun n => ?_) ih
    show Token.balance _ ((_ ++ us).headD n) = _
    rw [headD_append]
    exact ht _

/-- There is one token for each duty. -/
theorem length_eq {ds : List Duty} {ts : List Token} (h : Performs ds ts) :
    ds.length = ts.length := by
  induction h with
  | nil => rfl
  | name _ _ ih | word _ _ _ ih => exact congrArg (· + 1) ih

theorem cons {t : Token} {word : Text} {ds : List Duty} {ts : List Token} (ht : t.isWord word)
    (hword : word ∉ blockWords) (h : Performs ds ts) : Performs (.fills :: ds) (t :: ts) :=
  .word (by decide) (fun _ => Token.balance_word ht hword _) h

/-- Words that open and close nothing fill a phrase. -/
theorem ofWords {ws : List Text} {ts : List Token} (h : Words ws ts)
    (hwords : ∀ word ∈ ws, word ∉ blockWords) : Performs (words ws.length) ts := by
  induction h with
  | nil => exact .nil
  | cons ht _ ih =>
    have hrest := ih fun word hword => hwords word (List.mem_cons_of_mem _ hword)
    exact .cons ht (hwords _ List.mem_cons_self) hrest

/-- The word `cast` in the middle of an expression does not count. -/
theorem codeWords {ts : List Token}
    (h : Words ["the", "sorcerers", "cast", "their", "spells", "on"] ts) :
    Performs (words 6) ts := by
  obtain ⟨t₁, us₁, h₁, hus₁, rfl⟩ := words_cons.mp h
  obtain ⟨t₂, us₂, h₂, hus₂, rfl⟩ := words_cons.mp hus₁
  obtain ⟨t₃, us₃, h₃, hus₃, rfl⟩ := words_cons.mp hus₂
  refine .cons h₁ (by decide) (.cons h₂ (by decide) (.word (by decide) (fun n => ?_) ?_))
  · obtain ⟨t₄, us₄, h₄, -, rfl⟩ := words_cons.mp hus₃
    rw [List.headD_cons, Token.balance_cast h₃, Token.text?_of_isWord h₄]
    rfl
  · exact .ofWords hus₃ (by decide)

/-- The word `done` closes. -/
theorem done {t : Token} (ht : t.isWord "done") : Performs [.closes] [t] :=
  .word (by decide) (fun _ => Token.balance_done ht _) .nil

end Performs

/-- A spelled block is not left out. -/
theorem Spells.block_ne_missing {block : Node} {ts : List Token} (h : Spells .block block ts) :
    block ≠ .missing := by
  cases h
  exact nofun

/-- **Each token does its duty**: in the spelling of a phrase, a token that is no name counts for
what it is there for. Induction over the rules of the grammar. -/
theorem Spells.performs {role : Role} {node : Node} {ts : List Token} (h : Spells role node ts) :
    Performs node.duties ts := by
  -- A token by itself, the openings of the two statements with blocks, and words that fill a
  -- phrase.
  have hliteral {t : Token} (ht : t.kind ≠ .identifier) : Performs (words 1) [t] :=
    .word (by decide) (fun n => Token.balance_eq_zero (fun hkind => absurd hkind ht) _) .nil
  have hcast {t : Token} {p vs : List Token} {ds : List Duty} (ht : t.isWord "cast")
      (hp : Words ["only", "if", "the", "spell"] p) (h : Performs ds (p ++ vs)) :
      Performs (.opens :: ds) (t :: (p ++ vs)) := by
    refine .word (by decide) (fun n => ?_) h
    obtain ⟨u, us, hu, -, rfl⟩ := words_cons.mp hp
    exact (Token.balance_cast ht).trans (if_pos (Token.text?_of_isWord hu))
  have hwhilst {t : Token} {p vs : List Token} {ds : List Duty} (ht : t.isWord "whilst")
      (hp : Words ["the", "spell"] p) (h : Performs ds (p ++ vs)) :
      Performs (.opens :: ds) (t :: (p ++ vs)) := by
    refine .word (by decide) (fun n => ?_) h
    obtain ⟨u, us, hu, -, rfl⟩ := words_cons.mp hp
    exact (Token.balance_whilst ht).trans (if_pos (Token.text?_of_isWord hu))
  have hwords {ws : List Text} {p vs : List Token} {ds : List Duty} (hp : Words ws p)
      (hcount : ∀ word ∈ ws, word ∉ blockWords) (h : Performs ds vs) :
      Performs (words ws.length ++ ds) (p ++ vs) := (Performs.ofWords hp hcount).append h
  induction h with
  | text ht | integer ht _ | float ht => exact hliteral (by simp [ht])
  | name ht _ => exact .name ht .nil
  | combine ht hp _ hq _ iha ihb | remove ht hp _ hq _ iha ihb =>
    exact .cons ht (by decide)
      (hwords hp (by decide) (iha.append (hwords hq (by decide) ihb)))
  | duplicate ht hp _ _ hq iha ihb | split ht hp _ _ hq iha ihb =>
    exact .cons ht (by decide)
      (hwords hp (by decide) (iha.append (ihb.append (.ofWords hq (by decide)))))
  | reply ht hp => exact .cons ht (by decide) (.ofWords hp (by decide))
  | code ht hp _ iha => exact .cons ht (by decide) ((Performs.codeWords hp).append iha)
  | character ht hp _ iha | shout ht hp _ iha =>
    exact .cons ht (by decide) (hwords hp (by decide) iha)
  | comparison ht _ hop hq _ iha ihb =>
    have hcount : ∀ op ∈ comparators, ∀ word ∈ op.2, word ∉ blockWords := by decide
    have hrest := iha.append (hwords hq (hcount _ hop) ihb)
    simp only [comparators, List.mem_cons, Prod.mk.injEq, List.not_mem_nil, or_false] at hop
    rcases hop with ⟨rfl, rfl⟩ | ⟨rfl, rfl⟩ | ⟨rfl, rfl⟩ | ⟨rfl, rfl⟩ <;>
      exact .cons ht (by decide) hrest
  | create ht hp _ _ hq _ ihn iha | assign ht hp _ _ hq _ ihn iha =>
    exact .cons ht (by decide)
      (hwords hp (by decide) (ihn.append (hwords hq (by decide) iha)))
  | branch ht hp _ hq _ hd iha ihb =>
    exact hcast ht hp (hwords hp (by decide)
      (iha.append (hwords hq (by decide) (ihb.append (.done hd)))))
  | branchElse ht hp _ hq _ he hc hd iha ihb ihc =>
    rw [Node.duties_branch hc.block_ne_missing]
    exact hcast ht hp (hwords hp (by decide)
      (iha.append (hwords hq (by decide)
        (ihb.append (.cons he (by decide) (ihc.append (.done hd)))))))
  | loop ht hp _ hq _ hd iha ihb =>
    exact hwhilst ht hp (hwords hp (by decide)
      (iha.append (hwords hq (by decide) (ihb.append (.done hd)))))
  | block ht _ ih => exact .cons ht (by decide) ih
  | nil => exact .nil
  | cons _ _ ih ihs => exact ih.append ihs

/-! ## Names that count -/

/-- Words that count in front of the token `n`, also where they are names. -/
def Token.CountsBefore (t n : Token) : Prop :=
  t.text = "done" ∨ (t.text = "cast" ∧ n.text? = some ("only" : Text)) ∨
    (t.text = "whilst" ∧ n.text? = some ("the" : Text))

instance (t n : Token) : Decidable (t.CountsBefore n) :=
  inferInstanceAs (Decidable (_ ∨ (_ ∧ _) ∨ (_ ∧ _)))

/-- Some name among the tokens counts, in front of the token after it. -/
def NameCounts (ds : List Duty) (ts : List Token) : Prop :=
  ∃ place ∈ ds.zip (ts.zip ts.tail), place.1 = .names ∧ place.2.1.CountsBefore place.2.2

instance (ds : List Duty) (ts : List Token) : Decidable (NameCounts ds ts) :=
  inferInstanceAs (Decidable (∃ place ∈ _, _ ∧ _))

/-- Of the tokens of the kind of a name, block words alone count, and only before the words they
look for. -/
theorem Token.balance_eq_zero_iff {t n : Token} (ht : t.kind = .identifier) :
    t.balance n = 0 ↔ ¬t.CountsBefore n := by
  unfold balance CountsBefore
  rw [if_neg (not_not.mpr ht)]
  grind

/-- A name counts if the first token is one that does, or if a name counts behind it. -/
theorem nameCounts_cons {d : Duty} {ds : List Duty} {t n : Token} {ts : List Token} :
    NameCounts (d :: ds) (t :: (ts ++ [n])) ↔
      (d = .names ∧ t.CountsBefore (ts.headD n)) ∨ NameCounts ds (ts ++ [n]) := by
  unfold NameCounts
  cases ts <;> simp

/-- A word that opens a block as a name does so because of the word after it, which does not
count. -/
theorem Token.CountsBefore.cases {t n : Token} (ht : t.kind = .identifier) (h : t.CountsBefore n) :
    t.isWord "done" ∨ (t.balance n = 1 ∧ n.kind ≠ .eof ∧ ∀ m, n.balance m = 0) := by
  have hnext {word : Text} (hn : n.text? = some word) (hword : word ∉ blockWords) :
      n.kind ≠ .eof ∧ ∀ m, n.balance m = 0 := by
    unfold text? at hn
    split at hn
    · cases hn
    · exact ⟨‹_›, fun m => balance_eq_zero (fun _ => Option.some.inj hn ▸ hword) m⟩
  rcases h with htext | ⟨htext, hn⟩ | ⟨htext, hn⟩
  · exact .inl (isWord_iff.mpr ⟨ht, htext⟩)
  · have hone := (balance_cast (isWord_iff.mpr ⟨ht, htext⟩)).trans (if_pos hn)
    exact .inr ⟨hone, hnext hn (by decide)⟩
  · have hone := (balance_whilst (isWord_iff.mpr ⟨ht, htext⟩)).trans (if_pos hn)
    exact .inr ⟨hone, hnext hn (by decide)⟩

/-! ## The count at each place -/

/-- At each place, the blocks that are counted in the tokens before it are those that are open
there. Places right after a word that opens a block are left out. -/
def Agrees (ds : List Duty) (ts : List Token) : Prop :=
  ∀ (k : Nat) (m : Mark), (ds.take k).getLast? ≠ some .opens →
    balance (ts.take k ++ [Token.eof m]) = Duty.total (ds.take k)

namespace Performs

variable {d : Duty} {ds : List Duty} {t : Token} {ts : List Token}

/-- There are no duties before a place where there are no tokens before it. -/
theorem take_eq_nil_iff (h : Performs ds ts) (k : Nat) : ds.take k = [] ↔ ts.take k = [] := by
  rw [← List.length_eq_zero_iff, ← List.length_eq_zero_iff, List.length_take, List.length_take,
    h.length_eq]

/-- Only a name can count for something else than its duty. -/
theorem balance_head (h : Performs (d :: ds) (t :: ts)) {m : Mark}
    (hname : ¬(d = .names ∧ t.CountsBefore (ts.headD (Token.eof m)))) :
    t.balance (ts.headD (Token.eof m)) = d.weight := by
  cases h with
  | name ht _ => exact (Token.balance_eq_zero_iff ht).mpr fun hcounts => hname ⟨rfl, hcounts⟩
  | word _ ht _ => exact ht _

theorem tail (h : Performs (d :: ds) (t :: ts)) : Performs ds ts := by
  cases h with
  | name _ h | word _ _ h => exact h

/-- The first token counts for its duty at each place behind it. If it is the last token before the
place, the token after it is not seen, which matters only where a block has just been opened. -/
theorem balance_take_succ {m : Mark} (hhead : t.balance (ts.headD (Token.eof m)) = d.weight)
    (h : Performs ds ts) {k : Nat} (hlast : ((d :: ds).take (k + 1)).getLast? ≠ some .opens) :
    balance ((t :: ts).take (k + 1) ++ [Token.eof m]) =
      d.weight + balance (ts.take k ++ [Token.eof m]) := by
  rw [List.take_succ_cons, List.cons_append, balance_cons]
  refine congrArg (· + _) ?_
  cases hts : ts.take k with
  | nil =>
    rw [List.take_succ_cons, (h.take_eq_nil_iff k).mpr hts] at hlast
    -- The place is right behind the first token, which does not open a block there.
    have hd : d ≠ .opens := fun hd => hlast (congrArg some hd)
    have hweight : d.weight ≠ 1 := by
      cases d with
      | opens => exact absurd rfl hd
      | closes | names | fills => decide
    rw [← hhead] at hweight ⊢
    exact Token.balance_eq_of_ne_one (Token.balance_eof_ne_one rfl) hweight
  | cons u us =>
    cases ts with
    | nil => simp at hts
    | cons v vs =>
      cases k with
      | zero => cases hts
      | succ k =>
        obtain ⟨rfl, -⟩ := List.cons.inj hts
        exact hhead

/-- A token that never counts is there for a duty that does not. -/
theorem weight_of_silent (h : Performs (d :: ds) (t :: ts)) (ht : ∀ n, t.balance n = 0) :
    d.weight = 0 := by
  cases h with
  | name => rfl
  | word _ hweight _ => exact (hweight t).symm.trans (ht _)

/-- A name that counts makes the count wrong right after it, or after the next word. -/
theorem not_agrees_of_counts (ht : t.kind = .identifier) (h : Performs ds ts) {m : Mark}
    (hcounts : t.CountsBefore (ts.headD (Token.eof m))) : ¬Agrees (.names :: ds) (t :: ts) := by
  intro hagrees
  rcases hcounts.cases ht with hdone | ⟨hone, hkind, hzero⟩
  · -- The name `done` counts as if it closed a block.
    have hwrong : t.balance (Token.eof m) + 0 = 0 := hagrees 1 m (by simp)
    rw [Token.balance_done hdone] at hwrong
    exact absurd hwrong (by decide)
  · -- The name counts as if it opened a block, because of the word after it.
    cases ts with
    | nil => exact hkind rfl
    | cons n ts =>
      cases ds with
      | nil => cases h
      | cons e es =>
        have hweight := h.weight_of_silent hzero
        have hopens : some e ≠ some .opens := by
          rintro ⟨rfl⟩
          cases hweight
        have hwrong : t.balance n + (n.balance (Token.eof m) + 0) = 0 + (e.weight + 0) :=
          hagrees 2 m hopens
        rw [List.headD_cons] at hone hzero
        rw [hone, hzero, hweight] at hwrong
        exact absurd hwrong (by decide)

/-- One token more. -/
theorem agrees_cons (h : Performs (d :: ds) (t :: ts)) (stop : Mark) :
    Agrees (d :: ds) (t :: ts) ↔
      ¬(d = .names ∧ t.CountsBefore (ts.headD (Token.eof stop))) ∧ Agrees ds ts := by
  -- only the mark of the last token differs, and that is not looked at
  have hmark (m : Mark) : t.CountsBefore (ts.headD (Token.eof m)) ↔
      t.CountsBefore (ts.headD (Token.eof stop)) := by
    cases ts <;> exact Iff.rfl
  constructor
  · intro hagrees
    have hname : ¬(d = .names ∧ t.CountsBefore (ts.headD (Token.eof stop))) := by
      rintro ⟨rfl, hcounts⟩
      cases h with
      | word hd => exact hd rfl
      | name ht h => exact h.not_agrees_of_counts ht hcounts hagrees
    refine ⟨hname, fun k m hlast => ?_⟩
    by_cases hds : ds.take k = []
    · rw [hds, (h.tail.take_eq_nil_iff k).mp hds]
      rfl
    · have hlast' : ((d :: ds).take (k + 1)).getLast? ≠ some .opens := by
        rwa [List.take_succ_cons, List.getLast?_cons_of_ne_nil hds]
      have hall := hagrees (k + 1) m hlast'
      rw [balance_take_succ (h.balance_head (by rwa [hmark])) h.tail hlast', List.take_succ_cons,
        Duty.total_cons] at hall
      exact Int.add_left_cancel hall
  · rintro ⟨hname, hagrees⟩ k m hlast
    cases k with
    | zero => rfl
    | succ k =>
      rw [balance_take_succ (h.balance_head (by rwa [hmark])) h.tail hlast, List.take_succ_cons,
        Duty.total_cons, hagrees k m]
      intro hopens
      rw [List.take_succ_cons, List.getLast?_cons, hopens] at hlast
      exact hlast rfl

/-- **The count is right at all places if and only if no name counts.** -/
theorem agrees_iff (h : Performs ds ts) (stop : Mark) :
    Agrees ds ts ↔ ¬NameCounts ds (ts ++ [Token.eof stop]) := by
  induction h with
  | nil =>
    refine iff_of_true (fun k m _ => ?_) (by simp [NameCounts])
    rw [List.take_nil, List.take_nil]
    rfl
  | name ht h ih =>
    rw [agrees_cons (.name ht h) stop, List.cons_append, nameCounts_cons, not_or, ih]
  | word hd ht h ih =>
    rw [agrees_cons (.word hd ht h) stop, List.cons_append, nameCounts_cons, not_or, ih]

end Performs

/-! ## Spells -/

/-- At the end of a spell no block has just been opened. -/
theorem Performs.getLast?_ne_opens {ds : List Duty} {ts : List Token} (h : Performs ds ts) :
    ds.getLast? ≠ some .opens := by
  induction h with
  | nil => exact nofun
  | @name t ds ts _ _ ih =>
    rw [List.getLast?_cons]
    cases hlast : ds.getLast? with
    | none => exact nofun
    | some e => exact hlast ▸ ih
  | @word d t ds ts _ ht h ih =>
    rw [List.getLast?_cons]
    cases hlast : ds.getLast? with
    | none =>
      -- The last token has nothing after it, and no token opens a block there.
      have hds : ds = [] := List.getLast?_eq_none_iff.mp hlast
      have hts : ts = [] := List.eq_nil_of_length_eq_zero (h.length_eq ▸ congrArg List.length hds)
      have hone : t.balance (Token.eof Mark.start) ≠ 1 := Token.balance_eof_ne_one rfl
      rintro ⟨rfl⟩
      rw [hts] at ht
      exact hone (ht _)
    | some e => exact hlast ▸ ih

/-- **The count of open blocks is right where no name is mistaken for a block word.** In a spell
that is read, each token does its duty. All blocks are closed at the end of the count, and at each
place the count is the number of branches and loops that are begun and not closed, if and only if no
name counts: none of them is `done`, or `cast` in front of the text `only`, or `whilst` in front of
the text `the`. Places right after the first word of a branch or a loop are left out. -/
theorem open_blocks_counted_iff {source : Text} {spell : List Node}
    (hread : readSpell false source = .ok spell) :
    ∃ ts, tokenize source = .ok ts ∧ Performs (Node.program spell).duties ts.body ∧
      ((lineBalance source = 0 ∧ ∀ (k : Nat) (m : Mark),
          ((Node.program spell).duties.take k).getLast? ≠ some .opens →
          balance (ts.body.take k ++ [Token.eof m]) = (Node.program spell).openAfter k) ↔
        ¬NameCounts (Node.program spell).duties ts.toList) := by
  obtain ⟨ts, hts, hparse⟩ := readSpell_eq_ok.mp hread
  have hkinds := (Scanner.tokenize_eq_ok.mp hts).kind_ne_eof
  have hperforms := ((parse_strict_eq_ok hkinds).mp hparse).1.performs
  refine ⟨ts, hts, hperforms, ?_⟩
  have hagrees := hperforms.agrees_iff ts.stop
  simp only [Node.openAfter_eq]
  constructor
  · exact fun hcount => hagrees.mp hcount.2
  · intro hnames
    have hcount := hagrees.mpr hnames
    refine ⟨?_, hcount⟩
    -- The end of the text is one of the places.
    have hline : lineBalance source = balance (ts.body ++ [Token.eof ts.stop]) := by
      unfold lineBalance
      rw [hts]
      rfl
    have hend := hcount ts.body.length ts.stop
    rw [List.take_length, ← hperforms.length_eq, List.take_length, Node.total_duties,
      ← hline] at hend
    exact hend hperforms.getLast?_ne_opens

/-- Block words in a phrase, in a text, in an aside and as a name, two blocks deep. -/
def disguises : Text :=
  "whilst the spell whilst is true do\n" ++
    "  cast only if the spell may the sorcerers cast their spells on \"cast only\" is true do\n" ++
    "  # done\n" ++
    "  done\n" ++
    "done"

/-- What the text is read as. -/
def disguisesSpell : List Node :=
  [.loop (some 1) (.name (some 1) "whilst") (.block (some 1)
    [.branch (some 2)
      (.unary (some 2) .ord (.literal (some 2) (.text "cast only") (some "STRING")))
      (.block (some 2) []) .missing])]

/-- After two lines the loop and the branch are open, and no other word has been counted. -/
theorem disguises_counted :
    readSpell false disguises = .ok disguisesSpell ∧ lineBalance disguises = 0 ∧
    ∃ ts, tokenize disguises = .ok ts ∧ ∀ m, balance (ts.body.take 23 ++ [Token.eof m]) = 2 := by
  have hread : readSpell false disguises = .ok disguisesSpell := by cbv
  obtain ⟨ts, hts, -, hcount⟩ := open_blocks_counted_iff hread
  have hnames : ¬NameCounts (Node.program disguisesSpell).duties ts.toList := by
    have htokens : (tokenize disguises).toOption.all fun ts =>
      !decide (NameCounts (Node.program disguisesSpell).duties ts.toList) := by decide +kernel
    rw [hts] at htokens
    exact of_decide_eq_false (Bool.not_eq_true' _ ▸ htokens)
  obtain ⟨hzero, hplaces⟩ := hcount.mpr hnames
  exact ⟨hread, hzero, ts, hts, fun m => hplaces 23 m (by decide)⟩

/-- The name `done` is counted as the end of a block, and the name `cast` in front of the name
`only` as the start of one. -/
theorem names_counted_as_block_words :
    (readSpell false "shout the many cries of done" =
        .ok [.shout (some 1) (.name (some 1) "done")] ∧
      lineBalance "shout the many cries of done" = -1) ∧
    readSpell false "shout the many cries of duplicate the power of cast only times" =
        .ok [.shout (some 1)
          (.binary (some 1) (.name (some 1) "cast") .multiply (.name (some 1) "only"))] ∧
      lineBalance "shout the many cries of duplicate the power of cast only times" = 1 := by
  refine ⟨⟨?_, ?_⟩, ?_, ?_⟩
  · rfl
  · decide +kernel
  · rfl
  · decide +kernel

end Grimoire
