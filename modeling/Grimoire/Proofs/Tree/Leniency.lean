import Grimoire.Proofs.Tree.Reading

/-!
# Where leniency counts

The reader of statements asks at every depth whether it is lenient and no block is open. Once a
block is open it cannot be so again before that block is closed, hence the answer counts outside all
blocks only.

* **`block_congr`**: a block is read alike by two rules for its statements that do the same wherever
  a block is open. No other cursor comes up in the block, because a statement that has been read
  leaves as many blocks open as it has found.
* **`block_kept`** ties this up by induction on the nesting limit: both readers read the same
  blocks.
* **`statement?_eq`** puts the test before everything else, where it decides about the statement as
  a whole.
-/

namespace Grimoire

open Rule

/-! ## Rules that do the same in a block -/

/-- Two rules that do the same wherever `p` holds are the same round of a loop that starts there, if
`p` holds again after each node. -/
theorem Rule.manyAtMost_congr {p : Cursor → Prop} {x y : Rule Node} (hxy : ∀ c, p c → x c = y c)
    (hkeeps : ∀ c node c', p c → y c = .ok node c' → p c') (done : Cursor → Bool) (fuel : Nat)
    {c : Cursor} (hc : p c) : manyAtMost done x fuel c = manyAtMost done y fuel c := by
  induction fuel generalizing c with
  | zero => rfl
  | succ fuel ih =>
    rw [manyAtMost, manyAtMost, get_bind, get_bind]
    split
    · rfl
    · -- The rest of the nodes is read from a cursor where `p` holds again.
      refine bind_congr_at (hxy c hc) fun node c' h => ?_
      exact bind_congr_at (ih (hkeeps c node c' hc h)) fun _ _ _ => rfl

namespace Grammar

/-- A block opens one more block before it reads statements, so only what its rule does there
counts. -/
theorem block_congr {x y : Rule Node} (hxy : ∀ c : Cursor, 0 < c.blockDepth → x c = y c)
    (hkeeps : ∀ c node c', y c = .ok node c' → c'.blockDepth = c.blockDepth) :
    block x = block y := by
  funext c
  refine bind_congr_at rfl fun token c₁ _ => bind_congr_at rfl fun _ c₂ hopen => ?_
  have hdeep : 0 < c₂.blockDepth := by
    cases hopen
    exact Nat.succ_pos _
  have hmany : many closes x c₂ = many closes y c₂ :=
    manyAtMost_congr hxy (fun c node c' hc h => (hkeeps c node c' h).symm ▸ hc) closes _ hdeep
  exact bind_congr_at hmany fun _ _ _ => rfl

/-- The statements hand the rule for other statements on to blocks only. -/
theorem order_congr {x y : Rule Node} (h : block x = block y) {word : Text}
    {order : Option Nat → Rule Node → Rule Node → Rule Node} (hmem : (word, order) ∈ orders)
    (line : Option Nat) (expression : Rule Node) :
    order line expression x = order line expression y := by
  simp only [orders, List.mem_cons, Prod.mk.injEq, List.not_mem_nil, or_false] at hmem
  rcases hmem with ⟨-, rfl⟩ | ⟨-, rfl⟩ | ⟨-, rfl⟩ | ⟨-, rfl⟩ | ⟨-, rfl⟩
  -- the first three have no block
  · rfl
  · rfl
  · rfl
  · unfold branch
    rw [h]
  · unfold loop
    rw [h]

/-! ## The two readers -/

variable (lenient : Bool)

/-- A statement that has been read leaves as many blocks open as it has found. -/
theorem blockDepth_of_statement {d : Nat} {c c' : Cursor} {s : Node}
    (h : statement d c = .ok s c') : c'.blockDepth = c.blockDepth := by
  obtain ⟨ts, hpass, -⟩ := (reads_statement d c s c').mp h
  exact hpass.blockDepth

/-- Where the test fails, a lenient reader reads a statement as a strict one does. Induction on the
nesting limit: in the blocks of the statement the test fails as well, because they are open
there. -/
theorem kept_eq_statement (d : Nat) {c : Cursor} (hc : lenient = false ∨ 0 < c.blockDepth) :
    kept (statement? lenient d) c = statement d c := by
  induction d generalizing c with
  | zero => rfl
  | succ d ih =>
    have hblock : block (kept (statement? lenient d)) = block (statement d) :=
      block_congr (fun c hc => ih (.inr hc)) fun c s c' => blockDepth_of_statement
    have htest : (lenient && decide (c.blockDepth = 0)) = false := by
      rcases hc with rfl | hc
      · rfl
      · rw [decide_eq_false (Nat.ne_of_gt hc), Bool.and_false]
    rw [kept_succ, statement_succ, htest]
    cases horder : order? c.current with
    | some order => exact congrFun (order_congr hblock (order?_eq_some horder).2 _ _) c
    | none => rfl

/-- The statements of a block are the same for both readers, wherever the block is open. -/
theorem many_kept (d : Nat) (done : Cursor → Bool) {c : Cursor}
    (hc : lenient = false ∨ 0 < c.blockDepth) :
    many done (kept (statement? lenient d)) c = many done (statement d) c := by
  refine manyAtMost_congr (fun _ => kept_eq_statement lenient d) (fun c s c' hc h => ?_) done _ hc
  rw [blockDepth_of_statement h]
  exact hc

/-- **Blocks are the same for both readers**, at every depth. -/
theorem block_kept (d : Nat) : block (kept (statement? lenient d)) = block (statement d) :=
  block_congr (fun _ hc => kept_eq_statement lenient d (.inr hc)) fun _ _ _ =>
    blockDepth_of_statement

/-- A statement that has begun is the same for both readers. -/
theorem order_kept (d : Nat) {word : Text}
    {order : Option Nat → Rule Node → Rule Node → Rule Node} (hmem : (word, order) ∈ orders)
    (line : Option Nat) (expression : Rule Node) :
    order line expression (kept (statement? lenient d)) = order line expression (statement d) :=
  order_congr (block_kept lenient d) hmem line expression

/-- **The test counts outside all blocks only**: there a lenient reader yields nothing before a
token that starts no statement, and apart from that both readers do the same. -/
theorem statement?_eq :
    statement? lenient nestingLimit = (do
      let c ← get
      if lenient && c.blockDepth = 0 && (order? c.current).isNone then return none
      else return some (← statement nestingLimit)) := by
  funext c
  obtain ⟨d, hd⟩ : ∃ d, nestingLimit = d + 1 := ⟨499, rfl⟩
  rw [hd, get_bind, statement?_succ]
  cases horder : order? c.current with
  | some order =>
    have hnone : (some order).isNone = false := rfl
    rw [hnone, Bool.and_false, if_neg Bool.false_ne_true]
    refine bind_congr_at ?_ fun _ _ _ => rfl
    rw [order_kept lenient d (order?_eq_some horder).2, statement_succ, horder]
  | none =>
    have hnone : (none : Option (Option Nat → Rule Node → Rule Node → Rule Node)).isNone = true :=
      rfl
    rw [hnone, Bool.and_true]
    dsimp only
    split
    · rfl
    · have hrefused : statement (d + 1) c =
          .error (.refused ⟨.notAStatement, c.current, c.pos⟩) c := by rw [statement_succ, horder]
      exact (bind_of_error hrefused).symm

/-- A strict reader never comes away with nothing. -/
theorem statement?_strict :
    statement? false nestingLimit = (do return some (← statement nestingLimit)) :=
  statement?_eq false

end Grammar
end Grimoire
