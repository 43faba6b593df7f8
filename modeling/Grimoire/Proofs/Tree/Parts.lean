import Grimoire.Proofs.Tree.Parsing
import Grimoire.Proofs.Tree.Within

/-!
# Parts of spelled trees

The reader makes its trees of nothing but spelled phrases, whether it is strict or lenient, so that
every branch and every loop inside a spell is a statement that some tokens spell. Where a strict
reader succeeds, a lenient one does the same.
-/

namespace Grimoire

open Rule Grammar

/-- Every statement of a spelled list has a spelling of its own. -/
theorem Spells.statement_of_mem {ss : List Node} {ts : List Token}
    (h : Spells .program (.program ss) ts) {node : Node} (hmem : node ∈ ss) :
    ∃ us, Spells .statement node us := by
  induction ss generalizing ts with
  | nil => cases hmem
  | cons s ss ih =>
    cases h with
    | cons hs hss =>
      rcases List.mem_cons.mp hmem with rfl | hmem
      · exact ⟨_, hs⟩
      · exact ih hss hmem

/-- A spelled block is there, so nothing has to stand in for it. -/
theorem Spells.orEmpty_eq {block : Node} {ts : List Token} (h : Spells .block block ts) :
    block.orEmpty = block := by
  cases h with
  | block => rfl

/-- What a spelled node is made of is spelled as well, but for an alternative that is left out. -/
theorem Spells.of_child {role : Role} {node child : Node} {ts : List Token}
    (h : Spells role node ts) (hmem : child ∈ node.children) :
    child = .missing ∨ ∃ role us, Spells role child us := by
  cases h with
  | text | integer | float | name | reply | nil => cases hmem
  | combine _ _ ha _ hb | remove _ _ hb _ ha | duplicate _ _ ha hb | split _ _ ha hb
  | comparison _ ha _ _ hb =>
    rcases List.mem_pair.mp hmem with rfl | rfl
    · exact .inr ⟨_, _, ha⟩
    · exact .inr ⟨_, _, hb⟩
  | code _ _ ha | character _ _ ha | shout _ _ ha =>
    rw [List.mem_singleton.mp hmem]
    exact .inr ⟨_, _, ha⟩
  | create _ _ hn _ _ ha | assign _ _ hn _ _ ha =>
    rcases List.mem_pair.mp hmem with rfl | rfl
    · exact .inr ⟨_, _, hn⟩
    · exact .inr ⟨_, _, ha⟩
  -- without an alternative the third part is the missing node
  | branch _ _ ha _ hb =>
    rcases List.mem_cons.mp hmem with rfl | hmem
    · exact .inr ⟨_, _, ha⟩
    rcases List.mem_pair.mp hmem with rfl | rfl
    · exact .inr ⟨_, _, hb⟩
    · exact .inl rfl
  | branchElse _ _ ha _ hb _ hc =>
    rcases List.mem_cons.mp hmem with rfl | hmem
    · exact .inr ⟨_, _, ha⟩
    rcases List.mem_pair.mp hmem with rfl | rfl
    · exact .inr ⟨_, _, hb⟩
    · exact .inr ⟨_, _, hc⟩
  | loop _ _ ha _ hb =>
    rcases List.mem_pair.mp hmem with rfl | rfl
    · exact .inr ⟨_, _, ha⟩
    · exact .inr ⟨_, _, hb⟩
  | block _ hs => exact .inr ⟨_, hs.statement_of_mem hmem⟩
  | cons hs hss => exact .inr ⟨_, (Spells.cons hs hss).statement_of_mem hmem⟩

/-- All that stands inside a spelled node is spelled in some role, or left out. -/
theorem Spells.of_within {role : Role} {node inner : Node} {ts : List Token}
    (h : Spells role node ts) (hwithin : inner.Within node) :
    inner = .missing ∨ ∃ role us, Spells role inner us := by
  induction hwithin generalizing role ts with
  | refl => exact .inr ⟨role, ts, h⟩
  | child hmem hinner ih =>
    rcases h.of_child hmem with rfl | ⟨role', us, hus⟩
    · -- There is nothing inside an alternative that is left out.
      rcases Node.within_iff.mp hinner with heq | ⟨child, hchild, -⟩
      · exact .inl heq.symm
      · cases hchild
    · exact ih hus

/-- Branches and loops inside what is spelled are spelled as statements. -/
theorem Spells.statement_of_within {role : Role} {node inner : Node} {ts : List Token}
    (h : Spells role node ts) (hwithin : inner.Within node) (hform : inner.isCompound) :
    ∃ us, Spells .statement inner us := by
  rcases h.of_within hwithin with rfl | ⟨role', us, hus⟩
  · cases hform
  · cases role' with
    | statement => exact ⟨us, hus⟩
    | expression | block | program => cases hus <;> cases hform

/-! ## Spells that have been read -/

/-- The statements that a reader returns are spelled by tokens. -/
theorem statements_spelled {lenient : Bool} {fuel : Nat} {c c' : Cursor} {ss : List Node}
    (h : statements lenient fuel c = .ok ss c') : ∃ ts, Spells .program (.program ss) ts := by
  induction fuel generalizing c c' ss with
  | zero =>
    obtain ⟨rfl, -⟩ := pure_eq_ok.mp h
    exact ⟨[], .nil⟩
  | succ fuel ih =>
    rw [statements, get_bind] at h
    split at h
    · obtain ⟨rfl, -⟩ := pure_eq_ok.mp h
      exact ⟨[], .nil⟩
    · obtain ⟨node?, c₁, hnode, h⟩ := bind_eq_ok.mp h
      cases node? with
      | none =>
        -- A lenient reader stops here and leaves the other tokens unread.
        obtain ⟨rfl, -⟩ := pure_eq_ok.mp h
        exact ⟨[], .nil⟩
      | some node =>
        obtain ⟨nodes, c₂, hnodes, h⟩ := bind_eq_ok.mp h
        obtain ⟨rfl, -⟩ := pure_eq_ok.mp h
        obtain ⟨us, hus⟩ := ih hnodes
        rw [statement?_eq, get_bind] at hnode
        split at hnode
        · cases (pure_eq_ok.mp hnode).1
        · obtain ⟨node', c₃, hstatement, hpure⟩ := bind_eq_ok.mp hnode
          obtain ⟨heq, -⟩ := pure_eq_ok.mp hpure
          cases heq
          obtain ⟨ts, -, hts, -⟩ := (reads_statement nestingLimit _ _ _).mp hstatement
          exact ⟨ts ++ us, .cons hts hus⟩

/-- What the reader returns is spelled, even where it leaves tokens unread. -/
theorem parse_spelled {lenient : Bool} {ts : Tokens} {spell : List Node}
    (h : parse lenient ts = .ok spell) : ∃ us, Spells .program (.program spell) us := by
  unfold parse program at h
  cases hstatements : statements lenient ((Cursor.start ts).rest.length + 1) (Cursor.start ts) with
  | ok ss c' =>
    rw [hstatements] at h
    obtain rfl := Except.ok.inj h
    exact statements_spelled hstatements
  | error failure c' =>
    rw [hstatements] at h
    cases failure <;> cases h

/-! ## Lenient reading -/

/-- Before a word that starts a statement there is a rule to read it. -/
theorem order?_of_atOrder {c : Cursor} (h : AtOrder c) : (order? c.current).isNone = false := by
  have horders : ∀ word ∈ orderWords, (orders.lookup word).isNone = false := by decide
  unfold order?
  rw [if_pos h.1]
  exact horders _ h.2

/-- A statement that a strict reader accepts is read by a lenient one as well. -/
theorem statement?_of_strict {c c' : Cursor} {node? : Option Node}
    (h : statement? false nestingLimit c = .ok node? c') (lenient : Bool) :
    statement? lenient nestingLimit c = .ok node? c' := by
  rw [statement?_strict] at h
  obtain ⟨node, c₁, hnode, -⟩ := bind_eq_ok.mp h
  obtain ⟨ts, hpass, hfits⟩ := (reads_statement nestingLimit _ _ _).mp hnode
  have horder := order?_of_atOrder (atOrder_of_fits hpass hfits).1
  rw [statement?_eq, get_bind, horder, Bool.and_false, if_neg Bool.false_ne_true]
  exact h

/-- A lenient reader goes through a list of statements as a strict one does, where that one
succeeds. -/
theorem statements_of_strict {fuel : Nat} {c c' : Cursor} {ss : List Node}
    (h : statements false fuel c = .ok ss c') (lenient : Bool) :
    statements lenient fuel c = .ok ss c' := by
  induction fuel generalizing c c' ss with
  | zero => exact h
  | succ fuel ih =>
    rw [statements, get_bind] at h ⊢
    split at h
    · rename_i hend
      rw [if_pos hend]
      exact h
    · rename_i hend
      rw [if_neg hend]
      obtain ⟨node?, c₁, hnode, h⟩ := bind_eq_ok.mp h
      refine bind_eq_ok.mpr ⟨node?, c₁, statement?_of_strict hnode lenient, ?_⟩
      cases node? with
      | none => exact h
      | some node =>
        obtain ⟨nodes, c₂, hnodes, h⟩ := bind_eq_ok.mp h
        exact bind_eq_ok.mpr ⟨nodes, c₂, ih hnodes, h⟩

/-- What a strict reader accepts, a lenient one reads in the same way. -/
theorem parse_of_strict {ts : Tokens} {spell : List Node} (h : parse false ts = .ok spell)
    (lenient : Bool) : parse lenient ts = .ok spell := by
  unfold parse program at h ⊢
  cases hstatements : statements false ((Cursor.start ts).rest.length + 1) (Cursor.start ts) with
  | ok ss c' =>
    rw [hstatements] at h
    rw [statements_of_strict hstatements lenient]
    exact h
  | error failure c' =>
    rw [hstatements] at h
    cases failure <;> cases h

/-- A source that a strict reader accepts is read by a lenient one as the same spell. -/
theorem readSpell_of_strict {source : Text} {spell : List Node}
    (h : readSpell false source = .ok spell) (lenient : Bool) :
    readSpell lenient source = .ok spell := by
  obtain ⟨ts, htokens, hparse⟩ := readSpell_eq_ok.mp h
  exact readSpell_eq_ok.mpr ⟨ts, htokens, parse_of_strict hparse lenient⟩

end Grimoire
