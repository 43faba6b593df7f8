import Grimoire.Tree

/-!
# Nodes within nodes

What stands inside a node, at any depth: which names are read or set there, and whether a reply is
asked for.
-/

namespace Grimoire

namespace Node

/-- The nodes that a node is made of. -/
def children : Node → List Node
  | .create _ a b | .assign _ a b | .binary _ a _ b | .loop _ a b => [a, b]
  | .shout _ a | .unary _ _ a => [a]
  | .branch _ a b c => [a, b, c]
  | .block _ ss | .program ss => ss
  | .literal .. | .name .. | .ask _ | .bare | .missing => []

/-- `Within inner node`: `inner` is the node or stands inside it. -/
inductive Within (inner : Node) : Node → Prop where
  | refl : Within inner inner
  | child {node parent : Node} (hmem : node ∈ parent.children) (h : Within inner node) :
      Within inner parent

/-- What stands within a node is the node or stands within one of its children. -/
theorem within_iff {inner node : Node} :
    Within inner node ↔ node = inner ∨ ∃ child ∈ node.children, Within inner child := by
  constructor
  · intro h
    cases h with
    | refl => exact .inl rfl
    | child hmem h => exact .inr ⟨_, hmem, h⟩
  · intro h
    rcases h with rfl | ⟨child, hmem, h⟩
    · exact .refl
    · exact .child hmem h

/-- Branches and loops: the statements that hold blocks. -/
def isCompound : Node → Bool
  | .branch .. | .loop .. => true
  | _ => false

/-- Some statement inside a node sets the given name. -/
def Sets (node : Node) (x : Text) : Prop :=
  ∃ line nameLine value, Within (.assign line (.name nameLine x) value) node

theorem Sets.of_child {node parent : Node} (hmem : node ∈ parent.children) {x : Text}
    (h : node.Sets x) : parent.Sets x := by
  obtain ⟨line, nameLine, value, hwithin⟩ := h
  exact ⟨line, nameLine, value, .child hmem hwithin⟩

/-- Some expression inside a node asks for a reply. -/
def Asks (node : Node) : Prop := ∃ line, Within (.ask line) node

theorem Asks.of_child {node parent : Node} (hmem : node ∈ parent.children) (h : node.Asks) :
    parent.Asks := by
  obtain ⟨line, hwithin⟩ := h
  exact ⟨line, .child hmem hwithin⟩

/-- A spell that holds the statements of another one asks if that one does. -/
theorem Asks.of_subset {ss ss' : List Node} (hsub : ss ⊆ ss') (h : (program ss).Asks) :
    (program ss').Asks := by
  obtain ⟨line, hwithin⟩ := h
  rcases within_iff.mp hwithin with heq | ⟨s, hs, hinner⟩
  · cases heq
  · exact ⟨line, .child (hsub hs) hinner⟩

/-- Some expression inside a node is the given name. -/
def Names (node : Node) (x : Text) : Prop := ∃ line, Within (.name line x) node

theorem Names.of_child {node parent : Node} (hmem : node ∈ parent.children) {x : Text}
    (h : node.Names x) : parent.Names x := by
  obtain ⟨line, hwithin⟩ := h
  exact ⟨line, .child hmem hwithin⟩

/-! ## Searching a node -/

mutual

/-- Whether a node or one inside it satisfies `p`. -/
def anyWithin (p : Node → Bool) : Node → Bool
  | .create line a b => p (.create line a b) || (a.anyWithin p || b.anyWithin p)
  | .assign line a b => p (.assign line a b) || (a.anyWithin p || b.anyWithin p)
  | .binary line a op b => p (.binary line a op b) || (a.anyWithin p || b.anyWithin p)
  | .loop line a b => p (.loop line a b) || (a.anyWithin p || b.anyWithin p)
  | .shout line a => p (.shout line a) || a.anyWithin p
  | .unary line op a => p (.unary line op a) || a.anyWithin p
  | .branch line a b c =>
    p (.branch line a b c) || (a.anyWithin p || (b.anyWithin p || c.anyWithin p))
  | .block line ss => p (.block line ss) || anyWithinAll p ss
  | .program ss => p (.program ss) || anyWithinAll p ss
  | .literal line value kind => p (.literal line value kind)
  | .name line text => p (.name line text)
  | .ask line => p (.ask line)
  | .bare => p .bare
  | .missing => p .missing

/-- Whether one of several nodes, or one inside them, satisfies `p`. -/
def anyWithinAll (p : Node → Bool) : List Node → Bool
  | [] => false
  | s :: ss => s.anyWithin p || anyWithinAll p ss

end

/-- Something within a node satisfies `p` if the node does or something within a child. -/
theorem exists_within_iff {p : Node → Bool} {node : Node} :
    (∃ inner, Within inner node ∧ p inner) ↔
      p node ∨ ∃ child ∈ node.children, ∃ inner, Within inner child ∧ p inner := by
  constructor
  · rintro ⟨inner, hwithin, hp⟩
    rcases within_iff.mp hwithin with rfl | ⟨child, hmem, hchild⟩
    · exact .inl hp
    · exact .inr ⟨child, hmem, inner, hchild, hp⟩
  · rintro (hp | ⟨child, hmem, inner, hchild, hp⟩)
    · exact ⟨node, .refl, hp⟩
    · exact ⟨inner, .child hmem hchild, hp⟩

mutual

/-- The search finds a node exactly when there is one to be found. -/
theorem anyWithin_iff (p : Node → Bool) : (node : Node) →
    (node.anyWithin p ↔ ∃ inner, Within inner node ∧ p inner)
  | .create _ a b | .assign _ a b | .binary _ a _ b | .loop _ a b => by
    rw [exists_within_iff]
    simp [anyWithin, children, anyWithin_iff p a, anyWithin_iff p b]
  | .shout _ a | .unary _ _ a => by
    rw [exists_within_iff]
    simp [anyWithin, children, anyWithin_iff p a]
  | .branch _ a b c => by
    rw [exists_within_iff]
    simp [anyWithin, children, anyWithin_iff p a, anyWithin_iff p b, anyWithin_iff p c]
  | .block _ ss | .program ss => by
    rw [exists_within_iff]
    simp [anyWithin, children, anyWithinAll_iff p ss]
  | .literal .. | .name .. | .ask _ | .bare | .missing => by
    rw [exists_within_iff]
    simp [anyWithin, children]

theorem anyWithinAll_iff (p : Node → Bool) : (ss : List Node) →
    (anyWithinAll p ss ↔ ∃ s ∈ ss, ∃ inner, Within inner s ∧ p inner)
  | [] => by simp [anyWithinAll]
  | s :: ss => by simp [anyWithinAll, anyWithin_iff p s, anyWithinAll_iff p ss]

end

def isAsk : Node → Bool
  | .ask _ => true
  | _ => false

def isName (x : Text) : Node → Bool
  | .name _ text => decide (text = x)
  | _ => false

theorem anyWithin_isAsk {node : Node} : node.anyWithin isAsk ↔ node.Asks := by
  rw [anyWithin_iff]
  constructor
  · rintro ⟨inner, hwithin, hask⟩
    cases inner with
    | ask line => exact ⟨line, hwithin⟩
    | _ => cases hask
  · rintro ⟨line, hwithin⟩
    exact ⟨_, hwithin, rfl⟩

theorem anyWithin_isName {node : Node} {x : Text} : node.anyWithin (isName x) ↔ node.Names x := by
  rw [anyWithin_iff]
  constructor
  · rintro ⟨inner, hwithin, hname⟩
    cases inner with
    | name line text =>
      obtain rfl := of_decide_eq_true hname
      exact ⟨line, hwithin⟩
    | _ => cases hname
  · rintro ⟨line, hwithin⟩
    exact ⟨_, hwithin, decide_eq_true rfl⟩

instance (node : Node) : Decidable node.Asks := decidable_of_iff _ anyWithin_isAsk

instance (node : Node) (x : Text) : Decidable (node.Names x) := decidable_of_iff _ anyWithin_isName

end Node
end Grimoire
