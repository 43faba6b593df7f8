import Grimoire.Proofs.Tree.Spelling
import Grimoire.Run.Evaluate

/-!
# Trees with other lines

The line numbers of a tree come from its tokens and go nowhere: tokens in other places spell the
same tree with other line numbers, and line numbers have no meaning for a run.
-/

namespace Grimoire

namespace Node

mutual

/-- The same tree with other line numbers: `f` says which line takes the place of which. -/
def mapLine (f : Nat → Nat) : Node → Node
  | .literal line value kind => .literal (line.map f) value kind
  | .name line text => .name (line.map f) text
  | .create line target value => .create (line.map f) (target.mapLine f) (value.mapLine f)
  | .assign line target value => .assign (line.map f) (target.mapLine f) (value.mapLine f)
  | .shout line value => .shout (line.map f) (value.mapLine f)
  | .binary line left op right => .binary (line.map f) (left.mapLine f) op (right.mapLine f)
  | .unary line op operand => .unary (line.map f) op (operand.mapLine f)
  | .ask line => .ask (line.map f)
  | .branch line condition thenBlock elseBlock =>
    .branch (line.map f) (condition.mapLine f) (thenBlock.mapLine f) (elseBlock.mapLine f)
  | .loop line condition body => .loop (line.map f) (condition.mapLine f) (body.mapLine f)
  | .block line ss => .block (line.map f) (mapLineOfAll f ss)
  | .program ss => .program (mapLineOfAll f ss)
  | .bare => .bare
  | .missing => .missing

def mapLineOfAll (f : Nat → Nat) : List Node → List Node
  | [] => []
  | s :: ss => s.mapLine f :: mapLineOfAll f ss

end

/-- The trees of a list are given other lines one by one. -/
theorem mapLineOfAll_eq_map (f : Nat → Nat) (ss : List Node) :
    mapLineOfAll f ss = ss.map (mapLine f) := by
  induction ss with
  | nil => rfl
  | cons s ss ih => rw [mapLineOfAll, ih, List.map_cons]

mutual

/-- How deep a tree is nested does not depend on its lines. -/
theorem levels_mapLine (f : Nat → Nat) : (node : Node) → (node.mapLine f).levels = node.levels
  | .literal .. | .name .. | .ask _ | .bare | .missing => rfl
  | .create _ a b | .assign _ a b | .binary _ a _ b | .loop _ a b => by
    simp only [mapLine, levels, levels_mapLine f a, levels_mapLine f b]
  | .shout _ a | .unary _ _ a => by simp only [mapLine, levels, levels_mapLine f a]
  | .branch _ a b c => by
    simp only [mapLine, levels, levels_mapLine f a, levels_mapLine f b, levels_mapLine f c]
  | .block _ ss | .program ss => by simp only [mapLine, levels, levelsOfAll_mapLine f ss]

theorem levelsOfAll_mapLine (f : Nat → Nat) : (ss : List Node) →
    levelsOfAll (mapLineOfAll f ss) = levelsOfAll ss
  | [] => rfl
  | s :: ss => by
    simp only [mapLineOfAll, levelsOfAll, levels_mapLine f s, levelsOfAll_mapLine f ss]

end

mutual

/-- To change the lines twice is to change them once by both changes. -/
theorem mapLine_mapLine (f g : Nat → Nat) : (node : Node) →
    (node.mapLine f).mapLine g = node.mapLine (g ∘ f)
  | .literal .. | .name .. | .ask _ => by simp only [mapLine, Option.map_map]
  | .create _ a b | .assign _ a b | .binary _ a _ b | .loop _ a b => by
    simp only [mapLine, Option.map_map, mapLine_mapLine f g a, mapLine_mapLine f g b]
  | .shout _ a | .unary _ _ a => by simp only [mapLine, Option.map_map, mapLine_mapLine f g a]
  | .branch _ a b c => by
    simp only [mapLine, Option.map_map, mapLine_mapLine f g a, mapLine_mapLine f g b,
      mapLine_mapLine f g c]
  | .block _ ss => by simp only [mapLine, Option.map_map, mapLineOfAll_mapLineOfAll f g ss]
  | .program ss => by simp only [mapLine, mapLineOfAll_mapLineOfAll f g ss]
  | .bare | .missing => rfl

theorem mapLineOfAll_mapLineOfAll (f g : Nat → Nat) : (ss : List Node) →
    mapLineOfAll g (mapLineOfAll f ss) = mapLineOfAll (g ∘ f) ss
  | [] => rfl
  | s :: ss => by
    simp only [mapLineOfAll, mapLine_mapLine f g s, mapLineOfAll_mapLineOfAll f g ss]

end

end Node

/-! ## Spelling -/

/-- The same token at another place; the column is kept. -/
def Token.move (p f : Nat → Nat) (t : Token) : Token :=
  { t with mark := ⟨p t.mark.pos, f t.mark.line, t.mark.column⟩ }

/-- Whether a name comes first does not depend on the places. -/
theorem StartsWithName.move {ts : List Token} (h : StartsWithName ts) (p f : Nat → Nat) :
    StartsWithName (ts.map (Token.move p f)) := by
  obtain ⟨t, ht, hkind⟩ := h
  exact ⟨t.move p f, by rw [List.head?_map, ht]; rfl, hkind⟩

/-- Words are the same words at other places. -/
theorem Words.move {words : List Text} {ts : List Token} (h : Words words ts) (p f : Nat → Nat) :
    Words words (ts.map (Token.move p f)) := by
  induction h with
  | nil => exact .nil
  | cons ht _ ih => exact .cons ht ih

/-- Tokens in other places spell the same tree with other lines. -/
theorem Spells.move {role : Role} {node : Node} {ts : List Token} (h : Spells role node ts)
    (p f : Nat → Nat) : Spells role (node.mapLine f) (ts.map (Token.move p f)) := by
  -- Kinds, texts and words stay as they are.
  have hword {t : Token} {word : Text} (h : t.isWord word = true) :
      (t.move p f).isWord word = true := h
  induction h with
  | @text t ht => exact .text (t := t.move p f) ht
  | @integer t ht hdigits => exact .integer (t := t.move p f) ht hdigits
  | @float t ht => exact .float (t := t.move p f) ht
  | @name t ht hname => exact .name (t := t.move p f) ht hname
  | combine ht hp _ hq _ iha ihb =>
    simp only [List.map_cons, List.map_append]
    exact .combine (hword ht) (hp.move p f) iha (hq.move p f) ihb
  | remove ht hp _ hq _ iha ihb =>
    simp only [List.map_cons, List.map_append]
    exact .remove (hword ht) (hp.move p f) iha (hq.move p f) ihb
  | duplicate ht hp _ _ hq iha ihb =>
    simp only [List.map_cons, List.map_append]
    exact .duplicate (hword ht) (hp.move p f) iha ihb (hq.move p f)
  | split ht hp _ _ hq iha ihb =>
    simp only [List.map_cons, List.map_append]
    exact .split (hword ht) (hp.move p f) iha ihb (hq.move p f)
  | reply ht hp => exact .reply (hword ht) (hp.move p f)
  | code ht hp _ iha =>
    simp only [List.map_cons, List.map_append]
    exact .code (hword ht) (hp.move p f) iha
  | character ht hp _ iha =>
    simp only [List.map_cons, List.map_append]
    exact .character (hword ht) (hp.move p f) iha
  | comparison ht _ hop hq _ iha ihb =>
    simp only [List.map_cons, List.map_append]
    exact .comparison (hword ht) iha hop (hq.move p f) ihb
  | shout ht hp _ iha =>
    simp only [List.map_cons, List.map_append]
    exact .shout (hword ht) (hp.move p f) iha
  | create ht hp _ hname hq _ ihn iha =>
    simp only [List.map_cons, List.map_append]
    exact .create (hword ht) (hp.move p f) ihn (StartsWithName.move hname p f) (hq.move p f) iha
  | assign ht hp _ hname hq _ ihn iha =>
    simp only [List.map_cons, List.map_append]
    exact .assign (hword ht) (hp.move p f) ihn (StartsWithName.move hname p f) (hq.move p f) iha
  | branch ht hp _ hq _ hd iha ihb =>
    simp only [List.map_cons, List.map_append]
    exact .branch (hword ht) (hp.move p f) iha (hq.move p f) ihb (hword hd)
  | branchElse ht hp _ hq _ he _ hd iha ihb ihc =>
    simp only [List.map_cons, List.map_append]
    exact .branchElse (hword ht) (hp.move p f) iha (hq.move p f) ihb (hword he) ihc (hword hd)
  | loop ht hp _ hq _ hd iha ihb =>
    simp only [List.map_cons, List.map_append]
    exact .loop (hword ht) (hp.move p f) iha (hq.move p f) ihb (hword hd)
  | block ht _ ih => exact .block (hword ht) ih
  | nil => exact .nil
  | cons _ _ ih ihs =>
    rw [List.map_append]
    exact .cons ih ihs

/-! ## Evaluation -/

namespace Node

variable (f : Nat → Nat)

theorem body_mapLine (node : Node) :
    (node.mapLine f).body = node.body.map (List.map (mapLine f)) := by
  cases node with
  | block line ss | program ss =>
    unfold mapLine body
    rw [mapLineOfAll_eq_map]
    rfl
  | _ => rfl

theorem orEmpty_mapLine (node : Node) : (node.mapLine f).orEmpty = node.orEmpty.mapLine f := by
  cases node <;> rfl

theorem targetName_mapLine (statement : Text) (target : Node) :
    targetName statement (target.mapLine f) = targetName statement target := by
  cases target <;> rfl

end Node

/-- Statements in a row, if each of them is dealt with in the same way with other lines. -/
theorem forM_mapLine {act : Node → Casting Unit} {f : Nat → Nat}
    (h : ∀ node, act (node.mapLine f) = act node) (ss : List Node) :
    (ss.map (Node.mapLine f)).forM act = ss.forM act := by
  induction ss with
  | nil => rfl
  | cons s ss ih =>
    show (act (s.mapLine f) >>= fun _ => (ss.map (Node.mapLine f)).forM act) =
      (act s >>= fun _ => ss.forM act)
    rw [h, ih]

/-- A block with other lines is entered in the same way, if its statements are evaluated in the same
way. -/
theorem enter_mapLine {tick : Casting Unit} {eval : Node → Casting Value} {f : Nat → Nat}
    (h : ∀ node, eval (node.mapLine f) = eval node) (block : Node) :
    (do
      let statements ← Casting.ofExcept (block.mapLine f).body
      Casting.inNewScope (statements.forM fun node => do tick; let _ ← eval node)) =
    (do
      let statements ← Casting.ofExcept block.body
      Casting.inNewScope (statements.forM fun node => do tick; let _ ← eval node)) := by
  rw [Node.body_mapLine]
  cases block.body with
  | error fault => rfl
  | ok ss =>
    refine congrArg Casting.inNewScope (forM_mapLine (fun node => ?_) ss)
    rw [h]

/-- **Line numbers have no meaning.** -/
theorem evaluateWith_mapLine (tick : Casting Unit) (terms : Terms) (passes : Nat) (f : Nat → Nat)
    (depth : Nat) (node : Node) :
    evaluateWith tick terms passes depth (node.mapLine f) =
      evaluateWith tick terms passes depth node := by
  induction depth generalizing node with
  | zero => rfl
  | succ depth ih =>
    cases node with
    | literal | name | ask | bare | missing => rfl
    | create line target value | assign line target value =>
      unfold Node.mapLine evaluateWith
      dsimp only
      rw [ih, Node.targetName_mapLine]
    | shout line value =>
      unfold Node.mapLine evaluateWith
      dsimp only
      rw [ih]
    | binary line left op right =>
      unfold Node.mapLine evaluateWith
      dsimp only
      rw [ih, ih]
    | unary line op operand =>
      unfold Node.mapLine evaluateWith
      dsimp only
      rw [ih]
    | branch line condition thenBlock elseBlock =>
      unfold Node.mapLine evaluateWith
      dsimp only
      rw [ih, Node.orEmpty_mapLine]
      refine congrArg (evaluateWith tick terms passes depth condition >>= ·) (funext fun v => ?_)
      cases v.isTruthy with
      | true => exact congrArg (· >>= _) (enter_mapLine ih thenBlock)
      | false => exact congrArg (· >>= _) (enter_mapLine ih elseBlock.orEmpty)
    | loop line condition body =>
      unfold Node.mapLine evaluateWith
      dsimp only
      rw [ih, enter_mapLine ih body]
    -- What a node without meaning is called does not depend on its line either.
    | block line ss | program ss => rfl

/-- Spells that differ in their lines only run in the same way. -/
theorem run_mapLine (terms : Terms) (passes : Nat) (f : Nat → Nat) (spell : List Node)
    (start : RunState) :
    run terms passes (spell.map (Node.mapLine f)) start = run terms passes spell start := by
  have hexecute (node : Node) :
      execute terms passes (node.mapLine f) = execute terms passes node := by
    unfold execute executeWith
    rw [evaluateWith_mapLine]
  unfold run
  rw [forM_mapLine hexecute]

end Grimoire
