import Grimoire.Proofs.Run.Expression
import Grimoire.Proofs.Run.Halting
import Grimoire.Proofs.Run.Sequence

/-!
# Unrolling a loop

A loop can be given a head start: a branch with the same condition and the same block right before
it. If the condition only looks, and asks for nothing, this changes nothing in a run without a limit
of steps, wherever in a spell the loop stands.

* **`Context`** is a spell with a place for statements, which may be in a block at any depth, and
  **`Context.exists_fill`** says that there is a context for every place in any spell.
* **`Congruence.fill`**: what is related by a congruence is related in every context.
* **`whileTrue_unroll`**: a first pass through the loop is the branch. If the condition does not
  hold, it is tried twice, and comes to the same because nothing has happened in between. Branch and
  loop need one pass less than the loop alone, so the two are related by `Outlasts` in both
  directions.
* **`condition_of_whileTrue`**: the last thing that happens in a loop is that its condition is tried
  and does not hold.
-/

namespace Grimoire

open Casting

/-! ## Contexts -/

/-- A node with a place for one of those that it is made of, if these are not statements in a
row. -/
inductive Frame where
  | createTarget (line : Option Nat) (value : Node)
  | createValue (line : Option Nat) (target : Node)
  | assignTarget (line : Option Nat) (value : Node)
  | assignValue (line : Option Nat) (target : Node)
  | shoutValue (line : Option Nat)
  | leftSide (line : Option Nat) (op : BinaryOp) (right : Node)
  | rightSide (line : Option Nat) (left : Node) (op : BinaryOp)
  | operand (line : Option Nat) (op : UnaryOp)
  | branchCondition (line : Option Nat) (thenBlock elseBlock : Node)
  | branchThen (line : Option Nat) (condition elseBlock : Node)
  | branchElse (line : Option Nat) (condition thenBlock : Node)
  | loopCondition (line : Option Nat) (body : Node)
  | loopBody (line : Option Nat) (condition : Node)

/-- Puts a node into the place of a frame. -/
def Frame.around : Frame → Node → Node
  | .createTarget line value, node => .create line node value
  | .createValue line target, node => .create line target node
  | .assignTarget line value, node => .assign line node value
  | .assignValue line target, node => .assign line target node
  | .shoutValue line, node => .shout line node
  | .leftSide line op right, node => .binary line node op right
  | .rightSide line left op, node => .binary line left op node
  | .operand line op, node => .unary line op node
  | .branchCondition line thenBlock elseBlock, node => .branch line node thenBlock elseBlock
  | .branchThen line condition elseBlock, node => .branch line condition node elseBlock
  | .branchElse line condition thenBlock, node => .branch line condition thenBlock node
  | .loopCondition line body, node => .loop line node body
  | .loopBody line condition, node => .loop line condition node

/-- A node that holds statements in a row, without the statements. -/
inductive Holder where
  | block (line : Option Nat)
  | program

/-- The node that holds the given statements. -/
def Holder.of (ss : List Node) : Holder → Node
  | .block line => .block line ss
  | .program => .program ss

/-- Statements with a place for more of them: among these statements, or among those that one of
them holds inside. -/
inductive Context where
  | here (before after : List Node)
  | inside (before : List Node) (frames : List Frame) (holder : Holder) (context : Context)
      (after : List Node)

/-- Puts statements into the place of a context. -/
def Context.fill (ss : List Node) : Context → List Node
  | .here before after => before ++ (ss ++ after)
  | .inside before frames holder context after =>
    before ++ (frames.foldr Frame.around (holder.of (context.fill ss)) :: after)

/-! ## Every place is the place of a context -/

/-- The node in a frame is one of its parts. -/
theorem Frame.mem_children_around (frame : Frame) (node : Node) :
    node ∈ (frame.around node).children := by
  cases frame <;> simp [around, Node.children]

/-- The parts of a holder are its statements. -/
theorem Holder.children_of (holder : Holder) (ss : List Node) : (holder.of ss).children = ss := by
  cases holder <;> rfl

/-- No frame is a whole spell. -/
theorem Frame.around_ne_program (frame : Frame) (node : Node) (ss : List Node) :
    frame.around node ≠ .program ss := by
  cases frame <;> nofun

/-- A node that is part of another one, but not as one of the statements that it holds, stands in
the place of a frame. -/
theorem Node.exists_frame {child parent : Node} (hmem : child ∈ parent.children) :
    (∃ frame : Frame, parent = frame.around child) ∨
      ∃ holder before after, parent = Holder.of (before ++ child :: after) holder := by
  -- One case for each form of the parent; only those with parts remain.
  cases parent with
  | literal | name | ask | bare | missing => cases hmem
  | create line target value =>
    rcases List.mem_pair.mp hmem with rfl | rfl
    · exact .inl ⟨.createTarget line value, rfl⟩
    · exact .inl ⟨.createValue line target, rfl⟩
  | assign line target value =>
    rcases List.mem_pair.mp hmem with rfl | rfl
    · exact .inl ⟨.assignTarget line value, rfl⟩
    · exact .inl ⟨.assignValue line target, rfl⟩
  | shout line value =>
    obtain rfl := List.mem_singleton.mp hmem
    exact .inl ⟨.shoutValue line, rfl⟩
  | binary line left op right =>
    rcases List.mem_pair.mp hmem with rfl | rfl
    · exact .inl ⟨.leftSide line op right, rfl⟩
    · exact .inl ⟨.rightSide line left op, rfl⟩
  | unary line op operand =>
    obtain rfl := List.mem_singleton.mp hmem
    exact .inl ⟨.operand line op, rfl⟩
  | branch line condition thenBlock elseBlock =>
    rcases List.mem_cons.mp hmem with rfl | hmem
    · exact .inl ⟨.branchCondition line thenBlock elseBlock, rfl⟩
    rcases List.mem_pair.mp hmem with rfl | rfl
    · exact .inl ⟨.branchThen line condition elseBlock, rfl⟩
    · exact .inl ⟨.branchElse line condition thenBlock, rfl⟩
  | loop line condition body =>
    rcases List.mem_pair.mp hmem with rfl | rfl
    · exact .inl ⟨.loopCondition line body, rfl⟩
    · exact .inl ⟨.loopBody line condition, rfl⟩
  | block line ss =>
    obtain ⟨before, after, rfl⟩ := List.append_of_mem hmem
    exact .inr ⟨.block line, before, after, rfl⟩
  | program ss =>
    obtain ⟨before, after, rfl⟩ := List.append_of_mem hmem
    exact .inr ⟨.program, before, after, rfl⟩

/-- Whatever a tree is like, a place among statements that stand anywhere inside it is reached
through frames and a context. Filling the context fills that place. -/
theorem Context.exists_of_within {holder : Holder} {node : Node} {before ss after : List Node}
    (h : (holder.of (before ++ (ss ++ after))).Within node) :
    ∃ (frames : List Frame) (outer : Holder) (context : Context),
      node = frames.foldr Frame.around (outer.of (context.fill ss)) ∧
      ∀ ss', (holder.of (before ++ (ss' ++ after))).Within
        (frames.foldr Frame.around (outer.of (context.fill ss'))) := by
  induction h with
  | refl => exact ⟨[], holder, .here before after, rfl, fun _ => .refl⟩
  | child hmem _ ih =>
    obtain ⟨frames, outer, context, rfl, hplace⟩ := ih
    rcases Node.exists_frame hmem with ⟨frame, rfl⟩ | ⟨outermost, front, back, rfl⟩
    · refine ⟨frame :: frames, outer, context, rfl, fun ss' => ?_⟩
      exact .child (frame.mem_children_around _) (hplace ss')
    · refine ⟨[], outermost, .inside front frames outer context back, rfl, fun ss' => ?_⟩
      refine .child ?_ (hplace ss')
      rw [List.foldr_nil, Holder.children_of]
      exact List.mem_append_right front List.mem_cons_self

/-- **Every place among the statements of a spell** is the place of a context, at any depth and in
any tree. -/
theorem Context.exists_fill {holder : Holder} {spell before ss after : List Node}
    (h : (holder.of (before ++ (ss ++ after))).Within (.program spell)) :
    ∃ context : Context, spell = context.fill ss ∧
      ∀ ss', (holder.of (before ++ (ss' ++ after))).Within (.program (context.fill ss')) := by
  obtain ⟨frames, outer, context, heq, hplace⟩ := Context.exists_of_within h
  cases frames with
  | cons frame frames => exact absurd heq.symm (frame.around_ne_program _ spell)
  | nil =>
    cases outer with
    | block line => cases heq
    | program => exact ⟨context, Node.program.inj heq, hplace⟩

namespace Casting

variable {α β : Type} {R : ∀ {α : Type}, Casting α → Casting α → Prop}
  {tick₁ tick₂ : Casting Unit} {terms₁ terms₂ : Terms} {passes₁ passes₂ : Nat}

/-! ## Related nodes -/

/-- A statement of a block: a tick, and its evaluation. -/
def step (tick : Casting Unit) (terms : Terms) (passes depth : Nat) (statement : Node) :
    Casting Unit := do
  tick
  let _ ← evaluateWith tick terms passes depth statement

/-- Runs the statements of a block in a scope of their own. -/
def enter (tick : Casting Unit) (terms : Terms) (passes depth : Nat) (block : Node) :
    Casting Unit := do
  let statements ← ofExcept block.body
  inNewScope (statements.forM (step tick terms passes depth))

/-- Two nodes of which one can be put in the place of the other: they are related both when they are
evaluated and when they are entered, and they are the same where only their form matters. -/
structure Interchange (R : ∀ {α : Type}, Casting α → Casting α → Prop)
    (tick₁ tick₂ : Casting Unit) (terms₁ terms₂ : Terms) (passes₁ passes₂ : Nat)
    (node node' : Node) : Prop where
  evaluate : ∀ depth, R (evaluateWith tick₁ terms₁ passes₁ depth node)
    (evaluateWith tick₂ terms₂ passes₂ depth node')
  enter : ∀ depth, R (enter tick₁ terms₁ passes₁ depth node)
    (enter tick₂ terms₂ passes₂ depth node')
  target : ∀ statement, targetName statement node' = targetName statement node
  present : node.orEmpty = node ∧ node'.orEmpty = node'

namespace Congruence

variable (h : Congruence True R tick₁ tick₂ terms₁ terms₂ passes₁ passes₂)

include h

/-- Two evaluations of a node are related, whatever names are in it. -/
theorem evaluate (depth : Nat) (node : Node) :
    R (evaluateWith tick₁ terms₁ passes₁ depth node)
      (evaluateWith tick₂ terms₂ passes₂ depth node) :=
  (h.congruenceOn fun _ => True).evaluate depth node (fun _ => trivial) fun _ _ => trivial

theorem statements (depth : Nat) (nodes : List Node) :
    R (nodes.forM (step tick₁ terms₁ passes₁ depth))
      (nodes.forM (step tick₂ terms₂ passes₂ depth)) :=
  (h.congruenceOn fun _ => True).statements nodes fun node _ => h.evaluate depth node

/-- Blocks are related. -/
theorem enter (depth : Nat) (node : Node) :
    R (enter tick₁ terms₁ passes₁ depth node) (enter tick₂ terms₂ passes₂ depth node) :=
  (h.congruenceOn fun _ => True).enter fun inner _ => h.evaluate depth inner

/-- Nodes that hold related statements can be interchanged. They have no meaning by themselves. -/
theorem interchange_holder {ss ss' : List Node}
    (hss : ∀ depth, R (ss.forM (step tick₁ terms₁ passes₁ depth))
      (ss'.forM (step tick₂ terms₂ passes₂ depth))) (holder : Holder) :
    Interchange R tick₁ tick₂ terms₁ terms₂ passes₁ passes₂ (holder.of ss) (holder.of ss') where
  evaluate depth := by
    cases depth with
    | zero => exact h.primitive (.fail .tooDeep)
    | succ depth => cases holder <;> exact h.primitive (.fail _)
  enter depth := by
    cases holder <;> exact h.inNewScope (hss depth)
  target _ := by
    cases holder <;> rfl
  present := by
    cases holder <;> exact ⟨rfl, rfl⟩

/-- **Frames around nodes that can be interchanged.** There is one case for each place that a node
can have in another one. -/
theorem interchange_around {node node' : Node}
    (hnode : Interchange R tick₁ tick₂ terms₁ terms₂ passes₁ passes₂ node node') (frame : Frame) :
    Interchange R tick₁ tick₂ terms₁ terms₂ passes₁ passes₂ (frame.around node)
      (frame.around node') where
  evaluate depth := by
    have hon := h.congruenceOn fun _ => True
    have hdefine (name : Text) (v : Value) :=
      h.bind (h.primitive (.define name v)) fun _ => h.pure Value.nothing
    have hassign (name : Text) (v : Value) :=
      h.bind (h.primitive (.assign name v)) fun _ => h.pure Value.nothing
    cases depth with
    | zero => exact h.primitive (.fail .tooDeep)
    | succ depth =>
      cases frame with
      | createTarget line value =>
        refine h.bind (h.evaluate depth value) fun v => ?_
        rw [hnode.target]
        exact hon.target fun name _ => hdefine name v
      | createValue line target =>
        exact h.bind (hnode.evaluate depth) fun v => hon.target fun name _ => hdefine name v
      | assignTarget line value =>
        refine h.bind (h.evaluate depth value) fun v => ?_
        rw [hnode.target]
        exact hon.target fun name _ => hassign name v
      | assignValue line target =>
        exact h.bind (hnode.evaluate depth) fun v => hon.target fun name _ => hassign name v
      | shoutValue line =>
        refine h.bind (hnode.evaluate depth) fun v => h.bind (hon.ofExcept _) fun text => ?_
        exact h.bind (h.print text) fun _ => h.pure _
      | leftSide line op right =>
        refine h.bind (hnode.evaluate depth) fun a => ?_
        exact h.bind (h.evaluate depth right) fun b => hon.ofExcept _
      | rightSide line left op =>
        refine h.bind (h.evaluate depth left) fun a => ?_
        exact h.bind (hnode.evaluate depth) fun b => hon.ofExcept _
      | operand line op => exact h.bind (hnode.evaluate depth) fun v => hon.ofExcept _
      | branchCondition line thenBlock elseBlock =>
        refine h.bind (hnode.evaluate depth) fun v => h.bind ?_ fun _ => h.pure _
        exact h.enter depth _
      | branchThen line condition elseBlock =>
        refine h.bind (h.evaluate depth condition) fun v => h.bind ?_ fun _ => h.pure _
        cases v.isTruthy with
        | true => exact hnode.enter depth
        | false => exact h.enter depth elseBlock.orEmpty
      | branchElse line condition thenBlock =>
        refine h.bind (h.evaluate depth condition) fun v => h.bind ?_ fun _ => h.pure _
        rw [hnode.present.1, hnode.present.2]
        cases v.isTruthy with
        | true => exact h.enter depth thenBlock
        | false => exact hnode.enter depth
      | loopCondition line body =>
        have hcondition := h.bind (hnode.evaluate depth) fun v => h.pure v.isTruthy
        exact h.bind (h.loop hcondition (h.enter depth body)) fun _ => h.pure _
      | loopBody line condition =>
        have hcondition := h.bind (h.evaluate depth condition) fun v => h.pure v.isTruthy
        exact h.bind (h.loop hcondition (hnode.enter depth)) fun _ => h.pure _
  enter depth := by
    cases frame <;> exact h.primitive (.fail _)
  target _ := by
    cases frame <;> rfl
  present := by
    cases frame <;> exact ⟨rfl, rfl⟩

/-- **What is related is related in every context.** Induction on the context, from the place to be
filled outwards. -/
theorem fill {ss ss' : List Node}
    (hss : ∀ depth, R (ss.forM (step tick₁ terms₁ passes₁ depth))
      (ss'.forM (step tick₂ terms₂ passes₂ depth))) (context : Context) (depth : Nat) :
    R ((context.fill ss).forM (step tick₁ terms₁ passes₁ depth))
      ((context.fill ss').forM (step tick₂ terms₂ passes₂ depth)) := by
  induction context generalizing depth with
  | here before after =>
    simp only [Context.fill, forM_append]
    refine h.bind (h.statements depth before) fun _ => ?_
    exact h.bind (hss depth) fun _ => h.statements depth after
  | inside before frames holder context after ih =>
    -- The frames around the holder are put on from the inside out.
    have hstatement : Interchange R tick₁ tick₂ terms₁ terms₂ passes₁ passes₂
        (frames.foldr Frame.around (holder.of (context.fill ss)))
        (frames.foldr Frame.around (holder.of (context.fill ss'))) := by
      induction frames with
      | nil => exact h.interchange_holder ih holder
      | cons frame frames ihframes => exact h.interchange_around ihframes frame
    have hstep := h.bind h.tick fun _ =>
      h.bind (hstatement.evaluate depth) fun _ => h.pure ()
    simp only [Context.fill, forM_append]
    refine h.bind (h.statements depth before) fun _ => ?_
    exact h.bind hstep fun _ => h.statements depth after

end Congruence

/-! ## Loops -/

/-- **A first pass through a loop.** With one pass less, the loop can be given a head start, if its
condition leaves everything as it is. -/
theorem whileTrue_unroll {condition : Casting Bool} (hstill : ∀ s, condition.after s = s)
    (body : Casting Unit) (passes : Nat) :
    whileTrue condition body (passes + 2) =
      (condition >>= fun holds => if holds then body else pure ()) >>= fun _ =>
        whileTrue condition body (passes + 1) := by
  funext s
  rw [whileTrue_succ, bind_assoc]
  cases hs : condition s with
  | error e s' => rw [bind_of_error hs, bind_of_error hs]
  | ok holds s' =>
    obtain rfl : s' = s := (after_of_ok hs).symm.trans (hstill s)
    rw [bind_of_ok hs, bind_of_ok hs]
    cases holds with
    | true => rfl
    | false =>
      -- The condition is tried again, in the same state.
      show (pure () : Casting Unit) s' = whileTrue condition body (passes + 1) s'
      rw [whileTrue_succ, bind_of_ok hs]
      rfl

/-- When a loop has come to its end, its condition has just been tried, and did not hold. -/
theorem condition_of_whileTrue {condition : Casting Bool} {body : Casting Unit} {passes : Nat}
    {s s' : RunState} (h : whileTrue condition body passes s = .ok () s') :
    ∃ s₁, condition s₁ = .ok false s' := by
  induction passes generalizing s with
  | zero => cases h
  | succ passes ih =>
    rw [whileTrue_succ] at h
    obtain ⟨holds, s₁, hs₁, hrest⟩ := bind_eq_ok.mp h
    cases holds with
    | false =>
      cases hrest
      exact ⟨s, hs₁⟩
    | true =>
      obtain ⟨_, s₂, -, hagain⟩ := bind_eq_ok.mp hrest
      exact ih hagain

/-! ## The head start of a loop -/

section Unlimited

variable {silence : Silence} {utf8 : Bool} {passes depth : Nat} {condition : Node}

/-- A loop as a statement, where steps are not counted. -/
theorem step_loop (line : Option Nat) (body : Node) :
    step (tick ⟨none, silence, utf8⟩) ⟨none, silence, utf8⟩ passes (depth + 1)
        (.loop line condition body) =
      firstPasses ⟨none, silence, utf8⟩ passes depth condition body passes := by
  have heval := evaluate_loop ⟨none, silence, utf8⟩ passes depth line condition body
  calc
    _ = (evaluate ⟨none, silence, utf8⟩ passes (depth + 1) (.loop line condition body) >>=
          fun _ => pure ()) := rfl
    _ = firstPasses ⟨none, silence, utf8⟩ passes depth condition body passes := by
      rw [heval, bind_assoc]
      simp only [pure_bind, bind_pure_unit]

/-- A branch without an alternative as a statement, where steps are not counted. -/
theorem step_branch (line : Option Nat) (body : Node) :
    step (tick ⟨none, silence, utf8⟩) ⟨none, silence, utf8⟩ passes (depth + 1)
        (.branch line condition body .missing) =
      (do return (← evaluate ⟨none, silence, utf8⟩ passes depth condition).isTruthy) >>=
        fun holds => if holds then
          enter (tick ⟨none, silence, utf8⟩) ⟨none, silence, utf8⟩ passes depth body
        else pure () := by
  calc
    _ = (evaluate ⟨none, silence, utf8⟩ passes depth condition >>= fun v =>
          (enter (tick ⟨none, silence, utf8⟩) ⟨none, silence, utf8⟩ passes depth
            (if v.isTruthy then body else Node.missing.orEmpty) >>= fun _ => pure Value.nothing))
            >>= fun _ => pure () := rfl
    _ = _ := by
      simp only [bind_assoc, pure_bind, bind_pure_unit]
      refine bind_congr fun v => ?_
      cases v.isTruthy with
      | true => rfl
      | false => rfl

/-- **A loop with a head start** is the loop with one pass more, if its condition leaves everything
as it is. -/
theorem steps_unrolled
    (hstill : ∀ s, (evaluate ⟨none, silence, utf8⟩ (passes + 1) depth condition).after s = s)
    (line line' : Option Nat) (body : Node) :
    [Node.branch line' condition body .missing, .loop line condition body].forM
        (step (tick ⟨none, silence, utf8⟩) ⟨none, silence, utf8⟩ (passes + 1) (depth + 1)) =
      firstPasses ⟨none, silence, utf8⟩ (passes + 1) depth condition body (passes + 2) := by
  have hholds (s : RunState) : (evaluate ⟨none, silence, utf8⟩ (passes + 1) depth condition >>=
      fun v => pure v.isTruthy).after s = s := by
    cases hs : evaluate ⟨none, silence, utf8⟩ (passes + 1) depth condition s with
    | ok v s' => exact (after_bind_of_ok hs).trans ((after_of_ok hs).symm.trans (hstill s))
    | error e s' => exact (after_bind_of_error hs).trans ((after_of_error hs).symm.trans (hstill s))
  refine Eq.trans ?_ (whileTrue_unroll hholds _ passes).symm
  show (step _ _ _ _ _ >>= fun _ => step _ _ _ _ _ >>= fun _ => pure ()) = _
  simp only [bind_pure_unit, step_branch, step_loop]
  rfl

/-- A loop that may pass more often, and so may the loops inside it. -/
theorem outlasts_firstPasses (terms : Terms) (depth : Nat) (condition body : Node)
    {passes passes' n n' : Nat} (hle : passes ≤ passes') (hn : n ≤ n') :
    Outlasts (firstPasses terms passes depth condition body n)
      (firstPasses terms passes' depth condition body n') := by
  have h := congruence_outlasts (tick terms) terms hle
  have hcondition := h.bind (h.evaluate depth condition) fun v => h.pure v.isTruthy
  exact Outlasts.whileTrue hcondition (h.bind h.tick fun _ => h.enter depth body) hn

/-- A loop, and the loop with a head start: each of them is outlasted by the other one, if that may
pass once more. -/
theorem outlasts_unrolled
    (hstill : ∀ passes depth s,
      (evaluate ⟨none, silence, utf8⟩ passes depth condition).after s = s)
    (line line' : Option Nat) (body : Node) (passes depth : Nat) :
    let loop (passes : Nat) : Casting Unit := [Node.loop line condition body].forM
      (step (tick ⟨none, silence, utf8⟩) ⟨none, silence, utf8⟩ passes depth)
    let unrolled (passes : Nat) : Casting Unit :=
      [Node.branch line' condition body .missing, .loop line condition body].forM
        (step (tick ⟨none, silence, utf8⟩) ⟨none, silence, utf8⟩ passes depth)
    Outlasts (loop passes) (unrolled (passes + 1)) ∧
      Outlasts (unrolled (passes + 1)) (loop (passes + 2)) := by
  intro loop unrolled
  cases depth with
  | zero =>
    -- Both are nested too deeply, and fail at their first statement.
    exact ⟨fun _ => .inr rfl, fun _ => .inr rfl⟩
  | succ depth =>
    have hloop (passes : Nat) : loop passes =
        firstPasses ⟨none, silence, utf8⟩ passes depth condition body passes :=
      bind_pure_unit.trans (step_loop line body)
    have hunrolled : unrolled (passes + 1) =
        firstPasses ⟨none, silence, utf8⟩ (passes + 1) depth condition body (passes + 2) :=
      steps_unrolled (hstill (passes + 1) depth) line line' body
    rw [hloop, hloop, hunrolled]
    exact ⟨outlasts_firstPasses _ _ _ _ (by omega) (by omega),
      outlasts_firstPasses _ _ _ _ (by omega) (by omega)⟩

end Unlimited

/-! ## Conditions that only look -/

/-- What asks for nothing leaves everything as it is, and comes to the same wherever the scopes are
the same. -/
theorem Consults.of_zero {W : Text → Prop} {x y : Casting α} (h : Consults W 0 x y) (s : RunState) :
    ∃ outcome, x s = endAt outcome s ∧
      ∀ t : RunState, t.scopes = s.scopes → y t = endAt outcome t := by
  obtain ⟨k, outcome, hx, hle, -, hy⟩ := h s
  obtain rfl := Nat.eq_zero_of_le_zero hle
  refine ⟨outcome, by rwa [RunState.asked_zero] at hx, fun t hscopes => ?_⟩
  have hend := hy t ⟨fun _ _ => by rw [hscopes], rfl⟩
  rwa [RunState.asked_zero] at hend

/-- An expression in which nothing asks makes no requests. -/
theorem askCount_eq_zero {node : Node} (h : node.ExpressionTree) (hasks : ¬node.Asks) :
    node.askCount = 0 := by
  induction h with
  | literal | name => rfl
  | ask line => exact absurd ⟨line, .refl⟩ hasks
  | binary _ _ ihleft ihright =>
    have hleft := ihleft fun hasked => hasks (hasked.of_child List.mem_cons_self)
    have hright := ihright fun hasked => hasks (hasked.of_child (List.mem_pair.mpr (.inr rfl)))
    rw [Node.askCount, hleft, hright]
  | unary _ ih => exact ih fun hasked => hasks (hasked.of_child List.mem_cons_self)

/-- **An expression that does not ask only looks.** -/
theorem consults_of_not_asks {node : Node} (h : node.ExpressionTree) (hasks : ¬node.Asks)
    (terms terms' : Terms) (passes passes' depth : Nat) :
    Consults node.Names 0 (evaluate terms passes depth node)
      (evaluate terms' passes' depth node) := by
  have hzero := askCount_eq_zero h hasks
  have hconsults : Consults node.Names node.askCount (evaluate terms passes depth node)
      (evaluate terms' passes' depth node) :=
    consults_expression h (.inl rfl) fun hne => absurd hzero hne
  rwa [hzero] at hconsults

/-- Such an expression is evaluated without a trace. -/
theorem after_of_not_asks {node : Node} (h : node.ExpressionTree) (hasks : ¬node.Asks)
    (terms : Terms) (passes depth : Nat) (s : RunState) :
    (evaluate terms passes depth node).after s = s := by
  obtain ⟨outcome, hend, -⟩ :=
    (consults_of_not_asks h hasks terms terms passes passes depth).of_zero s
  unfold after
  rw [hend]
  cases outcome <;> rfl

/-- When a loop has come to its end, its condition does not hold. -/
theorem condition_after_loop {condition : Node} (h : condition.ExpressionTree)
    (hasks : ¬condition.Asks) {terms : Terms} {passes depth : Nat} {line : Option Nat} {body : Node}
    {s s' : RunState} {v : Value}
    (hloop : evaluate terms passes (depth + 1) (.loop line condition body) s = .ok v s')
    (terms' : Terms) (passes' : Nat) {t : RunState} (hscopes : t.scopes = s'.scopes) :
    ∃ w, evaluate terms' passes' depth condition t = .ok w t ∧ w.isTruthy = false := by
  rw [evaluate_loop] at hloop
  obtain ⟨_, s₂, hpasses, hpure⟩ := bind_eq_ok.mp hloop
  cases hpure
  obtain ⟨s₁, hcondition⟩ := condition_of_whileTrue hpasses
  obtain ⟨w, s₂, hw, hfalse⟩ := bind_eq_ok.mp hcondition
  obtain ⟨outcome, hend, hsame⟩ :=
    (consults_of_not_asks h hasks terms terms' passes passes' depth).of_zero s₁
  cases outcome with
  | error e => cases hw.symm.trans hend
  | ok w' =>
    obtain ⟨rfl, rfl⟩ := EStateM.Result.ok.inj (hw.symm.trans hend)
    obtain ⟨htruthy, rfl⟩ := EStateM.Result.ok.inj hfalse
    exact ⟨w, hsame t hscopes, htruthy⟩

end Casting

/-! ## Spells with an unrolled loop -/

/-- The loop may be given a head start in a spell that halts, and in one that does not. -/
theorem halts_unrolled_iff {condition : Node} (h : condition.ExpressionTree)
    (hasks : ¬condition.Asks) (body : Node) (line line' : Option Nat) (context : Context)
    (silence : Silence) (utf8 : Bool) (start : RunState) (result : Ending × RunState) :
    (∃ k, Halts ⟨none, silence, utf8⟩ (context.fill [.loop line condition body]) start result k) ↔
      ∃ k, Halts ⟨none, silence, utf8⟩
        (context.fill [.branch line' condition body .missing, .loop line condition body]) start
        result k := by
  have hstill := after_of_not_asks h hasks ⟨none, silence, utf8⟩
  have hsteps (passes depth : Nat) := outlasts_unrolled hstill line line' body passes depth
  have hmore (passes : Nat) := congruence_outlasts (tick ⟨none, silence, utf8⟩)
    ⟨none, silence, utf8⟩ (Nat.le_succ passes)
  constructor
  · rintro ⟨k, passes, rfl, hne, -⟩
    have hfill := (hmore passes).fill (fun depth => (hsteps passes depth).1) context nestingLimit
    exact ⟨_, passes + 1, run_eq_of_outlasts hfill hne, hne, rfl⟩
  · rintro ⟨k, passes, rfl, hne, -⟩
    -- The head start is a pass, so that there has to be one.
    have hrun := (run_eq_of_le hne (Nat.le_succ passes)).1
    rw [← hrun] at hne ⊢
    have hfill := (hmore (passes + 1)).fill (fun depth => (hsteps passes depth).2) context
      nestingLimit
    exact ⟨_, passes + 2, run_eq_of_outlasts hfill hne, hne, rfl⟩

/-- **Unrolling a loop once preserves its meaning.** The condition of a loop is an expression of a
spell that has been read, and it does not ask; its block may be any node. Wherever the loop stands
in a spell, it can be given a head start: without a limit of steps, the spell halts if and only if
it did before, and comes to the same result, with the same trace, the same replies left and the same
scopes. All places are covered, also those in trees that no reader returns. And when the loop has
come to an end, its condition does not hold, wherever the scopes are those at the end. -/
theorem unrolling_preserves_meaning {lenient : Bool} {ts : Tokens} {spell : List Node}
    {condition : Node} (hparse : parse lenient ts = .ok spell)
    (hwithin : condition.Within (.program spell)) (hform : condition.isExpression)
    (hasks : ¬condition.Asks) (body : Node) (line line' : Option Nat) :
    (∀ (context : Context) (silence : Silence) (utf8 : Bool) (start : RunState)
        (result : Ending × RunState),
      (∃ k, Halts ⟨none, silence, utf8⟩ (context.fill [.loop line condition body]) start
          result k) ↔
        ∃ k, Halts ⟨none, silence, utf8⟩
          (context.fill [.branch line' condition body .missing, .loop line condition body]) start
          result k) ∧
    (∀ (holder : Holder) (whole before after : List Node),
      (holder.of (before ++ .loop line condition body :: after)).Within (.program whole) →
      ∃ context : Context, whole = context.fill [.loop line condition body] ∧
        ∀ ss, (holder.of (before ++ (ss ++ after))).Within (.program (context.fill ss))) ∧
    ∀ (terms : Terms) (passes depth : Nat) (s s' : RunState) (v : Value),
      evaluate terms passes (depth + 1) (.loop line condition body) s = .ok v s' →
      ∀ (terms' : Terms) (passes' : Nat) (t : RunState), t.scopes = s'.scopes →
        ∃ w, evaluate terms' passes' depth condition t = .ok w t ∧ w.isTruthy = false := by
  -- The condition is spelled, so it has the form of an expression and only looks at names.
  obtain ⟨us, hus⟩ := parse_spelled hparse
  have htree := hus.expressionTree_of_within hwithin hform
  refine ⟨halts_unrolled_iff htree hasks body line line', ?_, ?_⟩
  · intro holder whole before after hplace
    exact Context.exists_fill hplace
  · intro terms passes depth s s' v hloop terms' passes' t hscopes
    exact condition_after_loop htree hasks hloop terms' passes' hscopes

/-- `do set the power of x to y create a new spell named x with the power of z`. -/
def veiling : Node :=
  .block (some 1) [.assign (some 1) (.name (some 1) "x") (.name (some 1) "y"),
    .create (some 1) (.name (some 1) "x") (.name (some 1) "z")]

/-- A loop in a branch sets the name in its condition, and then hides it by a name of its own block.
With a head start, it still ends after one pass, and the name outside has been set. -/
theorem unrolled_veiling_halts :
    let x : Node := .name (some 1) "x"
    let context : Context := .inside [] [.branchThen (some 1) x .missing] (.block (some 1))
      (.here [] [.shout (some 1) x, .shout (some 1) (.name (some 1) "z")]) []
    let start : RunState := .start (Scope.ofList
      [("x", .text "fire"), ("y", .text ""), ("z", .text "smoke")]) []
    ∃ result k, Halts ⟨none, .fault, true⟩ (context.fill
        [.branch (some 1) x veiling .missing, .loop (some 1) x veiling]) start result k ∧
      result.1 = .success ∧ result.2.trace = #[.log "", .log "smoke"] ∧
      result.2.globals.get? "x" = some (.text "") := by
  intro x context start
  let loop : Node := .loop (some 1) x veiling
  have hparse : parse false ⟨(Text.words
      ("whilst the spell x is true do set the power of x to y " ++
        "create a new spell named x with the power of z done")).map (Token.ofWord 1),
      Mark.start⟩ = .ok [loop] := rfl
  have hwithin : x.Within (.program [loop]) :=
    .child List.mem_cons_self (.child List.mem_cons_self .refl)
  obtain ⟨hhalts, -⟩ := unrolling_preserves_meaning hparse hwithin rfl (by decide) veiling
    (some 1) (some 1)
  obtain ⟨k, hk⟩ := (hhalts context .fault true start _).mp ⟨_, 2, rfl, by decide, rfl⟩
  exact ⟨_, k, hk, rfl, by decide, by decide⟩

end Grimoire
