import Grimoire.Proofs.Run.Congruence

/-!
# The course of a run

What a run goes through on its way, from the first statement to the last. A `Course` lists the
moments of an evaluation in their order: each statement that is started, each pass through a loop
that is started, and each evaluation that has come to an end, of the smallest expression as well as
of a whole loop. Where an evaluation stops, its course ends.

`Course.Charts` lists what a relation between castings and their courses has to respect so that it
holds of statements in a row, of blocks and of loops. Unlike a congruence it keeps track of what is
known about values.
-/

namespace Grimoire

open Casting

/-- A moment of a run, with the state in which it finds the run. -/
inductive Moment where
  /-- A statement is started. Its tick comes next. -/
  | statement (node : Node) (s : RunState)
  /-- A pass through a loop with the given body is started. Its tick comes next. -/
  | pass (body : Node) (s : RunState)
  /-- An evaluation that has been started in the state `s` comes to an end. -/
  | evaluated (node : Node) (s : RunState) (outcome : EStateM.Result Stop RunState Value)

/-- The moments that something goes through, by the state in which it is started. -/
abbrev Course := RunState → List Moment

namespace Course

variable {α β : Type}

def none : Course := fun _ => []

def single (moment : RunState → Moment) : Course := fun s => [moment s]

/-- The course `c` of a casting, and if the casting comes to a result, the course of what is done
with that. -/
def andThen (c : Course) (x : Casting α) (next : α → Course) : Course := fun s =>
  c s ++ match x s with
    | .ok a s' => next a s'
    | .error _ _ => []

theorem andThen_of_ok {c : Course} {x : Casting α} {next : α → Course} {s s' : RunState} {a : α}
    (h : x s = .ok a s') : c.andThen x next s = c s ++ next a s' := by
  rw [andThen, h]

theorem andThen_of_error {c : Course} {x : Casting α} {next : α → Course} {s s' : RunState}
    {e : Stop} (h : x s = .error e s') : c.andThen x next s = c s := by
  rw [andThen, h, List.append_nil]

/-- What comes next may add nothing to the course. -/
@[simp] theorem andThen_none (c : Course) (x : Casting α) : c.andThen x (fun _ => none) = c := by
  funext s
  cases h : x s with
  | ok a s' => rw [andThen_of_ok h, none, List.append_nil]
  | error e s' => rw [andThen_of_error h]

/-! ## The course of an evaluation -/

section Evaluation

variable (terms : Terms) (eval : Node → Casting Value) (course : Node → Course)

/-- Statements, one after the other. -/
def ofStatements : List Node → Course
  | [] => none
  | node :: nodes => (single (.statement node)).andThen (tick terms) fun _ =>
    (course node).andThen (eval node) fun _ => ofStatements nodes

/-- The statements of a block, in a scope of their own. -/
def ofBlock (block : Node) : Course := fun s =>
  ofStatements terms eval course block.statements { s with scopes := s.scopes.push }

/-- Runs the statements of a block in a scope of their own. -/
def enter (block : Node) : Casting Unit := do
  let statements ← ofExcept block.body
  inNewScope (statements.forM fun statement => do
    tick terms
    let _ ← eval statement)

/-- The passes through a loop, each with its condition before it. -/
def ofPasses (condition body : Node) : (passes : Nat) → Course
  | 0 => none
  | passes + 1 => (course condition).andThen (eval condition) fun v =>
    if v.isTruthy then
      (single (.pass body)).andThen (tick terms) fun _ =>
        (ofBlock terms eval course body).andThen (enter terms eval body) fun _ =>
          ofPasses condition body passes
    else none

/-- What is evaluated and executed in the course of the evaluation of a node. -/
def ofParts (passes : Nat) : Node → Course
  | .create _ _ value | .assign _ _ value | .shout _ value | .unary _ _ value => course value
  | .binary _ left _ right => (course left).andThen (eval left) fun _ => course right
  | .branch _ condition thenBlock elseBlock =>
    (course condition).andThen (eval condition) fun v =>
      ofBlock terms eval course (if v.isTruthy then thenBlock else elseBlock.orEmpty)
  | .loop _ condition body => ofPasses terms eval course condition body passes
  | _ => none

end Evaluation

/-- The course of the evaluation of a node: that of its parts, and its own end. -/
def ofEvaluation (terms : Terms) (passes : Nat) : (depth : Nat) → Node → Course
  | 0, node => single fun s => .evaluated node s (evaluate terms passes 0 node s)
  | depth + 1, node => fun s =>
    ofParts terms (evaluate terms passes depth) (ofEvaluation terms passes depth) passes node s ++
      [.evaluated node s (evaluate terms passes (depth + 1) node s)]

/-- The course of a whole spell. -/
def ofSpell (terms : Terms) (passes : Nat) (spell : List Node) : Course :=
  ofStatements terms (evaluate terms passes nestingLimit) (ofEvaluation terms passes nestingLimit)
    spell

/-! ## Charts -/

/-- A relation between castings and their courses, given what is known of the result, that respects
all ways in which statements are put together. -/
structure Charts (terms : Terms)
    (R : ∀ {α : Type}, (α → Prop) → Casting α → Course → Prop) : Prop where
  pure : ∀ {α : Type} {Q : α → Prop} {a : α}, Q a → R Q (pure a) none
  bind : ∀ {α β : Type} {P : α → Prop} {Q : β → Prop} {x : Casting α} {f : α → Casting β}
    {c : Course} {next : α → Course},
    R P x c → (∀ a, P a → R Q (f a) (next a)) → R Q (x >>= f) (c.andThen x next)
  statement : ∀ node, R (fun _ => True) (tick terms) (single (.statement node))
  pass : ∀ body, R (fun _ => True) (tick terms) (single (.pass body))
  outOfPasses : R (fun _ => True) (throw .outOfPasses : Casting Unit) none
  inNewScope : ∀ {α : Type} {Q : α → Prop} {x : Casting α} {c : Course},
    R Q x c → R Q (inNewScope x) fun s => c { s with scopes := s.scopes.push }

namespace Charts

variable {terms : Terms} {R : ∀ {α : Type}, (α → Prop) → Casting α → Course → Prop}
  {eval : Node → Casting Value} {course : Node → Course} (h : Charts terms R)

include h

/-- What is done at the end without any moment of its own adds nothing to the course. -/
theorem bind_none {P : α → Prop} {Q : β → Prop} {x : Casting α} {f : α → Casting β} {c : Course}
    (hx : R P x c) (hf : ∀ a, P a → R Q (f a) none) : R Q (x >>= f) c := by
  have hbind := h.bind hx hf
  rwa [andThen_none] at hbind

theorem statements (nodes : List Node)
    (hnodes : ∀ node ∈ nodes, R (fun _ => True) (eval node) (course node)) :
    R (fun _ => True) (nodes.forM fun node => do tick terms; let _ ← eval node)
      (ofStatements terms eval course nodes) := by
  induction nodes with
  | nil => exact h.pure trivial
  | cons node nodes ih =>
    have hrest := ih fun n hn => hnodes n (List.mem_cons_of_mem node hn)
    have hnode := h.bind (hnodes node List.mem_cons_self) fun _ _ => hrest
    have hall := h.bind (h.statement node) fun _ _ => hnode
    show R _ ((tick terms >>= fun _ => eval node >>= fun _ => Pure.pure ()) >>= fun _ => _) _
    simp only [bind_assoc, pure_bind]
    exact hall

/-- A block is charted if its statements are. -/
theorem enter {block : Node} {nodes : List Node} (hbody : block.body = .ok nodes)
    (hnodes : ∀ node ∈ nodes, R (fun _ => True) (eval node) (course node)) :
    R (fun _ => True) (enter terms eval block) (ofBlock terms eval course block) := by
  have hstatements : block.statements = nodes := by
    cases block with
    | block line ss | program ss => exact Except.ok.inj hbody
    | _ => cases hbody
  unfold Course.enter ofBlock
  rw [hbody, hstatements]
  exact h.inNewScope (h.statements nodes hnodes)

/-- Induction on the passes: the condition, and in a new pass the body before the other passes. -/
theorem loop {P : Value → Prop} {condition body : Node}
    (hcondition : R P (eval condition) (course condition))
    (hbody : R (fun _ => True) (Course.enter terms eval body) (ofBlock terms eval course body))
    (passes : Nat) :
    R (fun _ => True)
      (whileTrue (do return (← eval condition).isTruthy)
        (do tick terms; Course.enter terms eval body) passes)
      (ofPasses terms eval course condition body passes) := by
  induction passes with
  | zero => exact h.outOfPasses
  | succ passes ih =>
    rw [whileTrue_succ]
    simp only [bind_assoc, pure_bind]
    refine h.bind hcondition fun v _ => ?_
    cases v.isTruthy with
    | false => exact h.pure trivial
    | true => exact h.bind (h.pass body) fun _ _ => h.bind hbody fun _ _ => ih

theorem spell {passes : Nat} (spell : List Node)
    (hspell : ∀ node ∈ spell, R (fun _ => True) (evaluate terms passes nestingLimit node)
      (ofEvaluation terms passes nestingLimit node)) :
    R (fun _ => True) (spell.forM (execute terms passes)) (ofSpell terms passes spell) :=
  h.statements spell hspell

end Charts
end Course
end Grimoire
