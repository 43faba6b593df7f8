import Grimoire.Run

/-!
# Evaluation

`evaluate` gives a node its meaning. Expressions yield values and statements yield nothing. A node
that is nested too deeply fails, and so does one that has no meaning where it stands. What happens
at each step, before a statement and before a pass through a loop, is a parameter of `evaluateWith`.

`run` executes a whole spell. A fault ends the run and is reported as its last event.
-/

namespace Grimoire

open Casting

/-- The name that a statement is about. -/
def targetName (statement : Text) : Node → Except Fault Text
  | .name _ text => .ok text
  | target => do .error (.notAName statement (← target.label))

/-- Evaluates a node that is nested at most `depth` levels deep, passing through each loop at most
`passes` times at a stretch. Before each statement of a block and each pass through a loop it does
`tick`. -/
def evaluateWith (tick : Casting Unit) (terms : Terms) (passes : Nat) :
    (depth : Nat) → Node → Casting Value
  | 0, _ => fail .tooDeep
  | depth + 1, node =>
    let eval := evaluateWith tick terms passes depth
    let execute (statement : Node) : Casting Unit := do
      tick
      let _ ← eval statement
    let enter (block : Node) : Casting Unit := do
      let statements ← ofExcept block.body
      inNewScope (statements.forM execute)
    match node with
    | .literal _ value _ => return value
    | .name _ text => lookUp text
    -- The value is worked out first, so a fault in it comes before one in the name.
    | .create _ target value => do
      let v ← eval value
      define (← ofExcept (targetName "CREATE" target)) v
      return .nothing
    | .assign _ target value => do
      let v ← eval value
      assign (← ofExcept (targetName "SET" target)) v
      return .nothing
    | .shout _ value => do
      let v ← eval value
      print terms (← ofExcept v.format)
      return .nothing
    | .binary _ left op right => do
      let a ← eval left
      let b ← eval right
      ofExcept (op.apply a b)
    | .unary _ op operand => do
      let v ← eval operand
      ofExcept (op.apply v)
    | .ask _ => ask terms
    | .branch _ condition thenBlock elseBlock => do
      enter (if (← eval condition).isTruthy then thenBlock else elseBlock.orEmpty)
      return .nothing
    | .loop _ condition body => do
      let holds : Casting Bool := do return (← eval condition).isTruthy
      -- A pass is a step of its own, besides the statements of the body.
      let pass : Casting Unit := do
        tick
        enter body
      whileTrue holds pass passes
      return .nothing
    -- A block is run by the statement that holds it, and has no meaning by itself.
    | .block .. | .program _ | .bare | .missing => do
      fail (.unknownNode (← ofExcept node.label))

/-- Evaluates a node, counting its steps if they are limited. -/
def evaluate (terms : Terms) (passes depth : Nat) (node : Node) : Casting Value :=
  evaluateWith (tick terms) terms passes depth node

/-- Executes a statement outside all blocks: a tick, and its evaluation. -/
def executeWith (tick : Casting Unit) (terms : Terms) (passes : Nat) (statement : Node) :
    Casting Unit := do
  tick
  let _ ← evaluateWith tick terms passes nestingLimit statement

/-- Executes a statement outside all blocks, counting its steps if they are limited. -/
def execute (terms : Terms) (passes : Nat) (statement : Node) : Casting Unit :=
  executeWith (tick terms) terms passes statement

/-- How a run ends. -/
inductive Ending where
  | success
  | failure
  /-- A loop has been passed through more often than allowed. -/
  | outOfPasses
  /-- A reply is being waited for. -/
  | waiting
deriving DecidableEq

/-- The state in which a run starts, with the globals and the replies that it is given. -/
def RunState.start (globals : Scope) (replies : List (Option Text)) : RunState :=
  ⟨Scopes.single globals, replies, 0, #[]⟩

namespace RunState

/-- The outermost scope, which is left when a run ends. -/
def globals (s : RunState) : Scope := s.scopes.toList.getLast (by simp [Scopes.toList])

/-- How often the spell has asked for a reply. -/
def requests (s : RunState) : Nat := s.trace.count .request

end RunState

/-- Ends a run whose statements have ended. A fault is reported. -/
def conclude : EStateM.Result Stop RunState Unit → Ending × RunState
  | .ok _ s => (.success, s)
  | .error (.fault f) s => (.failure, { s with trace := s.trace.push (.error f.report) })
  | .error .outOfPasses s => (.outOfPasses, s)
  | .error .waiting s => (.waiting, s)

/-- Runs the statements of a spell one after the other, and reports the fault that ends them, if
any. -/
def run (terms : Terms) (passes : Nat) (spell : List Node) (start : RunState) : Ending × RunState :=
  conclude (spell.forM (execute terms passes) start)

end Grimoire
