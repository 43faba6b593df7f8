import Grimoire.Scope
import Grimoire.Tree.Grammar

/-!
# The state of a run

What a running spell does: it reads and binds names, prints, asks for replies and counts its steps.
A `Casting` does some of that and ends with a value, or stops on the way; the state is kept either
way. All that the outside world can see of a run is in its trace.
-/

namespace Grimoire

/-- What the outside world sees of a run. -/
inductive Event where
  | log (text : Text)
  /-- The run reports the fault that ended it. -/
  | error (text : Text)
  | request
deriving DecidableEq

/-- What happens to a request when there are no replies left. -/
inductive Silence where
  | fault
  | blank
  /-- The run stops until there are more replies. -/
  | wait
deriving DecidableEq

/-- What a run is told beforehand. -/
structure Terms where
  /-- How many steps the run may take, if that is limited. -/
  limit : Option Int
  silence : Silence
  /-- Whether only texts with a UTF-8 form can be printed. -/
  utf8 : Bool
deriving DecidableEq

/-- The state of a run. Steps are only counted when they are limited. -/
structure RunState where
  scopes : Scopes
  replies : List (Option Text)
  steps : Nat
  trace : Array Event
deriving DecidableEq

/-- Why a casting stops before its end. -/
inductive Stop where
  | fault (f : Fault)
  /-- A loop has been passed through more often than allowed. -/
  | outOfPasses
  /-- A reply is being waited for. -/
  | waiting
deriving DecidableEq

/-- Something that a running spell does. -/
abbrev Casting := EStateM Stop RunState

namespace Casting

/-- Ends the run with a fault. -/
def fail {α : Type} (f : Fault) : Casting α := throw (.fault f)

/-- Goes on with a result, or ends the run with the fault that stands in its place. -/
def ofExcept {α : Type} : Except Fault α → Casting α
  | .ok a => pure a
  | .error f => fail f

/-- Counts a step, if steps are counted, and ends the run beyond the limit. -/
def tick (terms : Terms) : Casting Unit :=
  match terms.limit with
  | none => pure ()
  | some limit => do
    -- The step that goes beyond the limit is counted as well.
    modify fun s => { s with steps := s.steps + 1 }
    if limit < (← get).steps then fail .stepLimit

/-- Adds an event to what the outside world sees. -/
def record (e : Event) : Casting Unit := modify fun s => { s with trace := s.trace.push e }

/-- Prints a text, unless it holds surrogates and only texts with a UTF-8 form can be printed. -/
def print (terms : Terms) (text : Text) : Casting Unit :=
  match if terms.utf8 then Utf8.unencodable? text else none with
  | some flaw => fail (.unprintable flaw)
  | none => record (.log text)

/-- Asks for a reply and gives its value. -/
def ask (terms : Terms) : Casting Value := do
  -- The request is seen from outside, whether there is a reply to it or not.
  record .request
  match (← get).replies with
  | reply :: replies =>
    modify fun s => { s with replies }
    ofExcept (Value.ofReply reply)
  | [] =>
    match terms.silence with
    | .fault => fail .outOfReplies
    | .blank => ofExcept (Value.ofReply (some []))
    | .wait => throw .waiting

/-- The value of a name where it is bound. -/
def lookUp (name : Text) : Casting Value := do
  match (← get).scopes.get? name with
  | some value => return value
  | none => fail (.undefined name)

/-- Binds a name in the innermost scope. -/
def define (name : Text) (value : Value) : Casting Unit :=
  modify fun s => { s with scopes := s.scopes.define name value }

/-- Binds a name anew where it is bound. -/
def assign (name : Text) (value : Value) : Casting Unit := do
  match (← get).scopes.assign? name value with
  | some scopes => modify fun s => { s with scopes }
  | none => fail (.undefined name)

/-- Runs a casting in a scope of its own, which is left again however the casting ends. -/
def inNewScope {α : Type} (act : Casting α) : Casting α := fun s =>
  match act { s with scopes := s.scopes.push } with
  | .ok a s' => .ok a { s' with scopes := s'.scopes.pop }
  | .error e s' => .error e { s' with scopes := s'.scopes.pop }

/-- Runs the body as long as the condition holds, but at most `passes` times. -/
def whileTrue (condition : Casting Bool) (body : Casting Unit) : (passes : Nat) → Casting Unit
  | 0 => throw .outOfPasses
  | passes + 1 => do
    if ← condition then
      body
      whileTrue condition body passes

end Casting
end Grimoire
