import Grimoire.Scope

/-!
# Families of scopes

Scopes that branch off one another. A scope is known by its number, in the order of creation; it
remembers the way out, that is itself and the scopes around it from the inside out, ending with the
root. A name means its first binding on the way out.
-/

namespace Grimoire

/-- A scope of a family: the numbers on its way out, and its own bindings. -/
structure Member where
  path : List Nat
  scope : Scope
deriving DecidableEq

/-- Scopes that may branch: each has the numbers of those around it, so all of them live on
together. -/
structure Family where
  members : List Member
deriving DecidableEq

namespace Family

/-- A family of one scope, the root, which is empty. -/
def root : Family := ⟨[⟨[0], Scope.empty⟩]⟩

/-- The way out of scope `i`, the scope itself first. -/
def path (f : Family) (i : Nat) : List Nat := (f.members[i]?.map (·.path)).getD []

/-- The bindings of scope `i`. -/
def scope (f : Family) (i : Nat) : Scope := (f.members[i]?.map (·.scope)).getD Scope.empty

/-- The number of the next scope. -/
def size (f : Family) : Nat := f.members.length

/-- The family with a new, empty scope inside scope `i`. Its number is the old size. -/
def child (f : Family) (i : Nat) : Family := ⟨f.members ++ [⟨f.size :: f.path i, Scope.empty⟩]⟩

/-- Binds a name in scope `i` itself. -/
def define (f : Family) (i : Nat) (name : Text) (value : Value) : Family :=
  ⟨f.members.modify i fun m => { m with scope := m.scope.set name value }⟩

/-- The first scope on the way out of scope `i` that binds a name. -/
def resolve (f : Family) (i : Nat) (name : Text) : Option Nat :=
  (f.path i).find? fun j => (f.scope j).binds name

/-- What a name means in scope `i`. -/
def get (f : Family) (i : Nat) (name : Text) : Except Fault Value :=
  match (f.resolve i name).bind fun j => (f.scope j).get? name with
  | some value => .ok value
  | none => .error (.undefined name)

/-- Binds a name anew where it is bound as seen from scope `i`. -/
def assign (f : Family) (i : Nat) (name : Text) (value : Value) : Except Fault Family :=
  match f.resolve i name with
  | some j => .ok (f.define j name value)
  | none => .error (.undefined name)

end Family
end Grimoire
