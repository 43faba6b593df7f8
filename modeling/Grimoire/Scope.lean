import Grimoire.Value

/-!
# Scopes

A scope binds names to values. Blocks are nested, and so are their scopes: `Scopes` are the scopes
in reach of a statement, the innermost first. A name means its innermost binding.
-/

namespace Grimoire

/-- The bindings of one scope, each name at most once if they are made with `Scope.set`. -/
structure Scope where
  entries : List (Text × Value)
deriving DecidableEq

namespace Scope

/-- A scope that binds nothing. -/
def empty : Scope := ⟨[]⟩

/-- The value that a scope binds a name to. -/
def get? (s : Scope) (name : Text) : Option Value := s.entries.lookup name

/-- Whether a scope binds a name. -/
def binds (s : Scope) (name : Text) : Bool := (s.get? name).isSome

/-- Binds a name in a list of bindings, in the place of its old binding if there is one. -/
def setEntry (name : Text) (value : Value) : List (Text × Value) → List (Text × Value)
  | [] => [(name, value)]
  | (n, v) :: rest => if name = n then (n, value) :: rest else (n, v) :: setEntry name value rest

/-- Binds a name in a scope, which hides no more than the old binding of that name. -/
def set (s : Scope) (name : Text) (value : Value) : Scope := ⟨setEntry name value s.entries⟩

/-- The law of `setEntry`: the name has its new value, and every other name keeps its own. -/
theorem lookup_setEntry (name : Text) (value : Value) (entries : List (Text × Value)) (n : Text) :
    (setEntry name value entries).lookup n = if n = name then some value else entries.lookup n := by
  induction entries with
  | nil =>
    by_cases hn : n = name
    · simp [setEntry, hn]
    · simp [setEntry, hn, List.lookup_cons, beq_eq_false_iff_ne.mpr hn]
  | cons entry rest ih =>
    obtain ⟨m, v⟩ := entry
    by_cases hm : name = m
    · subst hm
      by_cases hn : n = name
      · simp [setEntry, hn]
      · simp [setEntry, hn, List.lookup_cons, beq_eq_false_iff_ne.mpr hn]
    · by_cases hn : n = m
      · subst hn
        simp [setEntry, hm, Ne.symm hm]
      · simp [setEntry, hm, List.lookup_cons, beq_eq_false_iff_ne.mpr hn, ih]

/-- Binding a name changes what that name is bound to, and nothing else. -/
@[simp] theorem get?_set (s : Scope) (name : Text) (value : Value) (n : Text) :
    (s.set name value).get? n = if n = name then some value else s.get? n :=
  lookup_setEntry name value s.entries n

@[simp] theorem get?_empty (n : Text) : empty.get? n = none := rfl

/-- The scope with the given bindings. -/
def ofList (bindings : List (Text × Value)) : Scope :=
  -- Of a name that is bound more than once the last binding counts.
  bindings.foldl (fun s (name, value) => s.set name value) empty

/-- The bindings of a scope in the order of their names. -/
def sorted (s : Scope) : List (Text × Value) :=
  s.entries.mergeSort fun a b => decide (¬b.1 < a.1)

end Scope

/-- Nested scopes: the innermost one, and those around it from the inside out. -/
structure Scopes where
  inner : Scope
  outer : List Scope
deriving DecidableEq

namespace Scopes

/-- A single scope with none around it. -/
def single (s : Scope) : Scopes := ⟨s, []⟩

/-- All scopes, the innermost first. -/
def toList (s : Scopes) : List Scope := s.inner :: s.outer

/-- The value of the innermost binding of a name. -/
def get? (s : Scopes) (name : Text) : Option Value := s.toList.findSome? (·.get? name)

/-- Binds a name in the innermost scope. -/
def define (s : Scopes) (name : Text) (value : Value) : Scopes :=
  { s with inner := s.inner.set name value }

/-- Binds a name anew in the first scope of a list that binds it. -/
def assignIn? (name : Text) (value : Value) : List Scope → Option (List Scope)
  | [] => none
  | s :: rest =>
    if s.binds name then some (s.set name value :: rest)
    else (assignIn? name value rest).map (s :: ·)

/-- Binds a name anew in the innermost scope that binds it. -/
def assign? (s : Scopes) (name : Text) (value : Value) : Option Scopes :=
  if s.inner.binds name then some (s.define name value)
  else (assignIn? name value s.outer).map fun outer => { s with outer }

/-- Enters a new scope, which is empty. -/
def push (s : Scopes) : Scopes := ⟨Scope.empty, s.toList⟩

/-- Leaves the innermost scope, unless it is the only one. -/
def pop (s : Scopes) : Scopes :=
  match s.outer with
  | [] => s
  | t :: rest => ⟨t, rest⟩

@[simp] theorem pop_push (s : Scopes) : s.push.pop = s := rfl

end Scopes
end Grimoire
