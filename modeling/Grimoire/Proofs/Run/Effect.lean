import Grimoire.Proofs.Run.Expression
import Grimoire.Proofs.Scope.Chain

/-!
# Simple statements are all or nothing

To create a name, to set one and to shout a line takes the value of one expression, and then one
thing is done with it. All that can fail comes before that: the value, the name that the statement
is about, the scope that the name belongs to, and the line that is made from the value.

* **`SetAt`** says that one binding of a chain of scopes is new and all others are as they were.
* **`Casting.FailsClean`** is what keeps a statement from being done by half.
-/

namespace Grimoire

open Casting

/-! ## One new binding -/

/-- The value of a name in the scope at place `j` of a chain. -/
def bindingAt (chain : List Scope) (j : Nat) (y : Text) : Option Value := chain[j]?.bind (·.get? y)

/-- The second chain binds `x` to `v` at place `i`, and is the first one otherwise. -/
structure SetAt (i : Nat) (x : Text) (v : Value) (chain chain' : List Scope) : Prop where
  length_eq : chain'.length = chain.length
  new : bindingAt chain' i x = some v
  old : ∀ j y, j ≠ i ∨ y ≠ x → bindingAt chain' j y = bindingAt chain j y

namespace SetAt

variable {i : Nat} {x : Text} {v : Value} {chain chain' : List Scope}

/-- A name may be set in the first scope. -/
theorem head (scope : Scope) (x : Text) (v : Value) (chain : List Scope) :
    SetAt 0 x v (scope :: chain) (scope.set x v :: chain) := by
  refine ⟨rfl, ?_, fun j y hne => ?_⟩
  · show (scope.set x v).get? x = _
    rw [Scope.get?_set, if_pos rfl]
  · cases j with
    | zero =>
      show (scope.set x v).get? y = scope.get? y
      rw [Scope.get?_set, if_neg (hne.resolve_left fun h => h rfl)]
    | succ j => rfl

/-- A name may be set in one of the scopes further out. -/
theorem cons (scope : Scope) (h : SetAt i x v chain chain') :
    SetAt (i + 1) x v (scope :: chain) (scope :: chain') := by
  refine ⟨congrArg (· + 1) h.length_eq, h.new, fun j y hne => ?_⟩
  cases j with
  | zero => rfl
  | succ j => exact h.old j y (hne.imp_left fun hj hi => hj (congrArg (· + 1) hi))

/-- Setting a name binds it anew in the first scope that binds it. -/
theorem of_assignIn? (h : Scopes.assignIn? x v chain = some chain') :
    ∃ i, chain.findIdx? (·.binds x) = some i ∧ SetAt i x v chain chain' := by
  induction chain generalizing chain' with
  | nil => cases h
  | cons scope rest ih =>
    rw [Scopes.assignIn?] at h
    rw [List.findIdx?_cons]
    cases hbinds : scope.binds x with
    | true =>
      rw [hbinds] at h
      cases h
      exact ⟨0, rfl, .head scope x v rest⟩
    | false =>
      rw [hbinds] at h
      obtain ⟨rest', hrest, rfl⟩ := Option.map_eq_some_iff.mp h
      obtain ⟨i, hi, hset⟩ := ih hrest
      refine ⟨i + 1, ?_, hset.cons scope⟩
      rw [hi]
      rfl

end SetAt

/-! ## Failing before anything is done -/

namespace Casting

variable {α β : Type}

/-- Where the casting fails, it has done nothing. -/
def FailsClean (x : Casting α) : Prop := ∀ s e t, x s = .error e t → t = s

namespace FailsClean

/-- A fault before anything is done is a clean failure. -/
theorem ofExcept_bind (r : Except Fault α) {f : α → Casting β} (h : ∀ a, FailsClean (f a)) :
    FailsClean (ofExcept r >>= f) := by
  intro s e t herror
  cases r with
  | ok a => exact h a s e t herror
  | error fault =>
    cases herror
    rfl

/-- What is returned afterwards does not matter. -/
theorem bind_pure {x : Casting α} (h : FailsClean x) (b : β) :
    FailsClean (x >>= fun _ => pure b) := by
  intro s e t herror
  cases hx : x s with
  | ok a s₁ => cases (bind_of_ok hx).symm.trans herror
  | error e' s₁ =>
    cases (bind_of_error hx).symm.trans herror
    exact h s _ _ hx

theorem define (name : Text) (value : Value) : FailsClean (define name value) := nofun

/-- To set a name fails before the scopes are changed. -/
theorem assign (name : Text) (value : Value) : FailsClean (assign name value) := by
  intro s e t herror
  rw [assign_apply] at herror
  cases hassign : s.scopes.assign? name value with
  | some scopes =>
    rw [hassign] at herror
    cases herror
  | none =>
    rw [hassign] at herror
    cases herror
    rfl

/-- To print fails before anything is printed. -/
theorem print (terms : Terms) (text : Text) : FailsClean (print terms text) := by
  intro s e t herror
  rw [print_apply] at herror
  cases hflaw : if terms.utf8 then Utf8.unencodable? text else none with
  | some flaw =>
    rw [hflaw] at herror
    cases herror
    rfl
  | none =>
    rw [hflaw] at herror
    cases herror

end FailsClean

/-! ## Simple statements -/

/-- What a simple statement does with the value of its expression. -/
def finish (terms : Terms) : Node → Value → Casting Value
  | .create _ target _, v => do
    define (← ofExcept (targetName "CREATE" target)) v
    return .nothing
  | .assign _ target _, v => do
    assign (← ofExcept (targetName "SET" target)) v
    return .nothing
  | .shout .., v => do
    print terms (← ofExcept v.format)
    return .nothing
  | _, _ => return .nothing

end Casting

/-- The expression that a simple statement takes the value of. -/
def Node.operand? : Node → Option Node
  | .create _ _ value | .assign _ _ value | .shout _ value => some value
  | _ => none

/-- A simple statement has been done with a value: what it has changed, and nothing else. -/
inductive Done (s t : RunState) (v : Value) : Node → Prop where
  /-- The name is bound in the innermost scope. -/
  | create {line line' : Option Nat} {x : Text} {value : Node}
      (hset : SetAt 0 x v s.scopes.toList t.scopes.toList) (houtputs : t.outputs = s.outputs) :
      Done s t v (.create line (.name line' x) value)
  /-- The name is bound anew in the first scope that binds it. -/
  | assign {line line' : Option Nat} {x : Text} {value : Node} {i : Nat}
      (hscope : s.scopes.resolve x = some i)
      (hset : SetAt i x v s.scopes.toList t.scopes.toList) (houtputs : t.outputs = s.outputs) :
      Done s t v (.assign line (.name line' x) value)
  /-- The value is printed. -/
  | shout {line : Option Nat} {value : Node} {text : Text} (htext : v.format = .ok text)
      (hscopes : t.scopes = s.scopes) (houtputs : t.outputs = s.outputs ++ [.log text]) :
      Done s t v (.shout line value)

variable {terms : Terms} {passes : Nat} {node value : Node}

/-- A simple statement is its operand, and what is done with the value of that. -/
theorem evaluate_simple (hform : node.operand? = some value) (depth : Nat) :
    evaluate terms passes (depth + 1) node =
      evaluate terms passes depth value >>= finish terms node := by
  cases node with
  | create | assign | shout =>
    obtain rfl := Option.some.inj hform
    rfl
  | _ => cases hform

/-- What is done with the value fails before it has changed anything. -/
theorem failsClean_finish (v : Value) : FailsClean (finish terms node v) := by
  cases node with
  | create line target value => exact .ofExcept_bind _ fun name => .bind_pure (.define name v) _
  | assign line target value => exact .ofExcept_bind _ fun name => .bind_pure (.assign name v) _
  | shout line value => exact .ofExcept_bind _ fun text => .bind_pure (.print terms text) _
  | _ => exact nofun

/-- What is done with the value takes no steps and asks for nothing. -/
theorem done_of_finish (hform : node.operand? = some value) {s t : RunState} {v w : Value}
    (h : finish terms node v s = .ok w t) :
    Done s t v node ∧ t.steps = s.steps ∧ t.replies = s.replies ∧ t.requests = s.requests := by
  cases node with
  | create line target value =>
    obtain ⟨x, s₁, hx, hdefine⟩ := bind_eq_ok.mp h
    obtain ⟨hname, rfl⟩ := ofExcept_eq_ok.mp hx
    obtain ⟨line', rfl⟩ := targetName_eq_ok hname
    cases hdefine
    exact ⟨.create (.head ..) rfl, rfl, rfl, rfl⟩
  | assign line target value =>
    obtain ⟨x, s₁, hx, hrest⟩ := bind_eq_ok.mp h
    obtain ⟨hname, rfl⟩ := ofExcept_eq_ok.mp hx
    obtain ⟨line', rfl⟩ := targetName_eq_ok hname
    obtain ⟨_, s₂, hassign, hpure⟩ := bind_eq_ok.mp hrest
    cases hpure
    rw [assign_apply] at hassign
    cases hscopes : s.scopes.assign? x v with
    | none =>
      rw [hscopes] at hassign
      cases hassign
    | some scopes =>
      rw [hscopes] at hassign
      cases hassign
      obtain ⟨i, hi, hset⟩ := SetAt.of_assignIn? (Scopes.assignIn?_of_assign? hscopes)
      exact ⟨.assign hi hset rfl, rfl, rfl, rfl⟩
  | shout line value =>
    obtain ⟨text, s₁, hformat, hrest⟩ := bind_eq_ok.mp h
    obtain ⟨htext, rfl⟩ := ofExcept_eq_ok.mp hformat
    obtain ⟨_, s₂, hprint, hpure⟩ := bind_eq_ok.mp hrest
    cases hpure
    rw [print_apply] at hprint
    cases hflaw : if terms.utf8 then Utf8.unencodable? text else none with
    | some flaw =>
      rw [hflaw] at hprint
      cases hprint
    | none =>
      rw [hflaw] at hprint
      cases hprint
      refine ⟨.shout htext rfl ?_, rfl, rfl, ?_⟩
      · simp [RunState.outputs]
      · simp [RunState.requests]
  | _ => cases hform

/-- The operand of a spelled statement is an expression. -/
theorem Spells.operand {role : Role} {ts : List Token} (h : Spells role node ts)
    (hform : node.operand? = some value) : value.ExpressionTree := by
  cases h with
  | shout _ _ ha | create _ _ _ _ _ ha | assign _ _ _ _ _ ha =>
    obtain rfl := Option.some.inj hform
    exact ha.expressionTree
  | _ => cases hform

/-- Requests that are made before a simple statement is done make no difference. -/
theorem Done.of_asked {s t : RunState} {v : Value} {k : Nat} (h : Done (s.asked k) t v node) :
    Done s t v node := by
  cases h with
  | create hset houtputs => exact .create hset (houtputs.trans (s.outputs_asked k))
  | assign hscope hset houtputs => exact .assign hscope hset (houtputs.trans (s.outputs_asked k))
  | shout htext hscopes houtputs =>
    rw [s.outputs_asked] at houtputs
    exact .shout htext hscopes houtputs

/-- **To create a name, to set one and to shout a line is all or nothing.** Such a statement,
anywhere in a spell that has been read, is evaluated in any state and under any terms. Where it
fails, all scopes and outputs are as before. Otherwise one binding is new, that of the name in the
innermost scope or in the scope that the name belongs to, or one line has been printed; nothing else
is changed, and the value is the one that its expression has in the state before. -/
theorem statement_all_or_nothing {lenient : Bool} {ts : Tokens} {spell : List Node}
    {node value : Node} (hparse : parse lenient ts = .ok spell)
    (hwithin : node.Within (.program spell)) (hform : node.operand? = some value) (terms : Terms)
    (passes depth : Nat) (s : RunState) :
    (∀ e t, evaluate terms passes depth node s = .error e t →
      t.scopes = s.scopes ∧ t.outputs = s.outputs ∧ t.steps = s.steps) ∧
    ∀ w t, evaluate terms passes depth node s = .ok w t → ∃ d v u, depth = d + 1 ∧
      evaluate terms passes d value s = .ok v u ∧ Done s t v node ∧ t.steps = s.steps ∧
      t.replies = u.replies ∧ t.requests = u.requests := by
  obtain ⟨us, hus⟩ := parse_spelled hparse
  have htree : value.ExpressionTree := by
    rcases hus.of_within hwithin with rfl | ⟨role, vs, hvs⟩
    · cases hform
    · exact hvs.operand hform
  cases depth with
  | zero =>
    refine ⟨fun e t herror => ?_, fun w t hok => nomatch hok⟩
    cases herror
    exact ⟨rfl, rfl, rfl⟩
  | succ d =>
    have hconsults : Consults value.Names value.askCount (evaluate terms passes d value)
        (evaluate terms passes d value) := consults_expression htree (.inl rfl) fun _ => rfl
    obtain ⟨k, outcome, hend, -⟩ := hconsults s
    rw [evaluate_simple hform]
    cases outcome with
    | error e' =>
      -- The expression fails.
      rw [bind_of_error hend]
      refine ⟨fun e t herror => ?_, fun w t hok => nomatch hok⟩
      cases herror
      exact ⟨rfl, s.outputs_asked k, rfl⟩
    | ok v =>
      rw [bind_of_ok hend]
      refine ⟨fun e t herror => ?_, fun w t hok => ?_⟩
      · rw [failsClean_finish v _ e t herror]
        exact ⟨rfl, s.outputs_asked k, rfl⟩
      · obtain ⟨hdone, hsteps, hreplies, hrequests⟩ := done_of_finish hform hok
        exact ⟨d, v, s.asked k, rfl, hend, hdone.of_asked, hsteps, hreplies, hrequests⟩

/-- `set the power of a to combine the power of a and R`, where `R` asks for a reply. -/
def raising : Node :=
  .assign (some 1) (.name (some 1) "a")
    (.binary (some 1) (.name (some 1) "a") .add (.ask (some 1)))

/-- A name that is bound twice is set to a value made from its own. The inner binding is new, the
outer one is not touched, and without a reply nothing happens at all. -/
theorem raising_all_or_nothing :
    let scopes : Scopes := ⟨Scope.ofList [("b", .int 0)],
      [Scope.ofList [("a", .int 1)], Scope.ofList [("a", .int 5)]]⟩
    let raise (replies : List (Option Text)) : RunState :=
      (evaluate ⟨none, .fault, true⟩ 0 9 raising).after ⟨scopes, replies, 0, #[]⟩
    bindingAt (raise [some "2"]).scopes.toList 1 "a" = some (.int 3) ∧
    bindingAt (raise [some "2"]).scopes.toList 2 "a" = some (.int 5) ∧
    (raise []).scopes = scopes := by
  intro scopes raise
  have hparse : parse false ⟨(Text.words
      ("set the power of a to combine the power of a and " ++
        "find the source of the messages")).map (Token.ofWord 1), Mark.start⟩ = .ok [raising] := rfl
  have hwithin : raising.Within (.program [raising]) := .child List.mem_cons_self .refl
  have hall (s : RunState) :=
    statement_all_or_nothing hparse hwithin rfl ⟨none, .fault, true⟩ 0 9 s
  obtain ⟨d, v, u, hd, hvalue, hdone, -⟩ := (hall ⟨scopes, [some "2"], 0, #[]⟩).2 _ _ rfl
  cases hd
  cases hvalue
  cases hdone with
  | assign hscope hset _ =>
    cases hscope
    have hold := hset.old 2 "a" (.inl (by decide))
    exact ⟨hset.new, hold, ((hall ⟨scopes, [], 0, #[]⟩).1 _ _ rfl).1⟩

end Grimoire
