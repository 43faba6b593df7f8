import Mathlib.Order.Defs.Unbundled
import Grimoire.Proofs.Run.Congruence
import Grimoire.Proofs.Scope.Chain
import Grimoire.Proofs.Tree.Parts

/-!
# Blocks neither leak nor capture bindings

A branch or a loop leaves the scopes around it as they are, but for the names that are set inside
it. Expressions do not touch the scopes at all. A statement of a block may bind names in the
innermost scope, which is the block's own; on the scopes further out it acts as the whole branch or
loop does. So there are three ways of keeping the scopes, each a preorder, and `Keeps` follows any
of them through whatever a casting does, up to its end or to the fault that stops it.
-/

namespace Grimoire
namespace Casting

variable {α β : Type} {P Q : Scopes → Scopes → Prop}

/-- However the casting ends, the scopes before and after are related. -/
def Keeps (P : Scopes → Scopes → Prop) (x : Casting α) : Prop :=
  ∀ s, P s.scopes (x.after s).scopes

theorem Keeps.mono {x : Casting α} (h : Keeps P x) (hPQ : ∀ s s', P s s' → Q s s') : Keeps Q x :=
  fun s => hPQ _ _ (h s)

/-! ## Castings that do not touch the scopes -/

/-- However the casting ends, the scopes are the same as before. -/
def Still (x : Casting α) : Prop := Keeps Eq x

/-- What does not touch the scopes keeps every preorder of them. -/
theorem Still.keeps [IsPreorder Scopes P] {x : Casting α} (h : Still x) : Keeps P x := by
  intro s
  rw [← h s]
  exact refl _

theorem still_pure (a : α) : Still (pure a) := fun _ => rfl

theorem still_fail (f : Fault) : Still (fail f : Casting α) := fun _ => rfl

theorem still_ofExcept (r : Except Fault α) : Still (ofExcept r) := by
  cases r with
  | ok a => exact still_pure a
  | error f => exact still_fail f

theorem still_print (terms : Terms) (text : Text) : Still (print terms text) := by
  intro s
  unfold after
  rw [print_apply]
  cases if terms.utf8 then Utf8.unencodable? text else none <;> rfl

theorem still_ask (terms : Terms) : Still (ask terms) := by
  intro s
  unfold after
  rw [ask_apply]
  cases s.replies with
  | nil => cases terms.silence <;> rfl
  | cons reply replies => cases hreply : Value.ofReply reply <;> simp only [ofExcept_apply, hreply]

theorem still_lookUp (name : Text) : Still (lookUp name) := by
  intro s
  unfold after
  rw [lookUp_apply]
  cases s.scopes.get? name <;> rfl

theorem still_tick (terms : Terms) : Still (tick terms) := by
  intro s
  unfold tick
  cases terms.limit with
  | none => rfl
  | some m =>
    show s.scopes = (after (if m < (s.steps + 1 : Nat) then fail .stepLimit else pure ()) _).scopes
    split <;> rfl

/-! ## Castings in a row -/

theorem Keeps.bind [IsPreorder Scopes P] {x : Casting α} {f : α → Casting β} (hx : Keeps P x)
    (hf : ∀ a, Keeps P (f a)) : Keeps P (x >>= f) := by
  intro s
  have hfirst := hx s
  cases heq : x s with
  | ok a s' =>
    rw [after_of_ok heq] at hfirst
    rw [after_bind_of_ok heq]
    exact IsTrans.trans _ _ _ hfirst (hf a s')
  | error e s' =>
    rw [after_of_error heq] at hfirst
    rw [after_bind_of_error heq]
    exact hfirst

/-- A loop keeps a preorder if its condition and its body do. -/
theorem Keeps.whileTrue [IsPreorder Scopes P] {condition : Casting Bool} {body : Casting Unit}
    (hcondition : Keeps P condition) (hbody : Keeps P body) (passes : Nat) :
    Keeps P (whileTrue condition body passes) :=
  @whileTrue_congr (fun {_} _ y => Keeps P y) (fun _ => refl _) .bind (fun _ => refl _)
    condition condition body body hcondition hbody passes

/-- The statements of a list keep a preorder if each of them does. -/
theorem Keeps.forM [IsPreorder Scopes P] {f : Node → Casting Unit} (nodes : List Node)
    (hf : ∀ node ∈ nodes, Keeps P (f node)) : Keeps P (nodes.forM f) := by
  induction nodes with
  | nil => exact fun s => refl _
  | cons node nodes ih =>
    refine (hf node List.mem_cons_self).bind fun _ => ?_
    exact ih fun n hn => hf n (List.mem_cons_of_mem _ hn)

/-! ## Statements and blocks -/

/-- All scopes are kept, but for the values of names of `W`. -/
def Steady (W : Text → Prop) (s s' : Scopes) : Prop := Rebinds W s.toList s'.toList

/-- All scopes but the innermost are kept, but for the values of names of `W`. -/
def Local (W : Text → Prop) (s s' : Scopes) : Prop := Rebinds W s.outer s'.outer

instance (W : Text → Prop) : IsPreorder Scopes (Steady W) where
  refl _ := .refl _
  trans _ _ _ := .trans

instance (W : Text → Prop) : IsPreorder Scopes (Local W) where
  refl _ := .refl _
  trans _ _ _ := .trans

variable {W W' : Text → Prop}

/-- What keeps all scopes keeps the outer ones. -/
theorem Keeps.local_of_steady {x : Casting α} (h : Keeps (Steady W) x) : Keeps (Local W) x :=
  h.mono fun _ _ => Rebinds.tail

/-- A new binding is made in the innermost scope. -/
theorem keeps_define (name : Text) (value : Value) : Keeps (Local W) (define name value) :=
  fun _ => Rebinds.refl _

/-- To set a name keeps all scopes, but for the value of that name. -/
theorem keeps_assign {name : Text} (hname : W name) (value : Value) :
    Keeps (Steady W) (assign name value) := by
  intro s
  unfold after
  rw [assign_apply]
  cases heq : s.scopes.assign? name value with
  | none => exact Rebinds.refl _
  | some scopes => exact (Rebinds.of_assign? heq).mono fun x hx => hx ▸ hname

/-- What a block does to its own scope is gone when the scope is left. -/
theorem Keeps.inNewScope {x : Casting α} (h : Keeps (Local W) x) :
    Keeps (Steady W) (inNewScope x) := by
  intro s
  rw [after_inNewScope]
  have houter : Rebinds W s.scopes.toList
      (x.after { s with scopes := s.scopes.push }).scopes.outer :=
    h { s with scopes := s.scopes.push }
  generalize (x.after { s with scopes := s.scopes.push }).scopes = scopes at houter
  obtain ⟨inner, outer⟩ := scopes
  cases outer with
  | nil => cases houter.length_eq
  | cons scope outer => exact houter

/-! ## Evaluation -/

/-- A statement that sets its target keeps all scopes, but for the values it sets. -/
theorem keeps_setTarget {line : Option Nat} {target value : Node} (v : Value) :
    Keeps (Steady (Node.assign line target value).Sets) (do
      assign (← ofExcept (targetName "SET" target)) v
      return Value.nothing) := by
  cases htarget : targetName "SET" target with
  | error f => exact (still_fail f).keeps
  | ok name =>
    obtain ⟨nameLine, rfl⟩ := targetName_eq_ok htarget
    have hassign : Keeps (Steady (Node.assign line (.name nameLine name) value).Sets)
        (assign name v) := keeps_assign ⟨line, nameLine, value, .refl⟩ v
    exact hassign.bind fun _ => (still_pure _).keeps

variable (terms : Terms) (passes : Nat)

/-- The value of an expression is found without touching the scopes. -/
theorem still_expression {depth : Nat} {node : Node} {ts : List Token}
    (h : Spells .expression node ts) : Still (evaluate terms passes depth node) := by
  induction depth generalizing node ts with
  | zero => exact still_fail _
  | succ depth ih =>
    cases h with
    | text | integer | float => exact still_pure _
    | name => exact still_lookUp _
    | combine _ _ ha _ hb | remove _ _ hb _ ha | duplicate _ _ ha hb | split _ _ ha hb
    | comparison _ ha _ _ hb =>
      exact (ih ha).bind fun v => (ih hb).bind fun w => still_ofExcept _
    | reply => exact still_ask terms
    | code _ _ ha | character _ _ ha => exact (ih ha).bind fun v => still_ofExcept _

/-- A block is entered, and its statements keep the scopes that are not their own. -/
theorem keeps_enter {depth : Nat} {block : Node}
    (h : ∀ ss, block.body = .ok ss → ∀ node ∈ ss,
      Keeps (Local W) (evaluate terms passes depth node)) :
    Keeps (Steady W) (do
      let statements ← ofExcept block.body
      inNewScope (statements.forM fun statement => do
        tick terms
        let _ ← evaluate terms passes depth statement)) := by
  cases hbody : block.body with
  | error f => exact (still_fail f).keeps
  | ok ss =>
    have hstatements : Keeps (Local W) (ss.forM fun statement => do
        tick terms
        let _ ← evaluate terms passes depth statement) := by
      refine .forM ss fun node hnode => (still_tick terms).keeps.bind fun _ => ?_
      exact (h ss hbody node hnode).bind fun _ => (still_pure _).keeps
    exact hstatements.inNewScope

/-- The statements of a spelled block change nothing beyond it but the values that its parent
sets. -/
theorem keeps_spelled_block {depth : Nat} {block : Node} {ts : List Token}
    (h : Spells .block block ts) {parent : Node} (hmem : block ∈ parent.children)
    (ih : ∀ {node : Node} {us : List Token}, Spells .statement node us →
      Keeps (Local node.Sets) (evaluate terms passes depth node)) :
    ∀ ss, block.body = .ok ss → ∀ node ∈ ss,
      Keeps (Local parent.Sets) (evaluate terms passes depth node) := by
  intro ss hbody node hnode
  cases h with
  | block ht hs =>
    cases hbody
    obtain ⟨us, hus⟩ := hs.statement_of_mem hnode
    refine (ih hus).mono fun _ _ hlocal => hlocal.mono fun x hx => ?_
    exact .of_child hmem (.of_child hnode hx)

/-- The first `n` passes through a loop, up to the point where its condition is tried once more.
Loops inside of it are passed through up to `passes` times. -/
def firstPasses (depth : Nat) (condition body : Node) (n : Nat) : Casting Unit :=
  whileTrue (do return (← evaluate terms passes depth condition).isTruthy)
    (do
      tick terms
      let statements ← ofExcept body.body
      inNewScope (statements.forM fun statement => do
        tick terms
        let _ ← evaluate terms passes depth statement)) n

/-- A loop is as many passes as a stretch allows. -/
theorem evaluate_loop (depth : Nat) (line : Option Nat) (condition body : Node) :
    evaluate terms passes (depth + 1) (.loop line condition body) = (do
      firstPasses terms passes depth condition body passes
      return .nothing) := rfl

/-- However many passes are made, no binding of theirs is left behind. -/
theorem keeps_firstPasses {depth : Nat} {line : Option Nat} {condition body : Node}
    {ts : List Token} (h : Spells .statement (.loop line condition body) ts)
    (ih : ∀ {node : Node} {us : List Token}, Spells .statement node us →
      Keeps (Local node.Sets) (evaluate terms passes depth node)) (n : Nat) :
    Keeps (Steady (Node.loop line condition body).Sets)
      (firstPasses terms passes depth condition body n) := by
  have hmem : body ∈ (Node.loop line condition body).children := by simp [Node.children]
  cases h with
  | loop _ _ ha _ hb =>
    have hvalue : Still (evaluate terms passes depth condition) := still_expression terms passes ha
    have hcondition := hvalue.bind fun v => still_pure v.isTruthy
    -- A pass enters the block of the loop, after a tick.
    have hstatements := keeps_spelled_block terms passes hb hmem ih
    have hpass := (still_tick terms).keeps.bind fun _ => keeps_enter terms passes hstatements
    exact Keeps.whileTrue (Still.keeps hcondition) hpass n

/-- **What a statement does to the scopes.** It changes the innermost scope at will if it binds a
name there; branches and loops do not even do that. -/
theorem keeps_statement {depth : Nat} {node : Node} {ts : List Token}
    (h : Spells .statement node ts) :
    Keeps (Local node.Sets) (evaluate terms passes depth node) ∧
      (node.isCompound → Keeps (Steady node.Sets) (evaluate terms passes depth node)) := by
  induction depth generalizing node ts with
  | zero => exact ⟨(still_fail _).keeps, fun _ => (still_fail _).keeps⟩
  | succ depth ih =>
    have hlocal {node : Node} {us : List Token} (h : Spells .statement node us) := (ih h).1
    have hexpression {node : Node} {us : List Token} {W : Text → Prop}
        (h : Spells .expression node us) : Keeps (Steady W) (evaluate terms passes depth node) :=
      (still_expression terms passes h).keeps
    -- A compound statement is steady, and therefore keeps the outer scopes as well.
    have hsteady {node : Node}
        (h : Keeps (Steady node.Sets) (evaluate terms passes (depth + 1) node)) :
        Keeps (Local node.Sets) (evaluate terms passes (depth + 1) node) ∧
          (node.isCompound → Keeps (Steady node.Sets) (evaluate terms passes (depth + 1) node)) :=
      ⟨h.local_of_steady, fun _ => h⟩
    cases h with
    | shout _ _ ha =>
      refine hsteady ((hexpression ha).bind fun v => (still_ofExcept _).keeps.bind fun text => ?_)
      exact (still_print terms text).keeps.bind fun _ => (still_pure _).keeps
    | create _ _ _ _ _ ha =>
      refine ⟨(hexpression ha).local_of_steady.bind fun v => ?_, nofun⟩
      refine (still_ofExcept _).keeps.bind fun name => ?_
      exact (keeps_define name v).bind fun _ => (still_pure _).keeps
    | assign _ _ _ _ _ ha => exact hsteady ((hexpression ha).bind fun v => keeps_setTarget v)
    | branch _ _ ha _ hb =>
      refine hsteady ((hexpression ha).bind fun v => ?_)
      refine (keeps_enter terms passes ?_).bind fun _ => (still_pure _).keeps
      cases v.isTruthy with
      | true =>
        exact keeps_spelled_block terms passes hb (by simp [Node.children]) hlocal
      | false =>
        -- There is no alternative: an empty block is entered.
        intro ss hbody node hnode
        cases hbody
        cases hnode
    | branchElse _ _ ha _ hb _ hc =>
      refine hsteady ((hexpression ha).bind fun v => ?_)
      refine (keeps_enter terms passes ?_).bind fun _ => (still_pure _).keeps
      cases v.isTruthy with
      | true =>
        exact keeps_spelled_block terms passes hb (by simp [Node.children]) hlocal
      | false =>
        rw [if_neg Bool.false_ne_true, hc.orEmpty_eq]
        exact keeps_spelled_block terms passes hc (by simp [Node.children]) hlocal
    | loop ht hp ha hq hb hd =>
      have hpasses := keeps_firstPasses terms passes (.loop ht hp ha hq hb hd) hlocal passes
      refine hsteady ?_
      rw [evaluate_loop]
      exact hpasses.bind fun _ => (still_pure _).keeps

end Casting

open Casting

/-- The names that mean something are those that some scope binds. -/
theorem Scopes.isSome_get? (s : Scopes) (x : Text) :
    (s.get? x).isSome = (s.resolve x).isSome := by
  unfold get? resolve
  rw [List.isSome_findSome?, List.findIdx?_isSome]
  rfl

/-- Each scope binds the same names as before, and a name has another value only in the scope that
it belonged to before, and only if it is set inside the node. No other name means something than
before. -/
def Node.Spares (node : Node) (scopes scopes' : Scopes) : Prop :=
  scopes'.toList.length = scopes.toList.length ∧
  (∀ (i : Nat) (scope scope' : Scope),
    scopes.toList[i]? = some scope → scopes'.toList[i]? = some scope' →
      (∀ x, scope'.binds x = scope.binds x) ∧
      ∀ x, scope'.get? x ≠ scope.get? x → scopes.resolve x = some i ∧ node.Sets x) ∧
  ∀ x, (scopes'.get? x).isSome = (scopes.get? x).isSome

/-- What keeps all scopes but for the values that a node sets spares the others. -/
theorem Casting.Steady.spares {node : Node} {scopes scopes' : Scopes}
    (h : Steady node.Sets scopes scopes') : node.Spares scopes scopes' := by
  refine ⟨h.length_eq, fun i scope scope' hi hi' => ⟨?_, ?_⟩, fun x => ?_⟩
  · exact h.binds_eq i scope scope' hi hi'
  · exact h.resolve i scope scope' hi hi'
  · rw [Scopes.isSome_get?, Scopes.isSome_get?]
    unfold Scopes.resolve
    rw [h.findIdx?_eq]

/-- **Blocks neither leak nor capture bindings.** A branch or a loop, anywhere in a spell that has
been read, is evaluated in any scopes and under any terms, and it may end with a value or be stopped
by a fault at any depth. It spares the scopes that it is evaluated in. So does a loop after any
number of passes, when its condition is tried once more and perhaps a new scope is entered. -/
theorem blocks_neither_leak_nor_capture {lenient : Bool} {ts : Tokens} {spell : List Node}
    {node : Node} (hparse : parse lenient ts = .ok spell) (hwithin : node.Within (.program spell))
    (hform : node.isCompound) (terms : Terms) (passes depth : Nat) (s : RunState) :
    node.Spares s.scopes ((evaluate terms passes depth node).after s).scopes ∧
    ∀ (line : Option Nat) (condition body : Node), node = .loop line condition body → ∀ n : Nat,
      node.Spares s.scopes ((firstPasses terms passes depth condition body n).after s).scopes := by
  -- Whatever is inside a spell that has been read is spelled, also where tokens are left unread.
  obtain ⟨us, hus⟩ := parse_spelled hparse
  obtain ⟨vs, hvs⟩ := hus.statement_of_within hwithin hform
  have hkeeps {node : Node} {us : List Token} (hus : Spells .statement node us) :=
    @keeps_statement terms passes depth node us hus
  refine ⟨((hkeeps hvs).2 hform s).spares, ?_⟩
  rintro line condition body rfl n
  exact (keeps_firstPasses terms passes hvs (fun hus => (hkeeps hus).1) n s).spares

/-- `do create a new spell named c with the power of a set the power of a to b`. -/
def resetting : Node :=
  .block (some 1) [.create (some 1) (.name (some 1) "c") (.name (some 1) "a"),
    .assign (some 1) (.name (some 1) "a") (.name (some 1) "b")]

/-- A loop creates a name, and sets one that is bound in two scopes. After the first pass the new
name has no meaning, and the outer binding of the other one is not touched. -/
theorem pass_spares_shadowed_binding :
    let s : RunState := ⟨⟨Scope.ofList [("a", .int 1)],
      [Scope.ofList [("a", .int 5), ("b", .int 0)]]⟩, [], 0, #[]⟩
    let scopes := ((firstPasses ⟨none, .fault, true⟩ 2 9 (.name (some 1) "a") resetting 1).after
      s).scopes
    scopes.get? "c" = none ∧ scopes.toList[1]?.bind (·.get? "a") = some (.int 5) := by
  intro s scopes
  let loop : Node := .loop (some 1) (.name (some 1) "a") resetting
  have hparse : parse false ⟨(Text.words
      ("whilst the spell a is true do create a new spell named c with the power of a " ++
        "set the power of a to b done")).map (Token.ofWord 1), Mark.start⟩ = .ok [loop] := rfl
  have hwithin : loop.Within (.program [loop]) := .child List.mem_cons_self .refl
  obtain ⟨-, hpasses⟩ := blocks_neither_leak_nor_capture hparse hwithin rfl
    ⟨none, .fault, true⟩ 2 9 s
  obtain ⟨hlength, hscopes, hnames⟩ := hpasses _ _ _ rfl 1
  constructor
  · have hnone : ¬(scopes.get? "c").isSome := by
      rw [hnames]
      decide
    exact Option.not_isSome_iff_eq_none.mp hnone
  · have hscope := List.getElem?_eq_getElem (Nat.lt_of_lt_of_eq (Nat.lt_succ_self 1) hlength.symm)
    rw [hscope]
    refine Decidable.byContradiction fun hne => ?_
    exact absurd ((hscopes 1 _ _ rfl hscope).2 "a" hne).1 (by decide)

end Grimoire
