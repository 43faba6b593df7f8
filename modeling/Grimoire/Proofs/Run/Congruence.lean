import Grimoire.Proofs.Tree.Within
import Grimoire.Run.Evaluate

/-!
# Congruences of castings

An evaluation is put together from a few primitive castings, from ticks, and from the ways in which
castings are combined: one after the other, in a new scope, and in a loop. A relation between
castings that respects all of these therefore relates two evaluations of the same node, whatever the
node is.

`Casting.CongruenceOn` lists what such a relation has to respect, for nodes that mention no other
names than some given ones, and **`CongruenceOn.evaluate`** is the induction over the evaluation,
which is made here once. What a statement about all runs has to bring along is a relation and the
few facts of the list. The two evaluations may differ in what they do at a tick, in what they can
print, and in how often they may pass through a loop. Most relations have nothing to do with names
or with what can be printed: a `Congruence` respects what is done with any name at all.
-/

namespace Grimoire.Casting

variable {α β : Type}

/-! ## Endings of a casting -/

/-- The state in which a casting ends, however it ends. -/
def after (x : Casting α) (s : RunState) : RunState :=
  match x s with
  | .ok _ s' => s'
  | .error _ s' => s'

theorem after_of_ok {x : Casting α} {s s' : RunState} {a : α} (h : x s = .ok a s') :
    x.after s = s' := by
  rw [after, h]

theorem after_of_error {x : Casting α} {s s' : RunState} {e : Stop} (h : x s = .error e s') :
    x.after s = s' := by
  rw [after, h]

/-- A casting that has succeeded hands its result and its state on. -/
theorem bind_of_ok {x : Casting α} {f : α → Casting β} {s s' : RunState} {a : α}
    (h : x s = .ok a s') : (x >>= f) s = f a s' := by
  show EStateM.bind x f s = _
  rw [EStateM.bind, h]

theorem bind_of_error {x : Casting α} {f : α → Casting β} {s s' : RunState} {e : Stop}
    (h : x s = .error e s') : (x >>= f) s = .error e s' := by
  show EStateM.bind x f s = _
  rw [EStateM.bind, h]

/-- Castings in a row end where the second one does, if the first one succeeds. -/
theorem after_bind_of_ok {x : Casting α} {f : α → Casting β} {s s' : RunState} {a : α}
    (h : x s = .ok a s') : (x >>= f).after s = (f a).after s' := by
  unfold after
  rw [bind_of_ok h]

theorem after_bind_of_error {x : Casting α} {f : α → Casting β} {s s' : RunState} {e : Stop}
    (h : x s = .error e s') : (x >>= f).after s = s' :=
  after_of_error (bind_of_error h)

/-- After a block the state is that of its last moment, without its innermost scope. -/
theorem after_inNewScope (x : Casting α) (s : RunState) :
    (inNewScope x).after s =
      { x.after { s with scopes := s.scopes.push } with
        scopes := (x.after { s with scopes := s.scopes.push }).scopes.pop } := by
  unfold after inNewScope
  cases x { s with scopes := s.scopes.push } <;> rfl

/-- A block that comes to its end leaves its scope. -/
theorem inNewScope_of_ok {x : Casting α} {s t : RunState} {a : α}
    (h : x { s with scopes := s.scopes.push } = .ok a t) :
    inNewScope x s = .ok a { t with scopes := t.scopes.pop } := by
  rw [inNewScope, h]

theorem inNewScope_of_error {x : Casting α} {s t : RunState} {e : Stop}
    (h : x { s with scopes := s.scopes.push } = .error e t) :
    inNewScope x s = .error e { t with scopes := t.scopes.pop } := by
  rw [inNewScope, h]

/-- A loop of at least one pass: the condition, and after the body the passes that are left. -/
theorem whileTrue_succ (condition : Casting Bool) (body : Casting Unit) (passes : Nat) :
    whileTrue condition body (passes + 1) = condition >>= fun holds =>
      if holds then body >>= fun _ => whileTrue condition body passes else pure () := rfl

/-! ## The primitive castings -/

theorem get_apply (s : RunState) : (get : Casting RunState) s = .ok s s := rfl

/-- A result is taken over, and a fault stops the casting. -/
theorem ofExcept_apply (r : Except Fault α) (s : RunState) :
    ofExcept r s = match r with
      | .ok a => .ok a s
      | .error f => .error (.fault f) s := by
  cases r <;> rfl

/-- A text that cannot be encoded is not printed where encoding matters. -/
theorem print_apply (terms : Terms) (text : Text) (s : RunState) :
    print terms text s = match if terms.utf8 then Utf8.unencodable? text else none with
      | some flaw => .error (.fault (.unprintable flaw)) s
      | none => .ok () { s with trace := s.trace.push (.log text) } := by
  unfold print
  cases if terms.utf8 then Utf8.unencodable? text else none <;> rfl

/-- A name has its value, or is not defined. -/
theorem lookUp_apply (name : Text) (s : RunState) :
    lookUp name s = match s.scopes.get? name with
      | some value => .ok value s
      | none => .error (.fault (.undefined name)) s := by
  unfold lookUp
  refine (bind_of_ok (get_apply s)).trans ?_
  cases s.scopes.get? name <;> rfl

/-- A name is set where it is bound, or is not defined. -/
theorem assign_apply (name : Text) (value : Value) (s : RunState) :
    assign name value s = match s.scopes.assign? name value with
      | some scopes => .ok () { s with scopes }
      | none => .error (.fault (.undefined name)) s := by
  unfold assign
  refine (bind_of_ok (get_apply s)).trans ?_
  cases s.scopes.assign? name value <;> rfl

/-- Asking is recorded before there is a reply. -/
theorem ask_apply (terms : Terms) (s : RunState) :
    ask terms s = match s.replies with
      | reply :: replies =>
        ofExcept (Value.ofReply reply) { s with replies, trace := s.trace.push .request }
      | [] => match terms.silence with
        | .fault => .error (.fault .outOfReplies) { s with trace := s.trace.push .request }
        | .blank =>
          ofExcept (Value.ofReply (some [])) { s with trace := s.trace.push .request }
        | .wait => .error .waiting { s with trace := s.trace.push .request } := by
  obtain ⟨scopes, replies, steps, trace⟩ := s
  unfold ask
  cases replies with
  | cons reply replies => rfl
  | nil => cases terms.silence <;> rfl

/-! ## Congruences -/

/-- What an evaluation does by itself: it fails, prints, reads and binds names, and if `asks` it
asks for replies. -/
inductive Primitive (asks : Prop) (terms : Terms) : {α : Type} → Casting α → Prop where
  | fail {α : Type} (f : Fault) : Primitive asks terms (fail f : Casting α)
  | print (text : Text) : Primitive asks terms (print terms text)
  | ask (h : asks) : Primitive asks terms (ask terms)
  | lookUp (name : Text) : Primitive asks terms (lookUp name)
  | define (name : Text) (value : Value) : Primitive asks terms (define name value)
  | assign (name : Text) (value : Value) : Primitive asks terms (assign name value)

/-- A relation between castings that respects all that evaluations are made of, requests for replies
only if `asks`. On the left there are `tick₁`, `terms₁` and `passes₁`, and on the right `tick₂`,
`terms₂` and `passes₂`; the terms differ in the limit of steps at most, or in what does not
matter. -/
structure Congruence (asks : Prop) (R : ∀ {α : Type}, Casting α → Casting α → Prop)
    (tick₁ tick₂ : Casting Unit) (terms₁ terms₂ : Terms) (passes₁ passes₂ : Nat) : Prop where
  silence : asks → terms₂.silence = terms₁.silence
  utf8 : terms₂.utf8 = terms₁.utf8
  pure : ∀ {α : Type} (a : α), R (pure a) (pure a)
  bind : ∀ {α β : Type} {x y : Casting α} {f g : α → Casting β},
    R x y → (∀ a, R (f a) (g a)) → R (x >>= f) (y >>= g)
  primitive : ∀ {α : Type} {x : Casting α}, Primitive asks terms₁ x → R x x
  tick : R tick₁ tick₂
  inNewScope : ∀ {α : Type} {x y : Casting α}, R x y → R (inNewScope x) (inNewScope y)
  loop : ∀ {condition₁ condition₂ : Casting Bool} {body₁ body₂ : Casting Unit},
    R condition₁ condition₂ → R body₁ body₂ →
      R (whileTrue condition₁ (do tick₁; body₁) passes₁)
        (whileTrue condition₂ (do tick₂; body₂) passes₂)

/-- What an evaluation does by itself if it mentions names of `names` only. -/
inductive PrimitiveOn (asks : Prop) (names : Text → Prop) (terms : Terms) :
    {α : Type} → Casting α → Prop where
  | fail {α : Type} (f : Fault) : PrimitiveOn asks names terms (fail f : Casting α)
  | print (text : Text) : PrimitiveOn asks names terms (print terms text)
  | ask (h : asks) : PrimitiveOn asks names terms (ask terms)
  | lookUp {name : Text} (h : names name) : PrimitiveOn asks names terms (lookUp name)
  | define {name : Text} (h : names name) (value : Value) :
      PrimitiveOn asks names terms (define name value)
  | assign {name : Text} (h : names name) (value : Value) :
      PrimitiveOn asks names terms (assign name value)

theorem PrimitiveOn.primitive {asks : Prop} {names : Text → Prop} {terms : Terms} {x : Casting α}
    (h : PrimitiveOn asks names terms x) : Primitive asks terms x := by
  cases h with
  | fail f => exact .fail f
  | print text => exact .print text
  | ask hasks => exact .ask hasks
  | lookUp => exact .lookUp _
  | define _ value => exact .define _ value
  | assign _ value => exact .assign _ value

/-- A relation like a `Congruence`, which does not have to respect what is done with names that are
none of `names`. The two sides may also differ in what they can print. -/
structure CongruenceOn (asks : Prop) (names : Text → Prop)
    (R : ∀ {α : Type}, Casting α → Casting α → Prop) (tick₁ tick₂ : Casting Unit)
    (terms₁ terms₂ : Terms) (passes₁ passes₂ : Nat) : Prop where
  silence : asks → terms₂.silence = terms₁.silence
  print : ∀ text, R (print terms₁ text) (print terms₂ text)
  pure : ∀ {α : Type} (a : α), R (pure a) (pure a)
  bind : ∀ {α β : Type} {x y : Casting α} {f g : α → Casting β},
    R x y → (∀ a, R (f a) (g a)) → R (x >>= f) (y >>= g)
  primitive : ∀ {α : Type} {x : Casting α}, PrimitiveOn asks names terms₁ x → R x x
  tick : R tick₁ tick₂
  inNewScope : ∀ {α : Type} {x y : Casting α}, R x y → R (inNewScope x) (inNewScope y)
  loop : ∀ {condition₁ condition₂ : Casting Bool} {body₁ body₂ : Casting Unit},
    R condition₁ condition₂ → R body₁ body₂ →
      R (whileTrue condition₁ (do tick₁; body₁) passes₁)
        (whileTrue condition₂ (do tick₂; body₂) passes₂)

/-- A relation that respects sequences respects loops of equally many passes. -/
theorem whileTrue_congr {R : ∀ {α : Type}, Casting α → Casting α → Prop}
    (hpure : R (pure ()) (pure ()))
    (hbind : ∀ {α : Type} {x y : Casting α} {f g : α → Casting Unit},
      R x y → (∀ a, R (f a) (g a)) → R (x >>= f) (y >>= g))
    (hout : R (throw .outOfPasses : Casting Unit) (throw .outOfPasses))
    {condition₁ condition₂ : Casting Bool} {body₁ body₂ : Casting Unit}
    (hcondition : R condition₁ condition₂) (hbody : R body₁ body₂) (passes : Nat) :
    R (whileTrue condition₁ body₁ passes) (whileTrue condition₂ body₂ passes) := by
  induction passes with
  | zero => exact hout
  | succ passes ih =>
    rw [whileTrue_succ, whileTrue_succ]
    refine hbind hcondition fun holds => ?_
    cases holds with
    | false => exact hpure
    | true => exact hbind hbody fun _ => ih

/-- Only a plain name is what a statement can be about. -/
theorem targetName_eq_ok {statement name : Text} {target : Node}
    (h : targetName statement target = .ok name) : ∃ line, target = .name line name := by
  have hbind {α β ε : Type} {x : Except ε α} {f : α → ε} {b : β} :
      (x >>= fun a => .error (f a)) ≠ .ok b := by
    cases x <;> nofun
  cases target with
  | name line text => exact ⟨line, by cases h; rfl⟩
  | _ => exact absurd h hbind

/-! ## Evaluations -/

section Evaluations

variable {asks : Prop} {R : ∀ {α : Type}, Casting α → Casting α → Prop}
  {tick₁ tick₂ : Casting Unit} {terms₁ terms₂ : Terms} {passes₁ passes₂ : Nat}

namespace CongruenceOn

variable {names : Text → Prop}
  (h : CongruenceOn asks names R tick₁ tick₂ terms₁ terms₂ passes₁ passes₂)

include h

/-- A result that is taken over is related to itself. -/
theorem ofExcept (r : Except Fault α) : R (ofExcept r) (ofExcept r) := by
  cases r with
  | ok a => exact h.pure a
  | error f => exact h.primitive (.fail f)

/-- If asking matters, silence is dealt with in the same way on both sides. -/
theorem ask (hasks : asks) : R (ask terms₁) (ask terms₂) := by
  have heq : Casting.ask terms₂ = Casting.ask terms₁ := by
    unfold Casting.ask
    rw [h.silence hasks]
  rw [heq]
  exact h.primitive (.ask hasks)

theorem forM {f g : Node → Casting Unit} (nodes : List Node)
    (hfg : ∀ node ∈ nodes, R (f node) (g node)) : R (nodes.forM f) (nodes.forM g) := by
  induction nodes with
  | nil => exact h.pure ()
  | cons node nodes ih =>
    refine h.bind (hfg node List.mem_cons_self) fun _ => ?_
    exact ih fun n hn => hfg n (List.mem_cons_of_mem node hn)

/-- The same with a step before each of them. -/
theorem statements {f g : Node → Casting Value} (nodes : List Node)
    (hfg : ∀ node ∈ nodes, R (f node) (g node)) :
    R (nodes.forM fun node => do tick₁; let _ ← f node)
      (nodes.forM fun node => do tick₂; let _ ← g node) := by
  refine h.forM nodes fun node hnode => ?_
  exact h.bind h.tick fun _ => h.bind (hfg node hnode) fun _ => h.pure ()

theorem enter {f g : Node → Casting Value} {block : Node}
    (hfg : ∀ node ∈ block.children, R (f node) (g node)) :
    R (do
        let nodes ← Casting.ofExcept block.body
        Casting.inNewScope (nodes.forM fun node => do tick₁; let _ ← f node))
      (do
        let nodes ← Casting.ofExcept block.body
        Casting.inNewScope (nodes.forM fun node => do tick₂; let _ ← g node)) := by
  have hblock (ss : List Node) (hss : ∀ node ∈ ss, node ∈ block.children) :=
    h.inNewScope (h.statements ss fun node hnode => hfg node (hss node hnode))
  cases block with
  | block line ss | program ss => exact hblock ss fun _ => id
  | _ => exact h.primitive (.fail _)

/-- What is done with the name of a statement is done with a name that the target mentions, or the
target is none. -/
theorem target {statement : Text} {target : Node} {f g : Text → Casting α}
    (hfg : ∀ name, target.Names name → R (f name) (g name)) :
    R (Casting.ofExcept (targetName statement target) >>= f)
      (Casting.ofExcept (targetName statement target) >>= g) := by
  cases htarget : targetName statement target with
  | error fault => exact h.primitive (.fail fault)
  | ok name =>
    obtain ⟨line, rfl⟩ := targetName_eq_ok htarget
    exact hfg name ⟨line, .refl⟩

/-- **A congruence relates two evaluations of a node.** Induction on the nesting limit, with one
case for each form of nodes. -/
theorem evaluate (depth : Nat) (node : Node) (hasks : node.Asks → asks)
    (hnames : ∀ x, node.Names x → names x) :
    R (evaluateWith tick₁ terms₁ passes₁ depth node)
      (evaluateWith tick₂ terms₂ passes₂ depth node) := by
  induction depth generalizing node with
  | zero => exact h.primitive (.fail .tooDeep)
  | succ depth ih =>
    have hchild (child : Node) (hmem : child ∈ node.children) :=
      ih child (fun hasked => hasks (.of_child hmem hasked))
        fun x hx => hnames x (.of_child hmem hx)
    -- Blocks are entered, not evaluated: what is evaluated are their statements.
    have hgrandchild (child : Node) (hmem : child ∈ node.children) (inner : Node)
        (hinner : inner ∈ child.children) :=
      ih inner (fun hasked => hasks (.of_child hmem (.of_child hinner hasked)))
        fun x hx => hnames x (.of_child hmem (.of_child hinner hx))
    cases node with
    | literal line value kind => exact h.pure value
    | name line text => exact h.primitive (.lookUp (hnames text ⟨line, .refl⟩))
    | create line target value =>
      refine h.bind (hchild value (by simp [Node.children])) fun v => ?_
      refine h.target fun name hname => ?_
      have hmentioned := hnames name (hname.of_child (by simp [Node.children]))
      exact h.bind (h.primitive (.define hmentioned v)) fun _ => h.pure _
    | assign line target value =>
      refine h.bind (hchild value (by simp [Node.children])) fun v => ?_
      refine h.target fun name hname => ?_
      have hmentioned := hnames name (hname.of_child (by simp [Node.children]))
      exact h.bind (h.primitive (.assign hmentioned v)) fun _ => h.pure _
    | shout line value =>
      refine h.bind (hchild value (by simp [Node.children])) fun v => ?_
      refine h.bind (h.ofExcept _) fun text => ?_
      exact h.bind (h.print text) fun _ => h.pure _
    | binary line left op right =>
      refine h.bind (hchild left (by simp [Node.children])) fun a => ?_
      exact h.bind (hchild right (by simp [Node.children])) fun b => h.ofExcept _
    | unary line op operand =>
      exact h.bind (hchild operand (by simp [Node.children])) fun v => h.ofExcept _
    | ask line => exact h.ask (hasks ⟨line, .refl⟩)
    | branch line condition thenBlock elseBlock =>
      refine h.bind (hchild condition (by simp [Node.children])) fun v => ?_
      refine h.bind (h.enter ?_) fun _ => h.pure _
      cases v.isTruthy with
      | true => exact hgrandchild thenBlock (by simp [Node.children])
      | false =>
        have helse := hgrandchild elseBlock (by simp [Node.children])
        cases elseBlock with
        -- An alternative that is missing is a block without statements.
        | missing => exact fun node hnode => absurd hnode List.not_mem_nil
        | _ => exact helse
    | loop line condition body =>
      have hcondition := h.bind (hchild condition (by simp [Node.children])) fun v =>
        h.pure v.isTruthy
      have hbody := h.enter (hgrandchild body (by simp [Node.children]))
      exact h.bind (h.loop hcondition hbody) fun _ => h.pure _
    | block | program | bare | missing =>
      exact h.bind (h.ofExcept _) fun label => h.primitive (.fail _)

/-- A congruence relates two executions of a spell. -/
theorem spell (nodes : List Node) (hasks : (Node.program nodes).Asks → asks)
    (hnames : ∀ x, (Node.program nodes).Names x → names x) :
    R (nodes.forM (executeWith tick₁ terms₁ passes₁))
      (nodes.forM (executeWith tick₂ terms₂ passes₂)) :=
  h.statements nodes fun node hnode =>
    h.evaluate nestingLimit node (fun hasked => hasks (.of_child hnode hasked))
      fun x hx => hnames x (.of_child hnode hx)

end CongruenceOn

namespace Congruence

variable (h : Congruence asks R tick₁ tick₂ terms₁ terms₂ passes₁ passes₂)

include h

/-- What can be printed is the same on both sides. -/
theorem print (text : Text) : R (print terms₁ text) (print terms₂ text) := by
  have heq : Casting.print terms₂ text = Casting.print terms₁ text := by
    unfold Casting.print
    rw [h.utf8]
  rw [heq]
  exact h.primitive (.print text)

/-- A congruence is one for any names. -/
theorem congruenceOn (names : Text → Prop) :
    CongruenceOn asks names R tick₁ tick₂ terms₁ terms₂ passes₁ passes₂ where
  silence := h.silence
  print := h.print
  pure := h.pure
  bind := h.bind
  primitive hprimitive := h.primitive hprimitive.primitive
  tick := h.tick
  inNewScope := h.inNewScope
  loop := h.loop

/-- A congruence relates two executions of a spell, whatever names are in it. -/
theorem spell (nodes : List Node) (hasks : (Node.program nodes).Asks → asks) :
    R (nodes.forM (executeWith tick₁ terms₁ passes₁))
      (nodes.forM (executeWith tick₂ terms₂ passes₂)) :=
  (h.congruenceOn _).spell nodes hasks fun _ => id

end Congruence
end Evaluations
end Grimoire.Casting
