import Grimoire.Proofs.Run.Domain

/-!
# Expressions touch nothing but the replies

What an expression comes to is found out by looking up the names in it and by asking for replies.
Nothing else is read, and nothing is left behind but the requests: `RunState.asked` is the state
after some of them.

* **`Casting.Consults`** compares two castings that look up the same names and ask for the same
  replies. It is closed under sequences, so there is one short case for each form of expression.
* **`Casting.AnsweredBy`** says which reply goes where: an expression comes to the same value when
  its requests are replaced by the values of the replies, in the order of the tree.
* **`expression_touches_replies_only`** puts both together, for the expressions of a spell that has
  been read.
-/

namespace Grimoire

open Casting

/-! ## Trees of expressions -/

/-- An expression that is made of expressions. A tree put together by hand need not be. -/
inductive Node.ExpressionTree : Node → Prop where
  | literal (line : Option Nat) (value : Value) (kind : Option Text) :
      ExpressionTree (.literal line value kind)
  | name (line : Option Nat) (text : Text) : ExpressionTree (.name line text)
  | ask (line : Option Nat) : ExpressionTree (.ask line)
  | binary {line : Option Nat} {left right : Node} {op : BinaryOp} (hleft : ExpressionTree left)
      (hright : ExpressionTree right) : ExpressionTree (.binary line left op right)
  | unary {line : Option Nat} {op : UnaryOp} {operand : Node} (hoperand : ExpressionTree operand) :
      ExpressionTree (.unary line op operand)

/-- What is spelled as an expression has the form of one. -/
theorem Spells.expressionTree {node : Node} {ts : List Token} (h : Spells .expression node ts) :
    node.ExpressionTree := by
  generalize hrole : Role.expression = role at h
  induction h with
  | text | integer | float => exact .literal ..
  | name => exact .name ..
  | combine _ _ _ _ _ iha ihb | duplicate _ _ _ _ _ iha ihb | split _ _ _ _ _ iha ihb
  | comparison _ _ _ _ _ iha ihb => exact .binary (iha rfl) (ihb rfl)
  | remove _ _ _ _ _ iha ihb => exact .binary (ihb rfl) (iha rfl)
  | reply => exact .ask _
  | code _ _ _ iha | character _ _ _ iha => exact .unary (iha rfl)
  | _ => cases hrole

/-- Expressions inside what is spelled are made of expressions. -/
theorem Spells.expressionTree_of_within {role : Role} {node inner : Node} {ts : List Token}
    (h : Spells role node ts) (hwithin : inner.Within node) (hform : inner.isExpression) :
    inner.ExpressionTree := by
  rcases h.of_within hwithin with rfl | ⟨role', us, hus⟩
  · cases hform
  · cases role' with
    | expression => exact hus.expressionTree
    | statement | block | program => cases hus <;> cases hform

/-- An expression takes a level at least. -/
theorem Node.ExpressionTree.levels_pos {node : Node} (h : node.ExpressionTree) :
    0 < node.levels := by
  cases h <;> exact Nat.succ_pos _

/-! ## Requests -/

namespace Node

/-- How many requests there are in an expression. -/
def askCount : Node → Nat
  | .ask _ => 1
  | .binary _ left _ right => left.askCount + right.askCount
  | .unary _ _ operand => operand.askCount
  | _ => 0

/-- An expression with values in the place of its requests, those of the left side first. -/
def answered : Node → List Value → Node
  | .ask line, values => .literal line (values.headD .nothing) none
  | .binary line left op right, values =>
    .binary line (left.answered (values.take left.askCount)) op
      (right.answered (values.drop left.askCount))
  | .unary line op operand, values => .unary line op (operand.answered values)
  | node, _ => node

end Node

namespace RunState

/-- The state after `k` requests. -/
def asked (s : RunState) (k : Nat) : RunState :=
  { s with replies := s.replies.drop k, trace := s.trace ++ Array.replicate k .request }

/-- Each request takes a reply. -/
@[simp] theorem replies_asked (s : RunState) (k : Nat) :
    (s.asked k).replies = s.replies.drop k := rfl

@[simp] theorem asked_zero (s : RunState) : s.asked 0 = s := by simp [asked]

@[simp] theorem asked_asked (s : RunState) (m n : Nat) :
    (s.asked m).asked n = s.asked (m + n) := by
  simp [asked]

theorem asked_one (s : RunState) :
    s.asked 1 = { s with replies := s.replies.tail, trace := s.trace.push .request } := by
  simp [asked]

theorem outputs_asked (s : RunState) (k : Nat) : (s.asked k).outputs = s.outputs := by
  simp [outputs, asked]

theorem requests_asked (s : RunState) (k : Nat) : (s.asked k).requests = s.requests + k := by
  simp [requests, asked]

/-- The state tells how many requests were made. -/
theorem asked_inj {s : RunState} {k k' : Nat} (h : s.asked k = s.asked k') : k = k' := by
  have hrequests := congrArg requests h
  rw [requests_asked, requests_asked] at hrequests
  exact Nat.add_left_cancel hrequests

/-- The replies to `n` requests. Where none is left, the reply is blank. -/
def given (s : RunState) (n : Nat) : List (Option Text) :=
  (List.range n).map fun i => s.replies.getD i (some [])

/-- The replies given to more requests are those given to the first ones, and then those to the
others. -/
theorem given_add (s : RunState) (m n : Nat) :
    s.given (m + n) = s.given m ++ (s.asked m).given n := by
  simp [given, List.range_add, Function.comp_def]

/-- The names of `W` mean the same in both states, and so do `k` requests. -/
structure Alike (W : Text → Prop) (k : Nat) (s t : RunState) : Prop where
  names : ∀ x, W x → t.scopes.get? x = s.scopes.get? x
  replies : t.replies.take k = s.replies.take k

end RunState

/-! ## Castings that only consult -/

namespace Casting

variable {α β : Type} {W W' : Text → Prop} {m n : Nat}

theorem bind_eq_ok {x : Casting α} {f : α → Casting β} {s u : RunState} {b : β} :
    (x >>= f) s = .ok b u ↔ ∃ a s₁, x s = .ok a s₁ ∧ f a s₁ = .ok b u := by
  constructor
  · intro h
    cases hx : x s with
    | ok a s₁ => exact ⟨a, s₁, rfl, (bind_of_ok hx).symm.trans h⟩
    | error e s₁ => cases (bind_of_error hx).symm.trans h
  · rintro ⟨a, s₁, hx, hf⟩
    exact (bind_of_ok hx).trans hf

/-- To take over a result succeeds exactly if there is one, and changes nothing. -/
theorem ofExcept_eq_ok {r : Except Fault α} {s u : RunState} {a : α} :
    ofExcept r s = .ok a u ↔ r = .ok a ∧ s = u := by
  rw [ofExcept_apply]
  cases r with
  | error f => exact iff_of_false nofun fun h => nomatch h.1
  | ok b => rw [EStateM.Result.ok.injEq, Except.ok.injEq]

/-- Ends in the given state, with a value or with the cause of a stop. -/
def endAt : Except Stop α → RunState → EStateM.Result Stop RunState α
  | .ok a, s => .ok a s
  | .error e, s => .error e s

/-- Where and how a casting has ended says how many requests there have been. -/
theorem endAt_asked_inj {outcome outcome' : Except Stop α} {s : RunState} {k k' : Nat}
    (h : endAt outcome (s.asked k) = endAt outcome' (s.asked k')) :
    k = k' ∧ outcome = outcome' := by
  cases outcome <;> cases outcome'
  · obtain ⟨rfl, hstate⟩ := EStateM.Result.error.inj h
    exact ⟨RunState.asked_inj hstate, rfl⟩
  · cases h
  · cases h
  · obtain ⟨rfl, hstate⟩ := EStateM.Result.ok.inj h
    exact ⟨RunState.asked_inj hstate, rfl⟩

/-- What a request comes to, by the next reply if there is one. -/
def answer (silence : Silence) (reply? : Option (Option Text)) : Except Stop Value :=
  match reply?, silence with
  | some reply, _ => (Value.ofReply reply).mapError .fault
  | none, .fault => .error (.fault .outOfReplies)
  | none, .blank => (Value.ofReply (some [])).mapError .fault
  | none, .wait => .error .waiting

/-- To ask is one request, and the first reply decides what comes of it. -/
theorem ask_eq_endAt (terms : Terms) (s : RunState) :
    ask terms s = endAt (answer terms.silence s.replies.head?) (s.asked 1) := by
  have hread (r : Except Fault Value) (t : RunState) :
      ofExcept r t = endAt (r.mapError .fault) t := by
    cases r <;> rfl
  rw [ask_apply, RunState.asked_one]
  obtain ⟨scopes, replies, steps, trace⟩ := s
  cases replies with
  | cons reply replies => exact hread _ _
  | nil =>
    cases hsilence : terms.silence with
    | blank => exact hread _ _
    | fault | wait => rfl

/-- The first casting asks for `n` replies, or for fewer if it stops, and does nothing else. The
second one does the same in every state that gives the same answers. -/
def Consults (W : Text → Prop) (n : Nat) (x y : Casting α) : Prop :=
  ∀ s, ∃ k outcome, x s = endAt outcome (s.asked k) ∧ k ≤ n ∧ (∀ a, outcome = .ok a → k = n) ∧
    ∀ t, s.Alike W k t → y t = endAt outcome (t.asked k)

namespace Consults

/-- What comes to the same in all states that agree on some names. -/
theorem of_names {x y : Casting α} (outcome : RunState → Except Stop α)
    (hx : ∀ s, x s = endAt (outcome s) s) (hy : ∀ s, y s = endAt (outcome s) s)
    (hnames : ∀ s t : RunState, (∀ name, W name → t.scopes.get? name = s.scopes.get? name) →
      outcome t = outcome s) : Consults W 0 x y := by
  intro s
  refine ⟨0, outcome s, ?_, Nat.le_refl 0, fun _ _ => rfl, fun t hst => ?_⟩
  · rw [RunState.asked_zero, hx]
  · rw [RunState.asked_zero, hy, hnames s t hst.names]

theorem pure (a : α) : Consults W 0 (pure a) (pure a) :=
  of_names (fun _ => .ok a) (fun _ => rfl) (fun _ => rfl) fun _ _ _ => rfl

/-- A fault consults nothing, and may stand where requests were to come. -/
theorem fail (f : Fault) (n : Nat) : Consults W n (fail f : Casting α) (fail f) := by
  intro s
  refine ⟨0, .error (.fault f), ?_, Nat.zero_le n, nofun, fun t _ => ?_⟩
  · rw [RunState.asked_zero]
    rfl
  · rw [RunState.asked_zero]
    rfl

theorem ofExcept (r : Except Fault α) : Consults W 0 (ofExcept r) (ofExcept r) := by
  cases r with
  | ok a => exact .pure a
  | error f => exact .fail f 0

theorem lookUp {name : Text} (hname : W name) : Consults W 0 (lookUp name) (lookUp name) := by
  have hlook (s : RunState) : Casting.lookUp name s =
      endAt ((s.scopes.get? name).elim (.error (.fault (.undefined name))) .ok) s := by
    rw [lookUp_apply]
    cases s.scopes.get? name <;> rfl
  refine of_names _ hlook hlook fun s t hnames => ?_
  rw [hnames name hname]

/-- A request is made whether there is a reply to it or not. -/
theorem ask {terms terms' : Terms} (hsilence : terms'.silence = terms.silence) :
    Consults W 1 (ask terms) (ask terms') := by
  intro s
  refine ⟨1, answer terms.silence s.replies.head?, ask_eq_endAt terms s, Nat.le_refl 1,
    fun _ _ => rfl, fun t hst => ?_⟩
  have hhead : t.replies.head? = s.replies.head? := by
    simpa [List.head?_take] using congrArg List.head? hst.replies
  rw [ask_eq_endAt, hsilence, hhead]

theorem mono {x y : Casting α} (h : Consults W n x y) (hW : ∀ name, W name → W' name) :
    Consults W' n x y := by
  intro s
  obtain ⟨k, outcome, hx, hle, hn, hy⟩ := h s
  refine ⟨k, outcome, hx, hle, hn, fun t hst => hy t ⟨fun name hname => ?_, hst.replies⟩⟩
  exact hst.names name (hW name hname)

/-- The second casting of a sequence asks for the replies that the first one has left. -/
theorem bind {x y : Casting α} {f g : α → Casting β} (hxy : Consults W m x y)
    (hfg : ∀ a, Consults W n (f a) (g a)) : Consults W (m + n) (x >>= f) (y >>= g) := by
  intro s
  obtain ⟨k, outcome, hx, hle, hm, hy⟩ := hxy s
  cases outcome with
  | error e =>
    refine ⟨k, .error e, bind_of_error hx, Nat.le_add_right_of_le hle, nofun, fun t hst => ?_⟩
    exact bind_of_error (hy t hst)
  | ok a =>
    -- The first casting has asked for all of its replies, and the second one goes on from there.
    obtain rfl := hm a rfl
    obtain ⟨l, outcome, hf, hle', hn, hg⟩ := hfg a (s.asked k)
    rw [RunState.asked_asked] at hf
    refine ⟨k + l, outcome, (bind_of_ok hx).trans hf, Nat.add_le_add_left hle' k,
      fun b hb => congrArg (k + ·) (hn b hb), fun t hst => ?_⟩
    have hfirst : s.Alike W k t := by
      refine ⟨hst.names, ?_⟩
      have htake := congrArg (List.take k) hst.replies
      rwa [List.take_take, List.take_take, Nat.min_eq_left (Nat.le_add_right k l)] at htake
    have hsecond : (s.asked k).Alike W l (t.asked k) := by
      refine ⟨hst.names, ?_⟩
      have hdrop := congrArg (List.drop k) hst.replies
      rwa [List.drop_take, List.drop_take, Nat.add_sub_cancel_left] at hdrop
    rw [bind_of_ok (hy t hfirst), hg _ hsecond, RunState.asked_asked]

end Consults

/-! ## Expressions -/

section Expression

variable {terms terms' : Terms} {passes passes' : Nat}

/-- The two nesting limits are one, or there is no need of either. -/
def SameDepth (node : Node) (depth depth' : Nat) : Prop :=
  depth' = depth ∨ node.levels ≤ depth ∧ node.levels ≤ depth'

/-- Limits that make no difference for a node make none for its parts. -/
theorem SameDepth.of_child {node child : Node} {depth depth' : Nat}
    (h : SameDepth node (depth + 1) (depth' + 1)) (hlevels : child.levels < node.levels) :
    SameDepth child depth depth' := by
  unfold SameDepth at h ⊢
  omega

/-- Nothing can be evaluated with a limit of 0, and every expression needs some limit. -/
theorem SameDepth.zero_or_succ {node : Node} {depth depth' : Nat}
    (h : SameDepth node depth depth') (hnode : node.ExpressionTree) :
    (depth = 0 ∧ depth' = 0) ∨ ∃ d d', depth = d + 1 ∧ depth' = d' + 1 := by
  have hlevels := hnode.levels_pos
  unfold SameDepth at h
  rcases depth with _ | d
  · exact .inl ⟨rfl, by omega⟩
  · exact .inr ⟨d, depth' - 1, rfl, by omega⟩

/-- **An expression consults its names and asks for replies.** Induction on the nesting limit, with
one case for each form of expression. -/
theorem consults_expression {depth depth' : Nat} {node : Node} (h : node.ExpressionTree)
    (hdepth : SameDepth node depth depth')
    (hsilence : node.askCount ≠ 0 → terms'.silence = terms.silence) :
    Consults node.Names node.askCount (evaluate terms passes depth node)
      (evaluate terms' passes' depth' node) := by
  induction depth generalizing depth' node with
  | zero =>
    rcases hdepth.zero_or_succ h with ⟨-, rfl⟩ | ⟨_, _, hd, -⟩
    · exact .fail .tooDeep _
    · cases hd
  | succ depth ih =>
    rcases hdepth.zero_or_succ h with ⟨hd, -⟩ | ⟨_, depth', -, rfl⟩
    · cases hd
    -- The parts of an expression consult some of its names and ask for some of its replies.
    have hchild {child : Node} (htree : child.ExpressionTree) (hmem : child ∈ node.children)
        (hlevels : child.levels < node.levels) (hasks : child.askCount ≤ node.askCount) :
        Consults node.Names child.askCount (evaluate terms passes depth child)
          (evaluate terms' passes' depth' child) := by
      refine (ih htree (hdepth.of_child hlevels) fun hne => hsilence ?_).mono
        fun _ => Node.Names.of_child hmem
      omega
    cases h with
    | literal => exact .pure _
    | name => exact .lookUp ⟨_, .refl⟩
    | ask => exact .ask (hsilence Nat.one_ne_zero)
    | @binary line left right op hleft hright =>
      have hlevels : max left.levels right.levels < (Node.binary line left op right).levels :=
        Nat.lt_succ_self _
      have hl := hchild hleft List.mem_cons_self (by omega) (Nat.le_add_right _ _)
      have hr := hchild hright (List.mem_pair.mpr (.inr rfl)) (by omega) (Nat.le_add_left _ _)
      exact hl.bind fun a => hr.bind fun b => .ofExcept (op.apply a b)
    | @unary line op operand hoperand =>
      have ho := hchild hoperand List.mem_cons_self (Nat.lt_succ_self _) (Nat.le_refl _)
      exact ho.bind fun v => .ofExcept (op.apply v)

/-! ## Which reply goes where -/

/-- The replies stand for the values, one by one. -/
def Read (replies : List (Option Text)) (values : List Value) : Prop :=
  List.Forall₂ (fun reply value => Value.ofReply reply = .ok value) replies values

/-- Where the first casting comes to a value, it has asked for `n` replies, and there have been so
many unless blank ones are made up. With their values, the second casting comes to the same without
asking. -/
def AnsweredBy (silence : Silence) (W : Text → Prop) (n : Nat) (x : Casting α)
    (y : List Value → Casting α) : Prop :=
  ∀ s a u, x s = .ok a u → u = s.asked n ∧ (silence ≠ .blank → n ≤ s.replies.length) ∧
    ∃ values, Read (s.given n) values ∧ ∀ t, s.Alike W 0 t → y values t = .ok a t

namespace AnsweredBy

variable {silence : Silence}

theorem pure (a : α) : AnsweredBy silence W 0 (pure a) fun _ => pure a := by
  rintro s _ _ ⟨rfl, rfl⟩
  exact ⟨(RunState.asked_zero s).symm, fun _ => Nat.zero_le _, [], .nil, fun t _ => rfl⟩

theorem lookUp {name : Text} (hname : W name) :
    AnsweredBy silence W 0 (lookUp name) fun _ => lookUp name := by
  intro s a u hx
  rw [lookUp_apply] at hx
  cases hget : s.scopes.get? name with
  | none =>
    rw [hget] at hx
    cases hx
  | some value =>
    rw [hget] at hx
    cases hx
    refine ⟨(RunState.asked_zero _).symm, fun _ => Nat.zero_le _, [], .nil, fun t hst => ?_⟩
    show Casting.lookUp name t = _
    rw [lookUp_apply, hst.names name hname, hget]

/-- The reply is the first one that is left, or a blank one. -/
theorem ask (terms : Terms) :
    AnsweredBy terms.silence W 1 (ask terms) fun values =>
      Pure.pure (values.headD .nothing) := by
  intro s a u hx
  suffices hreply : (terms.silence ≠ .blank → 1 ≤ s.replies.length) ∧
      Value.ofReply (s.replies.getD 0 (some [])) = .ok a ∧ s.asked 1 = u from
    ⟨hreply.2.2.symm, hreply.1, [a], .cons hreply.2.1 .nil, fun t _ => rfl⟩
  rw [ask_apply] at hx
  rw [RunState.asked_one]
  obtain ⟨scopes, replies, steps, trace⟩ := s
  cases replies with
  | cons reply replies => exact ⟨fun _ => Nat.succ_pos _, ofExcept_eq_ok.mp hx⟩
  | nil =>
    cases hsilence : terms.silence with
    | fault | wait =>
      simp only [hsilence] at hx
      cases hx
    | blank =>
      simp only [hsilence] at hx
      exact ⟨fun hne => absurd rfl hne, ofExcept_eq_ok.mp hx⟩

theorem mono {x : Casting α} {y : List Value → Casting α} (h : AnsweredBy silence W n x y)
    (hW : ∀ name, W name → W' name) : AnsweredBy silence W' n x y := by
  intro s a u hx
  obtain ⟨hu, hn, values, hread, hy⟩ := h s a u hx
  refine ⟨hu, hn, values, hread, fun t hst => hy t ⟨fun name hname => ?_, hst.replies⟩⟩
  exact hst.names name (hW name hname)

/-- The values of the first replies go to the first casting. -/
theorem bind {x : Casting α} {y : List Value → Casting α} {f : α → Casting β}
    {g : α → List Value → Casting β} (hx : AnsweredBy silence W m x y)
    (hf : ∀ a, AnsweredBy silence W n (f a) (g a)) :
    AnsweredBy silence W (m + n) (x >>= f) fun values =>
      y (values.take m) >>= fun a => g a (values.drop m) := by
  intro s b u hxf
  obtain ⟨a, s₁, hok, hfa⟩ := bind_eq_ok.mp hxf
  obtain ⟨rfl, hm, values, hread, hy⟩ := hx s a s₁ hok
  obtain ⟨rfl, hn, values', hread', hg⟩ := hf a (s.asked m) b u hfa
  refine ⟨RunState.asked_asked s m n, fun hne => ?_, values ++ values', ?_, fun t hst => ?_⟩
  · have hm := hm hne
    have hn := hn hne
    rw [RunState.replies_asked, List.length_drop] at hn
    omega
  · rw [RunState.given_add]
    exact List.rel_append hread hread'
  · have hlength : values.length = m := by
      rw [← hread.length_eq, RunState.given, List.length_map, List.length_range]
    show (y ((values ++ values').take m) >>= fun a => g a ((values ++ values').drop m)) t = _
    rw [List.take_left' hlength, List.drop_left' hlength, bind_of_ok (hy t hst)]
    exact hg t ⟨hst.names, rfl⟩

/-- What is computed from a result takes no further replies. -/
theorem bind_ofExcept {x : Casting α} {y : List Value → Casting α} (h : AnsweredBy silence W n x y)
    (r : α → Except Fault β) :
    AnsweredBy silence W n (x >>= fun a => ofExcept (r a)) fun values =>
      y values >>= fun a => ofExcept (r a) := by
  intro s b u hxr
  obtain ⟨a, s₁, hok, hr⟩ := bind_eq_ok.mp hxr
  obtain ⟨hb, rfl⟩ := ofExcept_eq_ok.mp hr
  obtain ⟨rfl, hn, values, hread, hy⟩ := h s a s₁ hok
  refine ⟨rfl, hn, values, hread, fun t hst => ?_⟩
  exact bind_eq_ok.mpr ⟨a, t, hy t hst, ofExcept_eq_ok.mpr ⟨hb, rfl⟩⟩

end AnsweredBy

/-- **The replies go to the requests in their order.** Induction on the nesting limit, with one case
for each form of expression. -/
theorem answered_expression {depth : Nat} {node : Node} (h : node.ExpressionTree) :
    AnsweredBy terms.silence node.Names node.askCount (evaluate terms passes depth node)
      fun values => evaluate terms passes depth (node.answered values) := by
  induction depth generalizing node with
  | zero => exact fun s a u hx => nomatch hx
  | succ depth ih =>
    have hchild {child : Node} (htree : child.ExpressionTree) (hmem : child ∈ node.children) :
        AnsweredBy terms.silence node.Names child.askCount (evaluate terms passes depth child)
          fun values => evaluate terms passes depth (child.answered values) :=
      (ih htree).mono fun _ => Node.Names.of_child hmem
    cases h with
    | literal => exact .pure _
    | name => exact .lookUp ⟨_, .refl⟩
    | ask => exact .ask terms
    | @binary _ _ _ op hleft hright =>
      have hl := hchild hleft List.mem_cons_self
      have hr := hchild hright (List.mem_pair.mpr (.inr rfl))
      exact hl.bind fun a => hr.bind_ofExcept fun b => op.apply a b
    | @unary _ op _ hoperand =>
      exact (hchild hoperand List.mem_cons_self).bind_ofExcept fun v => op.apply v

end Expression
end Casting

/-- **Evaluating an expression touches nothing but the replies.** An expression, anywhere in a spell
that has been read, is evaluated in any state and under any terms. Whether it comes to a value or
not, scopes, outputs and steps are as before. It asks for as many replies as there are requests in
it, or for fewer if it fails, and the values of the replies stand for the requests in their order.
What it comes to depends on these replies and on what the names in it mean, and on nothing else. -/
theorem expression_touches_replies_only {lenient : Bool} {ts : Tokens} {spell : List Node}
    {node : Node} (hparse : parse lenient ts = .ok spell) (hwithin : node.Within (.program spell))
    (hform : node.isExpression) (terms : Terms) (passes depth : Nat) (s : RunState) :
    ∃ k outcome u, evaluate terms passes depth node s = endAt outcome u ∧
      u.scopes = s.scopes ∧ u.outputs = s.outputs ∧ u.steps = s.steps ∧
      u.requests = s.requests + k ∧ u.replies = s.replies.drop k ∧ k ≤ node.askCount ∧
      (∀ v, outcome = .ok v → k = node.askCount ∧
        (terms.silence ≠ .blank → k ≤ s.replies.length) ∧
        ∃ values, Read (s.given k) values ∧
          evaluate terms passes depth (node.answered values) s = .ok v s) ∧
      (∀ (terms' : Terms) (passes' depth' : Nat) (t : RunState), SameDepth node depth depth' →
        (node.askCount ≠ 0 → terms'.silence = terms.silence) → s.Alike node.Names k t →
        evaluate terms' passes' depth' node t = endAt outcome (t.asked k)) ∧
      (node.askCount = 0 → ∀ t, s.Alike node.Names 0 t →
        evaluate terms passes depth node t = endAt outcome t) := by
  obtain ⟨us, hus⟩ := parse_spelled hparse
  have htree := hus.expressionTree_of_within hwithin hform
  have hconsults (terms' : Terms) (passes' depth' : Nat) (hdepth : SameDepth node depth depth')
      (hsilence : node.askCount ≠ 0 → terms'.silence = terms.silence) :
      Consults node.Names node.askCount (evaluate terms passes depth node)
        (evaluate terms' passes' depth' node) := consults_expression htree hdepth hsilence
  obtain ⟨k, outcome, hend, hle, hok, -⟩ :=
    hconsults terms passes depth (.inl rfl) (fun _ => rfl) s
  have hsame : ∀ (terms' : Terms) (passes' depth' : Nat) (t : RunState),
      SameDepth node depth depth' → (node.askCount ≠ 0 → terms'.silence = terms.silence) →
      s.Alike node.Names k t →
      evaluate terms' passes' depth' node t = endAt outcome (t.asked k) := by
    intro terms' passes' depth' t hdepth hsilence hst
    obtain ⟨k', outcome', hend', -, -, hsame⟩ := hconsults terms' passes' depth' hdepth hsilence s
    -- The first state is the same on both sides, so both speak of one end.
    obtain ⟨rfl, rfl⟩ := endAt_asked_inj (hend.symm.trans hend')
    exact hsame t hst
  refine ⟨k, outcome, s.asked k, hend, rfl, s.outputs_asked k, rfl, s.requests_asked k, rfl, hle,
    ?_, hsame, ?_⟩
  · rintro v rfl
    obtain rfl := hok v rfl
    obtain ⟨-, hreplies, values, hread, hanswered⟩ := answered_expression htree s v _ hend
    exact ⟨rfl, hreplies, values, hread, hanswered s ⟨fun _ _ => rfl, rfl⟩⟩
  · intro hzero t hst
    obtain rfl : k = 0 := Nat.eq_zero_of_le_zero (hzero ▸ hle)
    have hagain := hsame terms passes depth t (.inl rfl) (fun _ => rfl) hst
    rwa [RunState.asked_zero] at hagain

/-- `remove the power of R from x`, where `R` asks for a reply. -/
def haggling : Node := .binary (some 1) (.name (some 1) "x") .subtract (.ask (some 1))

/-- The reply is taken from the value of the name. The same is found out further inside, under
another limit of steps and with other replies to come. -/
theorem haggling_takes_one_reply :
    let s : RunState := .start (Scope.ofList [("x", .int 10)]) [some "3", none]
    let t : RunState := ⟨⟨Scope.ofList [("y", .int 1)], [Scope.ofList [("x", .int 10)]]⟩,
      [some "3", some "4"], 7, #[.log "y"]⟩
    evaluate ⟨none, .fault, true⟩ 0 2 haggling s = .ok (.int 7) (s.asked 1) ∧
    evaluate ⟨some 8, .fault, false⟩ 5 9 haggling t = .ok (.int 7) (t.asked 1) := by
  intro s t
  have hparse : parse false ⟨(Text.words
      "shout the many cries of remove the power of find the source of the messages from x").map
        (Token.ofWord 1), Mark.start⟩ = .ok [.shout (some 1) haggling] := rfl
  have hwithin : haggling.Within (.program [.shout (some 1) haggling]) :=
    .child List.mem_cons_self (.child List.mem_cons_self .refl)
  obtain ⟨k, outcome, u, hend, -, -, -, -, -, -, hvalue, hsame, -⟩ :=
    expression_touches_replies_only hparse hwithin rfl ⟨none, .fault, true⟩ 0 2 s
  have hs : evaluate ⟨none, .fault, true⟩ 0 2 haggling s = .ok (.int 7) (s.asked 1) := rfl
  cases outcome with
  | error e => cases hs.symm.trans hend
  | ok v =>
    obtain ⟨rfl, -⟩ := EStateM.Result.ok.inj (hs.symm.trans hend)
    obtain ⟨rfl, -⟩ := hvalue _ rfl
    refine ⟨hs, hsame _ _ _ t (.inr (by decide)) (fun _ => rfl) ⟨?_, rfl⟩⟩
    intro x hx
    obtain rfl : x = "x" := by
      rw [← Node.anyWithin_isName] at hx
      simpa [haggling, Node.anyWithin, Node.isName, eq_comm] using hx
    rfl

end Grimoire
