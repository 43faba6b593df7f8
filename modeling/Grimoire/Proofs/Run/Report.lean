import Grimoire.Proofs.Run.Effect
import Grimoire.Proofs.Run.Outcome

/-!
# What a run puts out

The outputs of a run are the lines that it has shouted, and if it fails, the report of the fault at
the end. Each line stands for a shout that has come to its end in the course of the run, in the same
order, and is the value of what is shouted, written out.

* **`Shouts`** reads the values that are shouted off the moments of a course.
* **`Casting.Cries`** says of any casting that it puts out these values and nothing else.
-/

namespace Grimoire

open Casting

/-! ## Shouts in a course -/

/-- A shout has come to its end and printed its line. -/
def Moment.isShout : Moment → Bool
  | .evaluated (.shout ..) _ (.ok ..) => true
  | _ => false

/-- The values that are shouted in some moments, in their order. Right before a shout ends, what it
shouts has been evaluated in the same state. -/
inductive Shouts : List Moment → List Value → Prop where
  | nil : Shouts [] []
  | quiet {moments : List Moment} {values : List Value} {moment : Moment}
      (h : Shouts moments values) (hmoment : moment.isShout = false) :
      Shouts (moments ++ [moment]) values
  | shout {moments : List Moment} {values : List Value} {line : Option Nat} {value : Node}
      {s t u : RunState} {v w : Value}
      (h : Shouts (moments ++ [.evaluated value s (.ok v u)]) values) :
      Shouts ((moments ++ [.evaluated value s (.ok v u)]) ++
        [.evaluated (.shout line value) s (.ok w t)]) (values ++ [v])

/-- The shouts of two courses in a row are those of the first and then those of the second. -/
theorem Shouts.append {moments moments' : List Moment} {values values' : List Value}
    (h : Shouts moments values) (h' : Shouts moments' values') :
    Shouts (moments ++ moments') (values ++ values') := by
  induction h' with
  | nil =>
    rw [List.append_nil, List.append_nil]
    exact h
  | quiet _ hmoment ih =>
    rw [← List.append_assoc]
    exact .quiet ih hmoment
  | shout _ ih =>
    rw [← List.append_assoc] at ih
    rw [← List.append_assoc, ← List.append_assoc, ← List.append_assoc]
    exact .shout ih

/-! ## Castings that shout -/

namespace Casting

variable {α β : Type} {P : α → Prop} {Q : β → Prop}

/-- However the casting ends, it has put out the values that are shouted in its course. -/
def Cries (P : α → Prop) (x : Casting α) (c : Course) : Prop :=
  ∀ s, (∀ a t, x s = .ok a t → P a) ∧ ∃ (values : List Value) (texts : List Text),
    Shouts (c s) values ∧ values.map Value.format = texts.map .ok ∧
    (x.after s).outputs = s.outputs ++ texts.map .log

namespace Cries

/-- Castings in a row put out what is shouted in the courses of both. -/
theorem bind {x : Casting α} {f : α → Casting β} {c : Course} {next : α → Course}
    (hx : Cries P x c) (hf : ∀ a, P a → Cries Q (f a) (next a)) :
    Cries Q (x >>= f) (c.andThen x next) := by
  intro s
  obtain ⟨hP, values, texts, hshouts, htexts, houtputs⟩ := hx s
  cases heq : x s with
  | error e s₁ =>
    rw [bind_of_error heq, Course.andThen_of_error heq, after_bind_of_error heq]
    rw [after_of_error heq] at houtputs
    exact ⟨nofun, values, texts, hshouts, htexts, houtputs⟩
  | ok a s₁ =>
    rw [bind_of_ok heq, Course.andThen_of_ok heq, after_bind_of_ok heq]
    rw [after_of_ok heq] at houtputs
    obtain ⟨hQ, values', texts', hshouts', htexts', houtputs'⟩ := hf a (hP a s₁ heq) s₁
    refine ⟨hQ, values ++ values', texts ++ texts', hshouts.append hshouts', ?_, ?_⟩
    · rw [List.map_append, List.map_append, htexts, htexts']
    · rw [houtputs', houtputs, List.map_append, List.append_assoc]

/-- What puts out nothing. -/
theorem quiet {x : Casting α} (hP : ∀ s a t, x s = .ok a t → P a)
    (houtputs : ∀ s, (x.after s).outputs = s.outputs) : Cries P x .none := by
  intro s
  exact ⟨hP s, [], [], .nil, rfl, (houtputs s).trans (List.append_nil _).symm⟩

theorem inNewScope {x : Casting α} {c : Course} (h : Cries P x c) :
    Cries P (inNewScope x) fun s => c { s with scopes := s.scopes.push } := by
  intro s
  obtain ⟨hP, hcries⟩ := h { s with scopes := s.scopes.push }
  refine ⟨fun a t hok => ?_, ?_⟩
  · unfold Casting.inNewScope at hok
    cases hx : x { s with scopes := s.scopes.push } with
    | ok b s₁ =>
      rw [hx] at hok
      cases hok
      exact hP a s₁ hx
    | error e s₁ =>
      rw [hx] at hok
      cases hok
  · rw [after_inNewScope]
    exact hcries

end Cries

theorem outputs_after_tick (terms : Terms) (s : RunState) :
    ((tick terms).after s).outputs = s.outputs := by
  unfold tick
  cases terms.limit with
  | none => rfl
  | some m =>
    show RunState.outputs (after (if m < (s.steps + 1 : Nat) then fail .stepLimit else pure ())
      { s with steps := s.steps + 1 }) = _
    split <;> rfl

/-- To count a step shouts nothing. -/
theorem cries_tick (terms : Terms) {moment : RunState → Moment}
    (hmoment : ∀ s, (moment s).isShout = false) :
    Cries (fun _ => True) (tick terms) (.single moment) := by
  intro s
  refine ⟨fun _ _ _ => trivial, [], [], .quiet .nil (hmoment s), rfl, ?_⟩
  rw [outputs_after_tick]
  exact (List.append_nil _).symm

/-- What is put out respects all ways in which statements are put together. -/
theorem charts_cries (terms : Terms) : Course.Charts terms Cries where
  pure h := .quiet (fun _ _ _ heq => by cases heq; exact h) fun _ => rfl
  bind := .bind
  statement _ := cries_tick terms fun _ => rfl
  pass _ := cries_tick terms fun _ => rfl
  outOfPasses := .quiet nofun fun _ => rfl
  inNewScope := .inNewScope

/-! ## Evaluations -/

/-- Nothing is put out by what evaluations do by themselves, but for printing. -/
theorem cries_ofExcept (r : Except Fault α) : Cries (fun _ => True) (ofExcept r) .none := by
  refine .quiet (fun _ _ _ _ => trivial) fun s => ?_
  cases r <;> rfl

theorem cries_ask (terms : Terms) : Cries (fun _ => True) (ask terms) .none := by
  refine .quiet (fun _ _ _ _ => trivial) fun s => ?_
  rw [after_ask]
  simp [RunState.outputs]

theorem cries_lookUp (name : Text) : Cries (fun _ => True) (lookUp name) .none := by
  refine .quiet (fun _ _ _ _ => trivial) fun s => ?_
  unfold after
  rw [lookUp_apply]
  cases s.scopes.get? name <;> rfl

theorem cries_define (name : Text) (value : Value) :
    Cries (fun _ => True) (define name value) .none :=
  .quiet (fun _ _ _ _ => trivial) fun _ => rfl

theorem cries_assign (name : Text) (value : Value) :
    Cries (fun _ => True) (assign name value) .none := by
  refine .quiet (fun _ _ _ _ => trivial) fun s => ?_
  unfold after
  rw [assign_apply]
  cases s.scopes.assign? name value <;> rfl

variable {terms : Terms} {passes : Nat}

/-- The last moment of an evaluation is its own end. -/
theorem exists_ofEvaluation (terms : Terms) (passes depth : Nat) (node : Node) (s : RunState) :
    ∃ moments, Course.ofEvaluation terms passes depth node s =
      moments ++ [.evaluated node s (evaluate terms passes depth node s)] := by
  cases depth with
  | zero => exact ⟨[], rfl⟩
  | succ depth => exact ⟨_, rfl⟩

/-- The end of an evaluation that is no shout puts out nothing. -/
theorem Cries.evaluated {depth : Nat} {node : Node}
    (h : Cries (fun _ => True) (evaluate terms passes (depth + 1) node)
      (Course.ofParts terms (evaluate terms passes depth) (Course.ofEvaluation terms passes depth)
        passes node))
    (hform : ∀ line value, node ≠ .shout line value) :
    Cries (fun _ => True) (evaluate terms passes (depth + 1) node)
      (Course.ofEvaluation terms passes (depth + 1) node) := by
  intro s
  obtain ⟨htrue, values, texts, hshouts, htexts, houtputs⟩ := h s
  refine ⟨htrue, values, texts, hshouts.quiet ?_, htexts, houtputs⟩
  cases node with
  | shout line value => exact absurd rfl (hform line value)
  | _ => rfl

/-- A shout puts out what it shouts, or nothing if it fails. -/
theorem cries_shout {depth : Nat} {value : Node} (line : Option Nat)
    (h : Cries (fun _ => True) (evaluate terms passes depth value)
      (Course.ofEvaluation terms passes depth value)) :
    Cries (fun _ => True) (evaluate terms passes (depth + 1) (.shout line value))
      (Course.ofEvaluation terms passes (depth + 1) (.shout line value)) := by
  intro s
  obtain ⟨-, values, texts, hshouts, htexts, houtputs⟩ := h s
  have hcourse : Course.ofEvaluation terms passes (depth + 1) (.shout line value) s =
      Course.ofEvaluation terms passes depth value s ++
        [.evaluated (.shout line value) s
          (evaluate terms passes (depth + 1) (.shout line value) s)] := rfl
  rw [hcourse, evaluate_simple rfl]
  refine ⟨fun _ _ _ => trivial, ?_⟩
  cases hvalue : evaluate terms passes depth value s with
  | error e u =>
    rw [after_of_error hvalue] at houtputs
    rw [bind_of_error hvalue, after_bind_of_error hvalue]
    exact ⟨values, texts, hshouts.quiet rfl, htexts, houtputs⟩
  | ok v u =>
    rw [after_of_ok hvalue] at houtputs
    rw [bind_of_ok hvalue, after_bind_of_ok hvalue]
    cases hfinish : finish terms (.shout line value) v u with
    | error e t =>
      -- The value cannot be written or printed, and nothing has been put out for it.
      rw [after_of_error hfinish, failsClean_finish v u e t hfinish]
      exact ⟨values, texts, hshouts.quiet rfl, htexts, houtputs⟩
    | ok w t =>
      obtain ⟨moments, hmoments⟩ := exists_ofEvaluation terms passes depth value s
      rw [hmoments, hvalue] at hshouts ⊢
      obtain ⟨hdone, -⟩ := done_of_finish rfl hfinish
      cases hdone with
      | @shout _ _ text htext _ houtputs' =>
        refine ⟨values ++ [v], texts ++ [text], .shout hshouts, ?_, ?_⟩
        · rw [List.map_append, List.map_append, htexts, List.map_singleton, List.map_singleton,
            htext]
        · rw [after_of_ok hfinish, houtputs', houtputs, List.map_append, List.append_assoc,
            List.map_singleton]

/-- A node that holds no statements puts out nothing. -/
theorem cries_enter {eval : Node → Casting Value} {course : Node → Course}
    (h : ∀ node, Cries (fun _ => True) (eval node) (course node)) (block : Node) :
    Cries (fun _ => True) (Course.enter terms eval block)
      (Course.ofBlock terms eval course block) := by
  cases block with
  | block line ss | program ss => exact (charts_cries terms).enter rfl fun node _ => h node
  | _ => exact cries_ofExcept (.error _)

/-- **An evaluation puts out what is shouted in its course, and nothing else.** Induction on the
nesting limit, with one case for each form of nodes. -/
theorem cries_evaluate (depth : Nat) (node : Node) :
    Cries (fun _ => True) (evaluate terms passes depth node)
      (Course.ofEvaluation terms passes depth node) := by
  have charts := charts_cries terms
  induction depth generalizing node with
  | zero =>
    intro s
    exact ⟨nofun, [], [], .quiet .nil (by cases node <;> rfl), rfl, (List.append_nil _).symm⟩
  | succ depth ih =>
    cases node with
    | shout line value => exact cries_shout line (ih value)
    | literal line value kind =>
      exact Cries.evaluated (charts.pure trivial) nofun
    | name line text => exact Cries.evaluated (cries_lookUp text) nofun
    | create line target value =>
      refine Cries.evaluated (charts.bind_none (ih value) fun v _ => ?_) nofun
      refine charts.bind_none (cries_ofExcept (targetName "CREATE" target)) fun name _ => ?_
      exact charts.bind_none (cries_define name v) fun _ _ => charts.pure trivial
    | assign line target value =>
      refine Cries.evaluated (charts.bind_none (ih value) fun v _ => ?_) nofun
      refine charts.bind_none (cries_ofExcept (targetName "SET" target)) fun name _ => ?_
      exact charts.bind_none (cries_assign name v) fun _ _ => charts.pure trivial
    | binary line left op right =>
      refine Cries.evaluated (charts.bind (ih left) fun a _ => ?_) nofun
      exact charts.bind_none (ih right) fun b _ => cries_ofExcept (op.apply a b)
    | unary line op operand =>
      refine Cries.evaluated (charts.bind_none (ih operand) fun v _ => ?_) nofun
      exact cries_ofExcept (op.apply v)
    | ask line => exact Cries.evaluated (cries_ask terms) nofun
    | branch line condition thenBlock elseBlock =>
      refine Cries.evaluated (charts.bind (ih condition) fun v _ => ?_) nofun
      exact charts.bind_none (cries_enter ih _) fun _ _ => charts.pure trivial
    | loop line condition body =>
      have hloop := charts.loop (ih condition) (cries_enter ih body) passes
      exact Cries.evaluated (charts.bind_none hloop fun _ _ => charts.pure trivial) nofun
    | block | program | bare | missing =>
      refine Cries.evaluated (charts.bind_none (cries_ofExcept _) fun label _ => ?_) nofun
      exact cries_ofExcept (.error (.unknownNode label))

end Casting

/-! ## Whole runs -/

/-- Every report starts in the same way. -/
theorem Fault.isPrefix_report (fault : Fault) : "Runtime Error: " <+: fault.report :=
  List.prefix_append _ _

/-- **A failed run is reported once and last.** Any spell, a tree put together by hand included, is
run in any state and under any terms, and the run ends. It has put out the values that are shouted
in its course, in their order and written out. If it fails, the report of the fault is the last of
its outputs; if not, nothing is reported. It ends in no other way. -/
theorem failure_reported_once_and_last {terms : Terms} (hsilence : terms.silence ≠ .wait)
    {passes : Nat} {spell : List Node} {start : RunState}
    (hends : (run terms passes spell start).1 ≠ .outOfPasses) :
    ∃ (values : List Value) (texts : List Text),
      Shouts (Course.ofSpell terms passes spell start) values ∧
      values.map Value.format = texts.map .ok ∧
      ((run terms passes spell start).1 = .success ∧
          (run terms passes spell start).2.outputs = start.outputs ++ texts.map .log ∨
        (run terms passes spell start).1 = .failure ∧ ∃ text, "Runtime Error: " <+: text ∧
          (run terms passes spell start).2.outputs =
            start.outputs ++ texts.map .log ++ [.error text]) := by
  have hcries : Cries (fun _ => True) (spell.forM (execute terms passes))
      (Course.ofSpell terms passes spell) :=
    (charts_cries terms).spell spell fun node _ => cries_evaluate nestingLimit node
  have hwaits := (congruence_neverWaits hsilence passes).spell spell (fun _ => trivial) start
  obtain ⟨-, values, texts, hshouts, htexts, houtputs⟩ := hcries start
  refine ⟨values, texts, hshouts, htexts, ?_⟩
  unfold run at hends ⊢
  cases hend : spell.forM (execute terms passes) start with
  | ok a s =>
    rw [after_of_ok hend] at houtputs
    exact .inl ⟨rfl, houtputs⟩
  | error e s =>
    rw [after_of_error hend] at houtputs
    rw [hend] at hends
    cases e with
    | fault f =>
      -- The report of the fault is put out after all that was shouted.
      refine .inr ⟨rfl, f.report, f.isPrefix_report, ?_⟩
      rw [← houtputs]
      show List.filter _ (s.trace.push (.error f.report)).toList = _
      rw [Array.toList_push, List.filter_append]
      rfl
    | outOfPasses => exact absurd rfl hends
    | waiting => exact absurd hend (hwaits s)

/-- A spell put together by hand: a loop shouts a name, and then runs into a node without any
meaning. -/
def brokenLoop : List Node :=
  [.shout none (.literal none (.text "om") none),
    .loop none (.name none "x") (.block none [.shout none (.name none "x"), .bare]),
    .shout none (.literal none (.text "never") none)]

/-- Two lines are shouted before the fault, and it is reported after them. -/
theorem brokenLoop_reported :
    let start := RunState.start (Scope.ofList [("x", .text "ah")]) []
    let result := run ⟨none, .fault, true⟩ 1 brokenLoop start
    result.2.outputs =
      [.log "om", .log "ah", .error "Runtime Error: Unknown AST node type: ASTNode"] ∧
    ∃ values, Shouts (Course.ofSpell ⟨none, .fault, true⟩ 1 brokenLoop start) values ∧
      values.map Value.format = [.ok "om", .ok "ah"] := by
  intro start result
  have hfailure : result.1 = .failure := by decide
  have houtputs : result.2.outputs =
      [.log "om", .log "ah"] ++ [.error "Runtime Error: Unknown AST node type: ASTNode"] := by
    decide
  have hends : result.1 ≠ .outOfPasses := by
    rw [hfailure]
    nofun
  have hwait : Silence.fault ≠ .wait := nofun
  obtain ⟨values, texts, hshouts, htexts, hend⟩ := failure_reported_once_and_last hwait hends
  refine ⟨houtputs, values, hshouts, ?_⟩
  rcases hend with ⟨hsuccess, -⟩ | ⟨-, text, -, hreport⟩
  · cases hfailure.symm.trans hsuccess
  · have hlogs := (List.append_inj' (houtputs.symm.trans hreport) rfl).1
    have hinj : Function.Injective Event.log := fun _ _ => Event.log.inj
    have htwo : texts = ["om", "ah"] := List.map_injective_iff.mpr hinj hlogs.symm
    rw [htexts, htwo]
    rfl

end Grimoire
