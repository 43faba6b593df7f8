import Grimoire.Proofs.Run.Course
import Grimoire.Proofs.Run.StepLimit
import Grimoire.Proofs.Value.Domain

/-!
# The account of a limited run

Under a limit every run ends, and its steps are accounted for: they are the statements and the
passes that are started in the course of the run, the one that is refused included. `Accounts` says
so of any casting in the middle of a run. It also says where the limit is exceeded: never by more
than one step, and exactly where the casting stops for it.

That a run has been stopped at the limit can be seen from outside, since no other fault is reported
in the same words (`Fault.report_eq_stepLimit_iff`).
-/

namespace Grimoire

namespace Moment

def isStatement : Moment → Bool
  | .statement .. => true
  | _ => false

def isPass : Moment → Bool
  | .pass .. => true
  | _ => false

end Moment

/-- How many statements and passes are started. -/
def starts (moments : List Moment) : Nat :=
  moments.countP Moment.isStatement + moments.countP Moment.isPass

/-- Two lists of moments start what each of them starts. -/
theorem starts_append (moments moments' : List Moment) :
    starts (moments ++ moments') = starts moments + starts moments' := by
  simp only [starts, List.countP_append]
  omega

/-! ## Faults other than the limit -/

/-- What is done with values never fails for the limit. -/
theorem Value.Yields.ne_stepLimit {α : Type} {Q : α → Prop} {r : Except Fault α}
    (h : Yields Q r) : r ≠ .error .stepLimit := by
  rintro rfl
  cases h with
  | error hvalues => cases hvalues

/-- No operator fails for the limit. -/
theorem BinaryOp.apply_ne_stepLimit (op : BinaryOp) (a b : Value) :
    op.apply a b ≠ .error .stepLimit := by
  cases op with
  | unknown symbol => nofun
  | _ => exact (yields_apply rfl a b).ne_stepLimit

theorem UnaryOp.apply_ne_stepLimit (op : UnaryOp) (v : Value) :
    op.apply v ≠ .error .stepLimit := by
  cases op with
  | unknown word => nofun
  | ord => exact (Value.yields_ord v).ne_stepLimit
  | chr => exact (Value.yields_chr v).ne_stepLimit

theorem Node.kind?_ne_stepLimit (node : Node) : node.kind? ≠ .error .stepLimit := by
  cases node with
  | binary line left op right => cases hop : op.kind? <;> simp [kind?, hop]
  | _ => nofun

/-- Two things in a row do not fail for the limit if neither does. -/
theorem bind_ne_stepLimit {α β : Type} {r : Except Fault α} {f : α → Except Fault β}
    (hr : r ≠ .error .stepLimit) (hf : ∀ a, f a ≠ .error .stepLimit) :
    r >>= f ≠ .error .stepLimit := by
  cases r with
  | ok a => exact hf a
  | error fault =>
    intro h
    cases h
    exact hr rfl

theorem Node.label_ne_stepLimit (node : Node) : node.label ≠ .error .stepLimit := by
  refine bind_ne_stepLimit node.kind?_ne_stepLimit fun kind => ?_
  split <;> nofun

theorem targetName_ne_stepLimit (statement : Text) (target : Node) :
    targetName statement target ≠ .error .stepLimit := by
  cases target with
  | name line text => nofun
  | _ => exact bind_ne_stepLimit (Node.label_ne_stepLimit _) fun label => nofun

/-! ## Accounts -/

namespace Casting

open Course (Charts)

variable {α β : Type} {m : Int}

/-- From a state within the limit, the casting takes one step for each statement and each pass that
is started. It exceeds the limit by one step at most, and exactly if it stops there. Its result
satisfies `Q`. -/
structure Account (m : Int) (Q : α → Prop) (x : Casting α) (c : Course) (s : RunState) : Prop where
  result : ∀ a s', x s = .ok a s' → Q a
  steps : (x.after s).steps = s.steps + starts (c s)
  le : ((x.after s).steps : Int) ≤ max m 0 + 1
  stops : (∃ s', x s = .error (.fault .stepLimit) s') ↔ max m 0 < (x.after s).steps

/-- The casting gives account of its steps from every state within the limit. -/
def Accounts (m : Int) (Q : α → Prop) (x : Casting α) (c : Course) : Prop :=
  ∀ s, (s.steps : Int) ≤ max m 0 → Account m Q x c s

variable {P : α → Prop} {Q : β → Prop}

/-- The account of a course holds of each course with as many starts. -/
theorem Accounts.congr {x : Casting α} {c d : Course} (h : Accounts m P x c)
    (hcourse : ∀ s, starts (d s) = starts (c s)) : Accounts m P x d := by
  intro s hs
  obtain ⟨hresult, hsteps, hle, hstops⟩ := h s hs
  exact ⟨hresult, by rw [hcourse, hsteps], hle, hstops⟩

/-- The accounts of two castings in a row add up. -/
theorem Accounts.bind {x : Casting α} {f : α → Casting β} {c : Course} {next : α → Course}
    (hx : Accounts m P x c) (hf : ∀ a, P a → Accounts m Q (f a) (next a)) :
    Accounts m Q (x >>= f) (c.andThen x next) := by
  intro s hs
  obtain ⟨hresult, hsteps, hle, hstops⟩ := hx s hs
  cases heq : x s with
  | error e s₁ =>
    rw [after_of_error heq] at hsteps hle hstops
    refine ⟨fun b s' hb => ?_, ?_, ?_, ?_⟩
    · cases (bind_of_error heq).symm.trans hb
    · rw [after_bind_of_error heq, Course.andThen_of_error heq, hsteps]
    · rw [after_bind_of_error heq]
      exact hle
    · rw [after_bind_of_error heq, bind_of_error heq, ← hstops, heq]
      simp
  | ok a s₁ =>
    rw [after_of_ok heq] at hsteps hle hstops
    -- The first casting has not stopped, so the second one starts within the limit.
    have hwithin : (s₁.steps : Int) ≤ max m 0 := by
      refine Int.not_lt.mp fun hlt => ?_
      obtain ⟨s', hs'⟩ := hstops.mpr hlt
      cases heq.symm.trans hs'
    obtain ⟨hresult', hsteps', hle', hstops'⟩ := hf a (hresult a s₁ heq) s₁ hwithin
    refine ⟨fun b s' hb => hresult' b s' ((bind_of_ok heq).symm.trans hb), ?_, ?_, ?_⟩
    · rw [after_bind_of_ok heq, Course.andThen_of_ok heq, starts_append]
      omega
    · rw [after_bind_of_ok heq]
      exact hle'
    · rw [after_bind_of_ok heq, bind_of_ok heq]
      exact hstops'

/-- What takes no steps and does not stop for the limit starts nothing. -/
theorem Accounts.of_steps_eq {x : Casting α} (hresult : ∀ s a s', x s = .ok a s' → P a)
    (hsteps : ∀ s, (x.after s).steps = s.steps)
    (hstop : ∀ s s', x s ≠ .error (.fault .stepLimit) s') : Accounts m P x .none := by
  intro s hs
  refine ⟨hresult s, hsteps s, ?_, iff_of_false ?_ ?_⟩
  · rw [hsteps s]
    omega
  · rintro ⟨s', hs'⟩
    exact hstop s s' hs'
  · rw [hsteps s]
    omega

theorem Accounts.inNewScope {x : Casting α} {c : Course} (h : Accounts m P x c) :
    Accounts m P (inNewScope x) fun s => c { s with scopes := s.scopes.push } := by
  intro s hs
  obtain ⟨hresult, hsteps, hle, hstops⟩ := h { s with scopes := s.scopes.push } hs
  refine ⟨fun a s' ha => ?_, ?_, ?_, ?_⟩
  · unfold Casting.inNewScope at ha
    cases hx : x { s with scopes := s.scopes.push } with
    | ok a' s₁ =>
      rw [hx] at ha
      cases ha
      exact hresult a s₁ hx
    | error e s₁ =>
      rw [hx] at ha
      cases ha
  · rw [after_inNewScope]
    exact hsteps
  · rw [after_inNewScope]
    exact hle
  · rw [after_inNewScope]
    refine Iff.trans ?_ hstops
    unfold Casting.inNewScope
    cases x { s with scopes := s.scopes.push } <;> simp

/-- A tick is one step, and it is refused exactly if that step exceeds the limit. -/
theorem accounts_tick {silence : Silence} {utf8 : Bool} {c : Course}
    (hstart : ∀ s, starts (c s) = 1) :
    Accounts m (fun _ => True) (tick ⟨some m, silence, utf8⟩) c := by
  intro s hs
  rw [← tally_of_limited rfl]
  refine ⟨fun _ _ _ => trivial, ?_, ?_, ?_⟩
  · rw [after_tally, hstart]
  · rw [after_tally]
    show ((s.steps + 1 : Nat) : Int) ≤ _
    omega
  · rw [after_tally]
    show _ ↔ _ < ((s.steps + 1 : Nat) : Int)
    by_cases hm : m < (s.steps + 1 : Nat)
    · rw [tally_of_lt rfl hm]
      exact iff_of_true ⟨_, rfl⟩ (by omega)
    · rw [tally_of_le fun m' h => Option.some.inj h ▸ Int.not_lt.mp hm]
      refine iff_of_false ?_ (by omega)
      rintro ⟨s', hs'⟩
      cases hs'

/-- Accounts respect all ways in which statements are put together. -/
theorem charts_accounts (m : Int) (silence : Silence) (utf8 : Bool) :
    Charts ⟨some m, silence, utf8⟩ (Accounts m) where
  pure h := .of_steps_eq (fun s a s' heq => by cases heq; exact h) (fun _ => rfl) nofun
  bind := .bind
  statement _ := accounts_tick fun _ => rfl
  pass _ := accounts_tick fun _ => rfl
  outOfPasses := .of_steps_eq (fun s a s' heq => trivial) (fun _ => rfl) nofun
  inNewScope := .inNewScope

/-! ## Evaluations -/

/-- A casting that takes over a result stops for the limit only if that has. -/
theorem ofExcept_ne_stepLimit {r : Except Fault α} (hr : r ≠ .error .stepLimit) (s s' : RunState) :
    ofExcept r s ≠ .error (.fault .stepLimit) s' := by
  cases r with
  | ok a => nofun
  | error f =>
    intro h
    cases h
    exact hr rfl

/-- What is computed starts nothing. -/
theorem accounts_ofExcept {r : Except Fault α} (hr : r ≠ .error .stepLimit) :
    Accounts m (fun _ => True) (ofExcept r) .none := by
  refine .of_steps_eq (fun _ _ _ _ => trivial) (fun s => ?_) (ofExcept_ne_stepLimit hr)
  cases r <;> rfl

theorem accounts_fail {f : Fault} (hf : f ≠ .stepLimit) :
    Accounts m (fun _ => True) (fail f : Casting α) .none :=
  accounts_ofExcept fun h => hf (Except.error.inj h)

theorem accounts_print (terms : Terms) (text : Text) :
    Accounts m (fun _ => True) (print terms text) .none := by
  refine .of_steps_eq (fun _ _ _ _ => trivial) (fun s => ?_) fun s s' h => ?_
  · unfold after
    rw [print_apply]
    cases if terms.utf8 then Utf8.unencodable? text else none <;> rfl
  · rw [print_apply] at h
    split at h <;> cases h

/-- Asking starts nothing. -/
theorem accounts_ask (terms : Terms) : Accounts m (fun _ => True) (ask terms) .none := by
  refine .of_steps_eq (fun _ _ _ _ => trivial) (@Primitive.ask True terms trivial).steps_after
    fun s s' h => ?_
  have hreply (reply : Option Text) :=
    ofExcept_ne_stepLimit (Value.yields_ofReply reply).ne_stepLimit
  rw [ask_apply] at h
  split at h
  · exact hreply _ _ _ h
  · split at h
    · cases h
    · exact hreply _ _ _ h
    · cases h

theorem accounts_lookUp (name : Text) : Accounts m (fun _ => True) (lookUp name) .none := by
  refine .of_steps_eq (fun _ _ _ _ => trivial) (fun s => ?_) fun s s' h => ?_
  · unfold after
    rw [lookUp_apply]
    cases s.scopes.get? name <;> rfl
  · rw [lookUp_apply] at h
    split at h <;> cases h

theorem accounts_define (name : Text) (value : Value) :
    Accounts m (fun _ => True) (define name value) .none :=
  .of_steps_eq (fun _ _ _ _ => trivial) (fun _ => rfl) nofun

theorem accounts_assign (name : Text) (value : Value) :
    Accounts m (fun _ => True) (assign name value) .none := by
  refine .of_steps_eq (fun _ _ _ _ => trivial) (fun s => ?_) fun s s' h => ?_
  · unfold after
    rw [assign_apply]
    cases s.scopes.assign? name value <;> rfl
  · rw [assign_apply] at h
    split at h <;> cases h

variable {silence : Silence} {utf8 : Bool} {eval : Node → Casting Value} {course : Node → Course}

/-- A node that holds no statements starts none. -/
theorem accounts_enter (h : ∀ node, Accounts m (fun _ => True) (eval node) (course node))
    (block : Node) :
    Accounts m (fun _ => True) (Course.enter ⟨some m, silence, utf8⟩ eval block)
      (Course.ofBlock ⟨some m, silence, utf8⟩ eval course block) := by
  cases block with
  | block line ss | program ss =>
    exact (charts_accounts m silence utf8).enter rfl fun node _ => h node
  | _ => exact accounts_fail nofun

/-- **An evaluation gives account of its steps.** Induction on the nesting limit, with one case for
each form of nodes. -/
theorem accounts_evaluate (m : Int) (silence : Silence) (utf8 : Bool) (passes depth : Nat)
    (node : Node) :
    Accounts m (fun _ => True) (evaluate ⟨some m, silence, utf8⟩ passes depth node)
      (Course.ofEvaluation ⟨some m, silence, utf8⟩ passes depth node) := by
  let terms : Terms := ⟨some m, silence, utf8⟩
  have charts := charts_accounts m silence utf8
  induction depth generalizing node with
  | zero =>
    have hfail : Accounts m (fun _ => True) (fail .tooDeep : Casting Value) .none :=
      accounts_fail nofun
    exact hfail.congr fun _ => rfl
  | succ depth ih =>
    have hparts : Accounts m (fun _ => True)
        (evaluate terms passes (depth + 1) node)
        (Course.ofParts terms (evaluate terms passes depth) (Course.ofEvaluation terms passes depth)
          passes node) := by
      cases node with
      | literal line value kind => exact charts.pure trivial
      | name line text => exact accounts_lookUp text
      | create line target value =>
        refine charts.bind_none (ih value) fun v _ => ?_
        refine charts.bind_none (accounts_ofExcept (targetName_ne_stepLimit _ _)) fun name _ => ?_
        exact charts.bind_none (accounts_define name v) fun _ _ => charts.pure trivial
      | assign line target value =>
        refine charts.bind_none (ih value) fun v _ => ?_
        refine charts.bind_none (accounts_ofExcept (targetName_ne_stepLimit _ _)) fun name _ => ?_
        exact charts.bind_none (accounts_assign name v) fun _ _ => charts.pure trivial
      | shout line value =>
        refine charts.bind_none (ih value) fun v _ => ?_
        refine charts.bind_none (accounts_ofExcept (Value.yields_format v).ne_stepLimit)
          fun text _ => ?_
        exact charts.bind_none (accounts_print terms text) fun _ _ => charts.pure trivial
      | binary line left op right =>
        refine charts.bind (ih left) fun a _ => ?_
        exact charts.bind_none (ih right) fun b _ => accounts_ofExcept (op.apply_ne_stepLimit a b)
      | unary line op operand =>
        exact charts.bind_none (ih operand) fun v _ => accounts_ofExcept (op.apply_ne_stepLimit v)
      | ask line => exact accounts_ask terms
      | branch line condition thenBlock elseBlock =>
        refine charts.bind (ih condition) fun v _ => ?_
        exact charts.bind_none (accounts_enter ih _) fun _ _ => charts.pure trivial
      | loop line condition body =>
        have hloop := charts.loop (ih condition) (accounts_enter ih body) passes
        exact charts.bind_none hloop fun _ _ => charts.pure trivial
      | block | program | bare | missing =>
        exact charts.bind_none (accounts_ofExcept (Node.label_ne_stepLimit _)) fun label _ =>
          accounts_fail nofun
    -- The end of the evaluation starts nothing.
    refine hparts.congr fun s => ?_
    rw [Course.ofEvaluation, starts_append]
    rfl

end Casting

/-! ## Whole runs -/

open Casting

/-- No other fault is reported in the words of the limit. -/
theorem Fault.message_ne_stepLimit {f : Fault} (hf : f ≠ .stepLimit) :
    f.message ≠ Fault.stepLimit.message := by
  intro h
  have hopening {p t : Text} (hp : ¬p <+: Fault.stepLimit.message) :
      p ++ t ≠ Fault.stepLimit.message := fun h => hp ⟨t, h⟩
  cases f with
  | stepLimit => exact hf rfl
  | notAName statement label =>
    -- There is a comma in the one and none in the other.
    have hcomma : (',' : CodePoint) ∈ (" expects an identifier name, got " : Text) := by decide
    have hmem : (',' : CodePoint) ∈ Fault.stepLimit.message := by
      rw [← h]
      exact List.mem_append_left _ (List.mem_append_right _ hcomma)
    exact absurd hmem (by decide)
  | noKind symbol =>
    have hquote : some (Text.quoteFor symbol) = some 'S' := congrArg List.head? h
    unfold Text.quoteFor at hquote
    split at hquote <;> exact absurd hquote (by decide)
  | unprintable flaw =>
    simp only [message, Utf8.Unencodable.message, List.append_assoc] at h
    exact absurd h (hopening (by decide))
  | undefined | notNumbers | noCharacter | unknownOperator | unknownUnary | unknownNode
  | noStatements | tooLongToWrite | tooLongToRead =>
    simp only [message, List.append_assoc] at h
    exact absurd h (hopening (by decide))
  | notOneCharacter | notACode | divisionByZero | tooDeep | integerTooLarge | quotientTooLarge
  | outOfReplies => exact absurd h (by decide)

/-- The limit is reported in words of its own. -/
theorem Fault.report_eq_stepLimit_iff {f : Fault} :
    f.report = Fault.stepLimit.report ↔ f = .stepLimit := by
  refine ⟨fun h => ?_, fun h => h ▸ rfl⟩
  cases f with
  | stepLimit => rfl
  | tooDeep => exact absurd h (by decide)
  | _ => exact absurd (List.append_cancel_left h) (message_ne_stepLimit nofun)

/-- The run has failed, and reports that the limit is exceeded. -/
def FailedAtLimit (result : Ending × RunState) : Prop :=
  result.1 = .failure ∧ result.2.trace.back? =
    some (.error "Runtime Error: Step limit exceeded (possible infinite loop)")

/-- A run reports the limit exactly if its statements stop for it. -/
theorem failedAtLimit_run_iff {terms : Terms} {passes : Nat} {spell : List Node}
    {start : RunState} : FailedAtLimit (run terms passes spell start) ↔
      ∃ s', spell.forM (execute terms passes) start = .error (.fault .stepLimit) s' := by
  have hreport {f : Fault} :
      f.report = "Runtime Error: Step limit exceeded (possible infinite loop)" ↔ f = .stepLimit :=
    Fault.report_eq_stepLimit_iff
  unfold run FailedAtLimit
  cases spell.forM (execute terms passes) start with
  | ok a s => simp [conclude]
  | error e s =>
    cases e with
    | fault f => simp [conclude, hreport]
    | outOfPasses | waiting => simp [conclude]

/-- **Every run under a limit ends, and its steps are accounted for.** From some number of passes on
that each loop may take at a stretch, the run is always the same and does not run out of them. Its
steps are the statements and the passes started in its course. If it reports that the limit is
exceeded, there is one step more than the limit allows, and otherwise there is none; a limit below
zero allows for as many steps as the limit zero. -/
theorem limited_run_accounts_for_steps (m : Int) (silence : Silence) (utf8 : Bool)
    (spell : List Node) (scopes : Scopes) (replies : List (Option Text)) :
    ∃ enough, ∀ passes, enough ≤ passes →
      let terms : Terms := ⟨some m, silence, utf8⟩
      let start : RunState := ⟨scopes, replies, 0, #[]⟩
      let result := run terms passes spell start
      let moments := Course.ofSpell terms passes spell start
      result = run terms enough spell start ∧ result.1 ≠ .outOfPasses ∧
      (FailedAtLimit result → (result.2.steps : Int) = max m 0 + 1) ∧
      (¬FailedAtLimit result → (result.2.steps : Int) ≤ max m 0) ∧
      result.2.steps = moments.countP Moment.isStatement + moments.countP Moment.isPass := by
  obtain ⟨_, _, enough, rfl, hends, -⟩ :=
    halts_of_limited m silence utf8 spell ⟨scopes, replies, 0, #[]⟩
  refine ⟨enough, fun passes hle => ?_⟩
  intro terms start result moments
  have hsame := (run_eq_of_le hends hle).1
  have haccounts := (charts_accounts m silence utf8).spell spell fun node _ =>
    accounts_evaluate m silence utf8 passes nestingLimit node
  -- The account starts from no steps, and a negative limit allows no more than that.
  obtain ⟨-, hsteps, hlimit, hstops⟩ := haccounts start (Int.le_max_right m 0)
  rw [← failedAtLimit_run_iff] at hstops
  rw [← steps_run] at hsteps hlimit hstops
  refine ⟨hsame, fun hout => hends (hsame ▸ hout), fun hfailed => ?_, fun hfailed => ?_, ?_⟩
  · have hlt := hstops.mp hfailed
    exact Int.le_antisymm hlimit hlt
  · exact Int.not_lt.mp fun hlt => hfailed (hstops.mpr hlt)
  · exact hsteps.trans (Nat.zero_add _)

/-- An endless loop without any statements, under the limit 3: the loop is a statement, and the third
pass is refused. -/
example :
    let spell : List Node := [.loop none (.literal none (.int 1) none) (.block none [])]
    let moments := Course.ofSpell ⟨some 3, .fault, true⟩ 4 spell (.start Scope.empty [])
    moments.countP Moment.isStatement = 1 ∧ moments.countP Moment.isPass = 3 := by
  decide

end Grimoire
