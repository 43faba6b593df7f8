import Grimoire.Proofs.Run.Course
import Grimoire.Proofs.Run.StepLimit
import Grimoire.Proofs.Scope.Agreement
import Grimoire.Proofs.Tree.Parts
import Grimoire.Proofs.Value.Domain

/-!
# The domain of a run

A spell that has been read makes nothing but proper values, and finds nothing but proper values in
its scopes, if it is started with such. A tree put together by hand may hold nodes that have no
meaning where they stand; a spell that has been read holds none, and so it never runs into the
faults that are there for such nodes (`Fault.isRegular`).

`Safe` follows a casting and its course through a run. It speaks about all that the run goes
through, and not only about its end: each moment finds proper values in all scopes, and each
expression that is evaluated yields a proper value, or stops for a regular cause.
-/

namespace Grimoire

/-! ## Proper scopes -/

/-- All scopes bind proper values only, also where a binding is hidden by one further inside. -/
def ProperChain (chain : List Scope) : Prop :=
  ∀ scope ∈ chain, ∀ entry ∈ scope.entries, entry.2.isProper

/-- An entry of a scope after a name is set is the new one or an old one. -/
theorem Scope.mem_setEntry {name : Text} {value : Value} {entries : List (Text × Value)}
    {entry : Text × Value} (h : entry ∈ setEntry name value entries) :
    entry.2 = value ∨ entry ∈ entries := by
  induction entries with
  | nil =>
    rw [List.mem_singleton.mp h]
    exact .inl rfl
  | cons first rest ih =>
    rw [setEntry] at h
    split at h
    · rcases List.mem_cons.mp h with rfl | hrest
      · exact .inl rfl
      · exact .inr (List.mem_cons_of_mem _ hrest)
    · rcases List.mem_cons.mp h with rfl | hrest
      · exact .inr List.mem_cons_self
      · rcases ih hrest with hvalue | hmem
        · exact .inl hvalue
        · exact .inr (List.mem_cons_of_mem _ hmem)

namespace ProperChain

variable {scope : Scope} {chain chain' : List Scope} {name : Text} {value : Value}

/-- A chain is proper if its first scope and the others are. -/
theorem cons_iff :
    ProperChain (scope :: chain) ↔
      (∀ entry ∈ scope.entries, entry.2.isProper) ∧ ProperChain chain :=
  List.forall_mem_cons

/-- A proper value may be set in the first scope. -/
theorem set (h : ProperChain (scope :: chain)) (hvalue : value.isProper) :
    ProperChain (scope.set name value :: chain) := by
  rw [cons_iff] at h ⊢
  refine ⟨fun entry hmem => ?_, h.2⟩
  rcases Scope.mem_setEntry hmem with hset | hold
  · rw [hset]
    exact hvalue
  · exact h.1 entry hold

/-- A proper value may be set wherever the name is bound. -/
theorem assignIn? (h : ProperChain chain) (hvalue : value.isProper)
    (hassign : Scopes.assignIn? name value chain = some chain') : ProperChain chain' := by
  induction chain generalizing chain' with
  | nil => cases hassign
  | cons scope rest ih =>
    rw [Scopes.assignIn?] at hassign
    split at hassign
    · cases hassign
      exact h.set hvalue
    · obtain ⟨rest', hrest, rfl⟩ := Option.map_eq_some_iff.mp hassign
      rw [cons_iff] at h ⊢
      exact ⟨h.1, ih h.2 hrest⟩

end ProperChain

/-- All scopes in reach bind proper values only. -/
def Scopes.Proper (s : Scopes) : Prop := ProperChain s.toList

instance (s : Scopes) : Decidable s.Proper :=
  inferInstanceAs (Decidable (∀ scope ∈ s.toList, ∀ entry ∈ scope.entries, entry.2.isProper))

namespace Scopes.Proper

variable {s t : Scopes} {name : Text} {value : Value}

theorem push (h : s.Proper) : s.push.Proper :=
  ProperChain.cons_iff.mpr ⟨fun _ hmem => absurd hmem List.not_mem_nil, h⟩

theorem pop (h : s.Proper) : s.pop.Proper := by
  obtain ⟨inner, outer⟩ := s
  cases outer with
  | nil => exact h
  | cons scope rest => exact (ProperChain.cons_iff.mp h).2

theorem define (h : s.Proper) (hvalue : value.isProper) : (s.define name value).Proper :=
  ProperChain.set h hvalue

/-- A proper value may be set. -/
theorem assign? (h : s.Proper) (hvalue : value.isProper) (hassign : s.assign? name value = some t) :
    t.Proper :=
  ProperChain.assignIn? h hvalue (assignIn?_of_assign? hassign)

/-- The values of names are proper. -/
theorem get? (h : s.Proper) (hget : s.get? name = some value) : value.isProper := by
  obtain ⟨scope, hscope, hvalue⟩ := List.exists_of_findSome?_eq_some hget
  exact h scope hscope _ (Grammar.mem_of_lookup_eq_some hvalue)

end Scopes.Proper

/-! ## Regular faults -/

/-- The faults that a spell which has been read can run into. -/
def Fault.isRegular : Fault → Bool
  | .notAName statement _ => statement = "CREATE" || statement = "SET"
  | .unknownOperator _ | .unknownUnary _ | .unknownNode _ | .noStatements _ | .noKind _ => false
  | _ => true

/-- The faults of values are regular. -/
theorem Fault.isRegular_of_isOfValues {f : Fault} (h : f.isOfValues) : f.isRegular := by
  cases f with
  | notNumbers | notOneCharacter | notACode | noCharacter | divisionByZero | integerTooLarge
  | quotientTooLarge | tooLongToWrite | tooLongToRead => rfl
  | _ => cases h

/-- Running out of passes and waiting for a reply are no faults at all. -/
def Stop.isRegular : Stop → Bool
  | .fault f => f.isRegular
  | .outOfPasses | .waiting => true

/-- A casting has come to a result that satisfies `Q`, or stopped for a regular cause, with proper
values in all scopes. -/
inductive ProperEnd {α : Type} (Q : α → Prop) : EStateM.Result Stop RunState α → Prop where
  | ok {a : α} {s : RunState} (ha : Q a) (hs : s.scopes.Proper) : ProperEnd Q (.ok a s)
  | error {e : Stop} {s : RunState} (he : e.isRegular) (hs : s.scopes.Proper) :
      ProperEnd Q (.error e s)

theorem ProperEnd.mono {α : Type} {P Q : α → Prop} {r : EStateM.Result Stop RunState α}
    (h : ProperEnd P r) (hPQ : ∀ a, P a → Q a) : ProperEnd Q r := by
  cases h with
  | ok ha hs => exact .ok (hPQ _ ha) hs
  | error he hs => exact .error he hs

/-! ## Proper moments -/

/-- Nodes that are evaluated for their values. -/
def Node.isExpression : Node → Bool
  | .literal .. | .name .. | .binary .. | .unary .. | .ask _ => true
  | _ => false

/-- A moment finds proper values in all scopes. An expression yields a proper value. -/
def Moment.Proper : Moment → Prop
  | .statement _ s | .pass _ s => s.scopes.Proper
  | .evaluated node s outcome =>
    s.scopes.Proper ∧ ProperEnd (fun v => node.isExpression → v.isProper) outcome

namespace Casting

open Course (Charts)

variable {α β : Type} {P : α → Prop} {Q : β → Prop}

/-- From a state with proper values in all scopes, the casting comes to a proper end, through proper
moments only. -/
def Safe (P : α → Prop) (x : Casting α) (c : Course) : Prop :=
  ∀ s, s.scopes.Proper → ProperEnd P (x s) ∧ ∀ moment ∈ c s, moment.Proper

theorem Safe.bind {x : Casting α} {f : α → Casting β} {c : Course} {next : α → Course}
    (hx : Safe P x c) (hf : ∀ a, P a → Safe Q (f a) (next a)) :
    Safe Q (x >>= f) (c.andThen x next) := by
  intro s hs
  obtain ⟨hend, hmoments⟩ := hx s hs
  cases heq : x s with
  | error e s₁ =>
    rw [heq] at hend
    rw [bind_of_error heq, Course.andThen_of_error heq]
    cases hend with
    | error he hs₁ => exact ⟨.error he hs₁, hmoments⟩
  | ok a s₁ =>
    rw [heq] at hend
    rw [bind_of_ok heq, Course.andThen_of_ok heq]
    cases hend with
    | ok ha hs₁ =>
      obtain ⟨hend', hmoments'⟩ := hf a ha s₁ hs₁
      exact ⟨hend', List.forall_mem_append.mpr ⟨hmoments, hmoments'⟩⟩

/-- A casting of no moments is safe if its end is proper. -/
theorem Safe.of_end {x : Casting α} (h : ∀ s, s.scopes.Proper → ProperEnd P (x s)) :
    Safe P x .none :=
  fun s hs => ⟨h s hs, fun _ hmem => absurd hmem List.not_mem_nil⟩

theorem Safe.inNewScope {x : Casting α} {c : Course} (h : Safe P x c) :
    Safe P (inNewScope x) fun s => c { s with scopes := s.scopes.push } := by
  intro s hs
  obtain ⟨hend, hmoments⟩ := h { s with scopes := s.scopes.push } hs.push
  refine ⟨?_, hmoments⟩
  unfold Casting.inNewScope
  generalize x { s with scopes := s.scopes.push } = result at hend
  cases hend with
  | ok ha hs' => exact .ok ha hs'.pop
  | error he hs' => exact .error he hs'.pop

/-- A step is counted, or refused for a regular cause. -/
theorem properEnd_tick (terms : Terms) {s : RunState} (hs : s.scopes.Proper) :
    ProperEnd (fun _ => True) (tick terms s) := by
  obtain ⟨limit, silence, utf8⟩ := terms
  cases limit with
  | none => exact .ok trivial hs
  | some m =>
    rw [← tally_of_limited rfl]
    by_cases hm : m < (s.steps + 1 : Nat)
    · rw [tally_of_lt rfl hm]
      exact .error rfl hs
    · rw [tally_of_le fun m' h => Option.some.inj h ▸ Int.not_lt.mp hm]
      exact .ok trivial hs

/-- A step is safe with the moment that it starts. -/
theorem safe_tick (terms : Terms) {moment : RunState → Moment}
    (hmoment : ∀ s, s.scopes.Proper → (moment s).Proper) :
    Safe (fun _ => True) (tick terms) (.single moment) := by
  refine fun s hs => ⟨properEnd_tick terms hs, fun moment' hmem => ?_⟩
  rw [List.mem_singleton.mp hmem]
  exact hmoment s hs

/-- Safety respects all ways in which statements are put together. -/
theorem charts_safe (terms : Terms) : Charts terms Safe where
  pure h := .of_end fun _ hs => .ok h hs
  bind := .bind
  statement _ := safe_tick terms fun _ hs => hs
  pass _ := safe_tick terms fun _ hs => hs
  outOfPasses := .of_end fun _ hs => .error rfl hs
  inNewScope := .inNewScope

/-! ## Primitive castings -/

theorem safe_fail {f : Fault} (hf : f.isRegular) : Safe P (fail f) .none :=
  .of_end fun _ hs => .error hf hs

/-- What yields proper values or faults of values comes to a proper end. -/
theorem properEnd_ofExcept {r : Except Fault α} (hr : Value.Yields P r) {s : RunState}
    (hs : s.scopes.Proper) : ProperEnd P (ofExcept r s) := by
  cases hr with
  | ok h => exact .ok h hs
  | error h => exact .error (Fault.isRegular_of_isOfValues h) hs

theorem safe_ofExcept {r : Except Fault α} (hr : Value.Yields P r) : Safe P (ofExcept r) .none :=
  .of_end fun _ hs => properEnd_ofExcept hr hs

theorem safe_print (terms : Terms) (text : Text) :
    Safe (fun _ => True) (print terms text) .none := by
  refine .of_end fun s hs => ?_
  rw [print_apply]
  split
  · exact .error rfl hs
  · exact .ok trivial hs

/-- A reply is a proper value, whatever it is. -/
theorem safe_ask (terms : Terms) : Safe (fun v => v.isProper) (ask terms) .none := by
  refine .of_end fun s hs => ?_
  rw [ask_apply]
  split
  · exact properEnd_ofExcept (Value.yields_ofReply _) hs
  · split
    · exact .error rfl hs
    · exact properEnd_ofExcept (Value.yields_ofReply _) hs
    · exact .error rfl hs

theorem safe_lookUp (name : Text) : Safe (fun v => v.isProper) (lookUp name) .none := by
  refine .of_end fun s hs => ?_
  rw [lookUp_apply]
  split
  · rename_i value hvalue
    exact .ok (hs.get? hvalue) hs
  · exact .error rfl hs

theorem safe_define (name : Text) {value : Value} (hvalue : value.isProper) :
    Safe (fun _ => True) (define name value) .none :=
  .of_end fun _ hs => .ok trivial (hs.define hvalue)

theorem safe_assign (name : Text) {value : Value} (hvalue : value.isProper) :
    Safe (fun _ => True) (assign name value) .none := by
  refine .of_end fun s hs => ?_
  rw [assign_apply]
  split
  · rename_i scopes hassign
    exact .ok trivial (hs.assign? hvalue hassign)
  · exact .error rfl hs

/-! ## Expressions and statements -/

/-- The words of a comparison stand for one of four operators. -/
theorem op_of_mem_comparators {op : BinaryOp} {words : List Text} (h : (op, words) ∈ comparators) :
    op = .equal ∨ op = .unequal ∨ op = .greater ∨ op = .less := by
  have hops : ∀ entry ∈ comparators,
      entry.1 = .equal ∨ entry.1 = .unequal ∨ entry.1 = .greater ∨ entry.1 = .less := by
    decide
  exact hops _ h

/-- Where a statement is about an expression that is no name, the statement and the kind of the
expression are what the fault names. -/
theorem targetName_spelled {target : Node} {ts : List Token} (h : Spells .expression target ts)
    (statement : Text) : (∃ name, targetName statement target = .ok name) ∨
      ∃ label, targetName statement target = .error (.notAName statement label) := by
  cases h with
  | name => exact .inl ⟨_, rfl⟩
  | comparison _ _ hop =>
    rcases op_of_mem_comparators hop with rfl | rfl | rfl | rfl <;> exact .inr ⟨_, rfl⟩
  | _ => exact .inr ⟨_, rfl⟩

/-- To find the name of a statement is safe: what is no name is reported by its label. -/
theorem safe_target {target : Node} {ts : List Token} (h : Spells .expression target ts)
    {statement : Text} (hstatement : statement = "CREATE" ∨ statement = "SET") :
    Safe (fun _ => True) (ofExcept (targetName statement target)) .none := by
  rcases targetName_spelled h statement with ⟨name, hname⟩ | ⟨label, hlabel⟩
  · rw [hname]
    exact .of_end fun _ hs => .ok trivial hs
  · rw [hlabel]
    refine safe_fail ?_
    simpa [Fault.isRegular] using hstatement

variable (terms : Terms) (passes : Nat)

/-- The end of an evaluation is a proper moment if the evaluation is safe. -/
theorem Safe.evaluated {P : Value → Prop} {depth : Nat} {node : Node}
    (h : Safe P (evaluate terms passes (depth + 1) node)
      (Course.ofParts terms (evaluate terms passes depth) (Course.ofEvaluation terms passes depth)
        passes node))
    (hvalue : ∀ v, P v → node.isExpression → v.isProper) :
    Safe P (evaluate terms passes (depth + 1) node)
      (Course.ofEvaluation terms passes (depth + 1) node) := by
  intro s hs
  obtain ⟨hend, hmoments⟩ := h s hs
  refine ⟨hend, List.forall_mem_append.mpr ⟨hmoments, fun moment hmem => ?_⟩⟩
  rw [List.mem_singleton.mp hmem]
  exact ⟨hs, hend.mono hvalue⟩

/-- To be nested too deep is a regular cause to stop. -/
theorem safe_tooDeep {P : Value → Prop} (node : Node) :
    Safe P (evaluate terms passes 0 node) (Course.ofEvaluation terms passes 0 node) := by
  refine fun s hs => ⟨.error rfl hs, fun moment hmem => ?_⟩
  rw [List.mem_singleton.mp hmem]
  exact ⟨hs, .error rfl hs⟩

/-- **A spelled expression yields a proper value**, or stops for a regular cause. Induction on the
nesting limit, with one case for each way to spell an expression. -/
theorem safe_expression {depth : Nat} {node : Node} {ts : List Token}
    (h : Spells .expression node ts) :
    Safe (fun v => v.isProper) (evaluate terms passes depth node)
      (Course.ofEvaluation terms passes depth node) := by
  have charts := charts_safe terms
  induction depth generalizing node ts with
  | zero => exact safe_tooDeep terms passes node
  | succ depth ih =>
    refine Safe.evaluated terms passes ?_ fun _ hv _ => hv
    have hbinary {left right : Node} {op : BinaryOp} {as bs : List Token} {line : Option Nat}
        (hleft : Spells .expression left as) (hop : op.kind?.isSome)
        (hright : Spells .expression right bs) :
        Safe (fun v => v.isProper) (evaluate terms passes (depth + 1) (.binary line left op right))
          (Course.ofParts terms (evaluate terms passes depth)
            (Course.ofEvaluation terms passes depth) passes (.binary line left op right)) := by
      refine charts.bind (ih hleft) fun a _ => ?_
      exact charts.bind_none (ih hright) fun b _ => safe_ofExcept (op.yields_apply hop a b)
    cases h with
    | text | integer | float => exact charts.pure rfl
    | name => exact safe_lookUp _
    | combine _ _ ha _ hb | remove _ _ hb _ ha | duplicate _ _ ha hb | split _ _ ha hb =>
      exact hbinary ha rfl hb
    | comparison _ ha hop _ hb =>
      refine hbinary ha ?_ hb
      rcases op_of_mem_comparators hop with rfl | rfl | rfl | rfl <;> rfl
    | reply => exact safe_ask terms
    | code _ _ ha => exact charts.bind_none (ih ha) fun v _ => safe_ofExcept (Value.yields_ord v)
    | character _ _ ha =>
      exact charts.bind_none (ih ha) fun v _ => safe_ofExcept (Value.yields_chr v)

/-- The statements of a block are safe to run, in a scope of their own. -/
def SafeBlock (depth : Nat) (block : Node) : Prop :=
  Safe (fun _ => True) (Course.enter terms (evaluate terms passes depth) block)
    (Course.ofBlock terms (evaluate terms passes depth) (Course.ofEvaluation terms passes depth)
      block)

/-- A spelled block is safe if spelled statements are. -/
theorem safeBlock_spelled {depth : Nat} {block : Node} {ts : List Token}
    (h : Spells .block block ts)
    (ih : ∀ {node : Node} {us : List Token}, Spells .statement node us →
      Safe (fun _ => True) (evaluate terms passes depth node)
        (Course.ofEvaluation terms passes depth node)) :
    SafeBlock terms passes depth block := by
  cases h with
  | block _ hs =>
    refine (charts_safe terms).enter rfl fun statement hmem => ?_
    obtain ⟨us, hus⟩ := hs.statement_of_mem hmem
    exact ih hus

/-- A branch is safe if its condition is spelled and both alternatives are safe. -/
theorem safe_branch {depth : Nat} {line : Option Nat} {condition thenBlock elseBlock : Node}
    {ts : List Token} (hcondition : Spells .expression condition ts)
    (hthen : SafeBlock terms passes depth thenBlock)
    (helse : SafeBlock terms passes depth elseBlock.orEmpty) :
    Safe (fun _ => True)
      (evaluate terms passes (depth + 1) (.branch line condition thenBlock elseBlock))
      (Course.ofParts terms (evaluate terms passes depth) (Course.ofEvaluation terms passes depth)
        passes (.branch line condition thenBlock elseBlock)) := by
  have charts := charts_safe terms
  refine charts.bind (safe_expression terms passes hcondition) fun v _ => ?_
  have hblock : SafeBlock terms passes depth
      (if v.isTruthy then thenBlock else elseBlock.orEmpty) := by
    split
    · exact hthen
    · exact helse
  exact charts.bind_none hblock fun _ _ => charts.pure trivial

/-- **A spelled statement is safe.** Induction on the nesting limit, with one case for each
statement. The statements of a block are statements again. -/
theorem safe_statement {depth : Nat} {node : Node} {ts : List Token}
    (h : Spells .statement node ts) :
    Safe (fun _ => True) (evaluate terms passes depth node)
      (Course.ofEvaluation terms passes depth node) := by
  have charts := charts_safe terms
  induction depth generalizing node ts with
  | zero => exact safe_tooDeep terms passes node
  | succ depth ih =>
    have hexpression {e : Node} {us : List Token} (he : Spells .expression e us) :
        Safe (fun v => v.isProper) (evaluate terms passes depth e)
          (Course.ofEvaluation terms passes depth e) := safe_expression terms passes he
    have hform : node.isExpression = false := by
      cases h <;> rfl
    refine Safe.evaluated terms passes ?_ fun _ _ he => absurd (hform.symm.trans he) nofun
    cases h with
    | shout _ _ ha =>
      refine charts.bind_none (hexpression ha) fun v _ => ?_
      refine charts.bind_none (safe_ofExcept (Value.yields_format v)) fun text _ => ?_
      exact charts.bind_none (safe_print terms text) fun _ _ => charts.pure trivial
    | create _ _ hn _ _ ha =>
      refine charts.bind_none (hexpression ha) fun v hv => ?_
      refine charts.bind_none (safe_target hn (.inl rfl)) fun name _ => ?_
      exact charts.bind_none (safe_define name hv) fun _ _ => charts.pure trivial
    | assign _ _ hn _ _ ha =>
      refine charts.bind_none (hexpression ha) fun v hv => ?_
      refine charts.bind_none (safe_target hn (.inr rfl)) fun name _ => ?_
      exact charts.bind_none (safe_assign name hv) fun _ _ => charts.pure trivial
    | branch _ _ ha _ hb =>
      -- An alternative that is left out is a block without statements.
      have helse : SafeBlock terms passes depth Node.missing.orEmpty := charts.enter rfl nofun
      exact safe_branch terms passes ha (safeBlock_spelled terms passes hb ih) helse
    | branchElse _ _ ha _ hb _ hc =>
      have helse := safeBlock_spelled terms passes hc ih
      rw [← hc.orEmpty_eq] at helse
      exact safe_branch terms passes ha (safeBlock_spelled terms passes hb ih) helse
    | loop _ _ ha _ hb =>
      have hloop := charts.loop (hexpression ha) (safeBlock_spelled terms passes hb ih) passes
      exact charts.bind_none hloop fun _ _ => charts.pure trivial

end Casting

/-! ## Whole runs -/

open Casting

/-- No regular fault speaks of something unknown. -/
theorem Fault.message_not_unknown {f : Fault} (h : f.isRegular) :
    ¬("Unknown " : Text) <+: f.message := by
  intro hunknown
  -- Of two beginnings of one text, one is a beginning of the other.
  have hopening {p t : Text} (hp : ¬p <+: "Unknown " ∧ ¬("Unknown " : Text) <+: p) :
      ¬("Unknown " : Text) <+: p ++ t := fun h =>
    (List.prefix_or_prefix_of_prefix (List.prefix_append p t) h).elim hp.1 hp.2
  cases f with
  | unknownOperator | unknownUnary | unknownNode | noStatements | noKind => cases h
  | notAName statement label =>
    have hstatement : statement = "CREATE" ∨ statement = "SET" := by
      simpa [isRegular] using h
    simp only [message, List.append_assoc] at hunknown
    rcases hstatement with rfl | rfl
    · exact hopening (by decide) hunknown
    · exact hopening (by decide) hunknown
  | unprintable flaw =>
    simp only [message, Utf8.Unencodable.message, List.append_assoc] at hunknown
    exact hopening (by decide) hunknown
  | undefined | notNumbers | noCharacter | tooLongToWrite | tooLongToRead =>
    simp only [message, List.append_assoc] at hunknown
    exact hopening (by decide) hunknown
  | notOneCharacter | notACode | divisionByZero | stepLimit | tooDeep | integerTooLarge
  | quotientTooLarge | outOfReplies => exact absurd hunknown (by decide)

/-- The faults for nodes without a meaning are reported as "Unknown", and regular ones are not. -/
theorem Fault.report_not_unknown {f : Fault} (h : f.isRegular) :
    ¬("Runtime Error: Unknown " : Text) <+: f.report := by
  have hsplit : ("Runtime Error: Unknown " : Text) = "Runtime Error: " ++ "Unknown " := by decide
  unfold report
  rw [hsplit, List.prefix_append_right_inj]
  cases f with
  | tooDeep => decide
  | _ => exact message_not_unknown h

/-- Nothing is reported before the run has ended. -/
theorem trace_after_spell (terms : Terms) (passes : Nat) (spell : List Node) (start : RunState) :
    ∃ events, (∀ text, Event.error text ∉ events) ∧
      ((spell.forM (execute terms passes)).after start).trace.toList =
        start.trace.toList ++ events := by
  obtain ⟨limit, silence, utf8⟩ := terms
  have hle : ∀ m ∈ limit, limit.getD 0 ≤ m := by
    rintro m rfl
    exact Int.le_refl m
  obtain ⟨hextends, -⟩ :=
    (congruence_cut hle silence utf8 passes).spell spell (fun _ => trivial) start
  have htrace : ((spell.forM (execute ⟨limit, silence, utf8⟩ passes)).after start).trace =
      ((spell.forM (executeWith (tally ⟨limit, silence, utf8⟩) ⟨limit, silence, utf8⟩
        passes)).after start).trace := by
    unfold after
    rw [spell_tally]
    cases spell.forM (execute ⟨limit, silence, utf8⟩ passes) start <;> rfl
  rw [htrace]
  exact hextends.trace

/-- What a run reports is the fault that has ended it. -/
theorem fault_of_reported {terms : Terms} {passes : Nat} {spell : List Node} {start : RunState}
    (hstart : start.trace = #[]) {text : Text}
    (h : .error text ∈ (run terms passes spell start).2.trace.toList) :
    ∃ f s, spell.forM (execute terms passes) start = .error (.fault f) s ∧ text = f.report := by
  obtain ⟨events, hno, htrace⟩ := trace_after_spell terms passes spell start
  rw [hstart] at htrace
  have hnone : .error text ∉ ((spell.forM (execute terms passes)).after start).trace.toList := by
    rw [htrace]
    exact hno text
  unfold run at h
  unfold after at hnone
  cases hend : spell.forM (execute terms passes) start with
  | ok a s =>
    rw [hend] at h hnone
    exact absurd h hnone
  | error e s =>
    rw [hend] at h hnone
    cases e with
    | outOfPasses | waiting => exact absurd h hnone
    | fault f =>
      -- Nothing was reported on the way, so the text is in the last event.
      have hmem : Event.error text ∈ (s.trace.push (.error f.report)).toList := h
      rw [Array.toList_push, List.mem_append, List.mem_singleton] at hmem
      rcases hmem with hmem | heq
      · exact absurd hmem hnone
      · exact ⟨f, s, rfl, Event.error.inj heq⟩

/-- **A spell that has been read stays in its domain.** Started with proper values in all scopes, it
goes through proper moments only: whatever is evaluated finds proper values in all scopes and leaves
such behind, and an expression yields a proper value. What the run reports in the end is a regular
fault, and never that something is unknown. Nothing is divided by zero: a divisor that is zero is a
fault of its own, and no other divisor becomes zero when it is rounded. -/
theorem spell_stays_in_domain {lenient : Bool} {source : Text} {spell : List Node}
    (hread : readSpell lenient source = .ok spell) {scopes : Scopes} (hscopes : scopes.Proper)
    (terms : Terms) (passes : Nat) (replies : List (Option Text)) :
    let start : RunState := ⟨scopes, replies, 0, #[]⟩
    let result := run terms passes spell start
    (∀ moment ∈ Course.ofSpell terms passes spell start, moment.Proper) ∧
    result.2.scopes.Proper ∧
    (∀ text, .error text ∈ result.2.trace.toList →
      (∃ f : Fault, f.isRegular ∧ text = f.report) ∧
        ¬("Runtime Error: Unknown " : Text) <+: text) ∧
    ∀ x y : Number, (x.div y = .error .divisionByZero ↔ y.isZero) ∧
      ∀ q, x.div y = .ok q → ∀ z, y.toBinary64 = .ok z → z.isZero = false := by
  intro start result
  obtain ⟨ts, -, hparse⟩ := readSpell_eq_ok.mp hread
  obtain ⟨us, hus⟩ := parse_spelled hparse
  have hsafe := (charts_safe terms).spell spell fun node hnode => by
    obtain ⟨vs, hvs⟩ := hus.statement_of_mem hnode
    exact safe_statement terms passes hvs
  obtain ⟨hend, hmoments⟩ := hsafe start hscopes
  refine ⟨hmoments, ?_, fun text htext => ?_, fun x y => ⟨Number.div_eq_divisionByZero_iff, ?_⟩⟩
  · rw [scopes_run]
    unfold after
    generalize spell.forM (execute terms passes) start = result at hend
    cases hend with
    | ok _ hs => exact hs
    | error _ hs => exact hs
  · -- A report is that of the fault with which the spell has stopped, and that one is regular.
    obtain ⟨f, s, hfault, rfl⟩ := fault_of_reported rfl htext
    rw [hfault] at hend
    cases hend with
    | error he _ => exact ⟨⟨f, he, rfl⟩, Fault.report_not_unknown he⟩
  · intro q hq z hz
    refine Number.isZero_toBinary64 hz (Bool.eq_false_iff.mpr fun hzero => ?_)
    rw [Number.div_eq_divisionByZero_iff.mpr hzero] at hq
    cases hq

/-- A division by a name. -/
def sharing : Text :=
  "cast only if the spell y is true do else do shout the many cries of split the power of 1 y times
  done"

/-- What the text is read as. -/
def sharingSpell : List Node :=
  [.branch (some 1) (.name (some 1) "y") (.block (some 1) [])
    (.block (some 1) [.shout (some 1)
      (.binary (some 1) (.literal (some 1) (.int 1) (some "INTEGER")) .divide
        (.name (some 1) "y"))])]

/-- A truth value counts as a number, and the division by it fails as it should. -/
theorem sharing_fails_within_domain :
    let scopes := Scopes.single (Scope.ofList [("y", .bool false)])
    let terms : Terms := ⟨some 2, .fault, true⟩
    readSpell false sharing = .ok sharingSpell ∧ scopes.Proper ∧
    (∀ moment ∈ Course.ofSpell terms 1 sharingSpell ⟨scopes, [], 0, #[]⟩, moment.Proper) ∧
    .error "Runtime Error: Division by zero is forbidden magic!" ∈
      (run terms 1 sharingSpell ⟨scopes, [], 0, #[]⟩).2.trace.toList := by
  intro scopes terms
  have hread : readSpell false sharing = .ok sharingSpell := rfl
  have hproper : scopes.Proper := by decide
  exact ⟨hread, hproper, (spell_stays_in_domain hread hproper terms 1 []).1, by decide⟩

end Grimoire
