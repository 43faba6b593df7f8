import Grimoire.Proofs.Run.BlockScope
import Grimoire.Proofs.Run.Domain

/-!
# How runs end

What can be said of a run of any spell, a tree put together by hand included.

* **`run_reports`**: a run that fails reports its fault once, as the last of all that is seen of it,
  and a run that does not fail reports nothing. Where silence is not waited out, it never waits.
* **`replies_run`**: each request takes one reply, as long as there are any, and replies are taken
  in no other way.
* **`binds_globals_run`**: however a run ends, names that were bound are bound after it. Their
  values may have changed, but nothing takes a name away.
-/

namespace Grimoire
namespace Casting

variable {α β : Type}

/-! ## Castings that do not wait -/

/-- The casting does not end waiting for a reply. -/
def NeverWaits (x : Casting α) : Prop := ∀ s s', x s ≠ .error .waiting s'

theorem NeverWaits.bind {x : Casting α} {f : α → Casting β} (hx : NeverWaits x)
    (hf : ∀ a, NeverWaits (f a)) : NeverWaits (x >>= f) := by
  intro s s' heq
  cases hxs : x s with
  | ok a s₁ =>
    rw [bind_of_ok hxs] at heq
    exact hf a s₁ s' heq
  | error e s₁ =>
    rw [bind_of_error hxs] at heq
    cases heq
    exact hx s s' hxs

theorem NeverWaits.inNewScope {x : Casting α} (hx : NeverWaits x) : NeverWaits (inNewScope x) := by
  intro s s' heq
  unfold Casting.inNewScope at heq
  cases hxs : x { s with scopes := s.scopes.push } with
  | ok a s₁ =>
    rw [hxs] at heq
    cases heq
  | error e s₁ =>
    rw [hxs] at heq
    cases heq
    exact hx _ s₁ hxs

theorem neverWaits_ofExcept (r : Except Fault α) : NeverWaits (ofExcept r) := by
  intro s s' heq
  rw [ofExcept_apply] at heq
  cases r <;> cases heq

/-- Of all that evaluations do by themselves, only asking can wait. -/
theorem Primitive.neverWaits {asks : Prop} {terms : Terms} (hsilence : terms.silence ≠ .wait)
    {x : Casting α} (h : Primitive asks terms x) : NeverWaits x := by
  intro s s' heq
  cases h with
  | fail f => cases heq
  | print text =>
    rw [print_apply] at heq
    split at heq <;> cases heq
  | ask =>
    rw [ask_apply] at heq
    cases hreplies : s.replies with
    | cons reply replies =>
      rw [hreplies] at heq
      exact neverWaits_ofExcept _ _ _ heq
    | nil =>
      rw [hreplies] at heq
      cases hterms : terms.silence with
      | fault =>
        rw [hterms] at heq
        cases heq
      | blank =>
        rw [hterms] at heq
        exact neverWaits_ofExcept _ _ _ heq
      | wait => exact hsilence hterms
  | lookUp name =>
    rw [lookUp_apply] at heq
    split at heq <;> cases heq
  | define name value => cases heq
  | assign name value =>
    rw [assign_apply] at heq
    split at heq <;> cases heq

theorem neverWaits_tick (terms : Terms) : NeverWaits (tick terms) := by
  intro s s' heq
  unfold tick at heq
  cases hlimit : terms.limit with
  | none =>
    rw [hlimit] at heq
    cases heq
  | some m =>
    rw [hlimit] at heq
    have hcounted : (if m < (s.steps + 1 : Nat) then fail .stepLimit else pure () : Casting Unit)
        { s with steps := s.steps + 1 } = .error .waiting s' := heq
    split at hcounted <;> cases hcounted

/-- Unless silence means waiting, not to wait is a congruence. -/
theorem congruence_neverWaits {terms : Terms} (hsilence : terms.silence ≠ .wait) (passes : Nat) :
    Congruence True (fun {_} _ x => NeverWaits x) (tick terms) (tick terms) terms terms passes
      passes where
  silence _ := rfl
  utf8 := rfl
  pure _ := nofun
  bind := .bind
  primitive h := h.neverWaits hsilence
  tick := neverWaits_tick terms
  inNewScope := .inNewScope
  loop {condition _ body _} hcondition hbody :=
    @whileTrue_congr (fun {_} _ x => NeverWaits x) nofun .bind nofun condition _
      (do tick terms; body) _ hcondition ((neverWaits_tick terms).bind fun _ => hbody) passes

/-! ## Replies that are taken -/

/-- Each request on the way has taken a reply, as long as there were any. -/
def Takes (s t : RunState) : Prop :=
  ∃ n, t.replies = s.replies.drop n ∧ t.requests = s.requests + n

theorem Takes.of_eq {s t : RunState} (hreplies : t.replies = s.replies)
    (hrequests : t.requests = s.requests) : Takes s t := ⟨0, hreplies, hrequests⟩

theorem Takes.trans {s t u : RunState} (h : Takes s t) (h' : Takes t u) : Takes s u := by
  obtain ⟨n, hreplies, hrequests⟩ := h
  obtain ⟨n', hreplies', hrequests'⟩ := h'
  refine ⟨n + n', ?_, ?_⟩
  · rw [hreplies', hreplies, List.drop_drop]
  · rw [hrequests', hrequests, Nat.add_assoc]

/-- Of all events only requests are counted. -/
theorem requests_push (s : RunState) (e : Event) :
    ({ s with trace := s.trace.push e } : RunState).requests =
      s.requests + if e = .request then 1 else 0 := by
  unfold RunState.requests
  rw [Array.count_push]
  simp

/-- After a request the first reply is taken, whatever it was. -/
theorem after_ask (terms : Terms) (s : RunState) :
    (ask terms).after s =
      { s with replies := s.replies.drop 1, trace := s.trace.push .request } := by
  obtain ⟨scopes, replies, steps, trace⟩ := s
  unfold after
  rw [ask_apply]
  cases replies with
  | nil => cases terms.silence <;> rfl
  | cons reply replies =>
    cases hreply : Value.ofReply reply <;> simp only [ofExcept_apply, hreply] <;> rfl

/-- As many replies are taken as requests are recorded, where there are any. -/
theorem Primitive.takes {asks : Prop} {terms : Terms} {x : Casting α} (h : Primitive asks terms x)
    (s : RunState) : Takes s (x.after s) := by
  cases h with
  | fail f => exact .of_eq rfl rfl
  | print text =>
    unfold after
    rw [print_apply]
    cases if terms.utf8 then Utf8.unencodable? text else none with
    | some flaw => exact .of_eq rfl rfl
    | none => exact .of_eq rfl (requests_push s (.log text))
  | ask =>
    rw [after_ask]
    exact ⟨1, rfl, requests_push s .request⟩
  | lookUp name =>
    unfold after
    rw [lookUp_apply]
    cases s.scopes.get? name <;> exact .of_eq rfl rfl
  | define name value => exact .of_eq rfl rfl
  | assign name value =>
    unfold after
    rw [assign_apply]
    cases s.scopes.assign? name value <;> exact .of_eq rfl rfl

theorem takes_bind {x : Casting α} {f : α → Casting β} (hx : ∀ s, Takes s (x.after s))
    (hf : ∀ a s, Takes s ((f a).after s)) (s : RunState) : Takes s ((x >>= f).after s) := by
  have hfirst := hx s
  cases hxs : x s with
  | ok a s₁ =>
    rw [after_of_ok hxs] at hfirst
    rw [after_bind_of_ok hxs]
    exact hfirst.trans (hf a s₁)
  | error e s₁ =>
    rw [after_of_error hxs] at hfirst
    rw [after_bind_of_error hxs]
    exact hfirst

theorem takes_tick (terms : Terms) (s : RunState) : Takes s ((tick terms).after s) := by
  unfold tick
  cases terms.limit with
  | none => exact .of_eq rfl rfl
  | some m =>
    show Takes s (after (if m < (s.steps + 1 : Nat) then fail .stepLimit else pure ())
      { s with steps := s.steps + 1 })
    split <;> exact .of_eq rfl rfl

theorem congruence_takes (terms : Terms) (passes : Nat) :
    Congruence True (fun {_} _ x => ∀ s, Takes s (x.after s)) (tick terms) (tick terms) terms terms
      passes passes where
  silence _ := rfl
  utf8 := rfl
  pure _ _ := .of_eq rfl rfl
  bind := takes_bind
  primitive h := h.takes
  tick := takes_tick terms
  inNewScope hx s := by
    rw [after_inNewScope]
    exact hx { s with scopes := s.scopes.push }
  loop {condition _ body _} hcondition hbody :=
    @whileTrue_congr (fun {_} _ x => ∀ s, Takes s (x.after s)) (fun _ => .of_eq rfl rfl) takes_bind
      (fun _ => .of_eq rfl rfl) condition _ (do tick terms; body) _ hcondition
      (takes_bind (takes_tick terms) fun _ => hbody) passes

/-! ## Names that stay bound -/

/-- No scope loses a name. -/
def Grow (s t : Scopes) : Prop :=
  List.Forall₂ (fun a b : Scope => ∀ name, a.binds name → b.binds name) s.toList t.toList

/-- To set a name in a scope unbinds nothing. -/
theorem grow_set (scope : Scope) (name : Text) (value : Value) (n : Text) (h : scope.binds n) :
    (scope.set name value).binds n := by
  unfold Scope.binds at h ⊢
  rw [Scope.get?_set]
  split
  · rfl
  · exact h

instance : IsPreorder Scopes Grow where
  refl s := List.forall₂_same.mpr fun _ _ _ => id
  trans s t u h h' := by
    unfold Grow at h h' ⊢
    generalize s.toList = chain at h
    generalize t.toList = chain' at h h'
    generalize u.toList = chain'' at h'
    induction h generalizing chain'' with
    | nil => exact h'
    | cons hscope _ ih =>
      cases h' with
      | cons hscope' hrest' => exact .cons (fun n hn => hscope' n (hscope n hn)) (ih _ hrest')

/-- When innermost scopes are left, nothing is unbound in the others. -/
theorem Grow.pop {s t : Scopes} (h : Grow s t) : Grow s.pop t.pop := by
  obtain ⟨inner, outer⟩ := s
  obtain ⟨inner', outer'⟩ := t
  cases h with
  | cons hinner houter =>
    cases houter with
    | nil => exact .cons hinner .nil
    | cons hscope hrest => exact .cons hscope hrest

/-- To set a name in a chain of scopes unbinds nothing. -/
theorem grow_of_assignIn? {name : Text} {value : Value} {chain chain' : List Scope}
    (h : Scopes.assignIn? name value chain = some chain') :
    List.Forall₂ (fun a b : Scope => ∀ n, a.binds n → b.binds n) chain chain' := by
  induction chain generalizing chain' with
  | nil => cases h
  | cons scope rest ih =>
    rw [Scopes.assignIn?] at h
    split at h
    · cases h
      exact .cons (grow_set scope name value) (List.forall₂_same.mpr fun _ _ _ => id)
    · obtain ⟨rest', hrest, rfl⟩ := Option.map_eq_some_iff.mp h
      exact .cons (fun _ => id) (ih hrest)

/-- What an evaluation does by itself unbinds nothing. -/
theorem Primitive.keeps_grow {asks : Prop} {terms : Terms} {x : Casting α}
    (h : Primitive asks terms x) : Keeps Grow x := by
  cases h with
  | fail f => exact (still_fail f).keeps
  | print text => exact (still_print terms text).keeps
  | ask => exact (still_ask terms).keeps
  | lookUp name => exact (still_lookUp name).keeps
  | define name value =>
    exact fun s => .cons (grow_set s.scopes.inner name value)
      (List.forall₂_same.mpr fun _ _ _ => id)
  | assign name value =>
    intro s
    unfold after
    rw [assign_apply]
    cases hassigned : s.scopes.assign? name value with
    | none => exact refl s.scopes
    | some scopes => exact grow_of_assignIn? (Scopes.assignIn?_of_assign? hassigned)

/-- To unbind nothing is a congruence: a block leaves its own scope only. -/
theorem congruence_keeps_grow (terms : Terms) (passes : Nat) :
    Congruence True (fun {_} _ x => Keeps Grow x) (tick terms) (tick terms) terms terms passes
      passes where
  silence _ := rfl
  utf8 := rfl
  pure a := (still_pure a).keeps
  bind := .bind
  primitive h := h.keeps_grow
  tick := (still_tick terms).keeps
  inNewScope hx s := by
    rw [after_inNewScope]
    exact (hx { s with scopes := s.scopes.push }).pop
  loop hcondition hbody :=
    .whileTrue hcondition ((still_tick terms).keeps.bind fun _ => hbody) passes

end Casting

open Casting

/-! ## Whole runs -/

/-- How a run ends, and all that is seen of it: the fault that ends it is reported at the end, and
nothing else is reported. -/
inductive Reports : Ending → List Event → Prop where
  | success {events : List Event} (h : ∀ text, .error text ∉ events) : Reports .success events
  | failure {events : List Event} (h : ∀ text, .error text ∉ events) (fault : Fault) :
      Reports .failure (events ++ [.error fault.report])
  | outOfPasses {events : List Event} (h : ∀ text, .error text ∉ events) :
      Reports .outOfPasses events

/-- **A run reports the fault that ends it, once and last**, and nothing else. -/
theorem run_reports {terms : Terms} (hsilence : terms.silence ≠ .wait) (passes : Nat)
    (spell : List Node) {start : RunState} (hstart : start.trace = #[]) :
    Reports (run terms passes spell start).1 (run terms passes spell start).2.trace.toList := by
  obtain ⟨events, hno, htrace⟩ := trace_after_spell terms passes spell start
  have hwaits := (congruence_neverWaits hsilence passes).spell spell (fun _ => trivial) start
  rw [hstart, Array.toList_empty, List.nil_append] at htrace
  unfold run
  cases hend : spell.forM (execute terms passes) start with
  | ok a s =>
    rw [after_of_ok hend] at htrace
    show Reports .success s.trace.toList
    rw [htrace]
    exact .success hno
  | error e s =>
    rw [after_of_error hend] at htrace
    cases e with
    | fault f =>
      show Reports .failure (s.trace.push (.error f.report)).toList
      rw [Array.toList_push, htrace]
      exact .failure hno f
    | outOfPasses =>
      show Reports .outOfPasses s.trace.toList
      rw [htrace]
      exact .outOfPasses hno
    -- silence does not mean waiting
    | waiting => exact absurd hend (hwaits s)

/-- A run has taken as many replies as it has made requests, as long as there were any. -/
theorem replies_run (terms : Terms) (passes : Nat) (spell : List Node) (globals : Scope)
    (replies : List (Option Text)) :
    let s := (run terms passes spell (.start globals replies)).2
    s.replies = replies.drop s.requests := by
  intro s
  have htakes : Takes (.start globals replies)
      ((spell.forM (execute terms passes)).after (.start globals replies)) :=
    (congruence_takes terms passes).spell spell (fun _ => trivial) _
  -- The report at the end takes no reply.
  have hend : Takes (.start globals replies) s := by
    refine htakes.trans ?_
    unfold s run after
    cases spell.forM (execute terms passes) (.start globals replies) with
    | ok a s' => exact .of_eq rfl rfl
    | error e s' =>
      cases e with
      | fault f => exact .of_eq rfl (requests_push s' (.error f.report))
      | outOfPasses | waiting => exact .of_eq rfl rfl
  obtain ⟨n, hreplies, hrequests⟩ := hend
  have hn : s.requests = n := hrequests.trans (Nat.zero_add n)
  rw [hn]
  exact hreplies

/-- Names that are bound before a run are bound after it. -/
theorem binds_globals_run (terms : Terms) (passes : Nat) (spell : List Node) (globals : Scope)
    (replies : List (Option Text)) {name : Text} (h : globals.binds name) :
    (run terms passes spell (.start globals replies)).2.globals.binds name := by
  have hgrow : Grow (Scopes.single globals)
      (run terms passes spell (.start globals replies)).2.scopes := by
    rw [scopes_run]
    exact (congruence_keeps_grow terms passes).spell spell (fun _ => trivial)
      (.start globals replies)
  generalize (run terms passes spell (.start globals replies)).2 = s at hgrow
  obtain ⟨⟨inner, outer⟩, replies', steps, trace⟩ := s
  cases hgrow with
  | cons hinner houter =>
    cases houter with
    | nil => exact hinner name h

end Grimoire
