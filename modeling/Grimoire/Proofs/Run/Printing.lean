import Grimoire.Proofs.Run.StepLimit

/-!
# Printing only what can be encoded

A terminal can print texts that have a UTF-8 form, and a run on such terms fails where it would
print another one. Where all that is printed has such a form, the terms make no difference
(**`run_utf8`**): the run on the wider terms says by itself whether it can be had on the narrower.
-/

namespace Grimoire

/-- All lines on the trace have a UTF-8 form. -/
def RunState.Encodable (s : RunState) : Prop :=
  ∀ text, .log text ∈ s.trace.toList → Utf8.unencodable? text = none

/-- If all lines can be encoded in the end, they can on the way. -/
theorem RunState.Extends.encodable {s s' : RunState} (h : s.Extends s') (hs' : s'.Encodable) :
    s.Encodable := by
  obtain ⟨events, -, htrace⟩ := h.trace
  intro text hmem
  refine hs' text ?_
  rw [htrace]
  exact List.mem_append_left events hmem

namespace Casting

open RunState (Extends)

variable {α β : Type}

/-- If all that the first casting prints has a UTF-8 form, the second one does the same. -/
def PrintsAlike (x y : Casting α) : Prop :=
  ∀ s, Extends s (x.after s) ∧ ((x.after s).Encodable → y s = x s)

namespace PrintsAlike

/-- What does not print is alike with itself. -/
theorem of_extends {x : Casting α} (h : ∀ s, Extends s (x.after s)) : PrintsAlike x x :=
  fun s => ⟨h s, fun _ => rfl⟩

/-- What is printed first is on the trace when the second casting begins, and stays there. -/
theorem bind {x y : Casting α} {f g : α → Casting β} (hxy : PrintsAlike x y)
    (hfg : ∀ a, PrintsAlike (f a) (g a)) : PrintsAlike (x >>= f) (y >>= g) := by
  intro s
  obtain ⟨hextends, hsame⟩ := hxy s
  cases hx : x s with
  | error e s₁ =>
    rw [after_of_error hx, hx] at hsame
    rw [after_of_error hx] at hextends
    rw [after_bind_of_error hx, bind_of_error hx]
    exact ⟨hextends, fun hencodable => bind_of_error (hsame hencodable)⟩
  | ok a s₁ =>
    rw [after_of_ok hx, hx] at hsame
    rw [after_of_ok hx] at hextends
    rw [after_bind_of_ok hx, bind_of_ok hx]
    obtain ⟨hextends', hsame'⟩ := hfg a s₁
    refine ⟨hextends.trans hextends', fun hencodable => ?_⟩
    rw [bind_of_ok (hsame (hextends'.encodable hencodable))]
    exact hsame' hencodable

theorem inNewScope {x y : Casting α} (h : PrintsAlike x y) :
    PrintsAlike (inNewScope x) (inNewScope y) := by
  intro s
  obtain ⟨hextends, hsame⟩ := h { s with scopes := s.scopes.push }
  rw [after_inNewScope]
  refine ⟨⟨hextends.steps, hextends.trace⟩, fun hencodable => ?_⟩
  unfold Casting.inNewScope
  rw [hsame hencodable]

/-- A line that can be encoded is printed on both terms. -/
theorem print {limit : Option Int} {silence : Silence} (text : Text) :
    PrintsAlike (print ⟨limit, silence, false⟩ text) (print ⟨limit, silence, true⟩ text) := by
  intro s
  have hprimitive : Primitive False ⟨limit, silence, false⟩
      (Casting.print ⟨limit, silence, false⟩ text) := .print text
  refine ⟨hprimitive.extends_after s, fun hencodable => ?_⟩
  have htext : Utf8.unencodable? text = none := hencodable text (by simp [after, print_apply])
  rw [print_apply, print_apply]
  simp [htext]

end PrintsAlike

/-- To count a step takes nothing back. -/
theorem extends_tick (terms : Terms) (s : RunState) : Extends s ((tick terms).after s) := by
  cases hlimit : terms.limit with
  | none =>
    have hfree : tick terms = pure () := by
      unfold tick
      rw [hlimit]
    rw [hfree]
    exact .refl s
  | some m =>
    rw [← tally_of_limited hlimit, after_tally]
    exact .tick s

theorem congruence_printsAlike (limit : Option Int) (silence : Silence) (passes : Nat) :
    CongruenceOn True (fun _ => True) PrintsAlike (tick ⟨limit, silence, false⟩)
      (tick ⟨limit, silence, true⟩) ⟨limit, silence, false⟩ ⟨limit, silence, true⟩ passes
      passes where
  silence _ := rfl
  print := .print
  pure _ := .of_extends .refl
  bind := .bind
  primitive h := .of_extends h.primitive.extends_after
  tick := .of_extends (extends_tick _)
  inNewScope := .inNewScope
  loop hcondition hbody :=
    whileTrue_congr (R := PrintsAlike) (.of_extends .refl) .bind (.of_extends .refl) hcondition
      (.bind (.of_extends (extends_tick _)) fun _ => hbody) passes

end Casting

open Casting

/-- **A run whose lines can all be encoded** is the same where only such lines can be printed. -/
theorem run_utf8 {limit : Option Int} {silence : Silence} {passes : Nat} {spell : List Node}
    {start : RunState} (h : (run ⟨limit, silence, false⟩ passes spell start).2.Encodable) :
    run ⟨limit, silence, true⟩ passes spell start =
      run ⟨limit, silence, false⟩ passes spell start := by
  -- what is reported in the end is a line of another sort
  have hafter : ((spell.forM (execute ⟨limit, silence, false⟩ passes)).after start).Encodable := by
    unfold run at h
    unfold after
    cases hend : spell.forM (execute ⟨limit, silence, false⟩ passes) start with
    | ok a s =>
      rw [hend] at h
      exact h
    | error e s =>
      rw [hend] at h
      cases e with
      | fault f =>
        intro text hmem
        refine h text ?_
        show _ ∈ (s.trace.push (.error f.report)).toList
        rw [Array.toList_push]
        exact List.mem_append_left _ hmem
      | outOfPasses | waiting => exact h
  have hsame := ((congruence_printsAlike limit silence passes).spell spell (fun _ => trivial)
    (fun _ _ => trivial) start).2 hafter
  unfold run
  exact congrArg conclude hsame

end Grimoire
