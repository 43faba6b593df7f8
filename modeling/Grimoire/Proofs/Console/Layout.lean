import Mathlib.Data.List.Induction
import Grimoire.Proofs.Console.Brackets
import Grimoire.Proofs.Token.Lines
import Grimoire.Proofs.Tree.Parsing
import Grimoire.Proofs.Tree.Relining

/-!
# Spells laid out in lines

A spell may be cut into lines in many ways. Some places are between two statements of the spell, and
the others are inside one of them (`between_or_inside`). As long as no line ends inside a statement
other than a branch or a loop, or right after a word that opens a block, the blocks that the lines
open, counted line by line, are the blocks that are open in the spell. So the count comes back to
zero at the end of a line exactly where a statement ends.
-/

namespace Grimoire

open Rule Grammar

/-! ## Places in a spell -/

/-- The place between the tokens `us` and `vs` of a spell is between two tokens of its statement
`node`. -/
def FallsInside (spell : List Node) (us vs : List Token) (node : Node) : Prop :=
  ∃ ss ss' lead mid mid' trail, spell = ss ++ node :: ss' ∧ us = lead ++ mid ∧ vs = mid' ++ trail ∧
    mid ≠ [] ∧ mid' ≠ [] ∧ Spells .program (.program ss) lead ∧
    Spells .statement node (mid ++ mid') ∧ Spells .program (.program ss') trail

/-- The place between the tokens is between two statements of a spell, or at one of its ends. -/
def FallsBetween (ss ss' : List Node) (us vs : List Token) : Prop :=
  Spells .program (.program ss) us ∧ Spells .program (.program ss') vs

/-- The place between the tokens comes directly after the first word of a branch or a loop. -/
def AfterOpening (us vs : List Token) : Prop := ∃ us' t, us = us' ++ [t] ∧ OpensCompound (t :: vs)

/-- A spelled statement is a spelled spell. -/
theorem Spells.program_single {s : Node} {ts : List Token} (h : Spells .statement s ts) :
    Spells .program (.program [s]) ts := by
  rw [← List.append_nil ts]
  exact .cons h .nil

/-- No tokens spell no statements. -/
theorem Spells.eq_nil_of_program {ss : List Node} (h : Spells .program (.program ss) []) :
    ss = [] := by
  generalize hts : ([] : List Token) = ts at h
  cases h with
  | nil => rfl
  | cons hs _ =>
    obtain ⟨t, us, rfl, -⟩ := hs.statement_head
    cases hts

theorem FallsInside.ne_nil {spell : List Node} {us vs : List Token} {node : Node}
    (h : FallsInside spell us vs node) : us ≠ [] ∧ vs ≠ [] := by
  obtain ⟨ss, ss', lead, mid, mid', trail, -, rfl, rfl, hmid, hmid', -⟩ := h
  exact ⟨List.append_ne_nil_of_right_ne_nil lead hmid,
    List.append_ne_nil_of_left_ne_nil hmid' trail⟩

/-- A place inside a statement stays inside it if other statements come first. -/
theorem FallsInside.prepend {ss ss' : List Node} {lead us vs : List Token} {node : Node}
    (h : FallsInside ss' us vs node) (hlead : Spells .program (.program ss) lead) :
    FallsInside (ss ++ ss') (lead ++ us) vs node := by
  obtain ⟨as, bs, lead', mid, mid', trail, rfl, rfl, rfl, hmid, hmid', has, hnode, hbs⟩ := h
  refine ⟨ss ++ as, bs, lead ++ lead', mid, mid', trail, ?_, ?_, rfl, hmid, hmid', ?_, hnode, hbs⟩
  · rw [List.append_assoc]
  · rw [List.append_assoc]
  · exact hlead.program_append has

/-- Conversely, a place after some statements of a spell is not inside of them. -/
theorem FallsInside.strip {ss ss' : List Node} {lead us vs : List Token} {node : Node}
    (h : FallsInside (ss ++ ss') (lead ++ us) vs node)
    (hlead : Spells .program (.program ss) lead) : FallsInside ss' us vs node := by
  induction ss generalizing lead with
  | nil =>
    cases hlead
    exact h
  | cons s ss ih =>
    cases hlead with
    | @cons ts rest _ _ hs hss =>
      refine ih ?_ hss
      obtain ⟨as, bs, lead', mid, mid', trail, hspell, hus, rfl, hmid, hmid', has, hnode, hbs⟩ := h
      cases has with
      | nil =>
        -- The first statement would go on after its end.
        have heq : ts ++ (rest ++ us ++ mid') = (mid ++ mid') ++ [] := by
          rw [List.nil_append] at hus
          rw [← hus]
          simp
        have hwhole := hs.statement_end hnode heq
        have hlength := congrArg List.length hwhole
        have htotal := congrArg List.length hus
        have hpos := List.length_pos_iff.mpr hmid'
        simp only [List.length_append, List.length_nil] at hlength htotal
        omega
      | @cons ts' rest' _ as hs' has =>
        rw [List.cons_append, List.cons_append] at hspell
        obtain ⟨rfl, hrest⟩ := List.cons.inj hspell
        rw [List.append_assoc, List.append_assoc] at hus
        obtain rfl := hs.statement_end hs' hus
        have hmids := List.append_cancel_left hus
        exact ⟨as, bs, rest', mid, mid', trail, hrest, hmids, rfl, hmid, hmid', has, hnode, hbs⟩

/-- A place after an opening word stays there if other tokens come first. -/
theorem AfterOpening.prepend {us vs : List Token} (h : AfterOpening us vs) (lead : List Token) :
    AfterOpening (lead ++ us) vs := by
  obtain ⟨us', t, rfl, hopens⟩ := h
  exact ⟨lead ++ us', t, (List.append_assoc _ _ _).symm, hopens⟩

/-- A place in a spell is between two statements or inside one of them. -/
theorem between_or_inside {spell : List Node} {us vs : List Token}
    (h : Spells .program (.program spell) (us ++ vs)) :
    (∃ ss ss', spell = ss ++ ss' ∧ FallsBetween ss ss' us vs) ∨
      ∃ node, FallsInside spell us vs node := by
  induction spell generalizing us with
  | nil =>
    cases hts : us ++ vs with
    | cons => rw [hts] at h; cases h
    | nil =>
      obtain ⟨rfl, rfl⟩ := List.append_eq_nil_iff.mp hts
      exact .inl ⟨[], [], rfl, .nil, .nil⟩
  | cons s spell ih =>
    generalize hts : us ++ vs = ts at h
    cases h with
    | @cons as bs _ _ hs hspell =>
      rcases List.append_eq_append_iff.mp hts with ⟨cs, rfl, rfl⟩ | ⟨cs, rfl, rfl⟩
      · -- The place is inside the first statement, or at one of its ends.
        by_cases hus : us = []
        · subst hus
          exact .inl ⟨[], s :: spell, rfl, .nil, .cons hs hspell⟩
        by_cases hcs : cs = []
        · subst hcs
          rw [List.append_nil] at hs
          exact .inl ⟨[s], spell, rfl, hs.program_single, hspell⟩
        · exact .inr ⟨s, [], spell, [], us, cs, bs, rfl, rfl, rfl, hus, hcs, .nil, hs, hspell⟩
      · rcases ih hspell with ⟨ss, ss', rfl, hss, hss'⟩ | ⟨node, hinside⟩
        · exact .inl ⟨s :: ss, ss', rfl, .cons hs hss, hss'⟩
        · exact .inr ⟨node, hinside.prepend hs.program_single⟩

/-! ## Open blocks at a place in a spell -/

/-- How many blocks are open at the place between two lists of tokens. -/
def openBetween (us vs : List Token) : Int := balance (us ++ [vs.headD (Token.eof Mark.start)])

/-- The blocks of two lists in a row add up. -/
theorem openBetween_append (us ws vs : List Token) :
    openBetween (us ++ ws) vs = openBetween us (ws ++ vs) + openBetween ws vs := by
  unfold openBetween
  rw [List.append_assoc, balance_append, headD_append]

/-- Between two statements no block is open. -/
theorem FallsBetween.openBetween_eq {ss ss' : List Node} {us vs : List Token}
    (h : FallsBetween ss ss' us vs) (hplain : (Node.program (ss ++ ss')).Plain) :
    openBetween us vs = 0 := by
  have hleft := hplain.of_subset (List.subset_append_left ss ss')
  exact (h.1.balanced_and_wrapped hleft).1.total _

/-- Inside a branch or a loop a block is open. -/
theorem FallsInside.openBetween_pos {spell : List Node} {us vs : List Token} {node : Node}
    (h : FallsInside spell us vs node) (hform : node.isCompound)
    (hplain : (Node.program spell).Plain) : 0 < openBetween us vs := by
  obtain ⟨ss, ss', lead, mid, mid', trail, rfl, rfl, rfl, hmid, hmid', hss, hnode, -⟩ := h
  have hleft := hplain.of_subset (List.subset_append_left ss (node :: ss'))
  have hinner : node.Plain := hplain.of_child (List.mem_append_right ss List.mem_cons_self)
  have hlead : openBetween lead (mid ++ (mid' ++ trail)) = 0 :=
    (hss.balanced_and_wrapped hleft).1.total _
  have hinside := ((hnode.balanced_and_wrapped hinner).2 hform).inside hmid hmid'
    (trail.headD (Token.eof Mark.start))
  rw [openBetween_append, hlead, Int.zero_add]
  unfold openBetween
  rw [headD_append]
  exact hinside

/-- Before the end of the spell no token opens a block. -/
theorem Token.balance_eof_ne_one {t n : Token} (h : n.kind = .eof) : t.balance n ≠ 1 := by
  have htext : n.text? = none := if_pos h
  unfold Token.balance
  rw [htext]
  split
  · decide
  · rw [if_neg (fun h => nomatch h.2), if_neg (fun h => nomatch h.2)]
    split <;> decide

/-- The blocks that a line opens can be counted without knowing what comes after the line, unless
the line ends right after a word that opens a block. -/
theorem balance_line {spell : List Node} {us row vs : List Token}
    (h : Spells .program (.program spell) (us ++ row ++ vs)) (hplain : (Node.program spell).Plain)
    (hbreak : ∀ node, FallsInside spell (us ++ row) vs node → ¬AfterOpening (us ++ row) vs)
    {n : Token} (hn : n.kind = .eof) : balance (row ++ [n]) = openBetween row vs := by
  unfold openBetween
  by_cases hrow : row = []
  · rw [hrow]
    rfl
  obtain ⟨row', t, rfl⟩ : ∃ row' t, row = row' ++ [t] :=
    ⟨_, _, (List.dropLast_append_getLast hrow).symm⟩
  rw [balance_concat, balance_concat]
  refine congrArg (balance (row' ++ [t]) + ·) ?_
  refine Token.balance_eq_of_ne_one (Token.balance_eof_ne_one hn) fun hone => ?_
  have heof : t.balance (Token.eof Mark.start) ≠ 1 := Token.balance_eof_ne_one rfl
  rcases between_or_inside h with ⟨ss, ss', rfl, hbetween⟩ | ⟨node, hinside⟩
  · -- At the end of a statement all blocks are closed, whatever comes next.
    have hleft := hplain.of_subset (List.subset_append_left ss ss')
    have htotal := (hbetween.1.balanced_and_wrapped hleft).1.total
    have hnext := htotal (vs.headD (Token.eof Mark.start))
    have hend := htotal (Token.eof Mark.start)
    rw [← List.append_assoc, balance_concat] at hnext hend
    omega
  · -- Inside a statement the last token could only open a block as the first word of a branch or a
    -- loop, after which no line ends.
    have hopens := (h.balanced_and_wrapped hplain).1.opening (us ++ row') t vs (by simp)
      (Token.eof Mark.start) heof hone
    exact hbreak node hinside ⟨us ++ row', t, (List.append_assoc _ _ _).symm, hopens⟩

/-! ## Lines -/

/-- What a token counts for does not depend on where it stands. -/
theorem Token.balance_down (t n : Token) (pos line : Nat) :
    (t.down pos line).balance (n.down pos line) = t.balance n := rfl

/-- The same of a list of tokens. -/
theorem balance_map_down (ts : List Token) (pos line : Nat) :
    balance (ts.map (Token.down pos line)) = balance ts := by
  induction ts with
  | nil => rfl
  | cons t ts ih =>
    cases ts with
    | nil => rfl
    | cons u ts =>
      show (t.down pos line).balance (u.down pos line) + balance ((u :: ts).map _) = _
      rw [ih, Token.balance_down]
      rfl

/-- The blocks that a line opens, wherever it stands. -/
theorem lineBalance_eq {l : Text} {ts : Tokens} (h : tokenize l = .ok ts) (pos line : Nat) :
    ∃ n : Token, n.kind = .eof ∧
      lineBalance l = balance ((lineTokens l).map (Token.down pos line) ++ [n]) := by
  refine ⟨(Token.eof ts.stop).down pos line, rfl, ?_⟩
  have hmap : (lineTokens l).map (Token.down pos line) ++ [(Token.eof ts.stop).down pos line] =
      (lineTokens l ++ [Token.eof ts.stop]).map (Token.down pos line) := by
    rw [List.map_append, List.map_singleton]
  rw [hmap, balance_map_down]
  unfold lineBalance lineTokens
  rw [h]
  rfl

/-- Lines further down the text have the same tokens at other places. -/
theorem tokensBelow_move (ls : List Text) (pos line : Nat) :
    (tokensBelow pos line ls).map (Token.move (· - pos) (· - line)) = tokensBelow 0 0 ls := by
  have hdown := tokensBelow_down ls 0 0 pos line
  have hmove (t : Token) : (t.down pos line).move (· - pos) (· - line) = t := by
    simp [Token.move, Token.down, Mark.down]
  rw [Nat.zero_add, Nat.zero_add] at hdown
  rw [hdown, List.map_map]
  exact (List.map_congr_left fun t _ => hmove t).trans (List.map_id _)

/-- The lines `before` are the first ones of `ls`. Their tokens are `us`, and those of the other
lines are `vs`. -/
structure Above (pos line : Nat) (ls before : List Text) (us vs : List Token) : Prop where
  lines : before <+: ls
  above : us = tokensBelow pos line before
  whole : us ++ vs = tokensBelow pos line ls

/-- At the end of each line there is a place in the text. -/
theorem Above.exists (pos line : Nat) (before after : List Text) :
    ∃ vs, Above pos line (before ++ after) before (tokensBelow pos line before) vs := by
  obtain ⟨pos', line', happend⟩ := tokensBelow_append pos line before
  exact ⟨_, List.prefix_append _ _, rfl, (happend after).symm⟩

/-- The lines are a layout of the spell: each of them can be cut into tokens by itself, all of their
tokens spell the spell, and no line ends inside a statement other than a branch or a loop, or right
after a word that opens a block. -/
structure Laid (pos line : Nat) (ls : List Text) (spell : List Node) : Prop where
  tokens : ∀ l ∈ ls, ∃ ts, tokenize l = .ok ts
  fits : Fits .program nestingLimit (.program spell) (tokensBelow pos line ls)
  plain : (Node.program spell).Plain
  breaks : ∀ {before us vs node}, Above pos line ls before us vs → FallsInside spell us vs node →
    node.isCompound ∧ ¬AfterOpening us vs

namespace Laid

variable {pos line : Nat} {ls before : List Text} {spell : List Node} {us vs : List Token}

/-- The blocks that the lines open, counted line by line, are those that are open in the spell. -/
theorem sum_lineBalance (h : Laid pos line ls spell) (habove : Above pos line ls before us vs) :
    (before.map lineBalance).sum = openBetween us vs := by
  induction before using List.reverseRecOn generalizing us vs with
  | nil =>
    obtain rfl : us = [] := habove.above
    rfl
  | append_singleton before l ih =>
    obtain ⟨hlines, rfl, hwhole⟩ := habove
    obtain ⟨pos', line', happend⟩ := tokensBelow_append pos line before
    have hrow : tokensBelow pos line (before ++ [l]) =
        tokensBelow pos line before ++ (lineTokens l).map (Token.down pos' line') := by
      rw [happend, tokensBelow, tokensBelow, List.append_nil]
    have hbefore : Above pos line ls before (tokensBelow pos line before)
        ((lineTokens l).map (Token.down pos' line') ++ vs) :=
      ⟨(List.prefix_append _ _).trans hlines, rfl, by rw [← hwhole, hrow, List.append_assoc]⟩
    -- The count of the line does not see the line after it.
    obtain ⟨ts, hts⟩ := h.tokens l (hlines.subset (by simp))
    obtain ⟨n, hn, hline⟩ := lineBalance_eq hts pos' line'
    have hspells := h.fits.1
    rw [← hwhole, hrow] at hspells
    have hrest := balance_line hspells h.plain (fun node hinside => ?_) hn
    · rw [List.map_append, List.sum_append, List.map_singleton, List.sum_singleton, hrow,
        openBetween_append, ih hbefore, hline, hrest]
    · rw [← hrow] at hinside ⊢
      exact (h.breaks ⟨hlines, rfl, hwhole⟩ hinside).2

/-- At the end of a line all blocks are closed if and only if no statement goes on. -/
theorem between_or_open (h : Laid pos line ls spell) (habove : Above pos line ls before us vs) :
    (∃ ss ss', spell = ss ++ ss' ∧ FallsBetween ss ss' us vs ∧ (before.map lineBalance).sum = 0) ∨
      0 < (before.map lineBalance).sum := by
  rw [h.sum_lineBalance habove]
  have hspells := h.fits.1
  rw [← habove.whole] at hspells
  rcases between_or_inside hspells with ⟨ss, ss', rfl, hbetween⟩ | ⟨node, hinside⟩
  · exact .inl ⟨ss, ss', rfl, hbetween, hbetween.openBetween_eq h.plain⟩
  · exact .inr (hinside.openBetween_pos (h.breaks habove hinside).1 h.plain)

/-- Some of the lines are taken away at the end of a statement. -/
theorem drop {after : List Text} {ss ss' : List Node}
    (h : Laid pos line (before ++ after) (ss ++ ss'))
    (habove : Above pos line (before ++ after) before us vs)
    (hbetween : FallsBetween ss ss' us vs) :
    ∃ pos' line', Laid pos' line' after ss' := by
  obtain ⟨-, rfl, hwhole⟩ := habove
  obtain ⟨pos', line', happend⟩ := tokensBelow_append pos line before
  obtain rfl : vs = tokensBelow pos' line' after := by
    rw [happend] at hwhole
    exact List.append_cancel_left hwhole
  refine ⟨pos', line', ?_, ⟨hbetween.2, ?_⟩, ?_, ?_⟩
  · exact fun l hl => h.tokens l (List.mem_append_right before hl)
  · have hlevels := Node.levelsOfAll_le.mp h.fits.2
    exact Node.levelsOfAll_le.mpr fun s hs => hlevels s (List.mem_append_right ss hs)
  · exact h.plain.of_subset (List.subset_append_right ss ss')
  · -- A break in the lines that are left is a break in all of the lines.
    intro before' us' vs' node habove' hinside
    have hlonger : Above pos line (before ++ after) (before ++ before')
        (tokensBelow pos line before ++ us') vs' := by
      refine ⟨(List.prefix_append_right_inj before).mpr habove'.lines, ?_, ?_⟩
      · rw [happend, habove'.above]
      · rw [List.append_assoc, habove'.whole, happend]
    have hbreak := h.breaks hlonger (hinside.prepend hbetween.1)
    exact ⟨hbreak.1, fun hafter => hbreak.2 (hafter.prepend _)⟩

/-- A line without tokens can be taken away. -/
theorem tail_of_blank {l : Text} (h : Laid pos line (l :: ls) spell) (hl : lineTokens l = []) :
    ∃ pos' line', Laid pos' line' ls spell := by
  have habove : Above pos line ([l] ++ ls) [l] [] (tokensBelow pos line (l :: ls)) := by
    refine ⟨List.prefix_append _ _, ?_, rfl⟩
    rw [tokensBelow, tokensBelow, hl]
    rfl
  have hlaid : Laid pos line ([l] ++ ls) ([] ++ spell) := h
  exact hlaid.drop habove ⟨.nil, h.fits.1⟩

/-- The lines of whole statements are read as these statements, with other line numbers. -/
theorem read {ss ss' : List Node} (h : Laid pos line ls (ss ++ ss'))
    (habove : Above pos line ls before us vs) (hbetween : FallsBetween ss ss' us vs)
    (hne : before ≠ []) :
    ∃ f, readSpell false (Text.join "\n" before ++ "\n") = .ok (ss.map (Node.mapLine f)) := by
  obtain ⟨hlines, rfl, -⟩ := habove
  obtain ⟨stop, htokens⟩ := tokenize_lines hne fun l hl => h.tokens l (hlines.subset hl)
  have hspells := hbetween.1.move (· - pos) (· - line)
  rw [tokensBelow_move, Node.mapLine, Node.mapLineOfAll_eq_map] at hspells
  have hlevels : (Node.program (ss.map (Node.mapLine (· - line)))).levels ≤ nestingLimit := by
    have hall := Node.levelsOfAll_le.mp h.fits.2
    refine Node.levelsOfAll_le.mpr fun s hs => ?_
    obtain ⟨s, hmem, rfl⟩ := List.mem_map.mp hs
    rw [Node.levels_mapLine]
    exact hall s (List.mem_append_left ss' hmem)
  have hkinds := (Scanner.tokenize_eq_ok.mp htokens).kind_ne_eof
  exact ⟨(· - line),
    readSpell_eq_ok.mpr ⟨_, htokens, (parse_strict_eq_ok hkinds).mpr ⟨hspells, hlevels⟩⟩⟩

end Laid

/-! ## Texts -/

/-- A line break in a text of several lines: `us` are the tokens above it, and `vs` those below. -/
def LineBreak (lines : List Text) (us vs : List Token) : Prop :=
  ∃ before after stop stop', before ≠ [] ∧ after ≠ [] ∧ lines = before ++ after ∧
    tokenize (Text.join "\n" before ++ "\n") = .ok ⟨us, stop⟩ ∧
    tokenize (Text.join "\n" lines) = .ok ⟨us ++ vs, stop'⟩

/-- The lines of a spell that has been read are a layout of it, if they break where they may. -/
theorem laid_of_read {lines : List Text} {spell : List Node}
    (hread : readSpell false (Text.join "\n" lines) = .ok spell)
    (hplain : (Node.program spell).Plain) (htokens : ∀ l ∈ lines, ∃ ts, tokenize l = .ok ts)
    (hbreaks : ∀ us vs node, LineBreak lines us vs → FallsInside spell us vs node →
      node.isCompound ∧ ¬AfterOpening us vs) : Laid 0 0 lines spell := by
  obtain ⟨⟨body, stop⟩, hts, hparse⟩ := readSpell_eq_ok.mp hread
  obtain rfl : body = tokensBelow 0 0 lines := tokenize_join htokens hts
  have hkinds := (Scanner.tokenize_eq_ok.mp hts).kind_ne_eof
  refine ⟨htokens, (parse_strict_eq_ok hkinds).mp hparse, hplain, ?_⟩
  intro before us vs node habove hinside
  refine hbreaks us vs node ?_ hinside
  obtain ⟨⟨after, rfl⟩, rfl, hwhole⟩ := habove
  -- There are tokens on both sides, so there are lines on both sides.
  have hbefore : before ≠ [] := by
    intro hnil
    rw [hnil] at hinside
    exact hinside.ne_nil.1 rfl
  have hafter : after ≠ [] := by
    intro hnil
    rw [hnil, List.append_nil] at hwhole
    exact hinside.ne_nil.2 (List.self_eq_append_right.mp hwhole.symm)
  obtain ⟨stop', habove⟩ := tokenize_lines hbefore fun l hl => htokens l (List.mem_append_left _ hl)
  rw [← hwhole] at hts
  exact ⟨before, after, stop', stop, hbefore, hafter, rfl, habove, hts⟩

end Grimoire
