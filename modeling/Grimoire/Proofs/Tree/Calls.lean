import Grimoire.Proofs.Tree.Completion
import Grimoire.Proofs.Tree.Conduct

/-!
# Any calls of the rules

The rules of the grammar can be called one by one, in any order, and also after some of them have
failed. Whatever is called, the cursor stays on its tokens.

* **`steady`** is the conduct of all rules: the cursor moves on over tokens, a rule that succeeds
  leaves as many blocks open as it has found, and one that fails leaves no fewer and names the token
  before the cursor. It is lawful, and so the grammar obeys it.
* **`Rule.Takes`** says that a rule takes at least one token whenever it succeeds. One part of a
  phrase is enough for that.
* **`Rule.Loops`** is a loop of the grammar without any bound on the number of its rounds. Both
  loops come to an end, because each of their rounds takes a token.
* **`cursor_stays_on_its_tokens`** puts this together for any calls.
-/

namespace Grimoire

open Rule Grammar

/-! ## The conduct of all rules -/

/-- A cursor moves on over tokens. Where a rule succeeds, as many blocks are open as before; where
it fails, no fewer, and a refusal is about the token before the cursor. -/
def steady : Conduct where
  moves c c' := ∃ ts, c.Passes ts c'
  fails c failure c' := (∃ ts, c.Moves ts c') ∧ c.blockDepth ≤ c'.blockDepth ∧
    ∀ e, failure = .refused e → e.token = c'.current ∧ e.pos = c'.pos

/-- One step passes a token, or none at the end of the spell. -/
theorem Cursor.exists_passes_next (c : Cursor) : ∃ ts, c.Passes ts c.next := by
  cases hend : c.atEnd with
  | true =>
    have hnext : c.next = c := by
      unfold Cursor.next
      rw [if_pos hend]
    exact ⟨[], Cursor.passes_nil.mpr hnext⟩
  | false => exact ⟨[c.current], (Cursor.passes_singleton (of_decide_eq_false hend)).mpr ⟨rfl, rfl⟩⟩

/-- To move over tokens, and to fail at the token where the cursor stands, is a lawful conduct. -/
theorem lawful_steady : steady.Lawful where
  stay c := ⟨[], Cursor.passes_nil.mpr rfl⟩
  moves_trans := by
    rintro c c' c'' ⟨ts, hts⟩ ⟨us, hus⟩
    exact ⟨ts ++ us, Cursor.passes_append.mpr ⟨c', hts, hus⟩⟩
  fails_trans := by
    rintro c c' failure c'' ⟨ts, hts⟩ ⟨⟨us, hus⟩, hdepth, hrefused⟩
    exact ⟨⟨ts ++ us, hts.moves.append hus⟩, hts.blockDepth ▸ hdepth, hrefused⟩
  take := Cursor.exists_passes_next
  refuse c cause := by
    refine ⟨⟨[], .refl c⟩, Nat.le_refl _, fun e he => ?_⟩
    cases he
    exact ⟨rfl, rfl⟩
  tooDeep c := ⟨⟨[], .refl c⟩, Nat.le_refl _, nofun⟩
  tooLong c _ _ := by
    obtain ⟨ts, hts⟩ := c.exists_passes_next
    exact ⟨⟨ts, hts.moves⟩, Nat.le_of_eq hts.blockDepth.symm, nofun⟩
  closed := by
    rintro c c' ⟨ts, hts⟩
    exact ⟨ts, hts.rest, hts.stop, hts.pos, congrArg (· - 1) hts.blockDepth⟩
  unclosed := by
    rintro c failure c' ⟨⟨ts, hts⟩, hdepth, hrefused⟩
    exact ⟨⟨ts, hts.rest, hts.stop, hts.pos⟩, Nat.le_of_succ_le hdepth, hrefused⟩

namespace Rule

variable {α β : Type}

/-- To take a token of a given kind, or to refuse another one, obeys. -/
theorem Conduct.Lawful.eat {p : Conduct} (h : p.Lawful) (kind : Text) : Obeys p (eat kind) := by
  intro c
  unfold Rule.eat
  rw [get_bind]
  split
  · exact h.advance c
  · exact h.refuse_obeys _ c

/-- A steady rule that succeeds has passed over tokens. -/
theorem Obeys.passes {x : Rule α} (hx : Obeys steady x) {c c' : Cursor} {a : α}
    (h : x c = .ok a c') : ∃ ts, c.Passes ts c' := by
  have hallows := hx c
  rw [h] at hallows
  cases hallows with
  | ok hmoves => exact hmoves

/-- A steady rule that fails does so at the token where it stands. -/
theorem Obeys.fails {x : Rule α} (hx : Obeys steady x) {c c' : Cursor} {failure : ParseFailure}
    (h : x c = .error failure c') : steady.fails c failure c' := by
  have hallows := hx c
  rw [h] at hallows
  cases hallows with
  | error hfails => exact hfails

/-! ## Rules that take tokens -/

/-- The rule takes at least one token whenever it succeeds. -/
def Takes (x : Rule α) : Prop := ∀ c a c', x c = .ok a c' → c.pos < c'.pos

namespace Takes

variable {x : Rule α} {f : α → Rule β}

/-- If the first of two rules takes a token, both together do. -/
theorem bind (hx : Takes x) (hf : ∀ a, Obeys steady (f a)) : Takes (x >>= f) := by
  intro c b c'' h
  obtain ⟨a, c', hxc, hfc⟩ := bind_eq_ok.mp h
  obtain ⟨ts, hts⟩ := (hf a).passes hfc
  have hlt := hx c a c' hxc
  have hpos := hts.pos
  omega

/-- A rule takes a token if the items it reads are never empty. -/
theorem of_reads {item : α → List Token → Prop} (hx : Reads x item)
    (hitem : ∀ a ts, item a ts → ts ≠ []) : Takes x := by
  intro c a c' h
  obtain ⟨ts, hts, ha⟩ := (hx c a c').mp h
  have hne := List.length_pos_of_ne_nil (hitem a ts ha)
  have hpos := hts.pos
  omega

theorem eatWord (word : Text) : Takes (eatWord word) :=
  of_reads (reads_eatWord word) fun _ _ h => h.2 ▸ List.cons_ne_nil _ _

/-- A phrase with any words takes tokens. -/
theorem eatPhrase {phrase : Text} (h : phrase.words ≠ []) : Takes (eatPhrase phrase) := by
  unfold Rule.eatPhrase
  cases hwords : phrase.words with
  | nil => exact absurd hwords h
  | cons word words => exact (eatWord word).bind fun _ => lawful_steady.eatWords words

/-- What starts with words takes them. -/
theorem led {phrase : Text} {f : Unit → Rule β} (h : phrase.words ≠ [])
    (hf : ∀ u, Obeys steady (f u)) : Takes (Rule.eatPhrase phrase >>= f) :=
  (eatPhrase h).bind hf

end Takes
end Rule

namespace Grammar

theorem takes_expression (d : Nat) : Takes (expression d) :=
  .of_reads (reads_expression d) fun e ts h => by
    obtain ⟨hspells, -⟩ := h
    cases hspells <;> exact List.cons_ne_nil _ _

theorem takes_statement (d : Nat) : Takes (statement d) :=
  .of_reads (reads_statement d) fun s ts h => by
    obtain ⟨hspells, -⟩ := h
    cases hspells <;> exact List.cons_ne_nil _ _

/-- The rules for phrases are steady with the expressions of any depth. -/
theorem obeys_phraseRule {rule : Option Nat → Rule Node → Rule Node}
    (h : rule ∈ phrases.map Prod.snd) (d : Nat) (line : Option Nat) :
    Obeys steady (rule line (expression d)) := by
  obtain ⟨⟨word, _⟩, hmem, rfl⟩ := List.mem_map.mp h
  exact obeys_phrase lawful_steady (obeys_expression lawful_steady d) hmem line

/-- The rule of a statement that is called by itself does what it does for a strict reader. -/
theorem orderRule_kept {rule : Option Nat → Rule Node → Rule Node → Rule Node}
    (h : rule ∈ orders.map Prod.snd) (lenient : Bool) (d : Nat) (line : Option Nat) :
    rule line (expression d) (kept (statement? lenient d)) =
      rule line (expression d) (statement d) := by
  obtain ⟨⟨word, _⟩, hmem, rfl⟩ := List.mem_map.mp h
  exact order_kept lenient d hmem line (expression d)

/-- The rules for statements are steady with the statements of any depth, in both modes. -/
theorem obeys_orderRule {rule : Option Nat → Rule Node → Rule Node → Rule Node}
    (h : rule ∈ orders.map Prod.snd) (lenient : Bool) (d : Nat) (line : Option Nat) :
    Obeys steady (rule line (expression d) (kept (statement? lenient d))) := by
  rw [orderRule_kept h]
  obtain ⟨⟨word, _⟩, hmem, rfl⟩ := List.mem_map.mp h
  exact obeys_order lawful_steady (obeys_statement lawful_steady d) hmem line

/-- A phrase takes the words that it goes on with. A comparison has none, but it has a left side. -/
theorem takes_phraseRule {rule : Option Nat → Rule Node → Rule Node}
    (h : rule ∈ phrases.map Prod.snd) (d : Nat) (line : Option Nat) :
    Takes (rule line (expression d)) := by
  have hL := lawful_steady
  have hx := obeys_expression hL d
  simp only [phrases, List.map_cons, List.map_nil, List.mem_cons, List.not_mem_nil, or_false] at h
  rcases h with rfl | rfl | rfl | rfl | rfl | rfl | rfl | rfl
  · exact .led (by decide) fun _ => hL.bind hx fun a =>
      hL.operand _ hx fun b => .binary line a .add b
  · exact .led (by decide) fun _ => hL.bind hx fun b =>
      hL.operand _ hx fun a => .binary line a .subtract b
  · exact .led (by decide) fun _ => hL.bind hx fun a => hL.bind hx fun b =>
      hL.bind (hL.eatPhrase _) fun _ => hL.pure (Node.binary line a .multiply b)
  · exact .led (by decide) fun _ => hL.bind hx fun a => hL.bind hx fun b =>
      hL.bind (hL.eatPhrase _) fun _ => hL.pure (Node.binary line a .divide b)
  · exact .led (by decide) fun _ => hL.pure (Node.ask line)
  · exact .led (by decide) fun _ => hL.bind hx fun a => hL.pure (Node.unary line .ord a)
  · exact .led (by decide) fun _ => hL.bind hx fun a => hL.pure (Node.unary line .chr a)
  · exact (takes_expression d).bind fun a => hL.bind (obeys_comparator hL) fun op =>
      hL.bind hx fun b => hL.pure (Node.binary line a op b)

/-- The rule for a statement takes its first word at least. -/
theorem takes_orderRule {rule : Option Nat → Rule Node → Rule Node → Rule Node}
    (h : rule ∈ orders.map Prod.snd) (lenient : Bool) (d : Nat) (line : Option Nat) :
    Takes (rule line (expression d) (kept (statement? lenient d))) := by
  rw [orderRule_kept h]
  have hL := lawful_steady
  have hx := obeys_expression hL d
  have hs := obeys_statement hL d
  -- All five statements start with words.
  simp only [orders, List.map_cons, List.map_nil, List.mem_cons, List.not_mem_nil, or_false] at h
  rcases h with rfl | rfl | rfl | rfl | rfl
  · exact .led (by decide) fun _ => hL.bind hx fun a => hL.pure (Node.shout line a)
  · exact .led (by decide) fun _ => hL.bind (obeys_spellName hL _ hx) fun n =>
      hL.operand _ hx (.create line n)
  · exact .led (by decide) fun _ => hL.bind (obeys_spellName hL _ hx) fun n =>
      hL.operand _ hx (.assign line n)
  · exact .led (by decide) fun _ => hL.bind hx fun a => hL.bind (hL.eatPhrase _) fun _ =>
      obeys_branchEnd hL hs (.branch line a)
  · exact .led (by decide) fun _ => hL.bind hx fun a => hL.bind (hL.eatPhrase _) fun _ =>
      obeys_loopEnd hL hs (.loop line a)

/-- A block takes the word `do` at least. -/
theorem takes_block (lenient : Bool) (d : Nat) :
    Takes (block (kept (statement? lenient d))) := by
  rw [block_kept]
  exact (Takes.eatWord "do").bind fun token =>
    have hmany := lawful_steady.many (obeys_statement lawful_steady d) closes
    lawful_steady.bracketed hmany (Node.block (some token.mark.line))

theorem takes_spellName (after : Text) (d : Nat) : Takes (spellName after (expression d)) := by
  intro c a c' h
  unfold spellName at h
  rw [get_bind] at h
  split at h
  · exact takes_expression d c a c' h
  · exact absurd h refuse_ne_ok

/-- A statement that either reader finds is one that the strict reader finds. -/
theorem statement_of_statement? {lenient : Bool} {c c' : Cursor} {node : Node}
    (h : statement? lenient nestingLimit c = .ok (some node) c') :
    statement nestingLimit c = .ok node c' := by
  rw [statement?_eq, get_bind] at h
  split at h
  · cases h
  · obtain ⟨s, c₁, hs, h⟩ := bind_eq_ok.mp h
    cases h
    exact hs

/-- Reading a whole spell, the conduct of the rules is kept up also where nesting that is too deep
becomes a refusal. -/
theorem obeys_program (lenient : Bool) : Obeys steady (program lenient) := by
  intro c
  have hstatements := obeys_statements lawful_steady lenient (c.rest.length + 1)
  unfold program
  cases hc : statements lenient (c.rest.length + 1) c with
  | ok nodes c' => exact .ok (hstatements.passes hc)
  | error failure c' =>
    obtain ⟨hmoves, hdepth, hrefused⟩ := hstatements.fails hc
    cases failure with
    | refused | tooLong => exact .error ⟨hmoves, hdepth, hrefused⟩
    | tooDeep =>
      refine .error ⟨hmoves, hdepth, fun e he => ?_⟩
      cases he
      exact ⟨rfl, rfl⟩

end Grammar

/-! ## Loops that end -/

namespace Rule

/-- A node before those that are read afterwards. -/
def prepend (node : Node) :
    EStateM.Result ParseFailure Cursor (List Node) → EStateM.Result ParseFailure Cursor (List Node)
  | .ok nodes c => .ok (node :: nodes) c
  | .error failure c => .error failure c

/-- `Loops done round c result`: from `c` on, round after round reads a node, until the cursor is
`done` or a round yields nothing or fails, and this comes to the `result`. Nothing bounds the number
of rounds. -/
inductive Loops (done : Cursor → Bool) (round : Rule (Option Node)) :
    Cursor → EStateM.Result ParseFailure Cursor (List Node) → Prop where
  | done {c : Cursor} (h : done c = true) : Loops done round c (.ok [] c)
  | nothing {c c' : Cursor} (h : done c = false) (hround : round c = .ok none c') :
      Loops done round c (.ok [] c')
  | failure {c c' : Cursor} {failure : ParseFailure} (h : done c = false)
      (hround : round c = .error failure c') : Loops done round c (.error failure c')
  | more {c c' : Cursor} {node : Node} {result : EStateM.Result ParseFailure Cursor (List Node)}
      (h : done c = false) (hround : round c = .ok (some node) c')
      (hrest : Loops done round c' result) : Loops done round c (prepend node result)

/-- To put a node in front of what is read does not change the course of the reading. -/
theorem bind_prepend (x : Rule (List Node)) (node : Node) (c : Cursor) :
    (do let nodes ← x; return node :: nodes : Rule (List Node)) c = prepend node (x c) := by
  cases hx : x c with
  | ok nodes c' => exact bind_of_ok hx
  | error failure c' => exact bind_of_error hx

end Rule

namespace Grammar

/-- Each round takes a token, so fuel for each token is enough to come to the end. It is enough that
the rounds do so where `p` holds, if `p` holds again after each of them. -/
theorem loops_manyAtMost {p : Cursor → Prop} {done : Cursor → Bool} {rule : Rule Node}
    (hrule : ∀ c node c', p c → rule c = .ok node c' → c'.rest.length < c.rest.length ∧ p c')
    {fuel : Nat} {c : Cursor} (hc : p c) (hfuel : c.rest.length < fuel) :
    Loops done (do return some (← rule)) c (manyAtMost done rule fuel c) := by
  induction fuel generalizing c with
  | zero => omega
  | succ fuel ih =>
    rw [manyAtMost, Rule.get_bind]
    split
    · rename_i hdone
      exact .done hdone
    · rename_i hdone
      have hdone : done c = false := Bool.eq_false_iff.mpr hdone
      cases hround : rule c with
      | error failure c' =>
        rw [bind_of_error hround]
        exact .failure hdone (bind_of_error hround)
      | ok node c' =>
        obtain ⟨hshorter, hc'⟩ := hrule c node c' hc hround
        rw [bind_of_ok hround, bind_prepend]
        exact .more hdone (bind_of_ok hround) (ih hc' (by omega))

/-- **The loop of a block ends**, for a strict reader on every cursor, and for a lenient one
wherever a block is open. -/
theorem loops_many {lenient : Bool} {c : Cursor} (hc : lenient = false ∨ 0 < c.blockDepth)
    (done : Cursor → Bool) (d : Nat) :
    Loops done (do return some (← kept (statement? lenient d))) c
      (many done (kept (statement? lenient d)) c) := by
  refine loops_manyAtMost (p := fun c => lenient = false ∨ 0 < c.blockDepth)
    (fun c s c' hc h => ?_) hc (Nat.lt_succ_self _)
  rw [kept_eq_statement lenient d hc] at h
  refine ⟨progresses_statement d c s c' h, ?_⟩
  rw [blockDepth_of_statement h]
  exact hc

/-- **The loop of a whole spell ends.** -/
theorem loops_statements (lenient : Bool) {fuel : Nat} {c : Cursor} (hfuel : c.rest.length < fuel) :
    Loops Cursor.atEnd (statement? lenient nestingLimit) c (statements lenient fuel c) := by
  induction fuel generalizing c with
  | zero => omega
  | succ fuel ih =>
    rw [statements, Rule.get_bind]
    split
    · rename_i hend
      exact .done hend
    · rename_i hend
      have hend : c.atEnd = false := Bool.eq_false_iff.mpr hend
      cases hc : statement? lenient nestingLimit c with
      | error failure c' =>
        rw [bind_of_error hc]
        exact .failure hend hc
      | ok node? c' =>
        rw [bind_of_ok hc]
        cases node? with
        | none => exact .nothing hend hc
        | some node =>
          -- a statement takes a token, so there is fuel for those that are left
          have hshorter := progresses_statement nestingLimit c node c' (statement_of_statement? hc)
          show Loops _ _ c ((do let nodes ← statements lenient fuel; return node :: nodes) c')
          rw [bind_prepend]
          exact .more hend hc (ih (by omega))

end Grammar

/-! ## Calls -/

namespace Rule

/-- What a call of a rule yields. -/
inductive Reply where
  | nothing
  | flag (b : Bool)
  | token (t : Token)
  | node (node : Node)

/-- Everything that can be asked of a cursor: to look, to take tokens, to refuse, to read by one of
the grammar's rules, and to read a whole spell. -/
inductive Call where
  | peek
  | atEnd
  | ofKind (kind : Text)
  | atWord (word : Text)
  | advance
  | eat (kind : Text)
  | eatWord (word : Text)
  | eatPhrase (words : Text)
  | refuse (message : Text)
  | spellName (after : Text)
  | expression
  | phrase (rule : Option Nat → Rule Node → Rule Node) (h : rule ∈ phrases.map Prod.snd)
  | statement
  | order (rule : Option Nat → Rule Node → Rule Node → Rule Node) (h : rule ∈ orders.map Prod.snd)
  | block
  | program

namespace Call

/-- A phrase that is read by itself gets no line: only the rule that has seen its first word knows
one. -/
def rule (lenient : Bool) : Call → Rule Reply
  | peek => do return .token (← get).current
  | atEnd => do return .flag (← get).atEnd
  | ofKind kind => do return .flag ((← get).current.kind.name = kind)
  | atWord word => do return .flag ((← get).atWord word)
  | advance => do return .token (← Rule.advance)
  | eat kind => do return .token (← Rule.eat kind)
  | eatWord word => do return .token (← Rule.eatWord word)
  | eatPhrase words => do
    Rule.eatPhrase words
    return .nothing
  | refuse message => Rule.refuse (.remark message)
  | spellName after => do return .node (← Grammar.spellName after (Grammar.expression nestingLimit))
  | expression => do return .node (← Grammar.expression nestingLimit)
  | phrase rule _ => do return .node (← rule none (Grammar.expression nestingLimit))
  | statement => do return (← statement? lenient nestingLimit).elim .nothing .node
  | order rule _ => do
    let statement := kept (statement? lenient nestingLimit)
    return .node (← rule none (Grammar.expression nestingLimit) statement)
  | block => do return .node (← Grammar.block (kept (statement? lenient nestingLimit)))
  | program => do return .node (← Grammar.program lenient)

/-- Every call is steady. -/
theorem obeys_rule (lenient : Bool) (call : Call) : Obeys steady (call.rule lenient) := by
  have hL := lawful_steady
  have hx := obeys_expression hL nestingLimit
  have hs := obeys_statement hL nestingLimit
  have hblock : Obeys steady (Grammar.block (kept (statement? lenient nestingLimit))) := by
    rw [block_kept]
    exact obeys_block hL hs
  -- What is read is wrapped up without touching the cursor.
  have hwrap {α : Type} {x : Rule α} (h : Obeys steady x) (wrap : α → Reply) :
      Obeys steady (do return wrap (← x)) := hL.bind h fun a => hL.pure (wrap a)
  cases call with
  | peek | atEnd | ofKind | atWord => exact fun c => .ok (hL.stay c)
  | advance => exact hwrap hL.advance .token
  | eat kind => exact hwrap (hL.eat kind) .token
  | eatWord word => exact hwrap (hL.eatWord word) .token
  | eatPhrase words => exact hwrap (hL.eatPhrase words) fun _ => .nothing
  | refuse message => exact hL.refuse_obeys _
  | spellName after => exact hwrap (obeys_spellName hL after hx) .node
  | expression => exact hwrap hx .node
  | phrase rule h => exact hwrap (obeys_phraseRule h nestingLimit none) .node
  | statement => exact hwrap (obeys_statement? hL lenient) fun node? => node?.elim .nothing .node
  | order rule h => exact hwrap (obeys_orderRule h lenient nestingLimit none) .node
  | block => exact hwrap hblock .node
  | program => exact hwrap (obeys_program lenient) .node

/-- Whatever is read by a rule of the grammar has at least one token. Only a whole spell can be
empty. -/
theorem pos_lt {lenient : Bool} {call : Call} (hcall : call ≠ program) {c c' : Cursor} {node : Node}
    (h : call.rule lenient c = .ok (.node node) c') : c.pos < c'.pos := by
  have hunwrap {x : Rule Node} (hx : Takes x)
      (h : (do return Reply.node (← x) : Rule Reply) c = .ok (.node node) c') : c.pos < c'.pos :=
    hx.bind (fun a => lawful_steady.pure (Reply.node a)) c _ c' h
  cases call with
  -- these calls, and the next ones, do not answer with a node
  | peek | atEnd | ofKind | atWord => cases h
  | advance | eat | eatWord | eatPhrase =>
    obtain ⟨a, c₁, -, h⟩ := bind_eq_ok.mp h
    cases h
  | refuse message => exact absurd h refuse_ne_ok
  | spellName after => exact hunwrap (takes_spellName after nestingLimit) h
  | expression => exact hunwrap (takes_expression nestingLimit) h
  | phrase rule hrule => exact hunwrap (takes_phraseRule hrule nestingLimit none) h
  | statement =>
    obtain ⟨node?, c₁, hnode, h⟩ := bind_eq_ok.mp h
    cases node? with
    | none => cases h
    | some s =>
      cases h
      exact takes_statement nestingLimit _ _ _ (statement_of_statement? hnode)
  | order rule hrule => exact hunwrap (takes_orderRule hrule lenient nestingLimit none) h
  | block => exact hunwrap (takes_block lenient nestingLimit) h
  | program => exact absurd rfl hcall

end Call
end Rule

namespace Cursor

/-- The cursor after some calls, one after the other, whether or not they have failed. -/
def afterCalls (lenient : Bool) (c : Cursor) (calls : List Call) : Cursor :=
  calls.foldl (fun c call => (call.rule lenient).after c) c

/-- The cursor stands before one of the tokens. -/
def Over (ts : Tokens) (c : Cursor) : Prop := ∃ us, (start ts).Moves us c

variable {ts : Tokens} {c c' : Cursor}

/-- A cursor that moves on is still over the same tokens. -/
theorem Over.moves {us : List Token} (h : c.Over ts) (h' : c.Moves us c') : c'.Over ts := by
  obtain ⟨vs, hvs⟩ := h
  exact ⟨vs ++ us, hvs.append h'⟩

/-- The current token stands at the position of the cursor. -/
theorem Over.current (h : c.Over ts) : ts.toList[c.pos]? = some c.current := by
  obtain ⟨us, hus⟩ := h
  exact hus.getElem?_toList

/-- There is a token to go on to, unless this is the last one. -/
theorem Over.next (h : c.Over ts) (hend : c.atEnd = false) :
    ts.toList[c.pos + 1]? = some c.next.current := by
  obtain ⟨us, hus⟩ := c.exists_passes_next
  have hpos : c.next.pos = c.pos + 1 := by simp [Cursor.next, hend]
  rw [← hpos]
  exact (h.moves hus.moves).current

/-- A call leaves the cursor over its tokens, also when it fails. -/
theorem Over.rule (h : c.Over ts) (lenient : Bool) (call : Call) :
    ((call.rule lenient).after c).Over ts := by
  have hobeys := call.obeys_rule lenient
  cases hc : call.rule lenient c with
  | ok reply c' =>
    obtain ⟨us, hus⟩ := hobeys.passes hc
    rw [after_of_ok hc]
    exact h.moves hus.moves
  | error failure c' =>
    obtain ⟨⟨us, hus⟩, -⟩ := hobeys.fails hc
    rw [after_of_error hc]
    exact h.moves hus

/-- So do any number of calls. -/
theorem Over.afterCalls (h : c.Over ts) (lenient : Bool) (calls : List Call) :
    (c.afterCalls lenient calls).Over ts := by
  induction calls generalizing c with
  | nil => exact h
  | cons call calls ih => exact ih (h.rule lenient call)

end Cursor

/-- **A cursor stays on its tokens**, whatever rules are called, also after some of them have
failed. It stands before a token of the spell and, unless that is the last one, has another to go on
to. No call leads back. One that succeeds leaves as many blocks open as it has found, and one that
yields a node has taken a token, unless it has read a whole spell. One that fails leaves no fewer
blocks open, and a refusal carries the token before the cursor and its position. A block that is to
be closed is open. The loops over statements come to an end: that of a whole spell on every cursor,
and that of a block on every cursor for a strict reader and for both wherever a block is open, as it
is in every block. -/
theorem cursor_stays_on_its_tokens (ts : Tokens) (lenient : Bool) :
    (∀ calls, ((Cursor.start ts).afterCalls lenient calls).Over ts) ∧
    ∀ c : Cursor, c.Over ts →
      ts.toList[c.pos]? = some c.current ∧
      (c.atEnd = false → ts.toList[c.pos + 1]? = some c.next.current) ∧
      (∀ call : Call, match call.rule lenient c with
        | .ok reply c' => c'.Over ts ∧ c.pos ≤ c'.pos ∧ c'.blockDepth = c.blockDepth ∧
          (call ≠ .program → ∀ node, reply = .node node → c.pos < c'.pos)
        | .error failure c' => c'.Over ts ∧ c.pos ≤ c'.pos ∧ c.blockDepth ≤ c'.blockDepth ∧
          ∀ e, failure = .refused e → e.token = c'.current ∧ e.pos = c'.pos) ∧
      (∀ depth nodes c', many closes (kept (statement? lenient depth)) c.deeper = .ok nodes c' →
        c'.blockDepth = c.blockDepth + 1) ∧
      (∀ depth, lenient = false ∨ 0 < c.blockDepth →
        Loops closes (do return some (← kept (statement? lenient depth))) c
          (many closes (kept (statement? lenient depth)) c)) ∧
      Loops Cursor.atEnd (statement? lenient nestingLimit) c
        (statements lenient (c.rest.length + 1) c) := by
  have hstart : (Cursor.start ts).Over ts := ⟨[], .refl _⟩
  refine ⟨hstart.afterCalls lenient, fun c hc => ⟨hc.current, hc.next, fun call => ?_,
    fun depth nodes c' h => ?_, fun depth hopen => loops_many hopen closes depth,
    loops_statements lenient (Nat.lt_succ_self _)⟩⟩
  · have hobeys := call.obeys_rule lenient
    cases hcall : call.rule lenient c with
    | ok reply c' =>
      obtain ⟨us, hus⟩ := hobeys.passes hcall
      have hpos := hus.pos
      refine ⟨hc.moves hus.moves, by omega, hus.blockDepth, fun hne node hreply => ?_⟩
      exact Call.pos_lt hne (hreply ▸ hcall)
    | error failure c' =>
      obtain ⟨⟨us, hus⟩, hdepth, hrefused⟩ := hobeys.fails hcall
      have hpos := hus.pos
      exact ⟨hc.moves hus, by omega, hdepth, hrefused⟩
  · -- inside a block nothing depends on the mode, so the strict statements tell what is passed
    rw [many_kept lenient depth closes (.inr (Nat.succ_pos c.blockDepth))] at h
    obtain ⟨us, hus⟩ := (lawful_steady.many (obeys_statement lawful_steady depth) closes).passes h
    exact hus.blockDepth

/-- A block that holds something else than statements. -/
def strangeBlock : Tokens := ⟨(Text.words "do nothing").map (Token.ofWord 1), Mark.start⟩

/-- The cursor before the name in that block. -/
def beforeNothing : Cursor := ⟨[Token.ofWord 1 "nothing"], Mark.start, 1, 1⟩

/-- The block stays open when the name in it has been refused. So a lenient reader, which would stop
there outside a block, refuses that name again, with the block still open. -/
theorem strangeBlock_stays_open :
    (Cursor.start strangeBlock).afterCalls true [.block] = beforeNothing ∧
    beforeNothing.Over strangeBlock ∧
    strangeBlock.toList[1]? = some (.ofWord 1 "nothing") ∧
    ∃ c, Call.statement.rule true beforeNothing =
        .error (.refused ⟨.notAStatement, .ofWord 1 "nothing", 1⟩) c ∧
      c.Over strangeBlock ∧ 1 ≤ c.blockDepth := by
  obtain ⟨hcalls, hkept⟩ := cursor_stays_on_its_tokens strangeBlock true
  have hblock : (Cursor.start strangeBlock).afterCalls true [.block] = beforeNothing := rfl
  have hover : beforeNothing.Over strangeBlock := hblock ▸ hcalls [.block]
  obtain ⟨hcurrent, -, hcall, -⟩ := hkept beforeNothing hover
  obtain ⟨hstays, -, hdepth, -⟩ := hcall .statement
  exact ⟨hblock, hover, hcurrent, beforeNothing, rfl, hstays, hdepth⟩

end Grimoire
