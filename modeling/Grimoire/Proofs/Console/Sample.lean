import Grimoire.Console.Sample
import Grimoire.Proofs.Run.Layout
import Grimoire.Proofs.Run.Sequence
import Grimoire.Proofs.Token.Lines
import Grimoire.Proofs.Token.Rendering
import Grimoire.Proofs.Tree.Grammatical
import Grimoire.Proofs.Tree.Parts
import Grimoire.Run.Transcript

/-!
# The sample calculator

The sample spell asks for two operands and an operator, and shouts what comes of them. This is shown
from its text on, for all replies.

* **`Phrase`** is a tree together with tokens that spell it. The calculator is put together from
  phrases, and the lines of the sample have the same words (**`readSpell_of_look`**), so what is
  read from them is the calculator, apart from line numbers, and these make no difference.
* **`evaluate_choices`** goes down the nested alternatives, one operator at each level. The
  induction is on the operators that are left, and what is bound outside stays in reach.
* **`sample_calculates`** is the whole run.
-/

namespace Grimoire

open Casting Scanner

/-! ## Phrases -/

/-- A tree with tokens that spell it, all of them on the first line. -/
structure Phrase (role : Role) where
  node : Node
  tokens : List Token
  spells : Spells role node tokens

namespace Phrase

open Token (isWord_ofWord)

variable (a b : Phrase .expression)

def text (t : Text) : Phrase .expression :=
  ⟨.literal (some 1) (.text t) (some "STRING"), [⟨.string, t, Mark.start⟩],
    .text (t := ⟨.string, t, Mark.start⟩) rfl⟩

def integer (t : Text) (h : t.length ≤ Numeral.digitLimit) : Phrase .expression :=
  ⟨.literal (some 1) (.int (Numeral.value t)) (some "INTEGER"), [⟨.integer, t, Mark.start⟩],
    .integer (t := ⟨.integer, t, Mark.start⟩) rfl h⟩

def name (t : Text) (h : t ∉ phraseWords) : Phrase .expression :=
  ⟨.name (some 1) t, [Token.ofWord 1 t], .name (t := Token.ofWord 1 t) rfl h⟩

def combine : Phrase .expression :=
  -- Here and below, the tokens are found from what the grammar asks for.
  ⟨.binary (some 1) a.node .add b.node, _,
    .combine (isWord_ofWord 1 _) (words_ofWord _) a.spells (words_ofWord _) b.spells⟩

def remove : Phrase .expression :=
  ⟨.binary (some 1) b.node .subtract a.node, _,
    .remove (isWord_ofWord 1 _) (words_ofWord _) a.spells (words_ofWord _) b.spells⟩

def duplicate : Phrase .expression :=
  ⟨.binary (some 1) a.node .multiply b.node, _,
    .duplicate (isWord_ofWord 1 _) (words_ofWord _) a.spells b.spells (words_ofWord _)⟩

def split : Phrase .expression :=
  ⟨.binary (some 1) a.node .divide b.node, _,
    .split (isWord_ofWord 1 _) (words_ofWord _) a.spells b.spells (words_ofWord _)⟩

def equal : Phrase .expression :=
  ⟨.binary (some 1) a.node .equal b.node, _,
    .comparison (isWord_ofWord 1 _) a.spells List.mem_cons_self (words_ofWord _) b.spells⟩

def reply : Phrase .expression := ⟨.ask (some 1), _, .reply (isWord_ofWord 1 _) (words_ofWord _)⟩

def character : Phrase .expression :=
  ⟨.unary (some 1) .chr a.node, _, .character (isWord_ofWord 1 _) (words_ofWord _) a.spells⟩

def shout : Phrase .statement :=
  ⟨.shout (some 1) a.node, _, .shout (isWord_ofWord 1 _) (words_ofWord _) a.spells⟩

def create (t : Text) (h : t ∉ phraseWords) (a : Phrase .expression) : Phrase .statement :=
  ⟨.create (some 1) (name t h).node a.node, _,
    .create (isWord_ofWord 1 _) (words_ofWord _) (name t h).spells ⟨Token.ofWord 1 t, rfl, rfl⟩
      (words_ofWord _) a.spells⟩

/-- Statements in a row spell a spell. -/
theorem spells_all (ss : List (Phrase .statement)) :
    Spells .program (.program (ss.map node)) (ss.flatMap tokens) := by
  induction ss with
  | nil => exact .nil
  | cons s ss ih => exact .cons s.spells ih

def block (ss : List (Phrase .statement)) : Phrase .block :=
  ⟨.block (some 1) (ss.map node), _, .block (isWord_ofWord 1 _) (spells_all ss)⟩

def branch (ss ss' : List (Phrase .statement)) : Phrase .statement :=
  ⟨.branch (some 1) a.node (block ss).node (block ss').node, _,
    .branchElse (isWord_ofWord 1 _) (words_ofWord _) a.spells (words_ofWord _) (block ss).spells
      (isWord_ofWord 1 _) (block ss').spells (isWord_ofWord 1 _)⟩

end Phrase

/-! ## Lines that spell phrases -/

/-- What the tokens of several lines look like does not depend on where the lines stand. -/
theorem map_look_tokensBelow (pos line : Nat) (ls : List Text) :
    (tokensBelow pos line ls).map Token.look =
      ls.flatMap fun l => (lineTokens l).map Token.look := by
  induction ls generalizing pos line with
  | nil => rfl
  | cons l ls ih =>
    rw [tokensBelow, List.map_append, List.map_map, ih, List.flatMap_cons]
    rfl

/-- Lines that are each ended by a line break make up a text of terminated lines. -/
theorem flatMap_newline (lines : List String) :
    (lines.flatMap fun line => Text.ofString line ++ ("\n" : Text)) =
      Text.terminated (lines.map Text.ofString) := by
  induction lines with
  | nil => rfl
  | cons line lines ih =>
    rw [List.flatMap_cons, ih, List.map_cons, Text.terminated, List.append_assoc]
    rfl

/-- **Lines with the words of phrases are read as their trees**, apart from line numbers. -/
theorem readSpell_of_look {lines : List Text} {ss : List (Phrase .statement)}
    (hlines : ∀ l ∈ lines, (tokenize l).toOption.isSome)
    (hlook : (lines.flatMap fun l => (lineTokens l).map Token.look) =
      (ss.flatMap Phrase.tokens).map Token.look)
    (hlevels : (Node.program (ss.map Phrase.node)).levels ≤ nestingLimit) (lenient : Bool) :
    ∃ spell, readSpell lenient (Text.terminated lines) = .ok spell ∧
      Node.AllAlike spell (ss.map Phrase.node) := by
  have htokenized : ∀ l ∈ lines, ∃ ts, tokenize l = .ok ts := by
    intro l hl
    have hsome := hlines l hl
    cases htokens : tokenize l with
    | ok ts => exact ⟨ts, rfl⟩
    | error e => simp [htokens, Except.toOption] at hsome
  obtain ⟨stop, hscans⟩ := scans_terminated htokenized 0 0
  rw [← map_look_tokensBelow 0 0] at hlook
  generalize tokensBelow 0 0 lines = ts at hscans hlook
  -- The phrases look like the tokens of the lines, among which there is no end of the spell.
  have hkinds : ∀ t ∈ ss.flatMap Phrase.tokens, t.kind ≠ .eof := by
    intro t ht heof
    have hmem : t.look ∈ ts.map Token.look := hlook ▸ List.mem_map_of_mem ht
    obtain ⟨u, hu, hut⟩ := List.mem_map.mp hmem
    exact hscans.kind_ne_eof u hu ((congrArg Prod.fst hut).trans heof)
  have hparse : parse lenient ⟨ss.flatMap Phrase.tokens, stop⟩ = .ok (ss.map Phrase.node) :=
    parse_of_strict ((parse_strict_eq_ok hkinds).mpr ⟨Phrase.spells_all ss, hlevels⟩) lenient
  have halike : ReadAlike (parse lenient ⟨ts, stop⟩) (.ok (ss.map Phrase.node)) := by
    rw [← hparse]
    refine parse_alike ?_ lenient
    rw [Tokens.map_look, Tokens.map_look, hlook]
  have htokens : tokenize (Text.terminated lines) = .ok ⟨ts, stop⟩ := tokenize_eq_ok.mpr hscans
  rw [readSpell_of_tokenize htokens]
  generalize parse lenient ⟨ts, stop⟩ = result at halike
  cases halike with
  | ok h => exact ⟨_, rfl, h⟩

/-! ## The calculator -/

namespace Sample

/-- A prompt, a line break, and a name for the reply. -/
def asking (prompt name : Text) (h : name ∉ phraseWords) : List (Phrase .statement) :=
  [.shout (.text prompt), .shout (.character (.integer "10" (by decide))), .create name h .reply]

/-- Tries one operator after the other, each in the alternative of the one before. -/
def choices : List (BinaryOp × Phrase .expression) → Phrase .statement
  | [] => .shout (.text "Invalid Operator!")
  | (op, sum) :: rest =>
    .branch (.equal (.name "op" (by decide)) (.text op.symbol)) [.shout sum] [choices rest]

/-- The operators, and what is worked out for them. -/
def sums : List (BinaryOp × Phrase .expression) :=
  let first : Phrase .expression := .name "first" (by decide)
  let second : Phrase .expression := .name "second" (by decide)
  [(.add, .combine first second), (.subtract, .remove second first),
    (.multiply, .duplicate first second), (.divide, .split first second)]

/-- The operators of arithmetic. -/
def signs : List BinaryOp := [.add, .subtract, .multiply, .divide]

/-- The sample: three questions and a choice. -/
def calculator : List (Phrase .statement) :=
  asking "Enter in first number: " "first" (by decide) ++
    (asking "Enter in second number: " "second" (by decide) ++
      (asking "Enter in operator (+ - * /): " "op" (by decide) ++ [choices sums]))

/-- A literal is taken apart by its characters, which spares the kernel the bytes of the string. -/
theorem ofString_ofList (cs : List Char) :
    Text.ofString (String.ofList cs) = cs.map CodePoint.ofChar :=
  congrArg (List.map CodePoint.ofChar) String.toList_ofList

/-- **The sample spells the calculator.** -/
theorem readSpell_sample (lenient : Bool) :
    ∃ spell, readSpell lenient sampleSpell = .ok spell ∧
      Node.AllAlike spell (calculator.map Phrase.node) := by
  have hlines : ∀ l ∈ sampleLines.map Text.ofString, (tokenize l).toOption.isSome := by
    simp only [sampleLines, List.map_cons, List.map_nil]
    repeat rw [ofString_ofList]
    decide +kernel
  have hlook : ((sampleLines.map Text.ofString).flatMap fun l => (lineTokens l).map Token.look) =
      (calculator.flatMap Phrase.tokens).map Token.look := by
    simp only [sampleLines, List.map_cons, List.map_nil]
    repeat rw [ofString_ofList]
    decide +kernel
  have hlevels : (Node.program (calculator.map Phrase.node)).levels ≤ nestingLimit := by
    decide +kernel
  rw [sampleSpell, flatMap_newline]
  exact readSpell_of_look hlines hlook hlevels lenient

/-! ## Saying something -/

/-- Logs a text, or fails where there is none. -/
def say (r : Except Fault Text) : Casting Value := do
  record (.log (← ofExcept r))
  return .nothing

/-- Terms without a limit of steps, on which any text can be printed. -/
abbrev free (silence : Silence) : Terms := ⟨none, silence, false⟩

section Steps

variable {silence : Silence} {passes d : Nat} {s : RunState} {line : Option Nat} {a b c : Value}

/-- A name that is bound has its value. -/
theorem evaluate_name {name : Text} (h : s.scopes.get? name = some a) :
    evaluate (free silence) passes (d + 1) (.name line name) s = .ok a s := by
  show lookUp name s = .ok a s
  rw [lookUp_apply, h]

/-- Operands that have values leave it to the operator. -/
theorem evaluate_binary {left right : Node}
    (hleft : evaluate (free silence) passes d left s = .ok a s)
    (hright : evaluate (free silence) passes d right s = .ok b s) (op : BinaryOp) :
    evaluate (free silence) passes (d + 1) (.binary line left op right) s =
      ofExcept (op.apply a b) s :=
  (bind_of_ok hleft).trans (bind_of_ok hright)

/-- A cry of a value says what that is written as, and one of a fault comes to that fault. -/
theorem evaluate_shout {value : Node} {r : Except Fault Value}
    (h : evaluate (free silence) passes d value s = ofExcept r s) :
    evaluate (free silence) passes (d + 1) (.shout line value) s =
      say (r.bind Value.format) s := by
  cases r with
  | error fault => exact bind_of_error h
  | ok v =>
    refine (bind_of_ok h).trans ?_
    show _ = say v.format s
    cases v.format <;> rfl

/-- What the only statement of a block says is said outside. -/
theorem enter_one {eval : Node → Casting Value} {node : Node} {r : Except Fault Text}
    (h : eval node { s with scopes := s.scopes.push } =
      say r { s with scopes := s.scopes.push }) :
    (do
      inNewScope ([node].forM fun statement => do
        tick (free silence)
        let _ ← eval statement)
      return .nothing : Casting Value) s = say r s := by
  cases r with
  | error fault => exact bind_of_error (inNewScope_of_error (bind_of_error (bind_of_error h)))
  | ok text =>
    have hone : ([node].forM fun statement => do
        tick (free silence)
        let _ ← eval statement : Casting Unit) { s with scopes := s.scopes.push } =
          .ok () { s with scopes := s.scopes.push, trace := s.trace.push (.log text) } := by
      refine bind_of_ok (a := ()) ?_
      exact bind_of_ok h
    exact bind_of_ok (inNewScope_of_ok hone)

/-- A branch of one statement on each side says what the chosen one says. -/
theorem evaluate_branch {condition node other : Node} {line' line'' : Option Nat} {holds : Bool}
    {r : Except Fault Text}
    (hcondition : evaluate (free silence) passes d condition s = .ok (.bool holds) s)
    (hchosen : evaluate (free silence) passes d (if holds then node else other)
      { s with scopes := s.scopes.push } = say r { s with scopes := s.scopes.push }) :
    evaluate (free silence) passes (d + 1)
      (.branch line condition (.block line' [node]) (.block line'' [other])) s = say r s := by
  refine (bind_of_ok hcondition).trans ?_
  cases holds with
  | true => exact enter_one hchosen
  | false => exact enter_one hchosen

/-! ## Down the alternatives -/

/-- The names of the calculator are bound to the operands and the operator. -/
structure Bound (s : RunState) (a b c : Value) : Prop where
  first : s.scopes.get? "first" = some a
  second : s.scopes.get? "second" = some b
  op : s.scopes.get? "op" = some c

theorem Bound.push (h : Bound s a b c) : Bound { s with scopes := s.scopes.push } a b c :=
  ⟨h.first, h.second, h.op⟩

/-- What is said when these operators are tried. -/
def answer (a b c : Value) : List BinaryOp → Except Fault Text
  | [] => .ok "Invalid Operator!"
  | op :: ops =>
    if c.equals (.text op.symbol) then (op.apply a b).bind Value.format else answer a b c ops

/-- **The alternatives are tried from the outside in.** Each costs one level of nesting, and the
names are still bound in the scope of the next one. -/
theorem evaluate_choices {sums : List (BinaryOp × Phrase .expression)}
    (hsums : ∀ p ∈ sums, p.2.node =
      .binary (some 1) (.name (some 1) "first") p.1 (.name (some 1) "second"))
    (hbound : Bound s a b c) (d : Nat) :
    evaluate (free silence) passes (sums.length + (d + 3)) (choices sums).node s =
      say (answer a b c (sums.map Prod.fst)) s := by
  induction sums generalizing s with
  | nil =>
    rw [List.length_nil, Nat.zero_add]
    exact evaluate_shout (r := .ok (.text "Invalid Operator!")) rfl
  | cons p sums ih =>
    obtain ⟨op, sum⟩ := p
    -- The sign is compared with the first operator; if it is another one, the rest is tried further
    -- in.
    obtain ⟨hsum, hsums⟩ := List.forall_mem_cons.mp hsums
    rw [List.length_cons, Nat.add_right_comm]
    have hcondition : evaluate (free silence) passes (sums.length + (d + 3))
        (.binary (some 1) (.name (some 1) "op") .equal
          (.literal (some 1) (.text op.symbol) (some "STRING"))) s =
        .ok (.bool (c.equals (.text op.symbol))) s :=
      evaluate_binary (evaluate_name hbound.op) rfl .equal
    refine evaluate_branch hcondition ?_
    rw [List.map_cons, answer]
    cases c.equals (.text op.symbol) with
    | false => exact ih hsums hbound.push
    | true =>
      have hvalue : evaluate (free silence) passes (sums.length + (d + 2)) sum.node
          { s with scopes := s.scopes.push } =
          ofExcept (op.apply a b) { s with scopes := s.scopes.push } := by
        rw [hsum]
        have hbound := hbound.push
        exact evaluate_binary (evaluate_name hbound.first) (evaluate_name hbound.second) op
      exact evaluate_shout hvalue

/-! ## The dialogue -/

/-- Without a limit, a statement is executed by being evaluated. -/
theorem execute_of_ok {node : Node} {v : Value} {t : RunState}
    (h : evaluate (free silence) passes nestingLimit node s = .ok v t) :
    execute (free silence) passes node s = .ok () t := by
  have htick : tick (free silence) s = .ok () s := rfl
  exact (bind_of_ok htick).trans (bind_of_ok h)

theorem execute_of_error {node : Node} {e : Stop} {t : RunState}
    (h : evaluate (free silence) passes nestingLimit node s = .error e t) :
    execute (free silence) passes node s = .error e t := by
  have htick : tick (free silence) s = .ok () s := rfl
  exact (bind_of_ok htick).trans (bind_of_error h)

/-- **One question of the dialogue.** A prompt and a line break are logged, a reply is taken, and
its value gets a name. -/
theorem forM_asking {prompt name : Text} (hname : name ∉ phraseWords) {x : Option Text}
    {rest : List (Option Text)} (hreplies : s.replies = x :: rest) (hx : Value.ofReply x = .ok a) :
    ((asking prompt name hname).map Phrase.node).forM (execute (free silence) passes) s =
      .ok () ⟨s.scopes.define name a, rest, s.steps,
        ((s.trace.push (.log prompt)).push (.log "\n")).push .request⟩ := by
  have hprompt : execute (free silence) passes (.shout (some 1)
      (.literal (some 1) (.text prompt) (some "STRING"))) s =
      .ok () { s with trace := s.trace.push (.log prompt) } :=
    execute_of_ok (evaluate_shout (r := .ok (.text prompt)) rfl)
  have hbreak (t : RunState) : execute (free silence) passes (.shout (some 1) (.unary (some 1) .chr
      (.literal (some 1) (.int (Numeral.value "10")) (some "INTEGER")))) t =
      .ok () { t with trace := t.trace.push (.log "\n") } :=
    execute_of_ok (evaluate_shout (r := .ok (.text "\n")) rfl)
  -- rest) :: the reply is taken and gets its name
  have hask (t : RunState) (ht : t.replies = x :: rest) : execute (free silence) passes
      (.create (some 1) (.name (some 1) name) (.ask (some 1))) t =
      .ok () ⟨t.scopes.define name a, rest, t.steps, t.trace.push .request⟩ := by
    have hreply : ask (free silence) t =
        .ok a ⟨t.scopes, rest, t.steps, t.trace.push .request⟩ := by
      rw [ask_apply, ht]
      show ofExcept (Value.ofReply x) _ = _
      rw [hx]
      rfl
    exact execute_of_ok (bind_of_ok hreply)
  refine (bind_of_ok hprompt).trans ((bind_of_ok (hbreak _)).trans ?_)
  exact bind_of_ok (hask _ hreplies)

/-- All that is seen of the dialogue. -/
def dialogue : List Event :=
  [.log "Enter in first number: ", .log "\n", .request,
    .log "Enter in second number: ", .log "\n", .request,
    .log "Enter in operator (+ - * /): ", .log "\n", .request]

/-- The state after the dialogue. -/
def asked (a b c : Value) (more : List (Option Text)) : RunState :=
  ⟨Scopes.single ⟨[("first", a), ("second", b), ("op", c)]⟩, more, 0, dialogue.toArray⟩

/-- After the questions the three names are bound. -/
theorem bound_asked (more : List (Option Text)) : Bound (asked a b c more) a b c where
  first := rfl
  second := rfl
  op := rfl

/-- Each sum is one operator between the two names. -/
theorem node_of_mem_sums : ∀ p ∈ sums, p.2.node =
    .binary (some 1) (.name (some 1) "first") p.1 (.name (some 1) "second") := by
  unfold sums
  simp only [List.forall_mem_cons]
  exact ⟨rfl, rfl, rfl, rfl, nofun⟩

/-- The questions are asked, and the choice is left. -/
theorem forM_calculator {x y z : Option Text} (hx : Value.ofReply x = .ok a)
    (hy : Value.ofReply y = .ok b) (hz : Value.ofReply z = .ok c) (more : List (Option Text)) :
    (calculator.map Phrase.node).forM (execute (free silence) passes)
        (.start Scope.empty (x :: y :: z :: more)) =
      execute (free silence) passes (choices sums).node (asked a b c more) := by
  rw [calculator, List.map_append, List.map_append, List.map_append, Casting.forM_append,
    Casting.forM_append, Casting.forM_append]
  refine (bind_of_ok (forM_asking _ rfl hx)).trans ?_
  refine (bind_of_ok (forM_asking _ rfl hy)).trans ?_
  refine (bind_of_ok (forM_asking _ rfl hz)).trans ?_
  exact congrFun (bind_pure _) _

/-- After the dialogue the text is logged and the run succeeds; or, where there is none, the fault
is reported and the run fails. -/
inductive Answers : Except Fault Text → Ending → RunState → Prop where
  | said {text : Text} {s : RunState} (h : s.trace.toList = dialogue ++ [.log text]) :
      Answers (.ok text) .success s
  | failed {fault : Fault} {s : RunState}
      (h : s.trace.toList = dialogue ++ [.error fault.report]) :
      Answers (.error fault) .failure s

/-- **The run of the calculator.** -/
theorem run_calculator {x y z : Option Text} (hx : Value.ofReply x = .ok a)
    (hy : Value.ofReply y = .ok b) (hz : Value.ofReply z = .ok c) (more : List (Option Text))
    (silence : Silence) (passes : Nat) :
    ∃ ending s, run (free silence) passes (calculator.map Phrase.node)
        (.start Scope.empty (x :: y :: z :: more)) = (ending, s) ∧
      Answers (answer a b c signs) ending s ∧ s.requests = 3 ∧ s.replies = more ∧
      s.globals = ⟨[("first", a), ("second", b), ("op", c)]⟩ := by
  have hchoices : evaluate (free silence) passes nestingLimit (choices sums).node
      (asked a b c more) = say (answer a b c signs) (asked a b c more) :=
    evaluate_choices node_of_mem_sums (bound_asked more) 493
  have hrequests (event : Event) (h : event ≠ .request) :
      (dialogue.toArray.push event).count .request = 3 := by
    rw [Array.count_push_of_ne h]
    rfl
  rw [run, forM_calculator hx hy hz]
  generalize answer a b c signs = r at hchoices
  cases r with
  | ok text =>
    rw [execute_of_ok hchoices]
    exact ⟨_, _, rfl, .said Array.toList_push, hrequests _ nofun, rfl, rfl⟩
  | error fault =>
    rw [execute_of_error hchoices]
    exact ⟨_, _, rfl, .failed Array.toList_push, hrequests _ nofun, rfl, rfl⟩

/-! ## Replies that are operators -/

/-- Only a text is equal to a text. -/
theorem eq_text_of_equals {t : Text} (h : c.equals (.text t) = true) : c = .text t := by
  cases c with
  | text u => exact congrArg Value.text (of_decide_eq_true h)
  | _ => cases h

/-- Only a reply that is a text is read as that text. -/
theorem eq_some_of_ofReply {z : Option Text} {t : Text} (ht : t ≠ [])
    (h : Value.ofReply z = .ok (.text t)) : z = some t := by
  cases z with
  | none =>
    cases h
    exact absurd rfl ht
  | some u =>
    unfold Value.ofReply at h
    dsimp only at h
    split at h
    · split at h <;> cases h
    · split at h
      · cases h
      · cases h
        rfl

/-- A sign is read as itself. -/
theorem ofReply_symbol : ∀ op ∈ signs, Value.ofReply (some op.symbol) = .ok (.text op.symbol) := by
  decide

theorem symbol_ne_nil : ∀ op ∈ signs, op.symbol ≠ [] := by
  decide

/-- The answer to a sign is what its operator makes of the two values. -/
theorem answer_of_sign : ∀ op ∈ signs,
    answer a b (.text op.symbol) signs = (op.apply a b).bind Value.format := by
  unfold signs
  simp only [List.forall_mem_cons]
  exact ⟨rfl, rfl, rfl, rfl, nofun⟩

/-- The answer to anything else is that there is no such operator. -/
theorem answer_of_no_sign {ops : List BinaryOp}
    (h : ∀ op ∈ ops, c.equals (.text op.symbol) = false) :
    answer a b c ops = .ok "Invalid Operator!" := by
  induction ops with
  | nil => rfl
  | cons op ops ih =>
    obtain ⟨hop, hops⟩ := List.forall_mem_cons.mp h
    rw [answer, hop]
    exact ih hops

end Steps

/-- **The sample calculates**, if nothing limits its steps or what can be printed. For all replies
that can be read it makes three requests, each after a prompt and a line break. If the last reply is
exactly one of the four signs, it logs what comes of the two operands, or reports that one fault and
fails; for any other reply it logs that the operator is invalid. The three names are bound to what
the replies mean, and nothing else is bound. -/
theorem sample_calculates {x y z : Option Text} {a b c : Value} (hx : Value.ofReply x = .ok a)
    (hy : Value.ofReply y = .ok b) (hz : Value.ofReply z = .ok c) (more : List (Option Text))
    (lenient : Bool) (silence : Silence) (passes : Nat) :
    ∃ ending s, runText lenient ⟨none, silence, false⟩ passes sampleSpell
        (.start Scope.empty (x :: y :: z :: more)) = .ok (ending, s) ∧
      s.requests = 3 ∧ s.replies = more ∧
      (∀ op ∈ signs, z = some op.symbol →
        Answers ((op.apply a b).bind Value.format) ending s) ∧
      ((∀ op ∈ signs, z ≠ some op.symbol) → Answers (.ok "Invalid Operator!") ending s) ∧
      s.globals = ⟨[("first", a), ("second", b), ("op", c)]⟩ := by
  obtain ⟨spell, hread, halike⟩ := readSpell_sample lenient
  obtain ⟨ending, s, hrun, hanswers, hrequests, hreplies, hglobals⟩ :=
    run_calculator hx hy hz more silence passes
  refine ⟨ending, s, ?_, hrequests, hreplies, fun op hop hsign => ?_, fun hsigns => ?_, hglobals⟩
  · rw [runText, hread, ← hrun, ← run_eq_of_allAlike halike]
    rfl
  · rw [hsign, ofReply_symbol op hop] at hz
    cases hz
    rwa [answer_of_sign op hop] at hanswers
  · have hno : ∀ op ∈ signs, c.equals (.text op.symbol) = false := by
      intro op hop
      refine Bool.eq_false_iff.mpr fun hequals => hsigns op hop ?_
      rw [eq_text_of_equals hequals] at hz
      exact eq_some_of_ofReply (symbol_ne_nil op hop) hz
    rwa [answer_of_no_sign hno] at hanswers

/-- A text and a number are joined, nothing is divided by zero, and a blank after the sign makes an
invalid operator. -/
theorem sample_calculates_thrice :
    (∃ s, runText false ⟨none, .fault, false⟩ 0 sampleSpell
        (.start Scope.empty [some "moon", some " 25 ", some "+"]) = .ok (.success, s) ∧
      s.trace.toList = dialogue ++ [.log "moon25"] ∧
      s.globals = ⟨[("first", .text "moon"), ("second", .int 25), ("op", .text "+")]⟩) ∧
    (∃ s, runText true ⟨none, .blank, false⟩ 7 sampleSpell
        (.start Scope.empty [some "7", some "-0", some "/", none]) = .ok (.failure, s) ∧
      s.trace.toList =
        dialogue ++ [.error "Runtime Error: Division by zero is forbidden magic!"] ∧
      s.replies = [none]) ∧
    (∃ s, runText false ⟨none, .wait, false⟩ 0 sampleSpell
        (.start Scope.empty [some "6", some "3", some "- "]) = .ok (.success, s) ∧
      s.trace.toList = dialogue ++ [.log "Invalid Operator!"]) := by
  refine ⟨?_, ?_, ?_⟩
  · have hfirst : Value.ofReply (some "moon") = .ok (.text "moon") := by decide
    have hsecond : Value.ofReply (some " 25 ") = .ok (.int 25) := by decide
    have hop : Value.ofReply (some "+") = .ok (.text "+") := by decide
    have hjoined : (BinaryOp.add.apply (.text "moon") (.int 25)).bind Value.format =
        .ok "moon25" := by decide +kernel
    obtain ⟨ending, s, hrun, -, -, hanswers, -, hglobals⟩ :=
      sample_calculates hfirst hsecond hop [] false .fault 0
    have hanswered := hanswers .add (by decide) rfl
    rw [hjoined] at hanswered
    cases hanswered with
    | said htrace => exact ⟨s, hrun, htrace, hglobals⟩
  · have hfirst : Value.ofReply (some "7") = .ok (.int 7) := by decide
    have hsecond : Value.ofReply (some "-0") = .ok (.int 0) := by decide
    have hop : Value.ofReply (some "/") = .ok (.text "/") := by decide
    have hdivided : (BinaryOp.divide.apply (.int 7) (.int 0)).bind Value.format =
        .error .divisionByZero := by decide
    obtain ⟨ending, s, hrun, -, hreplies, hanswers, -, -⟩ :=
      sample_calculates hfirst hsecond hop [none] true .blank 7
    have hanswered := hanswers .divide (by decide) rfl
    rw [hdivided] at hanswered
    cases hanswered with
    | failed htrace => exact ⟨s, hrun, htrace, hreplies⟩
  · have hfirst : Value.ofReply (some "6") = .ok (.int 6) := by decide
    have hsecond : Value.ofReply (some "3") = .ok (.int 3) := by decide
    have hop : Value.ofReply (some "- ") = .ok (.text "- ") := by decide
    obtain ⟨ending, s, hrun, -, -, -, hanswers, -⟩ :=
      sample_calculates hfirst hsecond hop [] false .wait 0
    cases hanswers (by decide) with
    | said htrace => exact ⟨s, hrun, htrace⟩

end Sample
end Grimoire
