import Grimoire.Proofs.Tree.Likeness

/-!
# What rules do to a cursor

A rule of the grammar touches the cursor in a few ways only: it takes a token, it opens and closes a
block, and it fails. Whatever is true of these, and carries over from one step to the next, is true
of every rule.

* **`Rule.Conduct`** is such a statement: what holds between a cursor and the one that a rule
  leaves, where the rule succeeds and where it fails. `Conduct.Lawful` lists what it takes.
* **`obeys_expression`**, **`obeys_statement`** and **`obeys_statements`** say that the rules obey a
  lawful conduct. The induction over the grammar is made here once.

As a first use, **`parse_tooLong`** names the tokens that are too long to be read.
-/

namespace Grimoire

/-- The cursor inside a block that is opened here. -/
def Cursor.deeper (c : Cursor) : Cursor := { c with blockDepth := c.blockDepth + 1 }

/-- The cursor behind the block that is closed here. -/
def Cursor.shallower (c : Cursor) : Cursor := { c with blockDepth := c.blockDepth - 1 }

namespace Rule

variable {α β : Type}

/-- What may become of a cursor: `moves` where a rule succeeds, and `fails` where it fails. -/
structure Conduct where
  moves : Cursor → Cursor → Prop
  fails : Cursor → ParseFailure → Cursor → Prop

namespace Conduct

/-- What a rule that starts at the cursor `c` may come to. -/
inductive Allows (p : Conduct) (c : Cursor) : EStateM.Result ParseFailure Cursor α → Prop where
  | ok {a : α} {c' : Cursor} (h : p.moves c c') : Allows p c (.ok a c')
  | error {failure : ParseFailure} {c' : Cursor} (h : p.fails c failure c') :
      Allows p c (.error failure c')

/-- The steps that all rules are made of are allowed, and what is allowed step by step is allowed
from the first cursor to the last. -/
structure Lawful (p : Conduct) : Prop where
  stay : ∀ c, p.moves c c
  moves_trans : ∀ {c c' c''}, p.moves c c' → p.moves c' c'' → p.moves c c''
  fails_trans : ∀ {c c' failure c''}, p.moves c c' → p.fails c' failure c'' → p.fails c failure c''
  take : ∀ c, p.moves c c.next
  refuse : ∀ c cause, p.fails c (.refused ⟨cause, c.current, c.pos⟩) c
  tooDeep : ∀ c, p.fails c .tooDeep c
  tooLong : ∀ c, c.current.kind = .integer → Numeral.read? c.current.text = none →
    p.fails c (.tooLong c.current.text.length) c.next
  closed : ∀ {c c'}, p.moves c.deeper c' → p.moves c c'.shallower
  unclosed : ∀ {c failure c'}, p.fails c.deeper failure c' → p.fails c failure c'

end Conduct

/-- Whatever the rule does to a cursor is allowed. -/
def Obeys (p : Conduct) (r : Rule α) : Prop := ∀ c, p.Allows c (r c)

variable {p : Conduct} {x : Rule α} {f : α → Rule β}

namespace Conduct.Lawful

variable (h : p.Lawful)

include h

/-- Two rules in a row, if the second is lawful wherever it starts. -/
theorem bind_allows {c : Cursor} (hx : p.Allows c (x c)) (hf : ∀ a, Obeys p (f a)) :
    p.Allows c ((x >>= f) c) := by
  cases hxc : x c with
  | error failure c₁ =>
    rw [hxc] at hx
    rw [bind_of_error hxc]
    cases hx with
    | error hfails => exact .error hfails
  | ok a c₁ =>
    rw [hxc] at hx
    rw [bind_of_ok hxc]
    cases hx with
    | ok hmoves =>
      have hnext := hf a c₁
      cases hfc : f a c₁ with
      | ok b c₂ =>
        rw [hfc] at hnext
        cases hnext with
        | ok hmoves' => exact .ok (h.moves_trans hmoves hmoves')
      | error failure c₂ =>
        rw [hfc] at hnext
        cases hnext with
        | error hfails => exact .error (h.fails_trans hmoves hfails)

/-- Two rules in a row obey if both do. -/
theorem bind (hx : Obeys p x) (hf : ∀ a, Obeys p (f a)) : Obeys p (x >>= f) :=
  fun c => h.bind_allows (hx c) hf

theorem pure (a : α) : Obeys p (Pure.pure a : Rule α) := fun c => .ok (h.stay c)

theorem advance : Obeys p advance := fun c => .ok (h.take c)

theorem refuse_obeys (cause : ParseCause) : Obeys p (Rule.refuse cause : Rule α) :=
  fun c => .error (h.refuse c cause)

theorem eatWord (word : Text) : Obeys p (eatWord word) := by
  intro c
  show p.Allows c ((if c.atWord word then Rule.advance else Rule.refuse (.expectedWord word)) c)
  split
  · exact h.advance c
  · exact h.refuse_obeys _ c

theorem eatWords (words : List Text) : Obeys p (eatWords words) := by
  induction words with
  | nil => exact h.pure ()
  | cons word words ih => exact h.bind (h.eatWord word) fun _ => ih

theorem eatPhrase (phrase : Text) : Obeys p (eatPhrase phrase) := h.eatWords phrase.words

/-! ### The shapes of phrases -/

variable {y z : Rule Node}

theorem operand (phrase : Text) (hy : Obeys p y) (build : Node → Node) :
    Obeys p (do Rule.eatPhrase phrase; return build (← y)) :=
  h.bind (h.eatPhrase phrase) fun _ => h.bind hy fun a => h.pure (build a)

theorem between (phrase sep : Text) (hy : Obeys p y) (hz : Obeys p z)
    (build : Node → Node → Node) :
    Obeys p (do Rule.eatPhrase phrase; let a ← y; Rule.eatPhrase sep; return build a (← z)) :=
  h.bind (h.eatPhrase phrase) fun _ => h.bind hy fun a => h.operand sep hz (build a)

theorem operands (phrase sep : Text) (hy : Obeys p y) (hz : Obeys p z)
    (build : Node → Node → Node) :
    Obeys p
      (do Rule.eatPhrase phrase; let a ← y; let b ← z; Rule.eatPhrase sep; return build a b) :=
  h.bind (h.eatPhrase phrase) fun _ => h.bind hy fun a => h.bind hz fun b =>
    h.bind (h.eatPhrase sep) fun _ => h.pure (build a b)

/-- Statements in a row obey if each of them does. -/
theorem manyAtMost {rule : Rule Node} (hrule : Obeys p rule) (done : Cursor → Bool) (fuel : Nat) :
    Obeys p (manyAtMost done rule fuel) := by
  induction fuel with
  | zero => exact h.pure []
  | succ fuel ih =>
    intro c
    show p.Allows c ((if done c then Pure.pure [] else do
      let node ← rule
      let nodes ← Rule.manyAtMost done rule fuel
      return node :: nodes) c)
    split
    · exact h.pure [] c
    · exact h.bind hrule (fun node => h.bind ih fun nodes => h.pure (node :: nodes)) c

theorem many {rule : Rule Node} (hrule : Obeys p rule) (done : Cursor → Bool) :
    Obeys p (many done rule) :=
  fun c => h.manyAtMost hrule done _ c

/-- What happens between the opening and the closing of a block. -/
theorem bracketed (hx : Obeys p x) (build : α → β) :
    Obeys p (do
      modify Cursor.deeper
      let a ← x
      modify Cursor.shallower
      return build a) := by
  intro c
  show p.Allows c ((x >>= fun a => do modify Cursor.shallower; return build a) c.deeper)
  have hinside := hx c.deeper
  cases hxc : x c.deeper with
  | error failure c₁ =>
    rw [hxc] at hinside
    rw [bind_of_error hxc]
    cases hinside with
    | error hfails => exact .error (h.unclosed hfails)
  | ok a c₁ =>
    rw [hxc] at hinside
    rw [bind_of_ok hxc]
    cases hinside with
    | ok hmoves => exact .ok (h.closed hmoves)

end Conduct.Lawful
end Rule

namespace Grammar

open Rule

variable {p : Conduct} (h : p.Lawful) {rule : Rule Node}

include h

/-- The words of a comparison obey. -/
theorem obeys_comparator : Obeys p comparator := by
  have halternative (phrase : Text) (op : BinaryOp) :
      Obeys p (do let _ ← advance; eatPhrase phrase; return op) :=
    h.bind h.advance fun _ => h.bind (h.eatPhrase phrase) fun _ => h.pure op
  intro c
  unfold comparator
  rw [get_bind]
  split_ifs
  · exact halternative _ _ c
  · exact halternative _ _ c
  · exact halternative _ _ c
  · exact halternative _ _ c
  · exact h.refuse_obeys _ c

/-- Every phrase obeys if its parts do. -/
theorem obeys_phrase (hrule : Obeys p rule) {word : Text}
    {phrase : Option Nat → Rule Node → Rule Node} (hmem : (word, phrase) ∈ phrases)
    (line : Option Nat) : Obeys p (phrase line rule) := by
  -- One case for each phrase, in the order of the table.
  simp only [phrases, List.mem_cons, Prod.mk.injEq, List.not_mem_nil, or_false] at hmem
  rcases hmem with ⟨-, rfl⟩ | ⟨-, rfl⟩ | ⟨-, rfl⟩ | ⟨-, rfl⟩ | ⟨-, rfl⟩ | ⟨-, rfl⟩ |
    ⟨-, rfl⟩ | ⟨-, rfl⟩
  · exact h.between _ _ hrule hrule fun a b => .binary line a .add b
  · exact h.between _ _ hrule hrule fun a b => .binary line b .subtract a
  · exact h.operands _ _ hrule hrule fun a b => .binary line a .multiply b
  · exact h.operands _ _ hrule hrule fun a b => .binary line a .divide b
  · exact h.bind (h.eatPhrase _) fun _ => h.pure _
  · exact h.operand _ hrule (.unary line .ord)
  · exact h.operand _ hrule (.unary line .chr)
  · exact h.bind hrule fun a => h.bind (obeys_comparator h) fun op => h.bind hrule fun b => h.pure _

/-- **Expressions obey a lawful conduct.** Induction on the nesting limit. The token before the
cursor decides what is done. -/
theorem obeys_expression (d : Nat) : Obeys p (expression d) := by
  induction d with
  | zero => exact fun c => .error (h.tooDeep c)
  | succ d ih =>
    intro c
    unfold expression
    rw [get_bind]
    cases hkind : c.current.kind with
    | string | float => exact h.bind h.advance (fun _ => h.pure _) c
    | integer =>
      cases hread : Numeral.read? c.current.text with
      | some number => exact h.bind h.advance (fun _ => h.pure _) c
      -- The failure is about a token that has been taken already.
      | none => exact .error (h.tooLong c hkind hread)
    | identifier =>
      refine h.bind h.advance (fun _ => ?_) c
      cases hlookup : phrases.lookup c.current.text with
      | some phrase => exact obeys_phrase h ih (mem_of_lookup_eq_some hlookup) _
      | none => exact h.pure _
    | symbol | eof => exact h.refuse_obeys _ c

/-- A block obeys if its statements do; that it counts itself is made up for at its end. -/
theorem obeys_block (hrule : Obeys p rule) : Obeys p (block rule) :=
  h.bind (h.eatWord "do") fun token =>
    h.bracketed (h.many hrule closes) (Node.block (some token.mark.line))

theorem obeys_spellName (after : Text) (hrule : Obeys p rule) : Obeys p (spellName after rule) := by
  intro c
  unfold spellName
  rw [get_bind]
  split
  · exact hrule c
  · exact h.refuse_obeys _ c

/-- The end of a branch: a block, perhaps an alternative, and `done`. -/
theorem obeys_branchEnd (hrule : Obeys p rule) (build : Node → Node → Node) :
    Obeys p (do
      let b ← block rule
      let c ← do
        if (← get).atWord "else" then
          let _ ← advance
          block rule
        else Pure.pure .missing
      let _ ← eatWord "done"
      return build b c) := by
  have hblock := obeys_block h hrule
  have hdone (node : Node) : Obeys p (do let _ ← eatWord "done"; return node) :=
    h.bind (h.eatWord "done") fun _ => h.pure node
  refine h.bind hblock fun b => fun c => ?_
  rw [get_bind]
  split
  · exact h.bind h.advance (fun _ => h.bind hblock fun c => hdone (build b c)) c
  · exact hdone (build b .missing) c

/-- The end of a loop: a block and `done`. -/
theorem obeys_loopEnd (hrule : Obeys p rule) (build : Node → Node) :
    Obeys p (do let b ← block rule; let _ ← eatWord "done"; return build b) :=
  h.bind (obeys_block h hrule) fun b => h.bind (h.eatWord "done") fun _ => h.pure (build b)

/-- Every statement obeys if its parts do. -/
theorem obeys_order {d : Nat} (hrule : Obeys p rule) {word : Text}
    {order : Option Nat → Rule Node → Rule Node → Rule Node} (hmem : (word, order) ∈ orders)
    (line : Option Nat) : Obeys p (order line (expression d) rule) := by
  have hx := obeys_expression h d
  -- One case for each statement, in the order of the table.
  simp only [orders, List.mem_cons, Prod.mk.injEq, List.not_mem_nil, or_false] at hmem
  rcases hmem with ⟨-, rfl⟩ | ⟨-, rfl⟩ | ⟨-, rfl⟩ | ⟨-, rfl⟩ | ⟨-, rfl⟩
  · exact h.operand _ hx (.shout line)
  · exact h.between _ _ (obeys_spellName h _ hx) hx (.create line)
  · exact h.between _ _ (obeys_spellName h _ hx) hx (.assign line)
  · exact h.bind (h.eatPhrase _) fun _ => h.bind hx fun a => h.bind (h.eatPhrase _) fun _ =>
      obeys_branchEnd h hrule (.branch line a)
  · exact h.bind (h.eatPhrase _) fun _ => h.bind hx fun a => h.bind (h.eatPhrase _) fun _ =>
      obeys_loopEnd h hrule (.loop line a)

/-- **Statements obey a lawful conduct.** Induction on the nesting limit. -/
theorem obeys_statement (d : Nat) : Obeys p (statement d) := by
  induction d with
  | zero => exact fun c => .error (h.tooDeep c)
  | succ d ih =>
    intro c
    rw [statement_succ]
    cases horder : order? c.current with
    | some order => exact obeys_order h ih (order?_eq_some horder).2 _ c
    | none => exact .error (h.refuse c _)

/-- A statement that may be missing obeys in both modes. -/
theorem obeys_statement? (lenient : Bool) : Obeys p (statement? lenient nestingLimit) := by
  intro c
  rw [statement?_eq, get_bind]
  split
  · exact h.pure none c
  · exact h.bind (obeys_statement h nestingLimit) (fun node => h.pure (some node)) c

theorem obeys_statements (lenient : Bool) (fuel : Nat) : Obeys p (statements lenient fuel) := by
  induction fuel with
  | zero => exact h.pure []
  | succ fuel ih =>
    intro c
    unfold statements
    rw [get_bind]
    split
    · exact h.pure [] c
    · refine h.bind (obeys_statement? h lenient) (fun node? => ?_) c
      cases node? with
      | none => exact h.pure []
      | some node => exact h.bind ih fun nodes => h.pure (node :: nodes)

end Grammar

open Rule Grammar

/-! ## Tokens that are too long -/

/-- The token is an integer of more digits than can be read. -/
def Token.isOverlong (t : Token) : Bool := t.kind = .integer && Numeral.digitLimit < t.text.length

/-- A whole number that cannot be read has too many digits. -/
theorem Token.isOverlong_of_unread {t : Token} (hkind : t.kind = .integer)
    (hread : Numeral.read? t.text = none) : t.isOverlong := by
  unfold Numeral.read? at hread
  split at hread
  · cases hread
  · next hlength => simpa [isOverlong, hkind] using hlength

/-- Only tokens ahead of a cursor are found too long. -/
def overlongAhead : Conduct where
  moves c c' := c'.rest <:+ c.rest
  fails c failure _ := ∀ digits, failure = .tooLong digits →
    ∃ t ∈ c.rest, t.isOverlong ∧ t.text.length = digits

/-- What is left after one step is the end of what was left before. -/
theorem Cursor.rest_next_suffix (c : Cursor) : c.next.rest <:+ c.rest := by
  unfold Cursor.next
  split
  · exact List.suffix_refl _
  · exact List.tail_suffix _

/-- The failures for too many digits come from a token ahead. -/
theorem lawful_overlongAhead : overlongAhead.Lawful where
  stay c := List.suffix_refl _
  moves_trans h h' := h'.trans h
  fails_trans h h' digits hfailure := by
    obtain ⟨t, hmem, ht⟩ := h' digits hfailure
    exact ⟨t, h.subset hmem, ht⟩
  take := Cursor.rest_next_suffix
  refuse c cause := nofun
  tooDeep c := nofun
  tooLong c hkind hread digits hfailure := by
    cases hfailure
    refine ⟨c.current, ?_, Token.isOverlong_of_unread hkind hread, rfl⟩
    cases hrest : c.rest with
    | nil =>
      rw [Cursor.current, hrest] at hkind
      cases hkind
    | cons t rest => simp [Cursor.current, hrest]
  closed h := h
  unclosed h := h

/-- A spell is found too long to be read because of an integer in it. -/
theorem parse_tooLong {lenient : Bool} {ts : Tokens} {digits : Nat}
    (h : parse lenient ts = .error (.tooLong digits)) :
    ∃ t ∈ ts.body, t.isOverlong ∧ t.text.length = digits := by
  have hobeys := obeys_statements lawful_overlongAhead lenient (ts.body.length + 1)
    (Cursor.start ts)
  have hfuel : (Cursor.start ts).rest.length + 1 = ts.body.length + 1 := rfl
  unfold parse program at h
  rw [hfuel] at h
  cases hstatements : statements lenient (ts.body.length + 1) (Cursor.start ts) with
  | ok nodes c =>
    rw [hstatements] at h
    cases h
  | error failure c =>
    rw [hstatements] at h hobeys
    cases hobeys with
    | error hfails =>
      cases failure with
      | refused | tooDeep => cases h
      | tooLong n =>
        cases h
        exact hfails digits rfl

/-- Too deep a nesting is a refusal like any other. -/
theorem parse_ne_tooDeep (lenient : Bool) (ts : Tokens) : parse lenient ts ≠ .error .tooDeep := by
  unfold parse program
  cases statements lenient ((Cursor.start ts).rest.length + 1) (Cursor.start ts) with
  | ok nodes c => nofun
  | error failure c => cases failure <;> nofun

end Grimoire
