import Mathlib.Data.List.Forall2
import Grimoire.Tree.Grammar

/-!
# Spellings

The phrase grammar as a relation between trees and tokens, without a cursor, without a nesting limit
and without any order in which the tokens are looked at: `Spells role node ts` says that the tokens
`ts` are a spelling of `node` in the given role. The reader of `Grimoire.Tree.Grammar` is measured
against this relation.

* **`Spells`** has one rule for each form of the language. A node gets the line of the first token
  of its spelling; for a block this is the token `do`.
* **`Node.levels`** counts how deep phrases are nested. The relation itself knows no limit; the
  limit of the reader is a bound on this number.
-/

namespace Grimoire

/-- The part that a node plays in a spell. -/
inductive Role where
  | expression
  | statement
  | block
  | program
deriving DecidableEq

/-- The line by which the node that starts with a token is known. -/
def Token.line (t : Token) : Option Nat := some t.mark.line

/-- The tokens are the given words, one after the other. -/
def Words (words : List Text) (ts : List Token) : Prop :=
  List.Forall₂ (fun word t => t.isWord word = true) words ts

/-- The words that start a phrase where an expression should stand. No other word is taken from the
names. -/
def phraseWords : List Text :=
  ["combine", "remove", "duplicate", "split", "find", "may", "get", "is"]

/-- The words between the two sides of a comparison. -/
def comparators : List (BinaryOp × List Text) :=
  [(.equal, ["equal", "to"]), (.unequal, ["not", "equal", "to"]), (.greater, ["greater", "than"]),
    (.less, ["less", "than"])]

/-- The first of the tokens has the kind of a name, be it a word of the language or not. -/
def StartsWithName (ts : List Token) : Prop := ∃ t ∈ ts.head?, t.kind = .identifier

/-- `Spells role node ts`: the tokens `ts` are a spelling of `node` in the given role. -/
inductive Spells : Role → Node → List Token → Prop where
  -- expressions
  | text {t : Token} (ht : t.kind = .string) :
      Spells .expression (.literal t.line (.text t.text) (some "STRING")) [t]
  | integer {t : Token} (ht : t.kind = .integer) (hdigits : t.text.length ≤ Numeral.digitLimit) :
      Spells .expression (.literal t.line (.int (Numeral.value t.text)) (some "INTEGER")) [t]
  | float {t : Token} (ht : t.kind = .float) :
      Spells .expression (.literal t.line (.float (Grammar.floatValue t.text)) (some "FLOAT")) [t]
  | name {t : Token} (ht : t.kind = .identifier) (hword : t.text ∉ phraseWords) :
      Spells .expression (.name t.line t.text) [t]
  | combine {t : Token} {p q as bs : List Token} {a b : Node} (ht : t.isWord "combine")
      (hp : Words ["the", "power", "of"] p) (ha : Spells .expression a as)
      (hq : Words ["and"] q) (hb : Spells .expression b bs) :
      Spells .expression (.binary t.line a .add b) (t :: (p ++ (as ++ (q ++ bs))))
  | remove {t : Token} {p q as bs : List Token} {a b : Node} (ht : t.isWord "remove")
      (hp : Words ["the", "power", "of"] p) (ha : Spells .expression a as)
      (hq : Words ["from"] q) (hb : Spells .expression b bs) :
      Spells .expression (.binary t.line b .subtract a) (t :: (p ++ (as ++ (q ++ bs))))
  | duplicate {t : Token} {p q as bs : List Token} {a b : Node} (ht : t.isWord "duplicate")
      (hp : Words ["the", "power", "of"] p) (ha : Spells .expression a as)
      (hb : Spells .expression b bs) (hq : Words ["times"] q) :
      Spells .expression (.binary t.line a .multiply b) (t :: (p ++ (as ++ (bs ++ q))))
  | split {t : Token} {p q as bs : List Token} {a b : Node} (ht : t.isWord "split")
      (hp : Words ["the", "power", "of"] p) (ha : Spells .expression a as)
      (hb : Spells .expression b bs) (hq : Words ["times"] q) :
      Spells .expression (.binary t.line a .divide b) (t :: (p ++ (as ++ (bs ++ q))))
  | reply {t : Token} {p : List Token} (ht : t.isWord "find")
      (hp : Words ["the", "source", "of", "the", "messages"] p) :
      Spells .expression (.ask t.line) (t :: p)
  | code {t : Token} {p as : List Token} {a : Node} (ht : t.isWord "may")
      (hp : Words ["the", "sorcerers", "cast", "their", "spells", "on"] p)
      (ha : Spells .expression a as) :
      Spells .expression (.unary t.line .ord a) (t :: (p ++ as))
  | character {t : Token} {p as : List Token} {a : Node} (ht : t.isWord "get")
      (hp : Words ["the", "character", "from", "the", "spell"] p)
      (ha : Spells .expression a as) :
      Spells .expression (.unary t.line .chr a) (t :: (p ++ as))
  | comparison {t : Token} {q as bs : List Token} {a b : Node} {op : BinaryOp} {words : List Text}
      (ht : t.isWord "is") (ha : Spells .expression a as) (hop : (op, words) ∈ comparators)
      (hq : Words words q) (hb : Spells .expression b bs) :
      Spells .expression (.binary t.line a op b) (t :: (as ++ (q ++ bs)))
  -- statements
  | shout {t : Token} {p as : List Token} {a : Node} (ht : t.isWord "shout")
      (hp : Words ["the", "many", "cries", "of"] p) (ha : Spells .expression a as) :
      Spells .statement (.shout t.line a) (t :: (p ++ as))
  | create {t : Token} {p q ns as : List Token} {n a : Node} (ht : t.isWord "create")
      (hp : Words ["a", "new", "spell", "named"] p) (hn : Spells .expression n ns)
      (hname : StartsWithName ns) (hq : Words ["with", "the", "power", "of"] q)
      (ha : Spells .expression a as) :
      Spells .statement (.create t.line n a) (t :: (p ++ (ns ++ (q ++ as))))
  | assign {t : Token} {p q ns as : List Token} {n a : Node} (ht : t.isWord "set")
      (hp : Words ["the", "power", "of"] p) (hn : Spells .expression n ns)
      (hname : StartsWithName ns) (hq : Words ["to"] q) (ha : Spells .expression a as) :
      Spells .statement (.assign t.line n a) (t :: (p ++ (ns ++ (q ++ as))))
  | branch {t d : Token} {p q as bs : List Token} {a b : Node} (ht : t.isWord "cast")
      (hp : Words ["only", "if", "the", "spell"] p) (ha : Spells .expression a as)
      (hq : Words ["is", "true"] q) (hb : Spells .block b bs) (hd : d.isWord "done") :
      Spells .statement (.branch t.line a b .missing) (t :: (p ++ (as ++ (q ++ (bs ++ [d])))))
  | branchElse {t e d : Token} {p q as bs cs : List Token} {a b c : Node} (ht : t.isWord "cast")
      (hp : Words ["only", "if", "the", "spell"] p) (ha : Spells .expression a as)
      (hq : Words ["is", "true"] q) (hb : Spells .block b bs) (he : e.isWord "else")
      (hc : Spells .block c cs) (hd : d.isWord "done") :
      Spells .statement (.branch t.line a b c)
        (t :: (p ++ (as ++ (q ++ (bs ++ (e :: (cs ++ [d])))))))
  | loop {t d : Token} {p q as bs : List Token} {a b : Node} (ht : t.isWord "whilst")
      (hp : Words ["the", "spell"] p) (ha : Spells .expression a as)
      (hq : Words ["is", "true"] q) (hb : Spells .block b bs) (hd : d.isWord "done") :
      Spells .statement (.loop t.line a b) (t :: (p ++ (as ++ (q ++ (bs ++ [d])))))
  -- sequences of statements
  | block {t : Token} {ts : List Token} {ss : List Node} (ht : t.isWord "do")
      (hs : Spells .program (.program ss) ts) :
      Spells .block (.block t.line ss) (t :: ts)
  | nil : Spells .program (.program []) []
  | cons {ts us : List Token} {s : Node} {ss : List Node} (hs : Spells .statement s ts)
      (hss : Spells .program (.program ss) us) :
      Spells .program (.program (s :: ss)) (ts ++ us)

/-! ## Words -/

@[simp] theorem words_nil {ts : List Token} : Words [] ts ↔ ts = [] :=
  List.forall₂_nil_left_iff

theorem words_cons {word : Text} {words : List Text} {ts : List Token} :
    Words (word :: words) ts ↔ ∃ t us, t.isWord word ∧ Words words us ∧ ts = t :: us :=
  List.forall₂_cons_left_iff

/-- A word is told by its kind and its text; quoted text never is one. -/
theorem Token.isWord_iff {t : Token} {word : Text} :
    t.isWord word = true ↔ t.kind = .identifier ∧ t.text = word := by
  simp [Token.isWord]

/-! ## The depth of a tree -/

namespace Node

mutual

/-- How deep phrases are nested in a node. A block adds no level of its own. -/
def levels : Node → Nat
  | .literal .. | .name .. | .ask _ => 1
  | .create _ a b | .assign _ a b | .binary _ a _ b => max a.levels b.levels + 1
  | .shout _ a | .unary _ _ a => a.levels + 1
  | .branch _ a b c => max a.levels (max b.levels c.levels) + 1
  | .loop _ a b => max a.levels b.levels + 1
  | .block _ ss | .program ss => levelsOfAll ss
  | .bare | .missing => 0

/-- How deep phrases are nested in the deepest of several nodes. -/
def levelsOfAll : List Node → Nat
  | [] => 0
  | s :: ss => max s.levels (levelsOfAll ss)

end

/-- A list of nodes is as shallow as each of its nodes. -/
theorem levelsOfAll_le {ss : List Node} {d : Nat} :
    levelsOfAll ss ≤ d ↔ ∀ s ∈ ss, s.levels ≤ d := by
  induction ss with
  | nil => simp [levelsOfAll]
  | cons s ss ih => rw [levelsOfAll, Nat.max_le, ih, List.forall_mem_cons]

end Node

/-! ## The first token

What comes next is decided by one token: the spellings of expressions and statements are never
empty, and the first token of a statement is one of five words. -/

/-- The words a statement can start with. -/
def orderWords : List Text := ["shout", "create", "set", "cast", "whilst"]

/-- The spelling of an expression starts with a token that is no symbol, and its line is the line of
the expression. -/
theorem Spells.expression_head {e : Node} {ts : List Token} (h : Spells .expression e ts) :
    ∃ t us, ts = t :: us ∧ e.line? = some t.mark.line ∧ t.kind ≠ .symbol ∧ t.kind ≠ .eof := by
  cases h with
  | text ht | integer ht _ | float ht | name ht _ => exact ⟨_, _, rfl, rfl, by simp [ht]⟩
  | combine ht | remove ht | duplicate ht | split ht | reply ht | code ht | character ht
  | comparison ht =>
    exact ⟨_, _, rfl, rfl, by simp [(Token.isWord_iff.mp ht).1]⟩

/-- The spelling of a statement starts with one of five words, and the line of that word is the line
of the statement. -/
theorem Spells.statement_head {s : Node} {ts : List Token} (h : Spells .statement s ts) :
    ∃ t us, ts = t :: us ∧ s.line? = some t.mark.line ∧
      t.kind = .identifier ∧ t.text ∈ orderWords := by
  cases h with
  | shout ht | create ht | assign ht | branch ht | branchElse ht | loop ht =>
    have h := Token.isWord_iff.mp ht
    exact ⟨_, _, rfl, rfl, h.1, by rw [h.2]; decide⟩

/-! ## Spells one after the other -/

/-- Two spells written one below the other spell the statements of both. -/
theorem Spells.program_append {ss ss' : List Node} {us vs : List Token}
    (h : Spells .program (.program ss) us) (h' : Spells .program (.program ss') vs) :
    Spells .program (.program (ss ++ ss')) (us ++ vs) := by
  induction ss generalizing us with
  | nil =>
    cases h
    exact h'
  | cons s ss ih =>
    cases h with
    | cons hs hss =>
      rw [List.append_assoc]
      exact .cons hs (ih hss)

end Grimoire
