import Grimoire.Proofs.Number.Numeral
import Grimoire.Proofs.Token.Shape
import Grimoire.Proofs.Tree.Spelling

/-!
# The trees of the grammar

`Grammatical role node` says without any tokens which trees the language has: what the values of
literals can be, which operators there are, and which node may stand in which place. These are
exactly the trees that tokens of the right shape can spell (`grammatical_iff_spellable`).
-/

namespace Grimoire

/-- Text or a number written out. -/
def Node.isLiteral : Node → Bool
  | .literal .. => true
  | _ => false

/-- `Grammatical role node`: the language has the tree `node` in the given role. -/
inductive Grammatical : Role → Node → Prop where
  | text {line : Nat} {t : Text} (ht : t.isQuotable) :
      Grammatical .expression (.literal (some line) (.text t) (some "STRING"))
  | integer {line n : Nat} (hn : n < Numeral.tenTo Numeral.digitLimit) :
      Grammatical .expression (.literal (some line) (.int n) (some "INTEGER"))
  | float {line : Nat} {t : Text} (ht : t.isDecimal) :
      Grammatical .expression (.literal (some line) (.float (Grammar.floatValue t)) (some "FLOAT"))
  | name {line : Nat} {t : Text} (ht : t.isName) (hword : t ∉ phraseWords) :
      Grammatical .expression (.name (some line) t)
  | binary {line : Nat} {a b : Node} {op : BinaryOp} (hop : op.kind?.isSome)
      (ha : Grammatical .expression a) (hb : Grammatical .expression b) :
      Grammatical .expression (.binary (some line) a op b)
  | unary {line : Nat} {a : Node} {op : UnaryOp} (hop : op = .ord ∨ op = .chr)
      (ha : Grammatical .expression a) : Grammatical .expression (.unary (some line) op a)
  | ask {line : Nat} : Grammatical .expression (.ask (some line))
  | shout {line : Nat} {a : Node} (ha : Grammatical .expression a) :
      Grammatical .statement (.shout (some line) a)
  | create {line : Nat} {n a : Node} (hn : Grammatical .expression n) (hname : n.isLiteral = false)
      (ha : Grammatical .expression a) : Grammatical .statement (.create (some line) n a)
  | assign {line : Nat} {n a : Node} (hn : Grammatical .expression n) (hname : n.isLiteral = false)
      (ha : Grammatical .expression a) : Grammatical .statement (.assign (some line) n a)
  | branch {line : Nat} {a b : Node} (ha : Grammatical .expression a)
      (hb : Grammatical .block b) : Grammatical .statement (.branch (some line) a b .missing)
  | branchElse {line : Nat} {a b c : Node} (ha : Grammatical .expression a)
      (hb : Grammatical .block b) (hc : Grammatical .block c) :
      Grammatical .statement (.branch (some line) a b c)
  | loop {line : Nat} {a b : Node} (ha : Grammatical .expression a) (hb : Grammatical .block b) :
      Grammatical .statement (.loop (some line) a b)
  | block {line : Nat} {ss : List Node} (hs : Grammatical .program (.program ss)) :
      Grammatical .block (.block (some line) ss)
  | nil : Grammatical .program (.program [])
  | cons {s : Node} {ss : List Node} (hs : Grammatical .statement s)
      (hss : Grammatical .program (.program ss)) : Grammatical .program (.program (s :: ss))

/-! ## What is spelled is grammatical -/

/-- An expression starts with a token of the kind of a name unless it is a literal. -/
theorem Spells.startsWithName_iff {n : Node} {ns : List Token} (h : Spells .expression n ns) :
    StartsWithName ns ↔ n.isLiteral = false := by
  cases h with
  | text ht | integer ht _ | float ht => simp [StartsWithName, Node.isLiteral, ht]
  | name ht _ => simp [StartsWithName, Node.isLiteral, ht]
  | combine ht | remove ht | duplicate ht | split ht | reply ht | code ht | character ht
  | comparison ht =>
    have hkind := (Token.isWord_iff.mp ht).1
    simp [StartsWithName, Node.isLiteral, hkind]

/-- What tokens of the right shape spell is a tree of the grammar. -/
theorem Spells.grammatical {role : Role} {node : Node} {ts : List Token} (h : Spells role node ts)
    (hshape : ∀ t ∈ ts, t.isShaped) : Grammatical role node := by
  induction h with
  | text ht =>
    have hs := hshape _ (List.mem_singleton_self _)
    rw [Token.isShaped, ht] at hs
    exact .text hs
  | integer ht hdigits =>
    have hs := hshape _ (List.mem_singleton_self _)
    rw [Token.isShaped, ht] at hs
    simp only [Text.isDigits, Bool.and_eq_true] at hs
    exact .integer ((Numeral.value_lt_tenTo hs.2).trans_le (Numeral.tenTo_le_tenTo hdigits))
  | float ht =>
    have hs := hshape _ (List.mem_singleton_self _)
    rw [Token.isShaped, ht] at hs
    exact .float hs
  | name ht hword =>
    have hs := hshape _ (List.mem_singleton_self _)
    rw [Token.isShaped, ht] at hs
    exact .name hs hword
  -- In a phrase the shape of the parts is among the shapes of all tokens.
  | combine _ _ _ _ _ iha ihb =>
    simp only [List.forall_mem_cons, List.forall_mem_append] at hshape
    exact .binary rfl (iha hshape.2.2.1) (ihb hshape.2.2.2.2)
  | remove _ _ _ _ _ iha ihb =>
    simp only [List.forall_mem_cons, List.forall_mem_append] at hshape
    exact .binary rfl (ihb hshape.2.2.2.2) (iha hshape.2.2.1)
  | duplicate _ _ _ _ _ iha ihb | split _ _ _ _ _ iha ihb =>
    simp only [List.forall_mem_cons, List.forall_mem_append] at hshape
    exact .binary rfl (iha hshape.2.2.1) (ihb hshape.2.2.2.1)
  | reply => exact .ask
  | code _ _ _ iha =>
    simp only [List.forall_mem_cons, List.forall_mem_append] at hshape
    exact .unary (.inl rfl) (iha hshape.2.2)
  | character _ _ _ iha =>
    simp only [List.forall_mem_cons, List.forall_mem_append] at hshape
    exact .unary (.inr rfl) (iha hshape.2.2)
  | comparison _ _ hop _ _ iha ihb =>
    simp only [List.forall_mem_cons, List.forall_mem_append] at hshape
    have hkind : ∀ entry ∈ comparators, entry.1.kind?.isSome := by decide
    exact .binary (hkind _ hop) (iha hshape.2.1) (ihb hshape.2.2.2)
  | shout _ _ _ iha =>
    simp only [List.forall_mem_cons, List.forall_mem_append] at hshape
    exact .shout (iha hshape.2.2)
  | create _ _ hn hname _ _ ihn iha =>
    simp only [List.forall_mem_cons, List.forall_mem_append] at hshape
    exact .create (ihn hshape.2.2.1) (hn.startsWithName_iff.mp hname) (iha hshape.2.2.2.2)
  | assign _ _ hn hname _ _ ihn iha =>
    simp only [List.forall_mem_cons, List.forall_mem_append] at hshape
    exact .assign (ihn hshape.2.2.1) (hn.startsWithName_iff.mp hname) (iha hshape.2.2.2.2)
  | branch _ _ _ _ _ _ iha ihb =>
    simp only [List.forall_mem_cons, List.forall_mem_append] at hshape
    exact .branch (iha hshape.2.2.1) (ihb hshape.2.2.2.2.1)
  | branchElse _ _ _ _ _ _ _ _ iha ihb ihc =>
    simp only [List.forall_mem_cons, List.forall_mem_append] at hshape
    exact .branchElse (iha hshape.2.2.1) (ihb hshape.2.2.2.2.1) (ihc hshape.2.2.2.2.2.2.1)
  | loop _ _ _ _ _ _ iha ihb =>
    simp only [List.forall_mem_cons, List.forall_mem_append] at hshape
    exact .loop (iha hshape.2.2.1) (ihb hshape.2.2.2.2.1)
  | block _ _ ih =>
    rw [List.forall_mem_cons] at hshape
    exact .block (ih hshape.2)
  | nil => exact .nil
  | cons _ _ ihs ihss =>
    rw [List.forall_mem_append] at hshape
    exact .cons (ihs hshape.1) (ihss hshape.2)

/-! ## What is grammatical can be spelled -/

/-- A word as a token, at the beginning of a line. -/
def Token.ofWord (line : Nat) (word : Text) : Token := ⟨.identifier, word, ⟨0, line, 1⟩⟩

theorem Token.isWord_ofWord (line : Nat) (word : Text) : (Token.ofWord line word).isWord word := by
  rw [Token.isWord_iff]
  exact ⟨rfl, rfl⟩

/-- The part can be spelled by tokens of the right shape. -/
def Spellable (role : Role) (node : Node) : Prop :=
  ∃ ts, Spells role node ts ∧ ∀ t ∈ ts, t.isShaped

theorem words_ofWord (words : List Text) : Words words (words.map (Token.ofWord 1)) := by
  unfold Words
  rw [List.forall₂_map_right_iff]
  exact List.forall₂_same.mpr fun word _ => Token.isWord_ofWord 1 word

/-- Words can be spelled if each of them has the shape of a name. -/
theorem exists_words {words : List Text} (h : words.all Text.isName = true) :
    ∃ ts, Words words ts ∧ ∀ t ∈ ts, t.isShaped := by
  refine ⟨words.map (Token.ofWord 1), words_ofWord words, ?_⟩
  rw [List.forall_mem_map]
  exact List.all_eq_true.mp h

/-- Every operator but the unknown one has a phrase, and spellable operands make it spellable. -/
theorem spellable_binary {line : Nat} {a b : Node} {op : BinaryOp} (hop : op.kind?.isSome)
    (ha : Spellable .expression a) (hb : Spellable .expression b) :
    Spellable .expression (.binary (some line) a op b) := by
  obtain ⟨as, ha, has⟩ := ha
  obtain ⟨bs, hb, hbs⟩ := hb
  have hword := Token.isWord_ofWord line
  obtain ⟨p, hp, hps⟩ : ∃ ts, Words ["the", "power", "of"] ts ∧ ∀ t ∈ ts, t.isShaped :=
    exists_words rfl
  -- the comparisons differ in the words between the operands only
  have hcompare {words : List Text} (hmem : (op, words) ∈ comparators)
      (hwords : words.all Text.isName = true) :
      Spellable .expression (.binary (some line) a op b) := by
    obtain ⟨q, hq, hqs⟩ := exists_words hwords
    refine ⟨_, .comparison (hword "is") ha hmem hq hb, ?_⟩
    simp only [List.forall_mem_cons, List.forall_mem_append]
    exact ⟨rfl, has, hqs, hbs⟩
  cases op with
  | add =>
    obtain ⟨q, hq, hqs⟩ : ∃ ts, Words ["and"] ts ∧ ∀ t ∈ ts, t.isShaped := exists_words rfl
    refine ⟨_, .combine (hword "combine") hp ha hq hb, ?_⟩
    simp only [List.forall_mem_cons, List.forall_mem_append]
    exact ⟨rfl, hps, has, hqs, hbs⟩
  | subtract =>
    obtain ⟨q, hq, hqs⟩ : ∃ ts, Words ["from"] ts ∧ ∀ t ∈ ts, t.isShaped := exists_words rfl
    refine ⟨_, .remove (hword "remove") hp hb hq ha, ?_⟩
    simp only [List.forall_mem_cons, List.forall_mem_append]
    exact ⟨rfl, hps, hbs, hqs, has⟩
  | multiply =>
    obtain ⟨q, hq, hqs⟩ : ∃ ts, Words ["times"] ts ∧ ∀ t ∈ ts, t.isShaped := exists_words rfl
    refine ⟨_, .duplicate (hword "duplicate") hp ha hb hq, ?_⟩
    simp only [List.forall_mem_cons, List.forall_mem_append]
    exact ⟨rfl, hps, has, hbs, hqs⟩
  | divide =>
    obtain ⟨q, hq, hqs⟩ : ∃ ts, Words ["times"] ts ∧ ∀ t ∈ ts, t.isShaped := exists_words rfl
    refine ⟨_, .split (hword "split") hp ha hb hq, ?_⟩
    simp only [List.forall_mem_cons, List.forall_mem_append]
    exact ⟨rfl, hps, has, hbs, hqs⟩
  | equal => exact hcompare (.head _) rfl
  | unequal => exact hcompare (.tail _ (.head _)) rfl
  | greater => exact hcompare (.tail _ (.tail _ (.head _))) rfl
  | less => exact hcompare (.tail _ (.tail _ (.tail _ (.head _)))) rfl
  | unknown => cases hop

/-- The phrases with one operand are spellable if the operand is. -/
theorem spellable_unary {line : Nat} {a : Node} {op : UnaryOp} (hop : op = .ord ∨ op = .chr)
    (ha : Spellable .expression a) : Spellable .expression (.unary (some line) op a) := by
  obtain ⟨as, ha, has⟩ := ha
  have hword := Token.isWord_ofWord line
  rcases hop with rfl | rfl
  · obtain ⟨p, hp, hps⟩ : ∃ ts, Words ["the", "sorcerers", "cast", "their", "spells", "on"] ts ∧
        ∀ t ∈ ts, t.isShaped := exists_words rfl
    refine ⟨_, .code (hword "may") hp ha, ?_⟩
    simp only [List.forall_mem_cons, List.forall_mem_append]
    exact ⟨rfl, hps, has⟩
  · obtain ⟨p, hp, hps⟩ : ∃ ts, Words ["the", "character", "from", "the", "spell"] ts ∧
        ∀ t ∈ ts, t.isShaped := exists_words rfl
    refine ⟨_, .character (hword "get") hp ha, ?_⟩
    simp only [List.forall_mem_cons, List.forall_mem_append]
    exact ⟨rfl, hps, has⟩

/-- Every tree of the grammar has a spelling. -/
theorem Grammatical.spellable {role : Role} {node : Node} (h : Grammatical role node) :
    Spellable role node := by
  -- The words of a phrase may stand on any line: only the first token decides the line of a node.
  have hword := Token.isWord_ofWord
  have htrue : ∃ ts, Words ["is", "true"] ts ∧ ∀ t ∈ ts, t.isShaped := exists_words rfl
  induction h with
  | @text line t ht =>
    exact ⟨_, Spells.text (t := ⟨.string, t, ⟨0, line, 1⟩⟩) rfl, by simp [Token.isShaped, ht]⟩
  | @integer line n hn =>
    have hdigits := (Numeral.length_digits_le_iff (by decide)).mpr hn
    have hspells := Spells.integer (t := ⟨.integer, Numeral.digits n, ⟨0, line, 1⟩⟩) rfl hdigits
    rw [Numeral.value_digits] at hspells
    refine ⟨_, hspells, ?_⟩
    simp [Token.isShaped, Text.isDigits, Numeral.all_isDigit_digits, Numeral.digits_ne_nil]
  | @float line t ht =>
    exact ⟨_, Spells.float (t := ⟨.float, t, ⟨0, line, 1⟩⟩) rfl, by simp [Token.isShaped, ht]⟩
  | @name line t ht hword =>
    exact ⟨_, Spells.name (t := .ofWord line t) rfl hword, by simpa [Token.isShaped, Token.ofWord]⟩
  | binary hop _ _ iha ihb => exact spellable_binary hop iha ihb
  | unary hop _ ih => exact spellable_unary hop ih
  | @ask line =>
    obtain ⟨p, hp, hps⟩ : ∃ ts, Words ["the", "source", "of", "the", "messages"] ts ∧
      ∀ t ∈ ts, t.isShaped := exists_words rfl
    exact ⟨_, .reply (hword line "find") hp, List.forall_mem_cons.mpr ⟨rfl, hps⟩⟩
  | @shout line _ _ iha =>
    obtain ⟨as, ha, has⟩ := iha
    obtain ⟨p, hp, hps⟩ : ∃ ts, Words ["the", "many", "cries", "of"] ts ∧
      ∀ t ∈ ts, t.isShaped := exists_words rfl
    refine ⟨_, .shout (hword line "shout") hp ha, ?_⟩
    simp only [List.forall_mem_cons, List.forall_mem_append]
    exact ⟨rfl, hps, has⟩
  | @create line _ _ _ hname _ ihn iha =>
    obtain ⟨ns, hn, hns⟩ := ihn
    obtain ⟨as, ha, has⟩ := iha
    obtain ⟨p, hp, hps⟩ : ∃ ts, Words ["a", "new", "spell", "named"] ts ∧
      ∀ t ∈ ts, t.isShaped := exists_words rfl
    obtain ⟨q, hq, hqs⟩ : ∃ ts, Words ["with", "the", "power", "of"] ts ∧
      ∀ t ∈ ts, t.isShaped := exists_words rfl
    refine ⟨_, .create (hword line "create") hp hn (hn.startsWithName_iff.mpr hname) hq ha, ?_⟩
    simp only [List.forall_mem_cons, List.forall_mem_append]
    exact ⟨rfl, hps, hns, hqs, has⟩
  | @assign line _ _ _ hname _ ihn iha =>
    obtain ⟨ns, hn, hns⟩ := ihn
    obtain ⟨as, ha, has⟩ := iha
    obtain ⟨p, hp, hps⟩ : ∃ ts, Words ["the", "power", "of"] ts ∧ ∀ t ∈ ts, t.isShaped :=
      exists_words rfl
    obtain ⟨q, hq, hqs⟩ : ∃ ts, Words ["to"] ts ∧ ∀ t ∈ ts, t.isShaped := exists_words rfl
    refine ⟨_, .assign (hword line "set") hp hn (hn.startsWithName_iff.mpr hname) hq ha, ?_⟩
    simp only [List.forall_mem_cons, List.forall_mem_append]
    exact ⟨rfl, hps, hns, hqs, has⟩
  | @branch line _ _ _ _ iha ihb =>
    obtain ⟨as, ha, has⟩ := iha
    obtain ⟨bs, hb, hbs⟩ := ihb
    obtain ⟨q, hq, hqs⟩ := htrue
    obtain ⟨p, hp, hps⟩ : ∃ ts, Words ["only", "if", "the", "spell"] ts ∧
      ∀ t ∈ ts, t.isShaped := exists_words rfl
    refine ⟨_, .branch (hword line "cast") hp ha hq hb (hword 1 "done"), ?_⟩
    simp only [List.forall_mem_cons, List.forall_mem_append]
    exact ⟨rfl, hps, has, hqs, hbs, rfl, by simp⟩
  | @branchElse line _ _ _ _ _ _ iha ihb ihc =>
    obtain ⟨as, ha, has⟩ := iha
    obtain ⟨bs, hb, hbs⟩ := ihb
    obtain ⟨cs, hc, hcs⟩ := ihc
    obtain ⟨q, hq, hqs⟩ := htrue
    obtain ⟨p, hp, hps⟩ : ∃ ts, Words ["only", "if", "the", "spell"] ts ∧
      ∀ t ∈ ts, t.isShaped := exists_words rfl
    refine ⟨_, .branchElse (hword line "cast") hp ha hq hb (hword 1 "else") hc (hword 1 "done"), ?_⟩
    simp only [List.forall_mem_cons, List.forall_mem_append]
    exact ⟨rfl, hps, has, hqs, hbs, rfl, hcs, rfl, by simp⟩
  | @loop line _ _ _ _ iha ihb =>
    obtain ⟨as, ha, has⟩ := iha
    obtain ⟨bs, hb, hbs⟩ := ihb
    obtain ⟨q, hq, hqs⟩ := htrue
    obtain ⟨p, hp, hps⟩ : ∃ ts, Words ["the", "spell"] ts ∧ ∀ t ∈ ts, t.isShaped :=
      exists_words rfl
    refine ⟨_, .loop (hword line "whilst") hp ha hq hb (hword 1 "done"), ?_⟩
    simp only [List.forall_mem_cons, List.forall_mem_append]
    exact ⟨rfl, hps, has, hqs, hbs, rfl, by simp⟩
  | @block line _ _ ih =>
    obtain ⟨ts, hts, htshape⟩ := ih
    exact ⟨_, .block (hword line "do") hts, List.forall_mem_cons.mpr ⟨rfl, htshape⟩⟩
  | nil => exact ⟨[], .nil, by simp⟩
  | cons _ _ ihs ihss =>
    obtain ⟨ts, hts, htshape⟩ := ihs
    obtain ⟨us, hus, hushape⟩ := ihss
    exact ⟨ts ++ us, .cons hts hus, List.forall_mem_append.mpr ⟨htshape, hushape⟩⟩

/-- The trees of the language are the trees that well-formed tokens spell. -/
theorem grammatical_iff_spellable {role : Role} {node : Node} :
    Grammatical role node ↔ Spellable role node :=
  ⟨Grammatical.spellable, fun ⟨_, hspells, hshape⟩ => hspells.grammatical hshape⟩

end Grimoire
