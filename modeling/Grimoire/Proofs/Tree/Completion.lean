import Grimoire.Proofs.Tree.Likeness
import Grimoire.Proofs.Tree.Parsing

/-!
# The first offending token

A refusal names the first token at which the reading cannot go on: the tokens before it are the
beginning of some spell, and with that token they are the beginning of none.

* **`Rule.Viable`** is the contract behind the first half. Wherever a rule refuses a token, what it
  has passed can be completed to something that it stands for. The contract respects sequences
  (`Viable.bind`), because each part of a phrase can be spelled somehow when its turn comes.
* The second half comes from `Rule.Alike`: the reader looks at no token after the one it refuses, so
  it refuses that token in every list of tokens that goes on differently.

Nesting is kept apart by `parseWithin`, which reads with any nesting limit.
-/

namespace Grimoire

/-! ## Moving on -/

/-- The cursor `c` moves over the tokens `ts` and becomes `c'`, with any number of blocks open. -/
structure Cursor.Moves (c : Cursor) (ts : List Token) (c' : Cursor) : Prop where
  rest : c.rest = ts ++ c'.rest
  stop : c'.stop = c.stop
  pos : c'.pos = c.pos + ts.length

namespace Cursor

/-- To pass over tokens with no change of the open blocks is to move over them. -/
theorem Passes.moves {c c' : Cursor} {ts : List Token} (h : c.Passes ts c') : c.Moves ts c' :=
  ⟨h.rest, h.stop, h.pos⟩

theorem Moves.refl (c : Cursor) : c.Moves [] c := ⟨rfl, rfl, rfl⟩

/-- Two moves in a row are one move over all the tokens. -/
theorem Moves.append {c c' c'' : Cursor} {ts us : List Token} (h : c.Moves ts c')
    (h' : c'.Moves us c'') : c.Moves (ts ++ us) c'' := by
  refine ⟨?_, h'.stop.trans h.stop, ?_⟩
  · rw [h.rest, h'.rest, List.append_assoc]
  · rw [h'.pos, h.pos, List.length_append, Nat.add_assoc]

theorem Moves.current {c c' : Cursor} {t : Token} {ts : List Token} (h : c.Moves (t :: ts) c') :
    c.current = t := by
  simp [Cursor.current, h.rest]

end Cursor

/-! ## Viable rules -/

instance : Nonempty Token := ⟨.eof .start⟩

instance : Nonempty BinaryOp := ⟨.add⟩

namespace Rule

variable {α β : Type}

/-- Some tokens of the right shape are of the given sort. -/
def Attainable (L : List Token → Prop) : Prop := ∃ ts, L ts ∧ ∀ t ∈ ts, t.isShaped

/-- Whatever tokens the rule passes are of the sort `L`. Where it refuses a token, those that it has
passed can be completed to tokens of that sort. -/
structure Viable (r : Rule α) (L : List Token → Prop) : Prop where
  attainable : Attainable L
  accepts : ∀ c a c', r c = .ok a c' → ∃ ts, c.Moves ts c' ∧ L ts
  refuses : ∀ c e c', r c = .error (.refused e) c' → e.token = c'.current ∧ e.pos = c'.pos ∧
    ∃ ts us, c.Moves ts c' ∧ L (ts ++ us) ∧ ∀ t ∈ us, t.isShaped

variable {x : Rule α} {f : α → Rule β} {L M : List Token → Prop}

namespace Viable

/-- What is viable for some tokens is viable for a wider sort of tokens. -/
theorem mono (hx : Viable x L) (h : ∀ ts, L ts → M ts) : Viable x M := by
  refine ⟨?_, fun c a c' hok => ?_, fun c e c' herror => ?_⟩
  · obtain ⟨ts, hts, hshape⟩ := hx.attainable
    exact ⟨ts, h ts hts, hshape⟩
  · obtain ⟨ts, hmoves, hts⟩ := hx.accepts c a c' hok
    exact ⟨ts, hmoves, h ts hts⟩
  · obtain ⟨htoken, hpos, ts, us, hmoves, hts, hshape⟩ := hx.refuses c e c' herror
    exact ⟨htoken, hpos, ts, us, hmoves, h _ hts, hshape⟩

theorem pure (a : α) : Viable (Pure.pure a) fun ts => ts = [] := by
  refine ⟨⟨[], rfl, by simp⟩, fun c b c' hok => ?_, fun c e c' herror => ?_⟩
  · obtain ⟨-, rfl⟩ := pure_eq_ok.mp hok
    exact ⟨[], .refl c, rfl⟩
  · cases herror

/-- A rule that refuses at once is viable, if there is something it could have read. -/
theorem refuse (cause : ParseCause) (h : Attainable L) : Viable (refuse cause : Rule α) L := by
  refine ⟨h, fun c a c' hok => absurd hok refuse_ne_ok, fun c e c' herror => ?_⟩
  obtain ⟨us, hus, hshape⟩ := h
  cases herror
  exact ⟨rfl, rfl, [], us, .refl c, hus, hshape⟩

/-- One rule after the other. Where the first one refuses a token, its part is completed, and the
part of the second one is put after it. -/
theorem bind [Nonempty α] (hx : Viable x L) (hf : ∀ a, Viable (f a) M) :
    Viable (x >>= f) fun ts => ∃ us vs, L us ∧ M vs ∧ ts = us ++ vs := by
  obtain ⟨ws, hws, hwshape⟩ := (hf (Classical.arbitrary α)).attainable
  refine ⟨?_, fun c b c' hok => ?_, fun c e c' herror => ?_⟩
  · obtain ⟨us, hus, hushape⟩ := hx.attainable
    exact ⟨us ++ ws, ⟨us, ws, hus, hws, rfl⟩, List.forall_mem_append.mpr ⟨hushape, hwshape⟩⟩
  · obtain ⟨a, c₁, ha, hb⟩ := bind_eq_ok.mp hok
    obtain ⟨us, hmoves, hus⟩ := hx.accepts c a c₁ ha
    obtain ⟨vs, hmoves', hvs⟩ := (hf a).accepts c₁ b c' hb
    exact ⟨us ++ vs, hmoves.append hmoves', us, vs, hus, hvs, rfl⟩
  · cases hxc : x c with
    | error failure c₁ =>
      rw [bind_of_error hxc] at herror
      cases herror
      -- The first rule refuses: its part is completed by `us`, and `ws` stands for the second part.
      obtain ⟨htoken, hpos, ts, us, hmoves, hts, hshape⟩ := hx.refuses c e c' hxc
      refine ⟨htoken, hpos, ts, us ++ ws, hmoves, ⟨ts ++ us, ws, hts, hws, ?_⟩,
        List.forall_mem_append.mpr ⟨hshape, hwshape⟩⟩
      rw [List.append_assoc]
    | ok a c₁ =>
      rw [bind_of_ok hxc] at herror
      obtain ⟨us, hmoves, hus⟩ := hx.accepts c a c₁ hxc
      obtain ⟨htoken, hpos, ts, vs, hmoves', hvs, hshape⟩ := (hf a).refuses c₁ e c' herror
      refine ⟨htoken, hpos, us ++ ts, vs, hmoves.append hmoves', ⟨us, ts ++ vs, hus, hvs, ?_⟩,
        hshape⟩
      rw [List.append_assoc]

/-- What comes after a look at the cursor, if it is viable whatever is seen. -/
theorem get_bind {F : Cursor → Rule α} (h : ∀ c, Viable (F c) L) : Viable (get >>= F) L := by
  refine ⟨(h (Cursor.start ⟨[], Mark.start⟩)).attainable, fun c => ?_, fun c => ?_⟩
  · exact (h c).accepts c
  · exact (h c).refuses c

theorem modifyDepth (f : Nat → Nat) :
    Viable (modify fun c => { c with blockDepth := f c.blockDepth }) fun ts => ts = [] := by
  refine ⟨⟨[], rfl, by simp⟩, fun c _ c' hok => ?_, fun c e c' herror => ?_⟩
  · cases hok
    exact ⟨[], ⟨rfl, rfl, rfl⟩, rfl⟩
  · cases herror

end Viable

/-! ### Words -/

theorem words_singleton {word : Text} {ts : List Token} :
    Words [word] ts ↔ ∃ t, t.isWord word ∧ ts = [t] := by
  simp only [words_cons, words_nil, exists_eq_left, exists_and_left]

/-- There are well-formed tokens for words that have the shape of names. -/
theorem attainable_words {words : List Text} (h : words.all Text.isName) :
    Attainable (Words words) := exists_words h

/-- Where a word is refused, that word completes it. -/
theorem viable_eatWord {word : Text} (h : word.isName) : Viable (eatWord word) (Words [word]) := by
  have hattainable : Attainable (Words [word]) := attainable_words (by simp [h])
  refine ⟨hattainable, fun c t c' hok => ?_, fun c e c' herror => ?_⟩
  · obtain ⟨ts, hpass, ht, rfl⟩ := (reads_eatWord word c t c').mp hok
    exact ⟨[t], hpass.moves, words_singleton.mpr ⟨t, ht, rfl⟩⟩
  · change (if c.atWord word then advance else refuse (.expectedWord word) : Rule Token) c = _
      at herror
    split at herror
    · cases herror
    · exact (Viable.refuse _ hattainable).refuses c e c' herror

/-- Where one of several words is refused, it and the words after it complete them. -/
theorem viable_eatWords {words : List Text} (h : words.all Text.isName) :
    Viable (eatWords words) (Words words) := by
  induction words with
  | nil => exact (Viable.pure ()).mono fun ts hts => words_nil.mpr hts
  | cons word words ih =>
    rw [List.all_cons, Bool.and_eq_true] at h
    refine ((viable_eatWord h.1).bind fun _ => ih h.2).mono fun ts hts => ?_
    obtain ⟨us, vs, hus, hvs, rfl⟩ := hts
    obtain ⟨t, ht, rfl⟩ := words_singleton.mp hus
    exact words_cons.mpr ⟨t, vs, ht, hvs, rfl⟩

/-- A phrase is completed by the words that are left of it. -/
theorem viable_eatPhrase {phrase : Text} {words : List Text} (h : phrase.words = words)
    (hwords : words.all Text.isName) : Viable (eatPhrase phrase) (Words words) := by
  subst h
  exact viable_eatWords hwords

/-- A word that stands before the cursor may be taken without looking at it again. -/
theorem advance_eq_eatWord {c : Cursor} {word : Text} (h : c.atWord word) :
    advance c = eatWord word c := by
  show _ = (if c.atWord word then advance else refuse (.expectedWord word) : Rule Token) c
  rw [if_pos h]

/-- The same in front of further rules. -/
theorem advance_bind_eq {c : Cursor} {word : Text} (h : c.atWord word) (f : Token → Rule α) :
    (advance >>= f) c = (eatWord word >>= f) c :=
  bind_congr_at (advance_eq_eatWord h) fun _ _ _ => rfl

/-! ### The shapes of phrases -/

section Shapes

variable {x y : Rule Node} {N : List Token → Prop} {phrase sep : Text} {ps qs : List Text}

/-- A phrase with one operand at its end. -/
theorem viable_operand (hp : phrase.words = ps) (hps : ps.all Text.isName) (hx : Viable x L)
    {build : Node → Node} (h : ∀ p as, Words ps p → L as → N (p ++ as)) :
    Viable (do eatPhrase phrase; return build (← x)) N := by
  refine ((viable_eatPhrase hp hps).bind fun _ => hx.bind fun a => .pure (build a)).mono ?_
  rintro ts ⟨p, _, hp, ⟨as, _, has, rfl, rfl⟩, rfl⟩
  rw [List.append_nil]
  exact h p as hp has

/-- A phrase with words between its two operands. -/
theorem viable_between (hp : phrase.words = ps) (hps : ps.all Text.isName) (hx : Viable x L)
    (hq : sep.words = qs) (hqs : qs.all Text.isName) (hy : Viable y M)
    {build : Node → Node → Node}
    (h : ∀ p as q bs, Words ps p → L as → Words qs q → M bs → N (p ++ (as ++ (q ++ bs)))) :
    Viable (do eatPhrase phrase; let a ← x; eatPhrase sep; return build a (← y)) N := by
  refine ((viable_eatPhrase hp hps).bind fun _ => hx.bind fun a =>
    viable_operand (N := fun ts => ∃ q bs, Words qs q ∧ M bs ∧ ts = q ++ bs) hq hqs hy
      fun q bs hq hbs => ⟨q, bs, hq, hbs, rfl⟩).mono ?_
  rintro ts ⟨p, _, hp, ⟨as, _, has, ⟨q, bs, hq, hbs, rfl⟩, rfl⟩, rfl⟩
  exact h p as q bs hp has hq hbs

/-- A phrase with words after its two operands. -/
theorem viable_after (hp : phrase.words = ps) (hps : ps.all Text.isName) (hx : Viable x L)
    (hy : Viable y M) (hq : sep.words = qs) (hqs : qs.all Text.isName)
    {build : Node → Node → Node}
    (h : ∀ p as bs q, Words ps p → L as → M bs → Words qs q → N (p ++ (as ++ (bs ++ q)))) :
    Viable (do eatPhrase phrase; let a ← x; let b ← y; eatPhrase sep; return build a b) N := by
  refine ((viable_eatPhrase hp hps).bind fun _ => hx.bind fun a => hy.bind fun b =>
    (viable_eatPhrase hq hqs).bind fun _ => .pure (build a b)).mono ?_
  rintro ts ⟨p, _, hp, ⟨as, _, has, ⟨bs, _, hbs, ⟨q, _, hq, rfl, rfl⟩, rfl⟩, rfl⟩, rfl⟩
  rw [List.append_nil]
  exact h p as bs q hp has hbs hq

end Shapes
end Rule

/-! ## Expressions -/

/-- The tokens spell some tree in the given role. -/
def Spelled (role : Role) (ts : List Token) : Prop := ∃ node, Spells role node ts

namespace Grammar

open Rule

/-- There is an expression: any name. -/
theorem attainable_expression : Attainable (Spelled .expression) := by
  refine ⟨[.ofWord 1 "x"], ⟨_, .name rfl (by decide)⟩, ?_⟩
  rw [List.forall_mem_singleton]
  decide

/-- The tokens are the words of some comparison. -/
def Compares (ts : List Token) : Prop := ∃ op words, (op, words) ∈ comparators ∧ Words words ts

/-- One of the four beginnings of a comparison. -/
theorem viable_compares {first phrase : Text} {op : BinaryOp} (hfirst : first.isName)
    (hphrase : phrase.words.all Text.isName) (hmem : (op, first :: phrase.words) ∈ comparators) :
    Viable (do let _ ← eatWord first; eatPhrase phrase; return op : Rule BinaryOp) Compares := by
  refine ((viable_eatWord hfirst).bind fun _ => (viable_eatPhrase rfl hphrase).bind fun _ =>
    .pure op).mono ?_
  rintro ts ⟨us, _, hus, ⟨vs, _, hvs, rfl, rfl⟩, rfl⟩
  obtain ⟨t, ht, rfl⟩ := words_singleton.mp hus
  rw [List.append_nil]
  exact ⟨op, _, hmem, words_cons.mpr ⟨t, vs, ht, hvs, rfl⟩⟩

/-- The words of a comparison can be completed wherever they are refused. -/
theorem viable_comparator : Viable comparator Compares := by
  have hequal : Viable (do let _ ← eatWord "equal"; eatPhrase "to"; return .equal : Rule BinaryOp)
      Compares := viable_compares rfl rfl (by decide)
  refine ⟨hequal.attainable, fun c op c' hok => ?_, fun c e c' herror => ?_⟩
  · obtain ⟨ts, hpass, words, hop, hwords⟩ := (reads_comparator c op c').mp hok
    exact ⟨ts, hpass.moves, op, words, hop, hwords⟩
  · rw [comparator_apply] at herror
    split_ifs at herror with hat hat hat hat
    · rw [advance_bind_eq hat] at herror
      exact hequal.refuses c e c' herror
    · rw [advance_bind_eq hat] at herror
      exact (viable_compares rfl rfl (by decide)).refuses c e c' herror
    · rw [advance_bind_eq hat] at herror
      exact (viable_compares rfl rfl (by decide)).refuses c e c' herror
    · rw [advance_bind_eq hat] at herror
      exact (viable_compares rfl rfl (by decide)).refuses c e c' herror
    · exact (Viable.refuse _ hequal.attainable).refuses c e c' herror

/-- What follows the first word of a phrase can be completed, if its parts can. -/
theorem viable_phrase {x : Rule Node} (hx : Viable x (Spelled .expression)) {t : Token}
    (hkind : t.kind = .identifier) {phrase : Option Nat → Rule Node → Rule Node}
    (hmem : (t.text, phrase) ∈ phrases) (line : Option Nat) :
    Viable (phrase line x) fun us => Spelled .expression (t :: us) := by
  have hword {word : Text} (htext : t.text = word) : t.isWord word :=
    Token.isWord_iff.mpr ⟨hkind, htext⟩
  -- One case for each phrase, in the order of the table.
  simp only [phrases, List.mem_cons, Prod.mk.injEq, List.not_mem_nil, or_false] at hmem
  rcases hmem with ⟨ht, rfl⟩ | ⟨ht, rfl⟩ | ⟨ht, rfl⟩ | ⟨ht, rfl⟩ | ⟨ht, rfl⟩ | ⟨ht, rfl⟩ |
    ⟨ht, rfl⟩ | ⟨ht, rfl⟩
  · refine viable_between rfl rfl hx rfl rfl hx ?_
    rintro p as q bs hp ⟨a, ha⟩ hq ⟨b, hb⟩
    exact ⟨_, .combine (hword ht) hp ha hq hb⟩
  · refine viable_between rfl rfl hx rfl rfl hx ?_
    rintro p as q bs hp ⟨a, ha⟩ hq ⟨b, hb⟩
    exact ⟨_, .remove (hword ht) hp ha hq hb⟩
  · refine viable_after rfl rfl hx hx rfl rfl ?_
    rintro p as bs q hp ⟨a, ha⟩ ⟨b, hb⟩ hq
    exact ⟨_, .duplicate (hword ht) hp ha hb hq⟩
  · refine viable_after rfl rfl hx hx rfl rfl ?_
    rintro p as bs q hp ⟨a, ha⟩ ⟨b, hb⟩ hq
    exact ⟨_, .split (hword ht) hp ha hb hq⟩
  · refine ((viable_eatPhrase rfl rfl).bind fun _ => .pure (Node.ask line)).mono ?_
    rintro us ⟨p, _, hp, rfl, rfl⟩
    rw [List.append_nil]
    exact ⟨_, .reply (hword ht) hp⟩
  · refine viable_operand rfl rfl hx ?_
    rintro p as hp ⟨a, ha⟩
    exact ⟨_, .code (hword ht) hp ha⟩
  · refine viable_operand rfl rfl hx ?_
    rintro p as hp ⟨a, ha⟩
    exact ⟨_, .character (hword ht) hp ha⟩
  · refine (hx.bind fun a => viable_comparator.bind fun op => hx.bind fun b =>
      .pure (Node.binary line a op b)).mono ?_
    rintro us ⟨as, _, ⟨a, ha⟩, ⟨q, _, ⟨op, words, hop, hq⟩, ⟨bs, _, ⟨b, hb⟩, rfl, rfl⟩, rfl⟩, rfl⟩
    rw [List.append_nil]
    exact ⟨_, .comparison (hword ht) ha hop hq hb⟩

/-- **Expressions are viable.** A refusal comes from a phrase that has begun, or from a token with
which no expression begins. -/
theorem viable_expression (d : Nat) : Viable (expression d) (Spelled .expression) := by
  have hrefuse : Viable (refuse .notAnExpression : Rule Node) (Spelled .expression) :=
    .refuse _ attainable_expression
  induction d with
  | zero =>
    refine ⟨attainable_expression, fun c a c' hok => ?_, fun c e c' herror => ?_⟩
    · cases hok
    · cases herror
  | succ d ih =>
    refine ⟨attainable_expression, fun c a c' hok => ?_, fun c e c' herror => ?_⟩
    · obtain ⟨ts, hpass, hfits⟩ := (reads_expression (d + 1) c a c').mp hok
      exact ⟨ts, hpass.moves, a, hfits.1⟩
    · rw [expression_succ] at herror
      cases hkind : c.current.kind with
      | string | float =>
        rw [hkind] at herror
        cases herror
      | integer =>
        rw [hkind] at herror
        dsimp only at herror
        split at herror <;> cases herror
      | identifier =>
        rw [hkind] at herror
        dsimp only at herror
        split at herror
        · next phrase hlookup =>
          -- The word that starts a phrase is passed, and what follows it is refused within the
          -- phrase.
          have hfirst : c.Passes [c.current] c.next :=
            (Cursor.passes_singleton (by simp [hkind])).mpr ⟨rfl, rfl⟩
          obtain ⟨htoken, hpos, ts, us, hmoves, hspelled, hshape⟩ :=
            (viable_phrase ih hkind (mem_of_lookup_eq_some hlookup) c.current.line).refuses
              c.next e c' herror
          exact ⟨htoken, hpos, c.current :: ts, us, hfirst.moves.append hmoves, hspelled, hshape⟩
        · cases herror
      | symbol | eof =>
        rw [hkind] at herror
        exact hrefuse.refuses c e c' herror

/-! ## Statements -/

/-- Where the name in a statement is refused, some expression that starts with a word stands
there. -/
theorem viable_spellName (d : Nat) (after : Text) :
    Viable (spellName after (expression d)) fun ts =>
      ∃ n, Spells .expression n ts ∧ StartsWithName ts := by
  have hattainable : Attainable fun ts => ∃ n, Spells .expression n ts ∧ StartsWithName ts :=
    ⟨[.ofWord 1 "x"], ⟨_, .name rfl (by decide), _, rfl, rfl⟩, by
      rw [List.forall_mem_singleton]; decide⟩
  refine ⟨hattainable, fun c a c' hok => ?_, fun c e c' herror => ?_⟩
  · obtain ⟨ts, hpass, hfits, hname⟩ := (reads_spellName after c a c').mp hok
    exact ⟨ts, hpass.moves, a, hfits.1, hname⟩
  · change (if c.current.kind = .identifier then expression d
      else refuse (.expectedName after) : Rule Node) c = _ at herror
    split at herror
    · next hkind =>
      obtain ⟨htoken, hpos, ts, us, hmoves, ⟨a, ha⟩, hshape⟩ :=
        (viable_expression d).refuses c e c' herror
      cases ts with
      | nil =>
        obtain ⟨us, hus, hshape⟩ := hattainable
        exact ⟨htoken, hpos, [], us, hmoves, hus, hshape⟩
      | cons t ts =>
        rw [hmoves.current] at hkind
        exact ⟨htoken, hpos, t :: ts, us, hmoves, ⟨a, ha, t, rfl, hkind⟩, hshape⟩
    · have hrefuse : Viable (refuse (.expectedName after) : Rule Node) _ := .refuse _ hattainable
      exact hrefuse.refuses c e c' herror

/-- A row of statements is viable if each of them is: it may stop after any one. -/
theorem viable_manyAtMost {rule : Rule Node} (h : Viable rule (Spelled .statement))
    (done : Cursor → Bool) (fuel : Nat) :
    Viable (manyAtMost done rule fuel) fun ts => ∃ ss, Spells .program (.program ss) ts := by
  have hnil : Viable (pure [] : Rule (List Node)) fun ts =>
      ∃ ss, Spells .program (.program ss) ts := by
    refine (Viable.pure []).mono ?_
    rintro ts rfl
    exact ⟨[], .nil⟩
  induction fuel with
  | zero => exact hnil
  | succ fuel ih =>
    refine .get_bind fun c => ?_
    split
    · exact hnil
    · refine (h.bind fun node => ih.bind fun nodes => .pure (node :: nodes)).mono ?_
      rintro ts ⟨us, _, ⟨s, hs⟩, ⟨vs, _, ⟨ss, hss⟩, rfl, rfl⟩, rfl⟩
      rw [List.append_nil]
      exact ⟨s :: ss, .cons hs hss⟩

/-- A block is viable if its statements are. -/
theorem viable_block {rule : Rule Node} (h : Viable rule (Spelled .statement)) :
    Viable (block rule) (Spelled .block) := by
  have hmany : Viable (many closes rule) fun ts => ∃ ss, Spells .program (.program ss) ts :=
    .get_bind fun c => viable_manyAtMost h closes _
  have hdo : Text.isName "do" := rfl
  refine ((viable_eatWord hdo).bind fun t => (Viable.modifyDepth (· + 1)).bind fun _ =>
    hmany.bind fun ss => (Viable.modifyDepth (· - 1)).bind fun _ =>
      .pure (Node.block (some t.mark.line) ss)).mono ?_
  rintro ts ⟨p, _, hp, ⟨_, _, rfl, ⟨us, _, ⟨ss, hss⟩, ⟨_, _, rfl, rfl, rfl⟩, rfl⟩, rfl⟩, rfl⟩
  obtain ⟨t, ht, rfl⟩ := words_singleton.mp hp
  rw [List.append_nil, List.append_nil]
  exact ⟨_, .block ht hss⟩

theorem viable_done (node : Node) :
    Viable (do let _ ← eatWord "done"; return node) (Words ["done"]) := by
  have hname : Text.isName "done" := rfl
  refine ((viable_eatWord hname).bind fun _ => .pure node).mono ?_
  rintro ts ⟨p, _, hp, rfl, rfl⟩
  rw [List.append_nil]
  exact hp

/-- The end of a branch after its first block: perhaps an alternative, and `done`. -/
def Ending (ts : List Token) : Prop :=
  Words ["done"] ts ∨
    ∃ q bs p, Words ["else"] q ∧ Spelled .block bs ∧ Words ["done"] p ∧ ts = q ++ (bs ++ p)

/-- After the first block of a branch, `done` is always enough. -/
theorem viable_ending {rule : Rule Node} (h : Viable rule (Spelled .block)) (build : Node → Node) :
    Viable (do
      if (← get).atWord "else" then
        let _ ← advance
        let c ← rule
        let _ ← eatWord "done"
        return build c
      else
        let _ ← eatWord "done"
        return build .missing) Ending := by
  have helse : Viable (do
      let _ ← eatWord "else"; let c ← rule; let _ ← eatWord "done"; return build c) Ending := by
    have hname : Text.isName "else" := rfl
    refine ((viable_eatWord hname).bind fun _ => h.bind fun c => viable_done (build c)).mono ?_
    rintro ts ⟨q, _, hq, ⟨bs, p, hbs, hp, rfl⟩, rfl⟩
    exact .inr ⟨q, bs, p, hq, hbs, hp, rfl⟩
  have hnone : Viable (do let _ ← eatWord "done"; return build .missing) Ending :=
    (viable_done _).mono fun ts => .inl
  -- The word before the cursor decides which of the two is read.
  refine ⟨hnone.attainable, fun c a c' hok => ?_, fun c e c' herror => ?_⟩
  · rw [Rule.get_bind] at hok
    split at hok
    · next hat =>
      rw [advance_bind_eq hat] at hok
      exact helse.accepts c a c' hok
    · exact hnone.accepts c a c' hok
  · rw [Rule.get_bind] at herror
    split at herror
    · next hat =>
      rw [advance_bind_eq hat] at herror
      exact helse.refuses c e c' herror
    · exact hnone.refuses c e c' herror

/-- A statement that has begun can be completed, if its parts can. -/
theorem viable_order {d : Nat} {rule : Rule Node} (h : Viable rule (Spelled .statement))
    {word : Text} {order : Option Nat → Rule Node → Rule Node → Rule Node}
    (hmem : (word, order) ∈ orders) (line : Option Nat) :
    Viable (order line (expression d) rule) (Spelled .statement) := by
  have hx := viable_expression d
  have hblock := viable_block h
  -- One case for each statement, in the order of the table.
  simp only [orders, List.mem_cons, Prod.mk.injEq, List.not_mem_nil, or_false] at hmem
  rcases hmem with ⟨-, rfl⟩ | ⟨-, rfl⟩ | ⟨-, rfl⟩ | ⟨-, rfl⟩ | ⟨-, rfl⟩
  · refine viable_operand rfl rfl hx ?_
    rintro p as hp ⟨a, ha⟩
    obtain ⟨t, p', ht, hp', rfl⟩ := words_cons.mp hp
    exact ⟨_, .shout ht hp' ha⟩
  · refine viable_between rfl rfl (viable_spellName d _) rfl rfl hx ?_
    rintro p ns q as hp ⟨n, hn, hname⟩ hq ⟨a, ha⟩
    obtain ⟨t, p', ht, hp', rfl⟩ := words_cons.mp hp
    exact ⟨_, .create ht hp' hn hname hq ha⟩
  · refine viable_between rfl rfl (viable_spellName d _) rfl rfl hx ?_
    rintro p ns q as hp ⟨n, hn, hname⟩ hq ⟨a, ha⟩
    obtain ⟨t, p', ht, hp', rfl⟩ := words_cons.mp hp
    exact ⟨_, .assign ht hp' hn hname hq ha⟩
  · refine ((viable_eatPhrase rfl rfl).bind fun _ => hx.bind fun a =>
      (viable_eatPhrase rfl rfl).bind fun _ => hblock.bind fun b =>
        viable_ending hblock (Node.branch line a b)).mono ?_
    rintro ts ⟨p, _, hp, ⟨as, _, ⟨a, ha⟩, ⟨q, _, hq, ⟨bs, vs, ⟨b, hb⟩, hend, rfl⟩, rfl⟩, rfl⟩, rfl⟩
    obtain ⟨t, p', ht, hp', rfl⟩ := words_cons.mp hp
    rcases hend with hdone | ⟨r, cs, s, helse, ⟨c, hc⟩, hdone, rfl⟩
    · obtain ⟨t', ht', rfl⟩ := words_singleton.mp hdone
      exact ⟨_, .branch ht hp' ha hq hb ht'⟩
    · obtain ⟨t', ht', rfl⟩ := words_singleton.mp hdone
      obtain ⟨u, hu, rfl⟩ := words_singleton.mp helse
      exact ⟨_, .branchElse ht hp' ha hq hb hu hc ht'⟩
  · refine ((viable_eatPhrase rfl rfl).bind fun _ => hx.bind fun a =>
      (viable_eatPhrase rfl rfl).bind fun _ => hblock.bind fun b =>
        viable_done (Node.loop line a b)).mono ?_
    rintro ts ⟨p, _, hp, ⟨as, _, ⟨a, ha⟩, ⟨q, _, hq, ⟨bs, vs, ⟨b, hb⟩, hdone, rfl⟩, rfl⟩, rfl⟩, rfl⟩
    obtain ⟨t, p', ht, hp', rfl⟩ := words_cons.mp hp
    obtain ⟨t', ht', rfl⟩ := words_singleton.mp hdone
    exact ⟨_, .loop ht hp' ha hq hb ht'⟩

/-- There is a statement: a cry of some expression. -/
theorem attainable_statement : Attainable (Spelled .statement) := by
  obtain ⟨as, ⟨a, ha⟩, has⟩ := attainable_expression
  obtain ⟨p, hp, hps⟩ : Attainable (Words ["shout", "the", "many", "cries", "of"]) :=
    attainable_words rfl
  refine ⟨p ++ as, ?_, List.forall_mem_append.mpr ⟨hps, has⟩⟩
  obtain ⟨t, p', ht, hp', rfl⟩ := words_cons.mp hp
  exact ⟨_, .shout ht hp' ha⟩

/-- **Statements are viable.** -/
theorem viable_statement (d : Nat) : Viable (statement d) (Spelled .statement) := by
  induction d with
  | zero =>
    refine ⟨attainable_statement, fun c a c' hok => ?_, fun c e c' herror => ?_⟩
    · cases hok
    · cases herror
  | succ d ih =>
    rw [statement_eq]
    refine .get_bind fun c => ?_
    cases horder : order? c.current with
    | some order => exact viable_order ih (order?_eq_some horder).2 _
    | none => exact .refuse _ attainable_statement

end Grammar

/-! ## Whole spells -/

open Rule Grammar

/-- The strict reader with a nesting limit of one's own. -/
def parseWithin (limit : Nat) (ts : Tokens) : Except ParseFailure (List Node) :=
  match many Cursor.atEnd (statement limit) (Cursor.start ts) with
  | .ok spell _ => .ok spell
  | .error failure _ => .error failure

/-- The strict reader with another limit accepts what the row of statements accepts. -/
theorem parseWithin_eq_ok {limit : Nat} {ts : Tokens} {spell : List Node} :
    parseWithin limit ts = .ok spell ↔
      ∃ c, many Cursor.atEnd (statement limit) (Cursor.start ts) = .ok spell c := by
  unfold parseWithin
  cases many Cursor.atEnd (statement limit) (Cursor.start ts) <;> simp

/-- It fails where the row of statements fails. -/
theorem parseWithin_eq_error {limit : Nat} {ts : Tokens} {failure : ParseFailure} :
    parseWithin limit ts = .error failure ↔
      ∃ c, many Cursor.atEnd (statement limit) (Cursor.start ts) = .error failure c := by
  unfold parseWithin
  cases many Cursor.atEnd (statement limit) (Cursor.start ts) <;> simp

/-- The strict reader has the nesting limit `nestingLimit`, and takes nesting beyond it for a
refusal. -/
theorem parse_strict_eq (ts : Tokens) :
    parse false ts = parseWithin nestingLimit ts ∨
      ∃ e, parse false ts = .error (.refused e) ∧ e.cause = .tooDeep := by
  have hmany : manyAtMost Cursor.atEnd (statement nestingLimit)
      ((Cursor.start ts).rest.length + 1) (Cursor.start ts) =
        many Cursor.atEnd (statement nestingLimit) (Cursor.start ts) := rfl
  unfold parse parseWithin program
  rw [statements_strict, hmany]
  cases many Cursor.atEnd (statement nestingLimit) (Cursor.start ts) with
  | ok spell c => exact .inl rfl
  | error failure c =>
    cases failure with
    | tooDeep => exact .inr ⟨_, rfl, rfl⟩
    | refused e => exact .inl rfl
    | tooLong digits => exact .inl rfl

/-- The tokens are read as some spell, with a nesting limit that is high enough. -/
def Accepted (ts : Tokens) : Prop := ∃ limit spell, parseWithin limit ts = .ok spell

theorem viable_many (limit : Nat) :
    Viable (many Cursor.atEnd (statement limit)) fun ts => ∃ ss, Spells .program (.program ss) ts :=
  .get_bind fun _ => viable_manyAtMost (viable_statement limit) Cursor.atEnd _

/-- What is spelled is accepted with a limit that is high enough for it. -/
theorem accepted_of_spells {ts : List Token} (hts : ∀ t ∈ ts, t.kind ≠ .eof) {ss : List Node}
    (h : Spells .program (.program ss) ts) (stop : Mark) : Accepted ⟨ts, stop⟩ := by
  have hend := (@passes_to_end ⟨ts, stop⟩ hts ts _).mpr ⟨rfl, rfl⟩
  have hmany : many Cursor.atEnd (statement (Node.program ss).levels) (Cursor.start ⟨ts, stop⟩) =
      .ok ss ⟨[], stop, ts.length, 0⟩ :=
    manyAtMost_atEnd.mpr ⟨hend.2, ts, hend.1, h, Nat.le_refl _⟩
  exact ⟨_, ss, parseWithin_eq_ok.mpr ⟨_, hmany⟩⟩

section Position

variable {ts : Tokens} {us : List Token} {c : Cursor}

/-- The tokens passed, and those from the cursor on. -/
theorem Cursor.Moves.toList_eq (h : (Cursor.start ts).Moves us c) :
    ts.toList = us ++ (c.rest ++ [Token.eof c.stop]) ∧ c.pos = us.length := by
  have hbody : ts.body = us ++ c.rest := h.rest
  have hstop : c.stop = ts.stop := h.stop
  refine ⟨?_, h.pos.trans (Nat.zero_add _)⟩
  rw [Tokens.toList, hbody, hstop, List.append_assoc]

/-- The current token is the one at the position of the cursor. -/
theorem Cursor.Moves.getElem?_toList (h : (Cursor.start ts).Moves us c) :
    ts.toList[c.pos]? = some c.current := by
  obtain ⟨hlist, hpos⟩ := h.toList_eq
  rw [hlist, hpos, List.getElem?_append_right (Nat.le_refl _), Nat.sub_self]
  unfold Cursor.current
  cases c.rest <;> rfl

/-- The tokens before the position of the cursor are those it has moved over. -/
theorem Cursor.Moves.take_toList (h : (Cursor.start ts).Moves us c) :
    ts.toList.take c.pos = us := by
  obtain ⟨hlist, hpos⟩ := h.toList_eq
  rw [hlist, hpos, List.take_left]

end Position

/-- A list that begins as another one does has the same elements up to there. -/
theorem getElem?_eq_of_take_isPrefix {α : Type} {l m : List α} {n i : Nat} (hn : n ≤ l.length)
    (h : l.take n <+: m) (hi : i < n) : l[i]? = m[i]? := by
  obtain ⟨rest, rfl⟩ := h
  have hlength : i < (l.take n).length := by
    rw [List.length_take]
    omega
  rw [List.getElem?_append_left hlength, List.getElem?_take_of_lt hi]

/-- Two limits read the same spell alike, as far as the lower one lets the reader go. -/
theorem alike_spell (limit limit' : Nat) (h : limit ≤ limit') :
    Rule.Alike False Node.AllAlike (many Cursor.atEnd (statement limit))
      (many Cursor.atEnd (statement limit')) :=
  alike_many shared_atEnd (alike_statement ⟨h, False.elim⟩) (progresses_statement limit)
    (progresses_statement limit')

/-- A spell that is accepted with one limit is accepted with every higher one. -/
theorem parseWithin_mono {limit limit' : Nat} (h : limit ≤ limit') {ts : Tokens}
    {spell : List Node} (hok : parseWithin limit ts = .ok spell) :
    ∃ spell', parseWithin limit' ts = .ok spell' := by
  obtain ⟨c, hc⟩ := parseWithin_eq_ok.mp hok
  have hends := (alike_spell limit limit' h).ends (c.pos + 1) _ _ (.refl _ (Cursor.start ts)) (by
    rw [Rule.after_of_ok hc]; omega)
  rw [hc] at hends
  obtain ⟨spell', c', hc', -⟩ := hends.of_ok
  exact ⟨spell', parseWithin_eq_ok.mpr ⟨c', hc'⟩⟩

/-- The reader refuses a token whatever comes after it. -/
theorem not_accepted_of_refused {limit : Nat} {ts us : Tokens} {e : ParseError} {c : Cursor}
    (hc : many Cursor.atEnd (statement limit) (Cursor.start ts) = .error (.refused e) c)
    (halike : Cursor.Alike (c.pos + 1) (Cursor.start ts) (Cursor.start us)) : ¬Accepted us := by
  rintro ⟨limit', spell, hok⟩
  -- a limit that is high enough for both
  obtain ⟨spell', hok'⟩ := parseWithin_mono (Nat.le_max_right limit limit') hok
  obtain ⟨c', hc'⟩ := parseWithin_eq_ok.mp hok'
  have hends := (alike_spell limit _ (Nat.le_max_left limit limit')).ends _ _ _ halike (by
    rw [Rule.after_of_error hc]; omega)
  rw [hc, hc'] at hends
  rcases hends.of_error with ⟨g, c₂, h, -⟩ | ⟨h, -⟩
  · cases h
  · cases h

/-- Unless it is for the nesting, the verdict of the reader is that of its own limit. -/
theorem parseWithin_of_parse {ts : Tokens} {result : Except ParseFailure (List Node)}
    (h : parse false ts = result) (hdeep : ∀ e, result = .error (.refused e) → e.cause ≠ .tooDeep) :
    parseWithin nestingLimit ts = result := by
  rcases parse_strict_eq ts with heq | ⟨e, herror, hcause⟩
  · rw [← heq, h]
  · exact absurd hcause (hdeep e (h.symm.trans herror))

/-- **A refusal names the first offending token.** What the strict reader accepts or refuses, it
accepts or refuses with some nesting limit, unless it only complains about the nesting. Whatever the
limit is, the token that a reader refuses is the one in the position that it gives; the tokens
before it are the beginning of tokens of the right shape that are accepted; and with that token they
are the beginning of none. -/
theorem refused_at_first_offender {ts : Tokens} (hshape : ∀ t ∈ ts.body, t.isShaped) :
    (∀ e, parse false ts = .error (.refused e) → e.cause ≠ .tooDeep →
      parseWithin nestingLimit ts = .error (.refused e)) ∧
    (∀ us spell, parse false us = .ok spell → parseWithin nestingLimit us = .ok spell) ∧
    ∀ limit e, parseWithin limit ts = .error (.refused e) →
      ts.toList[e.pos]? = some e.token ∧
      (∃ us : Tokens, (∀ t ∈ us.body, t.isShaped) ∧ ts.toList.take e.pos <+: us.toList ∧
        Accepted us) ∧
      ∀ us : Tokens, ts.toList.take (e.pos + 1) <+: us.toList → ¬Accepted us := by
  refine ⟨fun e h hcause => ?_, fun us spell h => ?_, fun limit e h => ?_⟩
  · refine parseWithin_of_parse h fun e' he' => ?_
    cases he'
    exact hcause
  · exact parseWithin_of_parse h fun e he => nomatch he
  · obtain ⟨c, hc⟩ := parseWithin_eq_error.mp h
    obtain ⟨htoken, hpos, us, vs, hmoves, ⟨ss, hss⟩, hvs⟩ := (viable_many limit).refuses _ e c hc
    have hbody : ts.body = us ++ c.rest := hmoves.rest
    have hall : ∀ t ∈ us ++ vs, t.isShaped := by
      rw [hbody, List.forall_mem_append] at hshape
      exact List.forall_mem_append.mpr ⟨hshape.1, hvs⟩
    rw [htoken, hpos]
    refine ⟨hmoves.getElem?_toList, ⟨⟨us ++ vs, ts.stop⟩, hall, ?_, ?_⟩, fun ws hprefix => ?_⟩
    · rw [hmoves.take_toList, Tokens.toList, List.append_assoc]
      exact List.prefix_append us _
    · exact accepted_of_spells (fun t ht => Token.kind_ne_eof_of_isShaped (hall t ht)) hss ts.stop
    · have hlength := (List.getElem?_eq_some_iff.mp hmoves.getElem?_toList).1
      -- Tokens that begin with the offender are read alike up to it, so they are refused there too.
      refine not_accepted_of_refused hc (Cursor.alike_start fun i hi => ?_)
      rw [getElem?_eq_of_take_isPrefix hlength hprefix hi]

/-- A comparison with the wrong second word. -/
def halfCompared : Tokens :=
  ⟨(Text.words "whilst the spell is done equal than x is true do done").map (Token.ofWord 1),
    Mark.start⟩

/-- The comparison could go on after `equal`, but not with `than`. -/
theorem halfCompared_refused_at_than :
    (∀ t ∈ halfCompared.body, t.isShaped) ∧
    parse false halfCompared = .error (.refused ⟨.expectedWord "to", .ofWord 1 "than", 6⟩) ∧
    (∃ us : Tokens,
      (Text.words "whilst the spell is done equal").map (Token.ofWord 1) <+: us.toList ∧
        Accepted us) ∧
    ∀ us : Tokens, (Text.words "whilst the spell is done equal than").map (Token.ofWord 1) <+:
      us.toList → ¬Accepted us := by
  have hshape : ∀ t ∈ halfCompared.body, t.isShaped := by decide
  have hparse : parse false halfCompared =
      .error (.refused ⟨.expectedWord "to", .ofWord 1 "than", 6⟩) := rfl
  obtain ⟨hrefused, -, hfirst⟩ := refused_at_first_offender hshape
  obtain ⟨-, ⟨us, -, hprefix, haccepted⟩, hnone⟩ := hfirst _ _ (hrefused _ hparse (by decide))
  exact ⟨hshape, hparse, ⟨us, hprefix, haccepted⟩, hnone⟩

end Grimoire
