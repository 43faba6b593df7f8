import Grimoire.Proofs.Token.Shape
import Grimoire.Tree.Outline

/-!
# Outlines and their lines

There are no closing marks in the listing of an outline: how deep a line stands is all that tells
where a part of it ends. Still the lines say it all, as long as the outline is *tidy*: no text has a
line break in it, keys are names, records have a field, and the members of lists are records or
lists.

* **`lines_append_inj`** is the crux, for outlines, lists of items and lists of fields at once: the
  lines of a part are told apart from the lines after it, if the first of these stands less deep
  (`Below`).
* **`render_injective`** follows, since no line of a tidy outline has a line break in it.
-/

namespace Grimoire

/-- How many blanks a line starts with. -/
def Text.indentation (line : Text) : Nat := (line.takeWhile fun c => c = (' ' : CodePoint)).length

namespace Outline

/-! ## Single lines -/

/-- The blanks before a line are its margin, if the line itself starts with something else. -/
theorem indentation_margin (i : Int) {c : CodePoint} (hc : c ≠ ' ') (t : Text) :
    Text.indentation (margin i ++ c :: t) = 2 * i.toNat := by
  have hmargin : ∀ d ∈ margin i, decide (d = (' ' : CodePoint)) = true := by
    intro d hd
    exact decide_eq_true (List.eq_of_mem_replicate hd)
  unfold Text.indentation
  rw [List.takeWhile_append_of_pos hmargin, List.takeWhile_cons_of_neg (by simpa using hc)]
  simp [margin]

/-- A dash stands at its level. -/
theorem dash_indentation (i : Int) : Text.indentation (margin i ++ "-") = 2 * i.toNat :=
  indentation_margin i (by decide) []

/-- What stands after the colon of a field, on the same line. -/
def after : Outline → Text
  | .word text => (' ' : CodePoint) :: text
  | .items _ | .fields _ => []

/-- The lines of a field below the line of its key. -/
def under (i : Int) : Outline → List Text
  | .word _ => []
  | .items members => lines (i + 1) (.items members)
  | .fields members => lines (i + 1) (.fields members)

/-- The line of the key of a field. -/
def keyLine (i : Int) (key : Text) (o : Outline) : Text :=
  margin i ++ (key ++ (':' : CodePoint) :: o.after)

/-- The lines of a record: the line of its first key, what is under it, and the other fields. -/
theorem fieldLines_cons (i : Int) (key : Text) (o : Outline) (fs : List (Text × Outline)) :
    fieldLines i ((key, o) :: fs) = keyLine i key o :: (o.under i ++ fieldLines i fs) := by
  cases o with
  | word text =>
    simp only [fieldLines, keyLine, under, List.append_assoc, List.nil_append]
    rfl
  | items | fields =>
    simp only [fieldLines, keyLine, under, List.append_assoc]
    rfl

/-- The lines of a list: a dash, the first member one level deeper, and the other members. -/
theorem itemLines_cons (i : Int) (o : Outline) (os : List Outline) :
    itemLines i (o :: os) = (margin i ++ "-") :: (lines (i + 1) o ++ itemLines i os) := by
  simp only [itemLines]

section Keys

variable {key key' : Text}

/-- A key begins with a letter, and so neither with a blank nor with a dash. -/
theorem exists_cons_of_isName (h : key.isName = true) :
    ∃ c cs, key = c :: cs ∧ c ≠ ' ' ∧ c ≠ '-' := by
  cases key with
  | nil => cases h
  | cons c cs =>
    simp only [Text.isName, Bool.and_eq_true] at h
    refine ⟨c, cs, rfl, ?_, ?_⟩
    · rintro rfl
      exact absurd h.1 (by decide)
    · rintro rfl
      exact absurd h.1 (by decide)

/-- A character that is no part of a name does not occur in a key. -/
theorem notMem_of_isName (h : key.isName = true) {d : CodePoint} (hd : d.isNamePart = false) :
    d ∉ key := by
  cases key with
  | nil => simp
  | cons c cs =>
    simp only [Text.isName, Bool.and_eq_true, List.all_eq_true] at h
    intro hmem
    rcases List.mem_cons.mp hmem with rfl | hmem
    · rw [CodePoint.isNamePart, h.1] at hd
      cases hd
    · rw [h.2 d hmem] at hd
      cases hd

/-- A key stands at its level. -/
theorem keyLine_indentation (i : Int) (h : key.isName = true) (o : Outline) :
    Text.indentation (keyLine i key o) = 2 * i.toNat := by
  obtain ⟨c, cs, rfl, hc, -⟩ := exists_cons_of_isName h
  exact indentation_margin i hc _

/-- The line of a key says what the key is and what stands after it. -/
theorem keyLine_inj {i : Int} (h : key.isName = true) (h' : key'.isName = true) {o o' : Outline}
    (heq : keyLine i key o = keyLine i key' o') : key = key' ∧ o.after = o'.after := by
  have hkey (k : Text) (hk : k.isName = true) (t : Text) :
      (k ++ (':' : CodePoint) :: t).takeWhile (fun c => c ≠ (':' : CodePoint)) = k := by
    have hall : ∀ c ∈ k, decide (c ≠ (':' : CodePoint)) = true := by
      intro c hc
      apply decide_eq_true
      rintro rfl
      exact notMem_of_isName hk (by decide) hc
    rw [List.takeWhile_append_of_pos hall, List.takeWhile_cons_of_neg (by simp), List.append_nil]
  have htail := List.append_cancel_left heq
  have hsame : key = key' := by
    rw [← hkey key h o.after, htail, hkey key' h' o'.after]
  subst hsame
  exact ⟨rfl, (List.cons.inj (List.append_cancel_left htail)).2⟩

end Keys

/-! ## Tidy outlines -/

/-- A single text, which is written on the line of its key. -/
def isWord : Outline → Bool
  | .word _ => true
  | .items _ | .fields _ => false

mutual

/-- No text has a line break, no record is empty, no list has a bare text for a member, and all keys
are names. -/
def Tidy : Outline → Prop
  | .word text => ('\n' : CodePoint) ∉ text
  | .items members => TidyItems members
  | .fields members => members ≠ [] ∧ TidyFields members

/-- The members of a list are tidy records or lists. -/
def TidyItems : List Outline → Prop
  | [] => True
  | o :: os => o.isWord = false ∧ o.Tidy ∧ TidyItems os

/-- The fields of a record are tidy and have names. -/
def TidyFields : List (Text × Outline) → Prop
  | [] => True
  | (key, o) :: fs => key.isName = true ∧ o.Tidy ∧ TidyFields fs

end

/-- The first of some lines stands less deep than level `i`. -/
def Below (i : Int) (rest : List Text) : Prop := ∀ l ∈ rest.head?, Text.indentation l < 2 * i.toNat

section Below

variable {i : Int} {rest : List Text}

/-- Lines that leave a level leave the deeper ones too. -/
theorem Below.succ (hi : 0 ≤ i) (h : Below i rest) : Below (i + 1) rest := by
  intro l hl
  have hlt := h l hl
  omega

/-- A line at a level leaves the deeper ones. -/
theorem below_cons {l : Text} (hi : 0 ≤ i) (hl : Text.indentation l = 2 * i.toNat) :
    Below (i + 1) (l :: rest) := by
  intro l' hl'
  obtain rfl := Option.some.inj hl'
  omega

/-- A line at a level does not leave it. -/
theorem not_below_cons {l : Text} (hl : Text.indentation l = 2 * i.toNat) :
    ¬Below i (l :: rest) := by
  intro h
  have hlt := h l rfl
  omega

/-- After the first field of a record comes another key or what follows the record. -/
theorem below_fieldLines (hi : 0 ≤ i) {fs : List (Text × Outline)} (hfs : TidyFields fs)
    (h : Below i rest) : Below (i + 1) (fieldLines i fs ++ rest) := by
  cases fs with
  | nil => exact h.succ hi
  | cons f fs =>
    obtain ⟨key, o⟩ := f
    rw [fieldLines_cons]
    exact below_cons hi (keyLine_indentation i hfs.1 o)

/-- After the first member of a list comes another dash or what follows the list. -/
theorem below_itemLines (hi : 0 ≤ i) (os : List Outline) (h : Below i rest) :
    Below (i + 1) (itemLines i os ++ rest) := by
  cases os with
  | nil => exact h.succ hi
  | cons o os =>
    rw [itemLines_cons]
    exact below_cons hi (dash_indentation i)

end Below

/-! ## Lines say it all -/

/-- A dash is not the key of a field. -/
theorem dash_ne_keyLine {i : Int} {key : Text} (h : key.isName = true) (o : Outline) :
    margin i ++ "-" ≠ keyLine i key o := by
  obtain ⟨c, cs, rfl, -, hc⟩ := exists_cons_of_isName h
  intro heq
  exact hc (List.cons.inj (List.append_cancel_left heq)).1.symm

theorem keyLine_ne_nil {i : Int} {key : Text} (h : key.isName = true) (o : Outline) :
    keyLine i key o ≠ [] := by
  obtain ⟨c, cs, rfl, -⟩ := exists_cons_of_isName h
  simp [keyLine]

/-- What stands after the colon of a field tells the fields with a word from the others, and says
what the word is. -/
theorem eq_or_of_after_eq {o o' : Outline} (h : o.after = o'.after) :
    o = o' ∨ o.isWord = false ∧ o'.isWord = false := by
  cases o with
  | word t =>
    cases o' with
    | word t' => exact .inl (congrArg word (List.cons.inj h).2)
    | items | fields => cases h
  | items | fields =>
    cases o' with
    | word => cases h
    | items | fields => exact .inr ⟨rfl, rfl⟩

/-- Under its key stands all of a record or list, one level deeper. -/
theorem under_eq_lines (i : Int) {o : Outline} (h : o.isWord = false) :
    o.under i = lines (i + 1) o := by
  cases o with
  | word => cases h
  | items | fields => rfl

/-- A record with any fields is the lines of its fields. -/
theorem lines_fields (i : Int) {fs : List (Text × Outline)} (h : fs ≠ []) :
    lines i (.fields fs) = fieldLines i fs := by
  cases fs with
  | nil => exact absurd rfl h
  | cons f fs =>
    obtain ⟨key, o⟩ := f
    simp only [lines, fieldLines_cons, orBlank]

/-- A list with any members is the lines of its members. -/
theorem lines_items_cons (i : Int) (o : Outline) (os : List Outline) :
    lines i (.items (o :: os)) = itemLines i (o :: os) := by
  simp only [lines, itemLines_cons, orBlank]

/-- A list starts with an empty line or with a dash, and a record with a key. -/
theorem lines_items_ne_lines_fields {i : Int} {os : List Outline} {fs : List (Text × Outline)}
    (hne : fs ≠ []) (hfs : TidyFields fs) (rest rest' : List Text) :
    lines i (.items os) ++ rest ≠ lines i (.fields fs) ++ rest' := by
  intro h
  rw [lines_fields i hne] at h
  cases fs with
  | nil => exact hne rfl
  | cons f fs =>
    obtain ⟨key, o⟩ := f
    rw [fieldLines_cons] at h
    cases os with
    | nil => exact keyLine_ne_nil hfs.1 o (List.cons.inj h).1.symm
    | cons =>
      rw [lines_items_cons, itemLines_cons] at h
      exact dash_ne_keyLine hfs.1 o (List.cons.inj h).1

/-- A list without members has an empty line where any other list has a dash. -/
theorem lines_items_inj {i : Int} {os os' : List Outline} {rest rest' : List Text}
    (h : lines i (.items os) ++ rest = lines i (.items os') ++ rest') :
    itemLines i os ++ rest = itemLines i os' ++ rest' := by
  have hdash : ([] : Text) ≠ margin i ++ "-" := by
    intro hnil
    exact absurd (List.append_eq_nil_iff.mp hnil.symm).2 (by decide)
  cases os with
  | nil =>
    cases os' with
    | nil => exact (List.cons.inj h).2
    | cons =>
      rw [lines_items_cons, itemLines_cons] at h
      exact absurd (List.cons.inj h).1 hdash
  | cons =>
    cases os' with
    | nil =>
      rw [lines_items_cons, itemLines_cons] at h
      exact absurd (List.cons.inj h).1.symm hdash
    | cons =>
      rw [lines_items_cons, lines_items_cons] at h
      exact h

mutual

/-- **The lines of an outline end where its text says**, and tell it apart from all others. -/
theorem lines_append_inj {i : Int} (hi : 0 ≤ i) {rest rest' : List Text} (hrest : Below i rest)
    (hrest' : Below i rest') : (o o' : Outline) → o.isWord = false → o'.isWord = false →
    o.Tidy → o'.Tidy → lines i o ++ rest = lines i o' ++ rest' → o = o' ∧ rest = rest'
  | .items os, .items os', _, _, hos, hos', h => by
    obtain ⟨rfl, rfl⟩ := itemLines_append_inj hi hrest hrest' os os' hos hos' (lines_items_inj h)
    exact ⟨rfl, rfl⟩
  | .items _, .fields _, _, _, _, hfs', h =>
    absurd h (lines_items_ne_lines_fields hfs'.1 hfs'.2 _ _)
  | .fields _, .items _, _, _, hfs, _, h =>
    absurd h.symm (lines_items_ne_lines_fields hfs.1 hfs.2 _ _)
  | .fields fs, .fields fs', _, _, hfs, hfs', h => by
    rw [lines_fields i hfs.1, lines_fields i hfs'.1] at h
    obtain ⟨rfl, rfl⟩ := fieldLines_append_inj hi hrest hrest' fs fs' hfs.2 hfs'.2 h
    exact ⟨rfl, rfl⟩

/-- The lines of a list tell its members and where they end. -/
theorem itemLines_append_inj {i : Int} (hi : 0 ≤ i) {rest rest' : List Text}
    (hrest : Below i rest) (hrest' : Below i rest') : (os os' : List Outline) →
    TidyItems os → TidyItems os' → itemLines i os ++ rest = itemLines i os' ++ rest' →
    os = os' ∧ rest = rest'
  | [], [], _, _, h => ⟨rfl, h⟩
  -- A dash at this level would have to be one of the lines after the list.
  | [], _ :: _, _, _, h => by
    rw [itemLines_cons] at h
    rw [show rest = _ from h] at hrest
    exact absurd hrest (not_below_cons (dash_indentation i))
  | _ :: _, [], _, _, h => by
    rw [itemLines_cons] at h
    rw [show rest' = _ from h.symm] at hrest'
    exact absurd hrest' (not_below_cons (dash_indentation i))
  | o :: os, o' :: os', hos, hos', h => by
    rw [itemLines_cons, itemLines_cons, List.cons_append, List.cons_append, List.append_assoc,
      List.append_assoc] at h
    obtain ⟨rfl, hmore⟩ := lines_append_inj (Int.le_add_one hi) (below_itemLines hi os hrest)
      (below_itemLines hi os' hrest') o o' hos.1 hos'.1 hos.2.1 hos'.2.1 (List.cons.inj h).2
    obtain ⟨rfl, rfl⟩ := itemLines_append_inj hi hrest hrest' os os' hos.2.2 hos'.2.2 hmore
    exact ⟨rfl, rfl⟩

/-- The lines of a record tell its fields and where they end. -/
theorem fieldLines_append_inj {i : Int} (hi : 0 ≤ i) {rest rest' : List Text}
    (hrest : Below i rest) (hrest' : Below i rest') : (fs fs' : List (Text × Outline)) →
    TidyFields fs → TidyFields fs' → fieldLines i fs ++ rest = fieldLines i fs' ++ rest' →
    fs = fs' ∧ rest = rest'
  | [], [], _, _, h => ⟨rfl, h⟩
  -- So would a key.
  | [], (_, o') :: _, _, hfs', h => by
    rw [fieldLines_cons] at h
    rw [show rest = _ from h] at hrest
    exact absurd hrest (not_below_cons (keyLine_indentation i hfs'.1 o'))
  | (_, o) :: _, [], hfs, _, h => by
    rw [fieldLines_cons] at h
    rw [show rest' = _ from h.symm] at hrest'
    exact absurd hrest' (not_below_cons (keyLine_indentation i hfs.1 o))
  | (key, o) :: fs, (key', o') :: fs', hfs, hfs', h => by
    rw [fieldLines_cons, fieldLines_cons, List.cons_append, List.cons_append, List.append_assoc,
      List.append_assoc] at h
    obtain ⟨hline, hlines⟩ := List.cons.inj h
    obtain ⟨rfl, hafter⟩ := keyLine_inj hfs.1 hfs'.1 hline
    have hsame : o = o' ∧ fieldLines i fs ++ rest = fieldLines i fs' ++ rest' := by
      rcases eq_or_of_after_eq hafter with rfl | ⟨hlist, hlist'⟩
      · exact ⟨rfl, List.append_cancel_left hlines⟩
      · rw [under_eq_lines i hlist, under_eq_lines i hlist'] at hlines
        exact lines_append_inj (Int.le_add_one hi) (below_fieldLines hi hfs.2.2 hrest)
          (below_fieldLines hi hfs'.2.2 hrest') o o' hlist hlist' hfs.2.1 hfs'.2.1 hlines
    obtain ⟨rfl, hmore⟩ := hsame
    obtain ⟨rfl, rfl⟩ := fieldLines_append_inj hi hrest hrest' fs fs' hfs.2.2 hfs'.2.2 hmore
    exact ⟨rfl, rfl⟩

end

/-! ## Line breaks -/

theorem newline_notMem_margin (i : Int) : ('\n' : CodePoint) ∉ margin i := by
  intro h
  exact absurd (List.eq_of_mem_replicate h) (by decide)

/-- The line of a key is one line. -/
theorem newline_notMem_keyLine (i : Int) {key : Text} (hkey : key.isName = true) {o : Outline}
    (ho : o.Tidy) : ('\n' : CodePoint) ∉ keyLine i key o := by
  have hname := notMem_of_isName hkey (show CodePoint.isNamePart '\n' = false by decide)
  have hcolon : ('\n' : CodePoint) ≠ ':' := by decide
  have hafter : ('\n' : CodePoint) ∉ o.after := by
    cases o with
    | word text =>
      have hblank : ('\n' : CodePoint) ≠ ' ' := by decide
      exact List.not_mem_cons_of_ne_of_not_mem hblank ho
    | items | fields => simp [after]
  simp [keyLine, newline_notMem_margin, hname, hcolon, hafter]

/-- What stands for no lines at all is an empty line. -/
theorem mem_orBlank {l : Text} {ls : List Text} (h : l ∈ orBlank ls) : l = [] ∨ l ∈ ls := by
  cases ls with
  | nil => exact .inl (List.mem_singleton.mp h)
  | cons => exact .inr h

mutual

/-- None of the lines of a tidy outline has a line break. -/
theorem newline_notMem_lines (i : Int) : (o : Outline) → o.Tidy →
    ∀ l ∈ lines i o, ('\n' : CodePoint) ∉ l
  | .word text, htext => by
    simp [lines, newline_notMem_margin, show ('\n' : CodePoint) ∉ text from htext]
  | .items os, hos => by
    intro l hl
    rcases mem_orBlank hl with rfl | hl
    · exact List.not_mem_nil
    · exact newline_notMem_itemLines i os hos l hl
  | .fields fs, hfs => by
    rw [lines_fields i hfs.1]
    exact newline_notMem_fieldLines i fs hfs.2

theorem newline_notMem_itemLines (i : Int) : (os : List Outline) → TidyItems os →
    ∀ l ∈ itemLines i os, ('\n' : CodePoint) ∉ l
  | [], _ => by simp [itemLines]
  | o :: os, hos => by
    have hdash : ('\n' : CodePoint) ∉ margin i ++ "-" := by
      rw [List.mem_append, not_or]
      exact ⟨newline_notMem_margin i, by decide⟩
    rw [itemLines_cons, List.forall_mem_cons, List.forall_mem_append]
    exact ⟨hdash, newline_notMem_lines (i + 1) o hos.2.1,
      newline_notMem_itemLines i os hos.2.2⟩

theorem newline_notMem_fieldLines (i : Int) : (fs : List (Text × Outline)) → TidyFields fs →
    ∀ l ∈ fieldLines i fs, ('\n' : CodePoint) ∉ l
  | [], _ => by simp [fieldLines]
  | (key, o) :: fs, hfs => by
    have hunder : ∀ l ∈ o.under i, ('\n' : CodePoint) ∉ l := by
      have hlines := newline_notMem_lines (i + 1) o hfs.2.1
      cases o with
      | word => simp [under]
      | items | fields => exact hlines
    rw [fieldLines_cons, List.forall_mem_cons, List.forall_mem_append]
    exact ⟨newline_notMem_keyLine i hfs.1 hfs.2.1, hunder,
      newline_notMem_fieldLines i fs hfs.2.2⟩

end

theorem orBlank_ne_nil (ls : List Text) : orBlank ls ≠ [] := by
  cases ls <;> simp [orBlank]

theorem lines_ne_nil (i : Int) (o : Outline) : lines i o ≠ [] := by
  cases o with
  | word => simp [lines]
  | items | fields => exact orBlank_ne_nil _

/-- The lines of a tidy outline can be cut out of its text. -/
theorem splitOn_render (i : Int) {o : Outline} (h : o.Tidy) :
    (o.render i).splitOn ('\n' : CodePoint) = lines i o :=
  List.splitOn_intercalate _ (newline_notMem_lines i o h) (lines_ne_nil i o)

/-- **No two tidy outlines have the same text.** -/
theorem render_injective {o o' : Outline} (hlist : o.isWord = false) (hlist' : o'.isWord = false)
    (ho : o.Tidy) (ho' : o'.Tidy) (h : o.render 0 = o'.render 0) : o = o' := by
  have hend : Below 0 [] := by simp [Below]
  have hlines : lines 0 o ++ [] = lines 0 o' ++ [] := by
    rw [← splitOn_render 0 ho, h, splitOn_render 0 ho']
  exact (lines_append_inj (Int.le_refl 0) hend hend o o' hlist hlist' ho ho' hlines).1

end Outline
end Grimoire
