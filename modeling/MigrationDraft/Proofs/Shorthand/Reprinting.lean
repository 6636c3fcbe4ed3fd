import MigrationDraft.Proofs.Shorthand.Grouping
import MigrationDraft.Proofs.Shorthand.Provenance
import MigrationDraft.Proofs.Shorthand.RoundTrip

set_option autoImplicit false

/-!
# Printing what was read

Whatever a text with regular groups is read as can be printed and read again: reading the
printed form gives the same schema (`Schema.ofShorthand_shorthand_ofShorthand`). Reading is
lenient and forgets much of the text, such as what follows a group, modifiers that fit no form
and all but the last value of a key, and it adds companion columns. So the statement is not about
the text but about what came of it: every column that is read is printable.

The proof goes through the text as reading does. Grouping says what a segment looks like, a
segment's shape says what is read from it, and that is legible; a legible column expands to
printable ones.
-/

namespace MigrationDraft

open Shorthand Text

namespace Shorthand

/-! ## Regular texts -/

/-- What stands after each opening parenthesis, up to the next closing one. -/
def insides : List Char → List (List Char)
  | [] => []
  | c :: s => if c = '(' then s.takeWhile (· ≠ ')') :: insides s else insides s

/-- A text whose parentheses form groups, none of them in the name of a field and none of those
in a type with nothing but blanks inside. -/
structure Regular (s : List Char) : Prop where
  grouped : Grouped [] s
  name : ∀ f ∈ fields s, '(' ∉ nameOf f
  type : ∀ f ∈ fields s, ∀ inner ∈ insides (typePartOf f), Blanks inner → inner = []

/-- A regular text written as two literals: its characters can be looked at without decoding
them. -/
theorem regular_ofList_append {s t : List Char} (h : Regular (s ++ t)) :
    Regular (String.ofList s ++ String.ofList t).toList := by
  rw [String.toList_append, String.toList_ofList, String.toList_ofList]
  exact h

theorem mem_insides {head inner rest : List Char} (hhead : '(' ∉ head) (hinner : ')' ∉ inner) :
    inner ∈ insides (head ++ '(' :: (inner ++ ')' :: rest)) := by
  induction head with
  | nil =>
      have htake : (inner ++ ')' :: rest).takeWhile (· ≠ ')') = inner :=
        takeWhile_append_cons (decide_ne_of_not_mem hinner) (by simp)
      rw [List.nil_append, insides, if_pos rfl, htake]
      exact List.mem_cons_self
  | cons c head ih =>
      rw [List.mem_cons, not_or] at hhead
      rw [List.cons_append, insides, if_neg (Ne.symm hhead.1)]
      exact ih hhead.2

/-! ## What is read from a segment -/

/-- What is trimmed, grouped and without separators outside its groups is a segment. -/
theorem isSegment_of_grouped {s : List Char} (h : Grouped [':', ','] s) (ht : Trimmed s) :
    IsSegment s :=
  ⟨ht, h.not_mem_colon (by simp), h.selfContained (by simp)⟩

private theorem plain_ofList {s : List Char} (h : ∀ c ∈ ['(', ')', ':', ','], c ∉ s) :
    Plain (String.ofList s) := by
  intro c hc
  rw [String.toList_ofList]
  have hsub : [':', ',', '(', ')'] ⊆ ['(', ')', ':', ','] := by decide
  exact h c (hsub hc)

/-- The parts of what is inside a group, unless that is blank, are not one empty part. -/
theorem map_trim_splitOn_ne {inner : List Char} (h : ¬Blanks inner) :
    (inner.splitOn ',').map (fun a => String.ofList (trim a)) ≠ [""] := by
  intro hmap
  obtain ⟨a, ha, hempty⟩ := List.map_eq_singleton_iff.mp hmap
  have hinner : inner = a := by
    have hjoin : [','].intercalate (inner.splitOn ',') = inner := List.intercalate_splitOn ','
    rw [ha, List.intercalate_singleton] at hjoin
    exact hjoin.symm
  have htrim : trim a = [] := by simpa using hempty
  exact h (hinner ▸ trim_eq_nil_iff.mp htrim)

theorem plain_of_mem_map_trim_splitOn {inner : List Char}
    (hinner : ∀ c ∈ [':', '(', ')'], c ∉ inner) :
    ∀ a ∈ (inner.splitOn ',').map (fun a => String.ofList (trim a)),
      Trimmed a.toList ∧ Plain a := by
  intro a ha
  obtain ⟨part, hpart, rfl⟩ := List.mem_map.mp ha
  refine ⟨by simpa using trimmed_trim part, plain_ofList fun c hc hmem => ?_⟩
  have hmem : c ∈ part := mem_of_mem_trim hmem
  have hcomma : c ≠ ',' := fun h => not_mem_of_mem_splitOn hpart (h ▸ hmem)
  refine hinner c ?_ (mem_of_mem_splitOn hpart hmem)
  simp only [List.mem_cons, List.not_mem_nil, or_false] at hc ⊢
  rcases hc with rfl | rfl | rfl | rfl
  · exact Or.inr (Or.inl rfl)
  · exact Or.inr (Or.inr rfl)
  · exact Or.inl rfl
  · exact absurd rfl hcomma

/-- What is read from a type can be printed and read again. -/
theorem typeReadsBack_typeOf {s : List Char} (h : Grouped [':', ','] s) (ht : Trimmed s)
    (hinsides : ∀ inner ∈ insides s, Blanks inner → inner = []) :
    TypeReadsBack (typeOf s).1 (typeOf s).2 := by
  cases hgroup : typeGroup? s with
  | none =>
      rw [typeOf, hgroup]
      exact typeReadsBack_of_typeGroup?_eq_none (isSegment_of_grouped h ht) hgroup
  | some group =>
      obtain ⟨head, inner⟩ := group
      obtain ⟨hopen, hne, hclose, rest, rfl⟩ := typeGroup?_eq_some_iff.mp hgroup
      obtain ⟨hhead, hinner⟩ := h.plain_head_inner hopen hclose
      have hblanks : ¬Blanks inner := fun hb =>
        hne (hinsides inner (mem_insides hopen hclose) hb)
      have hstart : ∀ c ∈ (String.ofList head).toList.head?, isBlank c = false := by
        rw [String.toList_ofList]
        cases head with
        | nil => simp
        | cons c head => simpa using ht.1
      rw [typeOf, hgroup]
      exact typeReadsBack_call (plain_of_mem_map_trim_splitOn hinner) hstart
        (plain_ofList hhead) (by simp) (map_trim_splitOn_ne hblanks)

/-- What is read from a modifier can be printed and read again. -/
theorem printableOption_of_option? {s : List Char} (h : Grouped [':', ','] s) (ht : Trimmed s)
    {e : String × OptionValue} (he : option? s = some e) : PrintableOption e := by
  cases option?_eq_some_iff.mp he with
  | @valued key value rest hkey hletters hvalue hclose =>
      have hopen : '(' ∉ key := fun hm => absurd (hletters _ hm) (by decide)
      refine ⟨⟨by simpa using hkey, by simpa using hletters⟩, by simpa using hvalue, ?_⟩
      rw [String.toList_ofList]
      exact (h.plain_head_inner hopen hclose).2
  | bare hne hopen =>
      exact ⟨by simpa using hne, by simpa using ht, plain_ofList (h.plain hopen)⟩

/-! ## What is read from a field -/

theorem legible_field {f : List Char} (h : Grouped [','] f)
    (htype : ∀ inner ∈ insides (typePartOf f), Blanks inner → inner = []) :
    (field f).Legible := by
  obtain ⟨hname, htypePart, htokens⟩ :=
    forall_parts (P := fun s => Grouped [':', ','] s ∧ Trimmed s) ⟨rfl, by decide⟩
      fun s hs => ⟨(grouped_of_mem_splitOn h s hs).trim, trimmed_trim s⟩
  rw [field_eq]
  refine ⟨?_, typeReadsBack_typeOf htypePart.1 htypePart.2 htype, fun e he => ?_⟩
  · rw [String.toList_ofList]
    exact isSegment_of_grouped hname.1 hname.2
  · obtain ⟨token, htoken, hread⟩ := exists_token_of_mem_optionsOf he
    exact printableOption_of_option? (htokens token htoken).1 (htokens token htoken).2 hread

/-- Everything a key refers to can be printed inside a modifier. -/
theorem not_mem_referenced_table {name : String} (h : Plain name) :
    ∀ c ∈ [':', '(', ')'],
      c ∉ (quoted (Inflection.pluralize (referencedName name))).toList := by
  intro c hc hmem
  have hother : c ≠ '\'' ∧ c ≠ '_' ∧ ¬c.isAlpha = true := by
    simp only [List.mem_cons, List.not_mem_nil, or_false] at hc
    rcases hc with rfl | rfl | rfl <;> decide
  have hsub : [':', '(', ')'] ⊆ [':', ',', '(', ')'] := by decide
  rcases mem_referenced_table hmem with hname | hquote | hunderscore | hletter
  · exact h c (hsub hc) hname
  · exact hother.1 hquote
  · exact hother.2.1 hunderscore
  · exact hother.2.2 hletter

/-- The companion of a plainly named column is printable. -/
theorem printable_foreignKey {name : String} (hplain : Plain name)
    (htrimmed : Trimmed name.toList) : (foreignKey name).Printable := by
  refine
    { name := isSegment_of_plain hplain htrimmed
      type := typeReadsBack_of_typeGroup?_eq_none (s := "foreign".toList)
        (isSegment_of_grouped rfl (by decide)) rfl
      options := ?_
      not_marker := by simp
      not_foreign := by simp }
  rw [options_foreignKey]
  refine List.forall_mem_cons.mpr ⟨by decide, List.forall_mem_cons.mpr ⟨?_, by simp⟩⟩
  have hkey : "on" ≠ "" ∧ ∀ c ∈ "on".toList, c.isAlpha = true :=
    ⟨by decide, List.all_eq_true.mp (by decide)⟩
  exact ⟨hkey, by simp, not_mem_referenced_table hplain⟩

theorem printable_of_mem_expand {f : Field} (h : f.Legible) (hplain : Plain f.name) :
    ∀ c ∈ expand f, c.Printable := by
  intro c hc
  cases c with
  | timestamps => trivial
  | field g =>
      obtain ⟨hmarker, rfl | rfl⟩ := field_of_mem_expand hc
      · exact
          { name := h.name
            type := h.type
            options := fun e he => h.options e (Options.mem_of_mem_erase he)
            not_marker := hmarker
            not_foreign := Options.not_mem_keys_erase _ _ }
      · exact printable_foreignKey hplain h.name.trimmed

/-- Every column that is read from a regular text is printable. -/
theorem printable_of_regular {s : List Char} (h : Regular s) :
    ∀ c ∈ (pieces s).flatMap columnsOfPiece, c.Printable := by
  intro c hc
  rw [flatMap_columnsOfPiece_pieces] at hc
  obtain ⟨f, hf, hc⟩ := List.mem_flatMap.mp hc
  have hgrouped : Grouped [','] f := by
    obtain ⟨p, hp, rfl⟩ := exists_piece_of_mem_fields hf
    exact (grouped_of_mem_pieces h.grouped p hp).trim
  have hplain : Plain (field f).name := by
    rw [name_field]
    have hname : Grouped [':', ','] (nameOf f) := by
      unfold nameOf
      cases hsplit : f.splitOn ':' with
      | nil => exact absurd hsplit (List.splitOn_ne_nil ':' f)
      | cons name segments => exact grouped_of_mem_splitOn hgrouped name (by simp [hsplit])
    exact plain_ofList fun x hx hmem => hname.plain (h.name f hf) x hx (mem_of_mem_trim hmem)
  exact printable_of_mem_expand (legible_field hgrouped (h.type f hf)) hplain c hc

end Shorthand

/-! ## The law -/

/-- **What was read can be printed and read back.** For a text with regular groups, reading the
printed form of the schema that it describes gives that schema again. -/
theorem Schema.ofShorthand_shorthand_ofShorthand (text : String) (h : Regular text.toList) :
    Schema.ofShorthand (Schema.ofShorthand text).shorthand = Schema.ofShorthand text :=
  Schema.ofShorthand_shorthand_of_printable (printable_of_regular h)

/-- A text that uses every leniency of reading: blanks everywhere, modifiers that fit no form, a
blank field, a missing type, text after a group, a key written twice, a foreign key, a type with
an empty group, and a marker with arguments. -/
theorem Schema.ofShorthand_shorthand_ofShorthand_lenient :
    let text := " a : int :b: d(1, 2) y:9x(2):d():b, c, ,man_id:big ( p , q )r(s):foreign:d(1):d(2),"
      ++ "x:f()g(,), :timestamps(3)"
    Regular text.toList
      ∧ Schema.ofShorthand (Schema.ofShorthand text).shorthand = Schema.ofShorthand text := by
  intro text
  have h : Regular text.toList := regular_ofList_append ⟨by decide, by decide, by decide⟩
  exact ⟨h, Schema.ofShorthand_shorthand_ofShorthand text h⟩

end MigrationDraft
