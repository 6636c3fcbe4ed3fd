import MigrationDraft.Proofs.Shorthand.Provenance

set_option autoImplicit false

/-!
# What holds of every column that is read

However malformed a text is, its columns are well formed: names, keys and arguments are trimmed,
no part holds the separator it was cut at, keys and values are not empty, keys are distinct and
`foreign` is none of them, and no column has the form of the marker
(`Schema.wellFormed_ofShorthand`). What holds of the parts of a field comes from the way it is
cut, and it is kept where the field gives way to a column and its companion.

A value that is cut out of a text ends before the first closing parenthesis. Only a companion can
have one in a value: the table that it refers to gets its name from a column, and a column's name
may hold anything but a colon.
-/

namespace MigrationDraft

open Shorthand Text

/-! ## Well-formed columns -/

/-- A modifier as it is read: its key is there, is trimmed and has no colon, the key of a bare
one has no opening parenthesis, and that of a value has letters only. -/
structure CutOption (e : String × OptionValue) : Prop where
  key : e.1 ≠ "" ∧ Trimmed e.1.toList ∧ ':' ∉ e.1.toList
  flag : e.2 = .flag → '(' ∉ e.1.toList
  literal : ∀ v, e.2 = .literal v →
    (∀ c ∈ e.1.toList, c.isAlpha = true) ∧ v ≠ "" ∧ ':' ∉ v.toList

/-- What holds of a column because of the way in which its text is cut. -/
structure Field.Cut (f : Field) : Prop where
  name : Trimmed f.name.toList ∧ ':' ∉ f.name.toList
  type : ':' ∉ f.type.toList ∧ ∀ c ∈ f.type.toList.head?, isBlank c = false
  arguments : ∀ a ∈ f.arguments, Trimmed a.toList ∧ ∀ c ∈ [',', ')', ':'], c ∉ a.toList
  options : ∀ e ∈ f.options.toList, CutOption e

def Field.Unclosed (f : Field) : Prop :=
  ∀ e ∈ f.options.toList, ∀ v, e.2 = .literal v → ')' ∉ v.toList

/-- What holds of every column of a schema that is read. -/
structure Field.WellFormed (f : Field) : Prop extends f.Cut where
  keys_nodup : f.options.keys.Nodup
  not_foreign : "foreign" ∉ f.options.keys
  not_marker : ¬(f.name = "" ∧ f.type = "timestamps")
  /-- A value has a closing parenthesis only if it is the table of a companion, and the name of
  the companion's column has one. -/
  close : ∀ e ∈ f.options.toList, ∀ v, e.2 = .literal v →
    (')' ∈ v.toList ↔ f = foreignKey f.name ∧ e.1 = "on" ∧ ')' ∈ f.name.toList)

namespace Shorthand

/-! ## What is read from a segment -/

section

variable {s : List Char}

theorem cutOption_of_option? (hcolon : ':' ∉ s) (ht : Trimmed s) {e : String × OptionValue}
    (he : option? s = some e) : CutOption e ∧ ∀ v, e.2 = .literal v → ')' ∉ v.toList := by
  cases option?_eq_some_iff.mp he with
  -- a key in front of a group has letters only, so it needs no trimming
  | @valued key value rest hkey hletters hvalue hclose =>
      have hkeyColon : ':' ∉ key := fun hm => hcolon (List.mem_append_left _ hm)
      have hvalueColon : ':' ∉ value := fun hm => hcolon (by simp [hm])
      have htrimmed : Trimmed key :=
        ⟨fun c hc => isBlank_of_isAlpha (hletters c (List.mem_of_mem_head? hc)),
          fun c hc => isBlank_of_isAlpha (hletters c (List.mem_of_getLast? hc))⟩
      refine ⟨⟨⟨by simpa using hkey, ?_⟩, (fun hflag => nomatch hflag), fun v hv => ?_⟩,
        fun v hv => ?_⟩
      · rw [String.toList_ofList]
        exact ⟨htrimmed, hkeyColon⟩
      · cases hv
        rw [String.toList_ofList, String.toList_ofList]
        exact ⟨hletters, by simpa using hvalue, hvalueColon⟩
      · cases hv
        rwa [String.toList_ofList]
  | bare hne hopen =>
      refine ⟨⟨⟨by simpa using hne, ?_⟩, fun _ => ?_, fun v hv => nomatch hv⟩,
        fun v hv => nomatch hv⟩
      · rw [String.toList_ofList]
        exact ⟨ht, hcolon⟩
      · rwa [String.toList_ofList]

theorem cut_typeOf (hcolon : ':' ∉ s) (ht : Trimmed s) :
    (':' ∉ (typeOf s).1.toList ∧ ∀ c ∈ (typeOf s).1.toList.head?, isBlank c = false)
      ∧ ∀ a ∈ (typeOf s).2, Trimmed a.toList ∧ ∀ c ∈ [',', ')', ':'], c ∉ a.toList := by
  unfold typeOf
  split
  · next head inner hgroup =>
      obtain ⟨_, _, hclose, rest, rfl⟩ := typeGroup?_eq_some_iff.mp hgroup
      have hinner : ':' ∉ inner := fun hm => hcolon (by simp [hm])
      refine ⟨⟨?_, ?_⟩, fun a ha => ?_⟩
      · rw [String.toList_ofList]
        exact fun hm => hcolon (List.mem_append_left _ hm)
      · -- the head of the type is the front of the segment, unless it is empty
        rw [String.toList_ofList]
        cases head with
        | nil => simp
        | cons c head => simpa using ht.1
      · obtain ⟨part, hpart, rfl⟩ := List.mem_map.mp ha
        rw [String.toList_ofList]
        refine ⟨trimmed_trim part, fun c hc hm => ?_⟩
        -- commas have cut the inside of the group, which ends before the first parenthesis
        have hm : c ∈ part := mem_of_mem_trim hm
        simp only [List.mem_cons, List.not_mem_nil, or_false] at hc
        rcases hc with rfl | rfl | rfl
        · exact not_mem_of_mem_splitOn hpart hm
        · exact hclose (mem_of_mem_splitOn hpart hm)
        · exact hinner (mem_of_mem_splitOn hpart hm)
  · rw [String.toList_ofList]
    exact ⟨⟨hcolon, ht.1⟩, fun a ha => nomatch ha⟩

/-- A field is cut as it should be, and no value in it has a closing parenthesis. -/
theorem cut_field (s : List Char) : (field s).Cut ∧ (field s).Unclosed := by
  obtain ⟨hname, htype, htokens⟩ := forall_parts (P := fun p => ':' ∉ p ∧ Trimmed p)
    ⟨by simp, by decide⟩ fun p hp =>
      ⟨fun hm => not_mem_of_mem_splitOn hp (mem_of_mem_trim hm), trimmed_trim p⟩
  have hoptions : ∀ e ∈ (field s).options.toList,
      CutOption e ∧ ∀ v, e.2 = .literal v → ')' ∉ v.toList := by
    intro e he
    rw [field_eq] at he
    obtain ⟨token, htoken, hread⟩ := exists_token_of_mem_optionsOf he
    exact cutOption_of_option? (htokens token htoken).1 (htokens token htoken).2 hread
  obtain ⟨htypeOf, harguments⟩ := cut_typeOf htype.1 htype.2
  refine ⟨⟨?_, ?_, ?_, fun e he => (hoptions e he).1⟩, fun e he => (hoptions e he).2⟩
  · rw [name_field, String.toList_ofList]
    exact hname.symm
  · rw [field_eq]
    exact htypeOf
  · rw [field_eq]
    exact harguments

end

/-! ## What a field stands for -/

theorem close_mem_referenced_table_iff (column : String) :
    ')' ∈ (quoted (Inflection.pluralize (referencedName column))).toList
      ↔ ')' ∈ column.toList :=
  mem_referenced_table_iff (by decide) (by decide) (by decide)

theorem cut_foreignKey {name : String} (h : Trimmed name.toList ∧ ':' ∉ name.toList) :
    (foreignKey name).Cut := by
  have htable : ':' ∉ (quoted (Inflection.pluralize (referencedName name))).toList := fun hm =>
    h.2 ((mem_referenced_table_iff (by decide) (by decide) (by decide)).mp hm)
  have hkey : ∀ key ∈ ["references", "on"],
      (key ≠ "" ∧ Trimmed key.toList ∧ ':' ∉ key.toList)
        ∧ key.toList.all Char.isAlpha = true := by decide
  refine ⟨h, ?_, (fun a ha => nomatch ha), ?_⟩
  · refine ⟨show ':' ∉ "foreign".toList by decide, fun c hc => ?_⟩
    have hf : "foreign".toList.head? = some 'f' := rfl
    rw [Option.some.inj (hc.symm.trans hf)]
    decide
  · rw [options_foreignKey]
    refine List.forall_mem_cons.mpr ⟨?_, List.forall_mem_singleton.mpr ?_⟩
    · obtain ⟨hreferences, hletters⟩ := hkey "references" (by simp)
      refine ⟨hreferences, (fun hflag => nomatch hflag), fun v hv => ?_⟩
      cases hv
      exact ⟨List.all_eq_true.mp hletters, by decide, by decide⟩
    · obtain ⟨hon, hletters⟩ := hkey "on" (by simp)
      refine ⟨hon, (fun hflag => nomatch hflag), fun v hv => ?_⟩
      cases hv
      exact ⟨List.all_eq_true.mp hletters, by simp, htable⟩

/-- A companion is well formed if the name of its column is. -/
theorem wellFormed_foreignKey {name : String} (h : Trimmed name.toList ∧ ':' ∉ name.toList) :
    (foreignKey name).WellFormed := by
  refine
    { cut_foreignKey h with
      keys_nodup := (foreignKey name).options.nodup_keys
      not_foreign := by simp
      not_marker := by simp
      close := ?_ }
  rw [options_foreignKey]
  refine List.forall_mem_cons.mpr ⟨fun v hv => ?_, List.forall_mem_singleton.mpr fun v hv => ?_⟩
  · cases hv
    exact iff_of_false (by decide) fun hon => absurd hon.2.1 (by decide)
  · cases hv
    rw [close_mem_referenced_table_iff]
    exact ⟨fun hm => ⟨rfl, rfl, hm⟩, fun hon => hon.2.2⟩

/-- A column that was cut out of a text is no companion with a closing parenthesis in its name,
as that would have one in a value. -/
theorem close_iff_of_unclosed {f : Field} (h : f.Unclosed) :
    ∀ e ∈ f.options.toList, ∀ v, e.2 = .literal v →
      (')' ∈ v.toList ↔ f = foreignKey f.name ∧ e.1 = "on" ∧ ')' ∈ f.name.toList) := by
  intro e he v hv
  refine iff_of_false (h e he v hv) ?_
  rintro ⟨hf, _, hname⟩
  -- the modifiers would be those of the companion, and the table is one of their values
  have hoptions := options_foreignKey f.name
  rw [← hf] at hoptions
  refine h ("on", .literal (quoted (Inflection.pluralize (referencedName f.name)))) ?_ _ rfl
    ((close_mem_referenced_table_iff f.name).mpr hname)
  rw [hoptions]
  simp

/-- Every entry that a field stands for is well formed. -/
theorem wellFormed_of_mem_expand {f g : Field} (h : f.Cut) (hclose : f.Unclosed)
    (hg : .field g ∈ expand f) : g.WellFormed := by
  obtain ⟨hmarker, rfl | rfl⟩ := field_of_mem_expand hg
  · have hsub : ∀ e ∈ f.withoutForeign.options.toList, e ∈ f.options.toList :=
      fun e he => Options.mem_of_mem_erase he
    have hunclosed : f.withoutForeign.Unclosed := fun e he => hclose e (hsub e he)
    exact
      { h with
        options := fun e he => h.options e (hsub e he)
        keys_nodup := f.withoutForeign.options.nodup_keys
        not_foreign := Options.not_mem_keys_erase _ _
        not_marker := hmarker
        close := close_iff_of_unclosed hunclosed }
  · exact wellFormed_foreignKey h.name

end Shorthand

/-! ## The invariant -/

/-- **Every column that is read is well formed**, whatever the text is. -/
theorem Schema.wellFormed_ofShorthand (text : String) :
    ∀ f, .field f ∈ Schema.ofShorthand text → f.WellFormed := by
  intro f hf
  obtain ⟨s, _, hf⟩ := mem_ofShorthand_iff.mp hf
  obtain ⟨hcut, hunclosed⟩ := cut_field s
  exact wellFormed_of_mem_expand hcut hunclosed hf

/-- A malformed text: its first column has arguments, a bare modifier, a value that is cut short
and a name with a closing parenthesis, and its second one is the companion. -/
theorem Schema.wellFormed_ofShorthand_malformed :
    let text := " a)_id : d( 1,(2 )x : :b c:foreign:y(z(1)):y), "
    let column : Field := ⟨"a)_id", "d", ["1", "(2"],
      Options.ofList [("b c", .flag), ("y", .literal "z(1"), ("y)", .flag)]⟩
    (.field column ∈ Schema.ofShorthand text ∧ column.WellFormed)
      ∧ .field (foreignKey "a)_id") ∈ Schema.ofShorthand text
        ∧ (foreignKey "a)_id").WellFormed := by
  intro text column
  have hread : Schema.ofShorthand text = [.field column, .field (foreignKey "a)_id")] := by
    decide
  have hwellFormed := Schema.wellFormed_ofShorthand text
  rw [hread] at hwellFormed ⊢
  exact ⟨⟨by simp, hwellFormed _ (by simp)⟩, by simp, hwellFormed _ (by simp)⟩

/-- A closing parenthesis in a value: the companion refers to a table whose name has one. -/
theorem Schema.close_mem_companion_table :
    let f := foreignKey "a)_id"
    .field f ∈ Schema.ofShorthand "a)_id:integer:foreign"
      ∧ ("on", .literal "'a)s'") ∈ f.options.toList ∧ ')' ∈ "'a)s'".toList := by
  decide

end MigrationDraft
