import MigrationDraft.Proofs.Inflection.Letters
import MigrationDraft.Proofs.Shorthand.Groups
import MigrationDraft.Proofs.Shorthand.Parts
import MigrationDraft.Proofs.Text.Splitting
import MigrationDraft.Proofs.Text.Trim

set_option autoImplicit false

/-!
# Where the characters of a schema come from

Reading takes texts apart and never makes one up, except for the companion of a foreign key: it
has letters of its own, quotes around what it refers to, and underscores between the words of a
plural. So a column that is read is written in the alphabet of its text, as long as that has
letters, quotes and underscores (`Schema.writtenIn_ofShorthand`).
-/

namespace MigrationDraft

open Text

/-! ## Columns and alphabets -/

def OptionWrittenIn (alphabet : Char → Prop) : String × OptionValue → Prop
  | (key, .flag) => ∀ c ∈ key.toList, alphabet c
  | (key, .literal text) => (∀ c ∈ key.toList, alphabet c) ∧ ∀ c ∈ text.toList, alphabet c

/-- All characters of a column are in the alphabet. -/
structure Field.WrittenIn (alphabet : Char → Prop) (f : Field) : Prop where
  name : ∀ c ∈ f.name.toList, alphabet c
  type : ∀ c ∈ f.type.toList, alphabet c
  arguments : ∀ a ∈ f.arguments, ∀ c ∈ a.toList, alphabet c
  options : ∀ e ∈ f.options.toList, OptionWrittenIn alphabet e

section

variable {alphabet : Char → Prop} [DecidablePred alphabet]

instance : DecidablePred (OptionWrittenIn alphabet)
  | (key, .flag) => List.decidableBAll alphabet key.toList
  | (key, .literal text) =>
      have := List.decidableBAll alphabet key.toList
      have := List.decidableBAll alphabet text.toList
      inferInstanceAs (Decidable (_ ∧ _))

instance (f : Field) : Decidable (f.WrittenIn alphabet) :=
  have (s : String) : Decidable (∀ c ∈ s.toList, alphabet c) :=
    List.decidableBAll alphabet s.toList
  decidable_of_iff
    ((∀ c ∈ f.name.toList, alphabet c) ∧ (∀ c ∈ f.type.toList, alphabet c)
      ∧ (∀ a ∈ f.arguments, ∀ c ∈ a.toList, alphabet c)
      ∧ ∀ e ∈ f.options.toList, OptionWrittenIn alphabet e)
    ⟨fun ⟨hname, htype, harguments, hoptions⟩ => ⟨hname, htype, harguments, hoptions⟩,
      fun ⟨hname, htype, harguments, hoptions⟩ => ⟨hname, htype, harguments, hoptions⟩⟩

end

def Column.WrittenIn (alphabet : Char → Prop) : Column → Prop
  | .field f => f.WrittenIn alphabet
  | .timestamps => True

/-- The alphabet has all that a companion column adds to a text. -/
structure HasWordCharacters (alphabet : Char → Prop) : Prop where
  quote : alphabet '\''
  underscore : alphabet '_'
  letter : ∀ c, c.isAlpha = true → alphabet c

theorem HasWordCharacters.word {alphabet : Char → Prop} (h : HasWordCharacters alphabet)
    (word : String) (hword : word.toList.all Char.isAlpha = true) :
    ∀ c ∈ word.toList, alphabet c :=
  fun c hc => h.letter c (List.all_eq_true.mp hword c hc)

namespace Shorthand

/-! ## Companions -/

theorem filter_referencedName {p : Char → Bool} (hp : HasWordCharacters fun c => p c = false)
    (column : String) :
    (referencedName column).toList.filter p = column.toList.filter p := by
  unfold referencedName
  split
  · next stem hstem =>
      have hid : "_id".toList.filter p = [] := by
        simp [hp.underscore, hp.letter]
      rw [String.toList_ofList, dropSuffix?_eq_some_iff.mp hstem, List.filter_append, hid,
        List.append_nil]
  · rfl

/-- The characters of a kind without letters, underscores and quotes are the same in what a key
refers to and in the column's name. -/
theorem filter_referenced_table {p : Char → Bool} (hp : HasWordCharacters fun c => p c = false)
    (column : String) :
    (quoted (Inflection.pluralize (referencedName column))).toList.filter p
      = column.toList.filter p := by
  have hquote : "'".toList.filter p = [] := by simp [hp.quote]
  rw [quoted, String.toList_append, String.toList_append, List.filter_append, List.filter_append,
    hquote, Inflection.filter_pluralize hp.letter, filter_referencedName hp]
  simp

theorem mem_referenced_table_iff {column : String} {c : Char} (hquote : c ≠ '\'')
    (hunderscore : c ≠ '_') (hletter : c.isAlpha = false) :
    c ∈ (quoted (Inflection.pluralize (referencedName column))).toList ↔ c ∈ column.toList := by
  have hother : HasWordCharacters fun d => (c == d) = false := by
    refine ⟨beq_false_of_ne hquote, beq_false_of_ne hunderscore, fun d hd => ?_⟩
    refine beq_false_of_ne fun he => ?_
    rw [he, hd] at hletter
    cases hletter
  have hmem : ∀ l : List Char, c ∈ l ↔ c ∈ l.filter (c == ·) := by simp
  rw [hmem, filter_referenced_table hother, ← hmem]

/-- What a key refers to is written with the characters of the column's name, letters,
underscores and quotes. -/
theorem mem_referenced_table {column : String} {c : Char}
    (h : c ∈ (quoted (Inflection.pluralize (referencedName column))).toList) :
    c ∈ column.toList ∨ c = '\'' ∨ c = '_' ∨ c.isAlpha = true := by
  by_cases hword : c = '\'' ∨ c = '_' ∨ c.isAlpha = true
  · exact Or.inr hword
  · rw [not_or, not_or, Bool.not_eq_true] at hword
    exact Or.inl ((mem_referenced_table_iff hword.1 hword.2.1 hword.2.2).mp h)

section

variable {alphabet : Char → Prop} (hwords : HasWordCharacters alphabet)

include hwords

theorem writtenIn_foreignKey {column : String} (h : ∀ c ∈ column.toList, alphabet c) :
    (foreignKey column).WrittenIn alphabet := by
  have htable : ∀ c ∈ (quoted (Inflection.pluralize (referencedName column))).toList,
      alphabet c := by
    intro c hc
    rcases mem_referenced_table hc with hname | rfl | rfl | hletter
    · exact h c hname
    · exact hwords.quote
    · exact hwords.underscore
    · exact hwords.letter c hletter
  have hid : ∀ c ∈ (quoted "id").toList, alphabet c := by
    have hchars : (quoted "id").toList = ['\'', 'i', 'd', '\''] := by decide
    simp [hchars, hwords.quote, hwords.letter]
  refine ⟨h, hwords.word "foreign" (by decide), (fun a ha => nomatch ha), ?_⟩
  rw [options_foreignKey]
  intro e he
  rcases List.mem_cons.mp he with rfl | he
  · exact ⟨hwords.word _ (by decide), hid⟩
  · rw [List.mem_singleton.mp he]
    exact ⟨hwords.word _ (by decide), htable⟩

/-- What a written column stands for is written in the same alphabet. -/
theorem writtenIn_of_mem_expand {f : Field} (h : f.WrittenIn alphabet) :
    ∀ c ∈ expand f, c.WrittenIn alphabet := by
  intro c hc
  cases c with
  | timestamps => trivial
  | field g =>
      obtain ⟨_, rfl | rfl⟩ := field_of_mem_expand hc
      · exact { h with options := fun e he => h.options e (Options.mem_of_mem_erase he) }
      · exact writtenIn_foreignKey hwords h.name

end

/-! ## What is read from a text -/

section

variable {alphabet : Char → Prop}

theorem writtenIn_typeOf {s : List Char} (h : ∀ c ∈ s, alphabet c) :
    (∀ c ∈ (typeOf s).1.toList, alphabet c)
      ∧ ∀ a ∈ (typeOf s).2, ∀ c ∈ a.toList, alphabet c := by
  unfold typeOf
  split
  · next head inner hgroup =>
      obtain ⟨_, _, _, rest, rfl⟩ := typeGroup?_eq_some_iff.mp hgroup
      refine ⟨fun c hc => h c ?_, fun a ha c hc => h c ?_⟩
      · rw [String.toList_ofList] at hc
        exact List.mem_append_left _ hc
      · obtain ⟨part, hpart, rfl⟩ := List.mem_map.mp ha
        rw [String.toList_ofList] at hc
        have hinner : c ∈ inner := mem_of_mem_splitOn hpart (mem_of_mem_trim hc)
        simp [hinner]
  · refine ⟨fun c hc => h c ?_, fun a ha => nomatch ha⟩
    rwa [String.toList_ofList] at hc

theorem writtenIn_option? {s : List Char} (h : ∀ c ∈ s, alphabet c) {e : String × OptionValue}
    (he : option? s = some e) : OptionWrittenIn alphabet e := by
  cases option?_eq_some_iff.mp he with
  | valued =>
      refine ⟨fun c hc => h c ?_, fun c hc => h c ?_⟩
      · rw [String.toList_ofList] at hc
        exact List.mem_append_left _ hc
      · rw [String.toList_ofList] at hc
        simp [hc]
  | bare =>
      intro c hc
      rw [String.toList_ofList] at hc
      exact h c hc

/-- A column that is read from a text is written in the alphabet of the text. -/
theorem writtenIn_field {s : List Char} (h : ∀ c ∈ s, alphabet c) :
    (field s).WrittenIn alphabet := by
  obtain ⟨hname, htype, htokens⟩ := forall_parts (P := fun p => ∀ c ∈ p, alphabet c) (by simp)
    fun segment hsegment c hc => h c (mem_of_mem_splitOn hsegment (mem_of_mem_trim hc))
  obtain ⟨hhead, harguments⟩ := writtenIn_typeOf htype
  rw [field_eq]
  refine ⟨?_, hhead, harguments, fun e he => ?_⟩
  · rw [String.toList_ofList]
    exact hname
  · obtain ⟨token, htoken, hread⟩ := exists_token_of_mem_optionsOf he
    exact writtenIn_option? (htokens token htoken) hread

/-- Everything in a piece of a text is in the text. -/
theorem mem_of_mem_pieces {s p : List Char} (hp : p ∈ pieces s) {c : Char} (hc : c ∈ p) :
    c ∈ s := by
  have hs : [','].intercalate (pieces s) = s := intercalate_piecesFrom 0 s
  exact hs ▸ mem_intercalate_of_mem hp hc

end

end Shorthand

open Shorthand

/-- Every column of a schema is written in the alphabet of the text that describes it. -/
theorem Schema.writtenIn_ofShorthand {alphabet : Char → Prop}
    (hwords : HasWordCharacters alphabet) {text : String} (h : ∀ c ∈ text.toList, alphabet c) :
    ∀ c ∈ Schema.ofShorthand text, c.WrittenIn alphabet := by
  intro c hc
  obtain ⟨f, hf, hc⟩ := mem_ofShorthand_iff.mp hc
  obtain ⟨piece, hpiece, rfl⟩ := exists_piece_of_mem_fields hf
  have hfield : ∀ x ∈ trim piece, alphabet x := fun x hx =>
    h x (mem_of_mem_pieces hpiece (mem_of_mem_trim hx))
  exact writtenIn_of_mem_expand hwords (writtenIn_field hfield) c hc

end MigrationDraft
