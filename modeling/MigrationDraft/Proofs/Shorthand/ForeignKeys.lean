import MigrationDraft.Proofs.Shorthand.Grammar
import MigrationDraft.Proofs.Shorthand.Provenance
import MigrationDraft.Proofs.Shorthand.RoundTrip
import MigrationDraft.Proofs.Shorthand.Separators

set_option autoImplicit false

/-!
# Asking for a foreign key

The modifier `foreign`, with or without a value, asks for a companion of its column. It can stand
after the type or after any other token, and wherever it stands it adds the companion right after
the column and leaves everything else as it is (`Schema.ofShorthand_insert_foreign`): the fields
around it, because it is neutral with respect to commas and parentheses, the other segments of
its own field, because it comes between two of them, and the other modifiers, because its own
entry is taken out again.
-/

namespace MigrationDraft

open Shorthand Text

namespace Shorthand

/-! ## The token and its place -/

/-- A token that asks for a foreign key, with the colon before it. -/
inductive AsksForKey : List Char → Prop
  | bare : AsksForKey ":foreign".toList
  | valued {value : List Char} (hne : value ≠ []) (hvalue : ∀ c ∈ [':', '(', ')'], c ∉ value) :
      AsksForKey (":foreign".toList ++ '(' :: (value ++ [')']))

/-- The place between two parts of a field is right after its type or after one of its tokens:
a colon comes before it, and what comes after it, but for blanks, is a colon or the end. -/
def EndsSegment (x y : List Char) : Prop :=
  ':' ∈ x ∧ ∃ gap rest, y = gap ++ rest ∧ Blanks gap ∧ (rest = [] ∨ rest.head? = some ':')

/-- The name without a trailing `_id`. -/
def IsStem (stem name : String) : Prop :=
  name = stem ++ "_id" ∨ (name = stem ∧ ∀ s, name ≠ s ++ "_id")

theorem isStem_referencedName (name : String) : IsStem (referencedName name) name := by
  unfold referencedName
  split
  · next stem hstem =>
      refine Or.inl ?_
      rw [← String.toList_inj, String.toList_append, String.toList_ofList]
      exact dropSuffix?_eq_some_iff.mp hstem
  · next hnone =>
      refine Or.inr ⟨rfl, fun s hs => ?_⟩
      have hsome : dropSuffix? "_id".toList name.toList = some s.toList :=
        dropSuffix?_eq_some_iff.mpr (by rw [hs, String.toList_append])
      rw [hnone] at hsome
      cases hsome

namespace AsksForKey

variable {t : List Char}

theorem neutral (h : AsksForKey t) : Neutral t := by
  have hword : Neutral ":foreign".toList := neutral_of_not_mem (by decide) (by decide) (by decide)
  cases h with
  | bare => exact hword
  | valued _ hvalue =>
      exact hword.append (neutral_group (hvalue '(' (by simp)) (hvalue ')' (by simp)))

/-- It is a colon and a token with the key `foreign`. -/
theorem exists_token (h : AsksForKey t) :
    ∃ token, t = ':' :: token ∧ ':' ∉ token ∧ Trimmed token
      ∧ ∃ value, TokenForm token ("foreign", value) := by
  cases h with
  | bare =>
      exact ⟨"foreign".toList, rfl, by decide, by decide, .flag, .bare (by decide) (by decide)⟩
  | @valued value hne hvalue =>
      have hsegment : IsSegment ("foreign".toList ++ '(' :: (value ++ [')'])) :=
        isSegment_group (by rintro _ ⟨⟩; rfl) (by simp) hvalue
      have hform := @TokenForm.valued "foreign".toList value [] (by decide)
        (List.all_eq_true.mp (by decide)) hne (hvalue ')' (by simp))
      exact ⟨_, rfl, hsegment.no_colon, hsegment.trimmed, _, hform⟩

end AsksForKey

/-! ## One more segment -/

/-- A token that is put between two segments of a field, after its type, is a segment more. -/
theorem exists_segments_insert {x y token : List Char} (hx : ':' ∈ x)
    (hy : y = [] ∨ y.head? = some ':') (htoken : ':' ∉ token) :
    ∃ name type before after, segments (x ++ y) = name :: type :: (before ++ after)
      ∧ segments (x ++ (':' :: token ++ y)) = name :: type :: (before ++ trim token :: after) := by
  obtain ⟨name, rest, rfl, hname⟩ := List.eq_append_cons_of_mem hx
  obtain ⟨init, last, head, tail, hrest, hy', hsplit⟩ := exists_splitOn_append ':' rest y
  obtain ⟨tail', hy''⟩ := splitOn_of_head? hy
  obtain ⟨rfl, rfl⟩ := List.cons.inj (hy'.symm.trans hy'')
  -- `y` begins a segment, so the last one of `x` is whole
  have hwithout : (rest ++ y).splitOn ':' = rest.splitOn ':' ++ tail := by
    have hnil := hsplit [] (by simp)
    rw [List.nil_append, List.nil_append, List.append_nil] at hnil
    rw [hnil, hrest, List.append_assoc, List.singleton_append]
  have hwith : (rest ++ (':' :: token ++ y)).splitOn ':'
      = rest.splitOn ':' ++ token :: tail := by
    rw [List.cons_append, List.splitOn_append_cons_self, splitOn_append_of_not_mem htoken, hy',
      List.modifyHead_cons, List.append_nil]
  obtain ⟨type, before, hparts⟩ :=
    List.exists_cons_of_ne_nil (List.splitOn_ne_nil ':' rest)
  refine ⟨trim name, trim type, before.map trim, tail.map trim, ?_, ?_⟩
  · rw [segments, List.append_assoc, List.cons_append,
      List.splitOn_append_cons_self_of_not_mem hname, hwithout, hparts]
    simp
  · rw [segments, List.append_assoc, List.cons_append,
      List.splitOn_append_cons_self_of_not_mem hname, hwith, hparts]
    simp

/-- A key that no token is accepted with is not collected. -/
theorem not_mem_keys_of_tokens {tokens : List (List Char)} {key : String}
    (h : ∀ token ∈ tokens, ∀ value, ¬TokenForm (trim token) (key, value)) :
    key ∉ (tokens.filterMap fun token => option? (trim token)).map Prod.fst := by
  intro hmem
  obtain ⟨⟨_, value⟩, he, rfl⟩ := List.mem_map.mp hmem
  obtain ⟨token, htoken, hread⟩ := List.mem_filterMap.mp he
  exact h token htoken value (option?_eq_some_iff.mp hread)

section

variable {before after : List (List Char)} {token : List Char} {value : OptionValue}

/-- Where no other token asks for a foreign key, the modifiers without `foreign` are those of the
other tokens. -/
theorem optionsOf_insert (htoken : TokenForm (trim token) ("foreign", value))
    (h : ∀ t ∈ before ++ after, ∀ v, ¬TokenForm (trim t) ("foreign", v)) :
    "foreign" ∉ (optionsOf (before ++ after)).keys
      ∧ "foreign" ∈ (optionsOf (before ++ token :: after)).keys
      ∧ (optionsOf (before ++ token :: after)).erase "foreign" = optionsOf (before ++ after) := by
  have hbefore := not_mem_keys_of_tokens fun t ht => h t (List.mem_append_left _ ht)
  have hafter := not_mem_keys_of_tokens fun t ht => h t (List.mem_append_right _ ht)
  unfold optionsOf
  rw [List.filterMap_append, List.filterMap_append, List.filterMap_cons,
    option?_eq_some_iff.mpr htoken]
  refine ⟨?_, ?_, Options.erase_ofList_append_cons hbefore hafter value⟩
  · rw [Options.mem_keys_ofList, List.map_append, List.mem_append, not_or]
    exact ⟨hbefore, hafter⟩
  · rw [Options.mem_keys_ofList]
    simp

end

/-! ## What the token adds -/

/-- A token that asks for a foreign key adds the companion to the column of its field. -/
theorem expand_field_insert {x y token : List Char} {value : OptionValue} (hx : ':' ∈ x)
    (hy : y = [] ∨ y.head? = some ':') (htoken : ':' ∉ token) (ht : Trimmed token)
    (hform : TokenForm token ("foreign", value))
    (hmarker : ¬((field (x ++ y)).name = "" ∧ (field (x ++ y)).type = "timestamps"))
    (hforeign : ∀ t ∈ (segments (x ++ y)).drop 2, ∀ v, ¬TokenForm t ("foreign", v)) :
    expand (field (x ++ y)) = [.field (field (x ++ y))]
      ∧ expand (field (x ++ (':' :: token ++ y)))
        = [.field (field (x ++ y)), .field (foreignKey (field (x ++ y)).name)] := by
  obtain ⟨name, type, before, after, hwithout, hwith⟩ := exists_segments_insert hx hy htoken
  rw [hwithout] at hforeign
  have hothers : ∀ t ∈ before ++ after, ∀ v, ¬TokenForm (trim t) ("foreign", v) := by
    intro t hmem
    have hsegment : t ∈ segments (x ++ y) := by
      rw [hwithout]
      exact List.mem_cons_of_mem _ (List.mem_cons_of_mem _ hmem)
    rw [trim_of_mem_segments hsegment]
    exact hforeign t hmem
  rw [trim_eq_self ht] at hwith
  obtain ⟨habsent, hpresent, herase⟩ := optionsOf_insert ((trim_eq_self ht).symm ▸ hform) hothers
  rw [field_eq_fieldOfSegments (x ++ y), hwithout] at hmarker ⊢
  rw [field_eq_fieldOfSegments (x ++ (':' :: token ++ y)), hwith]
  have hrest : (fieldOfSegments (name :: type :: (before ++ token :: after))).withoutForeign
      = fieldOfSegments (name :: type :: (before ++ after)) := by
    simp only [fieldOfSegments, Field.withoutForeign, herase]
  refine ⟨expand_of_not_foreign hmarker habsent, ?_⟩
  rw [← hrest]
  exact expand_of_foreign hmarker hpresent

theorem columnsOfPiece_of_mem_colon {piece : List Char} (h : ':' ∈ piece) :
    columnsOfPiece piece = expand (field piece) :=
  columnsOfPiece_of_not_blanks fun hblanks => not_mem_of_blanks (by decide) hblanks h

theorem columnsOfPiece_insert_foreign {x t y : List Char} (hplace : EndsSegment x y)
    (hmarker : ¬((field (x ++ y)).name = "" ∧ (field (x ++ y)).type = "timestamps"))
    (hforeign : ∀ token ∈ (segments (x ++ y)).drop 2, ∀ v, ¬TokenForm token ("foreign", v))
    (ht : AsksForKey t) :
    columnsOfPiece (x ++ y) = [.field (field (x ++ y))]
      ∧ columnsOfPiece (x ++ (t ++ y))
        = [.field (field (x ++ y)), .field (foreignKey (field (x ++ y)).name)] := by
  obtain ⟨hx, gap, rest, rfl, hgap, hrest⟩ := hplace
  obtain ⟨token, rfl, htoken, htrimmed, value, hform⟩ := ht.exists_token
  -- blanks before the next colon go to the end of a segment
  have hcolon : ∀ x : List Char, AtColon x rest := fun x => Or.inr hrest
  rw [segments_insert_blanks hgap (hcolon x)] at hforeign
  rw [field_insert_blanks hgap (hcolon x)] at hmarker ⊢
  obtain ⟨hwithout, hwith⟩ := expand_field_insert hx hrest htoken htrimmed hform hmarker hforeign
  rw [columnsOfPiece_insert_blanks hgap (hcolon x), ← List.append_assoc,
    columnsOfPiece_insert_blanks hgap (hcolon _), List.append_assoc]
  have hmem : ∀ s : List Char, ':' ∈ x ++ s := fun s => List.mem_append_left s hx
  rw [columnsOfPiece_of_mem_colon (hmem _), columnsOfPiece_of_mem_colon (hmem _)]
  exact ⟨hwithout, hwith⟩

end Shorthand

/-! ## The law -/

/-- **Asking for a foreign key adds the key and nothing else.** Where a field that has a type, is
not the marker and does not ask for a foreign key yet is asked for one, after its type or after
any of its tokens, the schema has the same columns as before and the companion right after the
column of that field. -/
theorem Schema.ofShorthand_insert_foreign (a x t y b : String)
    (hfield : FieldBetween a.toList (x ++ y).toList b.toList)
    (hplace : EndsSegment x.toList y.toList)
    (hmarker : ¬((field (x ++ y).toList).name = "" ∧ (field (x ++ y).toList).type = "timestamps"))
    (hforeign : ∀ token ∈ (segments (x ++ y).toList).drop 2, ∀ value,
      ¬TokenForm token ("foreign", value))
    (ht : AsksForKey t.toList) :
    let column := field (x ++ y).toList
    ∃ companion stem,
      Schema.ofShorthand (a ++ x ++ y ++ b)
          = Schema.ofShorthand a ++ .field column :: Schema.ofShorthand b
        ∧ Schema.ofShorthand (a ++ x ++ t ++ y ++ b)
          = Schema.ofShorthand a ++ .field column :: .field companion :: Schema.ofShorthand b
        ∧ companion.name = column.name ∧ companion.type = "foreign" ∧ companion.arguments = []
        ∧ IsStem stem column.name
        ∧ companion.options.toList
          = [("references", .literal "'id'"),
            ("on", .literal ("'" ++ Inflection.pluralize stem ++ "'"))] := by
  intro column
  have hcolumnText : column = field (x.toList ++ y.toList) := by
    rw [← String.toList_append]
  rw [String.toList_append] at hfield hmarker hforeign
  obtain ⟨hcolumn, hcompanion⟩ := columnsOfPiece_insert_foreign hplace hmarker hforeign ht
  have hwithout : a ++ x ++ y ++ b
      = String.ofList (a.toList ++ ((x.toList ++ y.toList) ++ b.toList)) := by
    rw [← String.toList_inj]
    simp
  have hwith : a ++ x ++ t ++ y ++ b
      = String.ofList (a.toList ++ ((x.toList ++ (t.toList ++ y.toList)) ++ b.toList)) := by
    rw [← String.toList_inj]
    simp
  rw [hwithout, hwith, hfield.ofShorthand, (hfield.insert ht.neutral).ofShorthand, hcolumn,
    hcompanion, String.ofList_toList, String.ofList_toList, ← hcolumnText]
  exact ⟨foreignKey column.name, referencedName column.name, rfl, rfl, rfl, rfl, rfl,
    isStem_referencedName column.name, options_foreignKey column.name⟩

/-- A key that is asked for in a field whose groups are cut by colons: after a token with a comma
in its value, before blanks and a token that asks for a key in vain. -/
theorem Schema.ofShorthand_insert_foreign_nested :
    let a := "x)),"
    let x := " user_id :int(1:b(c, 2))d"
    let t := ":foreign(u,v)"
    let y := "  :foreign(): e "
    let b := ", z:string"
    let column : Field :=
      ⟨"user_id", "int(1", [], Options.ofList [("b", .literal "c, 2"), ("e", .flag)]⟩
    (FieldBetween a.toList (x ++ y).toList b.toList ∧ EndsSegment x.toList y.toList
        ∧ ¬((field (x ++ y).toList).name = "" ∧ (field (x ++ y).toList).type = "timestamps")
        ∧ (∀ token ∈ (segments (x ++ y).toList).drop 2, ∀ value,
          ¬TokenForm token ("foreign", value))
        ∧ AsksForKey t.toList)
      ∧ ∃ companion stem,
        Schema.ofShorthand (a ++ x ++ y ++ b)
            = Schema.ofShorthand a ++ .field column :: Schema.ofShorthand b
          ∧ Schema.ofShorthand (a ++ x ++ t ++ y ++ b)
            = Schema.ofShorthand a ++ .field column :: .field companion :: Schema.ofShorthand b
          ∧ companion.name = column.name ∧ companion.type = "foreign" ∧ companion.arguments = []
          ∧ IsStem stem column.name
          ∧ companion.options.toList
            = [("references", .literal "'id'"),
              ("on", .literal ("'" ++ Inflection.pluralize stem ++ "'"))] := by
  intro a x t y b column
  have hcolumn : field (x ++ y).toList = column := by decide
  have hfield : FieldBetween a.toList (x ++ y).toList b.toList :=
    ⟨Or.inr ⟨"x))".toList, by decide, by decide⟩,
      uncut_iff.mp (show piecesFrom 0 _ = [_] by decide),
      Or.inr ⟨" z:string".toList, by decide, by decide⟩⟩
  have hplace : EndsSegment x.toList y.toList :=
    ⟨by decide, "  ".toList, ":foreign(): e ".toList, by decide, by decide, Or.inr rfl⟩
  have hmarker :
      ¬((field (x ++ y).toList).name = "" ∧ (field (x ++ y).toList).type = "timestamps") := by
    rw [hcolumn]
    decide
  have hforeign : ∀ token ∈ (segments (x ++ y).toList).drop 2, ∀ value,
      ¬TokenForm token ("foreign", value) := by
    have hkeys : ∀ token ∈ (segments (x ++ y).toList).drop 2,
        (option? token).map Prod.fst ≠ some "foreign" := by decide
    intro token htoken value hform
    refine hkeys token htoken ?_
    rw [option?_eq_some_iff.mpr hform]
    rfl
  have ht : AsksForKey t.toList := by
    have hvalued : t.toList = ":foreign".toList ++ '(' :: ("u,v".toList ++ [')']) := by decide
    rw [hvalued]
    exact .valued (by decide) (by simp)
  refine ⟨⟨hfield, hplace, hmarker, hforeign, ht⟩, ?_⟩
  rw [← hcolumn]
  exact Schema.ofShorthand_insert_foreign a x t y b hfield hplace hmarker hforeign ht

end MigrationDraft
