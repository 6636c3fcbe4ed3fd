import MigrationDraft.Proofs.Shorthand.Commas
import MigrationDraft.Proofs.Shorthand.Groups
import MigrationDraft.Proofs.Shorthand.Parts
import MigrationDraft.Proofs.Text.Splitting
import MigrationDraft.Proofs.Text.Trim

set_option autoImplicit false

/-!
# Printing and reading

A schema written in shorthand is read back as the same schema, provided that its columns can be
told apart from their surroundings and their parts from each other (`Field.Printable`): no part
holds a character that separates parts, and no blank stands where reading would trim it away.

The printed form of a column is its segments joined by colons. Each segment is trimmed, has no
colon and is self-contained with respect to commas and parentheses (`IsSegment`), so cutting at
outer commas, trimming and splitting at colons all undo the joining, and what is left is to read
each segment alone.
-/

namespace MigrationDraft

open Shorthand Text

/-! ## Columns that can be read back -/

/-- A text without any of the characters that give the shorthand its structure. -/
def Plain (s : String) : Prop := ∀ c ∈ [':', ',', '(', ')'], c ∉ s.toList

instance (s : String) : Decidable (Plain s) :=
  List.decidableBAll _ _

/-- A modifier that is read back from its printed form. The value may have commas and blanks. -/
def PrintableOption : String × OptionValue → Prop
  | (key, .flag) => key ≠ "" ∧ Trimmed key.toList ∧ Plain key
  | (key, .literal value) =>
      (key ≠ "" ∧ ∀ c ∈ key.toList, c.isAlpha = true)
        ∧ value ≠ "" ∧ ∀ c ∈ [':', '(', ')'], c ∉ value.toList

instance : DecidablePred PrintableOption
  | (key, .flag) => inferInstanceAs (Decidable (key ≠ "" ∧ Trimmed key.toList ∧ Plain key))
  | (key, .literal value) =>
      have : Decidable (∀ c ∈ key.toList, c.isAlpha = true) := List.decidableBAll _ _
      have : Decidable (∀ c ∈ [':', '(', ')'], c ∉ value.toList) := List.decidableBAll _ _
      inferInstanceAs (Decidable (_ ∧ _))

namespace Shorthand

/-- A text that stays in one piece when a schema is cut into columns and a column into segments,
and that is not trimmed any further. -/
structure IsSegment (s : List Char) : Prop where
  trimmed : Trimmed s
  no_colon : ':' ∉ s
  selfContained : SelfContained s

def typeSegment (type : String) (args : List String) : List Char :=
  type.toList ++ (argumentShorthand args).toList

/-- A type and arguments that are read back from their printed form. -/
structure TypeReadsBack (type : String) (args : List String) : Prop where
  segment : IsSegment (typeSegment type args)
  read : typeOf (typeSegment type args) = (type, args)

end Shorthand

/-- A column whose parts are told apart when its printed form is read. -/
structure Field.Legible (f : Field) : Prop where
  name : IsSegment f.name.toList
  type : TypeReadsBack f.type f.arguments
  options : ∀ e ∈ f.options.toList, PrintableOption e

/-- A legible column that reading takes for neither the marker nor a foreign key. -/
structure Field.Printable (f : Field) : Prop extends f.Legible where
  not_marker : ¬(f.name = "" ∧ f.type = "timestamps")
  not_foreign : "foreign" ∉ f.options.keys

/-- The marker, or a column that is read back from its printed form. -/
def Column.Printable : Column → Prop
  | .timestamps => True
  | .field f => f.Printable

namespace Shorthand

/-! ## Segments -/

theorem isSegment_of_plain {s : String} (hp : Plain s) (ht : Trimmed s.toList) :
    IsSegment s.toList :=
  ⟨ht, hp ':' (by simp), selfContained_of_not_mem (hp ',' (by simp)) (hp '(' (by simp))
    (hp ')' (by simp))⟩

/-- A plain head with a group after it. Only the front of the head needs to be free of blanks. -/
theorem isSegment_group {head inner : List Char} (hstart : ∀ c ∈ head.head?, isBlank c = false)
    (hhead : ∀ c ∈ [':', ',', '(', ')'], c ∉ head) (hinner : ∀ c ∈ [':', '(', ')'], c ∉ inner) :
    IsSegment (head ++ '(' :: (inner ++ [')'])) := by
  refine ⟨⟨?_, ?_⟩, ?_, ?_⟩
  · cases head with
    | nil =>
        intro c hc
        rw [List.nil_append, List.head?_cons, Option.mem_some_iff] at hc
        exact hc ▸ rfl
    | cons c head => simpa using hstart
  · have hlast : (head ++ '(' :: (inner ++ [')'])).getLast? = some ')' := by
      rw [← List.cons_append, ← List.append_assoc, List.getLast?_concat]
    intro c hc
    rw [hlast, Option.mem_some_iff] at hc
    exact hc ▸ rfl
  · have h₁ := hhead ':' (by simp)
    have h₂ := hinner ':' (by simp)
    simp [h₁, h₂]
  · exact (selfContained_of_not_mem (hhead ',' (by simp)) (hhead '(' (by simp))
      (hhead ')' (by simp))).append (selfContained_group (hinner '(' (by simp))
      (hinner ')' (by simp)))

theorem selfContained_intercalate {ls : List (List Char)} (h : ∀ l ∈ ls, SelfContained l) :
    SelfContained ([':'].intercalate ls) := by
  induction ls with
  | nil => exact selfContained_of_not_mem (by simp) (by simp) (by simp)
  | cons l ls ih =>
      have hl : SelfContained l := h l List.mem_cons_self
      have hls := ih fun m hm => h m (List.mem_cons_of_mem _ hm)
      cases ls with
      | nil =>
          rw [List.intercalate_singleton]
          exact hl
      | cons m ls =>
          rw [List.intercalate_cons_cons]
          have hcolon : SelfContained [':'] :=
            selfContained_of_not_mem (by simp) (by simp) (by simp)
          exact (hl.append hcolon).append hls

/-! ## The segments of a printed column -/

def optionToken : String × OptionValue → List Char
  | (key, .flag) => key.toList
  | (key, .literal text) => key.toList ++ '(' :: (text.toList ++ [')'])

def printedSegments (f : Field) : List (List Char) :=
  f.name.toList :: typeSegment f.type f.arguments :: f.options.toList.map optionToken

theorem toList_optionShorthand (e : String × OptionValue) :
    (optionShorthand e).toList = ':' :: optionToken e := by
  obtain ⟨key, value⟩ := e
  cases value with
  | flag => simp [optionShorthand, optionToken]
  | literal text => simp [optionShorthand, optionToken]

/-- A printed column is its segments with colons between them. -/
theorem toList_shorthand (f : Field) :
    (Column.field f).shorthand.toList = [':'].intercalate (printedSegments f) := by
  have hoptions : (String.join (f.options.toList.map optionShorthand)).toList
      = (f.options.toList.map optionToken).flatMap ([':'] ++ ·) := by
    rw [String.toList_join, List.flatMap_map, List.flatMap_map]
    simp only [toList_optionShorthand, List.singleton_append]
  rw [printedSegments, intercalate_cons_eq_append_flatMap, List.flatMap_cons, ← hoptions]
  simp [Column.shorthand, typeSegment]

theorem toList_argumentShorthand {args : List String} (h : args ≠ []) :
    (argumentShorthand args).toList
      = '(' :: ([','].intercalate (args.map String.toList) ++ [')']) := by
  cases args with
  | nil => exact absurd rfl h
  | cons a args => simp [argumentShorthand, String.toList_intercalate]

/-! ## Reading a segment -/

theorem isSegment_optionToken {e : String × OptionValue} (h : PrintableOption e) :
    IsSegment (optionToken e) := by
  obtain ⟨key, value⟩ := e
  cases value with
  | flag => exact isSegment_of_plain h.2.2 h.2.1
  | literal text =>
      obtain ⟨⟨_, hkey⟩, _, htext⟩ := h
      refine isSegment_group (fun c hc => ?_) (fun c hc hmem => ?_) htext
      · exact isBlank_of_isAlpha (hkey c (List.mem_of_mem_head? hc))
      · have hc' : c.isAlpha = true := hkey c hmem
        simp only [List.mem_cons, List.not_mem_nil, or_false] at hc
        rcases hc with rfl | rfl | rfl | rfl <;> exact absurd hc' (by decide)

theorem option?_optionToken {e : String × OptionValue} (h : PrintableOption e) :
    option? (optionToken e) = some e := by
  obtain ⟨key, value⟩ := e
  rw [option?_eq_some_iff]
  cases value with
  | flag =>
      obtain ⟨hne, _, hplain⟩ := h
      have hform : TokenForm key.toList (String.ofList key.toList, .flag) :=
        .bare (by simpa using hne) (hplain '(' (by simp))
      rwa [String.ofList_toList] at hform
  | literal text =>
      obtain ⟨⟨hne, hletters⟩, htext, hmem⟩ := h
      have hform : TokenForm (key.toList ++ '(' :: (text.toList ++ [')']))
          (String.ofList key.toList, .literal (String.ofList text.toList)) :=
        .valued (by simpa using hne) hletters (by simpa using htext) (hmem ')' (by simp))
      rwa [String.ofList_toList, String.ofList_toList] at hform

/-- A type without a group is all there is to its segment. -/
theorem typeReadsBack_of_typeGroup?_eq_none {s : List Char} (hs : IsSegment s)
    (hgroup : typeGroup? s = none) : TypeReadsBack (String.ofList s) [] := by
  have hsegment : typeSegment (String.ofList s) [] = s := by
    simp [typeSegment, argumentShorthand]
  constructor
  · rw [hsegment]
    exact hs
  · rw [hsegment, typeOf, hgroup]

section

variable {args : List String} (hargs : ∀ a ∈ args, Trimmed a.toList ∧ Plain a)

include hargs

/-- Joined arguments hold no character of the structure but the commas between them. -/
theorem not_mem_joined_arguments :
    ∀ c ∈ [':', '(', ')'], c ∉ [','].intercalate (args.map String.toList) := by
  intro c hc hmem
  rcases mem_of_mem_intercalate hmem with hcomma | ⟨l, hl, hcl⟩
  · rw [List.mem_singleton.mp hcomma] at hc
    exact absurd hc (by decide)
  · obtain ⟨a, ha, rfl⟩ := List.mem_map.mp hl
    have hsub : [':', '(', ')'] ⊆ [':', ',', '(', ')'] := by decide
    exact (hargs a ha).2 c (hsub hc) hcl

/-- Joined arguments split at their commas and trimmed are the arguments. -/
theorem map_trim_splitOn_arguments (hne : args ≠ []) :
    (([','].intercalate (args.map String.toList)).splitOn ',').map
      (fun a => String.ofList (trim a)) = args := by
  have hsplit : ([','].intercalate (args.map String.toList)).splitOn ','
      = args.map String.toList := by
    refine List.splitOn_intercalate ',' (fun l hl => ?_) (by simpa using hne)
    obtain ⟨a, ha, rfl⟩ := List.mem_map.mp hl
    exact (hargs a ha).2 ',' (by simp)
  have htrim : ∀ a ∈ args, String.ofList (trim a.toList) = id a := by
    intro a ha
    rw [trim_eq_self (hargs a ha).1, String.ofList_toList, id]
  rw [hsplit, List.map_map]
  exact (List.map_congr_left htrim).trans (List.map_id _)

/-- A plain type with arguments. It may end in blanks, which the arguments protect. -/
theorem typeReadsBack_call {type : String} (hstart : ∀ c ∈ type.toList.head?, isBlank c = false)
    (hplain : Plain type) (hne : args ≠ []) (hone : args ≠ [""]) : TypeReadsBack type args := by
  constructor
  · rw [typeSegment, toList_argumentShorthand hne]
    exact isSegment_group hstart hplain (not_mem_joined_arguments hargs)
  · have hparts : args.map String.toList ≠ [[]] := by
      intro hparts
      obtain ⟨a, ha, hnil⟩ := List.map_eq_singleton_iff.mp hparts
      exact hone (by rw [ha, String.toList_eq_nil_iff.mp hnil])
    have hgroup := typeGroup?_eq_some_iff.mpr
      ⟨hplain '(' (by simp), intercalate_singleton_ne_nil (by simpa using hne) hparts,
        not_mem_joined_arguments hargs ')' (by simp), [], rfl⟩
    rw [typeOf, typeSegment, toList_argumentShorthand hne, hgroup]
    simp only [map_trim_splitOn_arguments hargs hne, String.ofList_toList]

end

/-! ## Reading a column -/

theorem isSegment_of_mem_printedSegments {f : Field} (h : f.Legible) :
    ∀ s ∈ printedSegments f, IsSegment s := by
  intro s hs
  unfold printedSegments at hs
  rw [List.mem_cons, List.mem_cons] at hs
  rcases hs with rfl | rfl | hs
  · exact h.name
  · exact h.type.segment
  · obtain ⟨e, he, rfl⟩ := List.mem_map.mp hs
    exact isSegment_optionToken (h.options e he)

theorem filterMap_optionToken {es : List (String × OptionValue)}
    (h : ∀ e ∈ es, PrintableOption e) :
    (es.map optionToken).filterMap (fun t => option? (trim t)) = es := by
  induction es with
  | nil => rfl
  | cons e es ih =>
      have he : PrintableOption e := h e List.mem_cons_self
      have hread : option? (trim (optionToken e)) = some e := by
        rw [trim_eq_self (isSegment_optionToken he).trimmed, option?_optionToken he]
      rw [List.map_cons, List.filterMap_cons, hread, ih fun d hd => h d (List.mem_cons_of_mem _ hd)]

/-- Each segment of a printed column gives back its part of the column. -/
theorem fieldOfSegments_printedSegments {f : Field} (h : f.Legible) :
    fieldOfSegments (printedSegments f) = f := by
  have hoptions : optionsOf (f.options.toList.map optionToken) = f.options := by
    rw [optionsOf, filterMap_optionToken h.options, Options.ofList_toList]
  rw [printedSegments, fieldOfSegments, trim_eq_self h.type.segment.trimmed, h.type.read,
    trim_eq_self h.name.trimmed, hoptions, String.ofList_toList]

/-- A printed column is a piece of its own. -/
theorem selfContained_shorthand {c : Column} (h : c.Printable) :
    SelfContained c.shorthand.toList := by
  cases c with
  | timestamps => exact selfContained_of_not_mem (by decide) (by decide) (by decide)
  | field f =>
      rw [toList_shorthand]
      exact selfContained_intercalate fun s hs =>
        (isSegment_of_mem_printedSegments h.toLegible s hs).selfContained

/-- A printed column, with blanks around it or not, is read as that column alone. -/
theorem columnsOfPiece_shorthand {c : Column} (h : c.Printable) {piece : List Char}
    (hpiece : trim piece = trim c.shorthand.toList) : columnsOfPiece piece = [c] := by
  cases c with
  | timestamps =>
      have htrim : trim piece = ":timestamps".toList := hpiece
      rw [columnsOfPiece_of_trim_ne_nil (by simp [htrim]), htrim]
      rfl
  | field f =>
      have hsegments := isSegment_of_mem_printedSegments h.toLegible
      have htrim : trim piece = [':'].intercalate (printedSegments f) := by
        rw [hpiece, toList_shorthand]
        exact trim_eq_self (trimmed_intercalate rfl fun s hs => (hsegments s hs).trimmed)
      have hne : trim piece ≠ [] := by
        rw [htrim]
        exact intercalate_singleton_ne_nil (by simp [printedSegments])
          (by simp [printedSegments])
      have hfield : field (trim piece) = f := by
        rw [htrim, field, List.splitOn_intercalate ':' (fun s hs => (hsegments s hs).no_colon)
          (by simp [printedSegments]), fieldOfSegments_printedSegments h.toLegible]
      rw [columnsOfPiece_of_trim_ne_nil hne, hfield,
        expand_of_not_foreign h.not_marker h.not_foreign]

/-- The text of a schema with a blank in front of it is read like the text itself. -/
theorem flatMap_pieces_space_cons (s : List Char) :
    (pieces (' ' :: s)).flatMap columnsOfPiece = (pieces s).flatMap columnsOfPiece := by
  rw [pieces_space_cons]
  cases h : pieces s with
  | nil => exact absurd h (piecesFrom_ne_nil 0 s)
  | cons p ps =>
      have htrim : trim (' ' :: p) = trim p :=
        trim_blanks_append (b := [' ']) (by simp [Blanks]; decide) p
      have hcolumns : columnsOfPiece (' ' :: p) = columnsOfPiece p := by
        rw [columnsOfPiece, htrim, ← columnsOfPiece]
      rw [List.modifyHead_cons, List.flatMap_cons, List.flatMap_cons, hcolumns]

end Shorthand

/-- The characters of a schema in shorthand. -/
theorem Schema.toList_shorthand (columns : Schema) :
    columns.shorthand.toList
      = [',', ' '].intercalate (columns.map fun c => c.shorthand.toList) := by
  simp [Schema.shorthand, String.toList_intercalate, Function.comp_def]

/-- A schema of printable columns is read back from its printed form. -/
theorem Schema.ofShorthand_shorthand_of_printable {columns : Schema}
    (h : ∀ c ∈ columns, c.Printable) : Schema.ofShorthand columns.shorthand = columns := by
  unfold Schema.ofShorthand
  rw [Schema.toList_shorthand]
  induction columns with
  | nil => rfl
  | cons c columns ih =>
      have hc : c.Printable := h c List.mem_cons_self
      have hself := selfContained_shorthand hc
      have hcolumns := ih fun d hd => h d (List.mem_cons_of_mem _ hd)
      have hread : columnsOfPiece c.shorthand.toList = [c] := columnsOfPiece_shorthand hc rfl
      cases columns with
      | nil =>
          rw [List.map_cons, List.map_nil, List.intercalate_singleton]
          show (piecesFrom 0 c.shorthand.toList).flatMap columnsOfPiece = [c]
          rw [hself.uncut, List.flatMap_cons, hread]
          rfl
      | cons d columns =>
          rw [List.map_cons] at hcolumns ⊢
          rw [List.map_cons, List.intercalate_cons_cons, List.append_assoc]
          -- the printed column closes what it opens, so the comma after it is an outer one
          generalize [',', ' '].intercalate _ = rest at hcolumns ⊢
          show (pieces (c.shorthand.toList ++ ',' :: ' ' :: rest)).flatMap columnsOfPiece = _
          rw [hself.pieces_append_comma, List.flatMap_cons, hread, flatMap_pieces_space_cons,
            hcolumns]
          rfl

/-! ## The law -/

/-- A column as a careful user writes it: every part is trimmed and without the characters of
the structure, only a value may have commas. -/
structure Field.Tidy (f : Field) : Prop where
  name : Trimmed f.name.toList ∧ Plain f.name
  type : Trimmed f.type.toList ∧ Plain f.type
  not_marker : ¬(f.name = "" ∧ f.type = "timestamps")
  arguments_ne : f.arguments ≠ [""]
  arguments : ∀ a ∈ f.arguments, Trimmed a.toList ∧ Plain a
  not_foreign : "foreign" ∉ f.options.keys
  options : ∀ e ∈ f.options.toList, PrintableOption e

theorem Field.Tidy.printable {f : Field} (h : f.Tidy) : f.Printable := by
  have htype : TypeReadsBack f.type f.arguments := by
    by_cases hargs : f.arguments = []
    · have hnone := typeGroup?_eq_none (h.type.2 '(' (by simp))
      have hread :=
        typeReadsBack_of_typeGroup?_eq_none (isSegment_of_plain h.type.2 h.type.1) hnone
      rwa [String.ofList_toList, ← hargs] at hread
    · exact typeReadsBack_call h.arguments h.type.1.1 h.type.2 hargs h.arguments_ne
  exact
    { name := isSegment_of_plain h.name.2 h.name.1
      type := htype
      options := h.options
      not_marker := h.not_marker
      not_foreign := h.not_foreign }

/-- **Printing and reading a schema gives it back**, with its columns, arguments and modifiers
in their order and its markers in their places. -/
theorem Schema.ofShorthand_shorthand (columns : Schema)
    (h : ∀ f, Column.field f ∈ columns → f.Tidy) :
    Schema.ofShorthand columns.shorthand = columns := by
  refine Schema.ofShorthand_shorthand_of_printable fun c hc => ?_
  cases c with
  | timestamps => trivial
  | field f => exact (h f hc).printable

/-- A schema with a marker between a column that has neither name nor type but two empty
arguments and one whose modifiers have blanks and commas in their values. -/
theorem Schema.ofShorthand_shorthand_sample :
    let odd : Field := ⟨"", "", ["", ""], Options.empty⟩
    let full : Field := ⟨"amount", "decimal", ["5", "2"],
      Options.ofList [("default", .literal " 1, 2 "), ("äö ü", .flag), ("check", .literal ",")]⟩
    let columns : Schema := [.field odd, .timestamps, .field full]
    (∀ f, Column.field f ∈ columns → f.Tidy) ∧ Schema.ofShorthand columns.shorthand = columns := by
  intro odd full columns
  have htidy : ∀ f, Column.field f ∈ columns → f.Tidy := by
    intro f hf
    have hf' : f = odd ∨ f = full := by simpa [columns] using hf
    rcases hf' with rfl | rfl
    · exact ⟨by decide, by decide, by decide, by decide, by decide, by decide, by decide⟩
    · exact ⟨by decide, by decide, by decide, by decide, by decide, by decide, by decide⟩
  exact ⟨htidy, Schema.ofShorthand_shorthand columns htidy⟩

end MigrationDraft
