import MigrationDraft.Proofs.Options.Entries
import MigrationDraft.Shorthand

set_option autoImplicit false

/-!
# The parts of a text

Reading takes a text apart into fields, and a field into its name, its type and its tokens. The
entries of the schema are what these fields stand for (`mem_ofShorthand_iff`): the marker, the
column as it is written but for the modifier `foreign`, or the companion of that column
(`field_of_mem_expand`). What is proved of the parts here is all that the properties of a schema
that is read have to know of how it is read.
-/

namespace MigrationDraft

open Shorthand Text

namespace Shorthand

/-! ## Fields -/

/-- The fields of a text: what stands between its outer commas, trimmed and not blank. -/
def fields (s : List Char) : List (List Char) := ((pieces s).map trim).filter (· ≠ [])

theorem exists_piece_of_mem_fields {s f : List Char} (h : f ∈ fields s) :
    ∃ p ∈ pieces s, trim p = f :=
  List.mem_map.mp (List.mem_filter.mp h).1

theorem columnsOfPiece_of_trim_ne_nil {piece : List Char} (h : trim piece ≠ []) :
    columnsOfPiece piece = expand (field (trim piece)) := by
  unfold columnsOfPiece
  split
  · next hnil => exact absurd hnil h
  · next hcons => rw [hcons]

/-- A schema is what its text's fields stand for. -/
theorem flatMap_columnsOfPiece_pieces (s : List Char) :
    (pieces s).flatMap columnsOfPiece = (fields s).flatMap fun f => expand (field f) := by
  unfold fields
  induction pieces s with
  | nil => rfl
  | cons p ps ih =>
      rw [List.flatMap_cons, List.map_cons, ih]
      by_cases hp : trim p = []
      · simp [hp, columnsOfPiece]
      · rw [List.filter_cons_of_pos (by simpa using hp), List.flatMap_cons,
          columnsOfPiece_of_trim_ne_nil hp]

/-- An entry of a schema is one of those that a field of the text stands for. -/
theorem mem_ofShorthand_iff {text : String} {c : Column} :
    c ∈ Schema.ofShorthand text ↔ ∃ f ∈ fields text.toList, c ∈ expand (field f) := by
  rw [Schema.ofShorthand, flatMap_columnsOfPiece_pieces, List.mem_flatMap]

/-! ## The parts of a field -/

/-- The part of a field before its first colon. -/
def nameOf (f : List Char) : List Char := (f.splitOn ':').headD []

/-- The part of a field between its first two colons. -/
def typePartOf (f : List Char) : List Char := trim (((f.splitOn ':').drop 1).headD [])

/-- A column is read from the parts of its text, a missing part counts as empty. -/
theorem field_eq (f : List Char) :
    field f = ⟨String.ofList (trim (nameOf f)), (typeOf (typePartOf f)).1,
      (typeOf (typePartOf f)).2, optionsOf ((f.splitOn ':').drop 2)⟩ := by
  unfold field nameOf typePartOf
  cases hsplit : f.splitOn ':' with
  | nil => exact absurd hsplit (List.splitOn_ne_nil ':' f)
  | cons name segments =>
      cases segments with
      | nil => rfl
      | cons type tokens => rfl

/-- The name that is read from a field is what stands before its first colon. -/
@[simp] theorem name_field (f : List Char) : (field f).name = String.ofList (trim (nameOf f)) := by
  rw [field_eq]

/-- What holds of the empty text and of the trimmed segments of a field holds of its parts. -/
theorem forall_parts {P : List Char → Prop} {f : List Char} (hnil : P [])
    (h : ∀ s ∈ f.splitOn ':', P (trim s)) :
    P (trim (nameOf f)) ∧ P (typePartOf f) ∧ ∀ t ∈ (f.splitOn ':').drop 2, P (trim t) := by
  unfold nameOf typePartOf
  match hsplit : f.splitOn ':' with
  | [] => exact absurd hsplit (List.splitOn_ne_nil ':' f)
  | [name] =>
      rw [hsplit] at h
      exact ⟨h name (by simp), hnil, by simp⟩
  | name :: type :: tokens =>
      rw [hsplit] at h
      exact ⟨h name (by simp), h type (by simp),
        fun t ht => h t (by simp [List.mem_of_mem_drop ht])⟩

/-- Every modifier of a column is read from one of its tokens. -/
theorem exists_token_of_mem_optionsOf {tokens : List (List Char)} {e : String × OptionValue}
    (h : e ∈ (optionsOf tokens).toList) : ∃ t ∈ tokens, option? (trim t) = some e :=
  List.mem_filterMap.mp (Options.mem_of_mem_ofList h)

end Shorthand

/-! ## What a field stands for -/

/-- The column without its modifier `foreign`. -/
def Field.withoutForeign (f : Field) : Field := { f with options := f.options.erase "foreign" }

@[simp] theorem Field.name_withoutForeign (f : Field) : f.withoutForeign.name = f.name := rfl

namespace Shorthand

theorem expand_of_marker {f : Field} (h : f.name = "" ∧ f.type = "timestamps") :
    expand f = [.timestamps] :=
  if_pos h

section

variable {f : Field} (hmarker : ¬(f.name = "" ∧ f.type = "timestamps"))

include hmarker

theorem expand_of_not_foreign (h : "foreign" ∉ f.options.keys) : expand f = [.field f] := by
  have hcontains : ¬f.options.contains "foreign" = true := mt Options.contains_iff.mp h
  rw [expand, if_neg hmarker, if_neg hcontains]

theorem expand_of_foreign (h : "foreign" ∈ f.options.keys) :
    expand f = [.field f.withoutForeign, .field (foreignKey f.name)] := by
  rw [expand, if_neg hmarker, if_pos (Options.contains_iff.mpr h)]
  rfl

end

/-- A field that stands for a column is not the marker, and the column is the one that is written
or its companion. -/
theorem field_of_mem_expand {f g : Field} (h : .field g ∈ expand f) :
    ¬(f.name = "" ∧ f.type = "timestamps") ∧ (g = f.withoutForeign ∨ g = foreignKey f.name) := by
  have hmarker : ¬(f.name = "" ∧ f.type = "timestamps") := by
    intro hmarker
    rw [expand_of_marker hmarker] at h
    simp at h
  refine ⟨hmarker, ?_⟩
  by_cases hforeign : "foreign" ∈ f.options.keys
  · rw [expand_of_foreign hmarker hforeign] at h
    simpa using h
  · rw [expand_of_not_foreign hmarker hforeign, List.mem_singleton] at h
    cases h
    rw [Field.withoutForeign, Options.erase_of_not_mem hforeign]
    exact Or.inl rfl

end Shorthand

end MigrationDraft
