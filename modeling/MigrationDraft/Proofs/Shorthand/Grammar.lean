import MigrationDraft.Proofs.Shorthand.Groups
import MigrationDraft.Proofs.Shorthand.Segments

set_option autoImplicit false

/-!
# The grammar of a field

What a field says, told without reading it. Its trimmed segments are a name, a type and tokens.
A type may be a call, which has arguments in its group (`TypeForm`). A token is a modifier with
a value in its group, a bare modifier, or nothing that is known (`TokenForm`). The modifiers of a
column have their keys in the order in which they first come up, and the last token of a key
decides its value (`Gathers`).

The grammar gives every text one column, and reading finds it (`field_eq_iff_readsAs`).
-/

namespace MigrationDraft.Shorthand

open Text

/-! ## The grammar -/

/-- The modifiers that tokens stand for, one after the other. -/
inductive Accepted : List (List Char) → List (String × OptionValue) → Prop
  | nil : Accepted [] []
  | accept {token : List Char} {tokens : List (List Char)} {e : String × OptionValue}
      {es : List (String × OptionValue)} (h : TokenForm token e) (hs : Accepted tokens es) :
      Accepted (token :: tokens) (e :: es)
  | ignore {token : List Char} {tokens : List (List Char)} {es : List (String × OptionValue)}
      (h : ∀ e, ¬TokenForm token e) (hs : Accepted tokens es) : Accepted (token :: tokens) es

/-- The map has the keys of the accepted tokens in the order in which they first come up, each
with its last value. -/
def Gathers (tokens : List (List Char)) (o : Options) : Prop :=
  ∃ es, Accepted tokens es ∧ o.keys = (es.map Prod.fst).eraseDups
    ∧ ∀ key, o.get? key = es.reverse.lookup key

/-- The column that a text stands for. A segment that is missing is empty. -/
structure ReadsAs (text : List Char) (f : Field) : Prop where
  name : f.name = String.ofList ((segments text).getD 0 [])
  type : TypeForm ((segments text).getD 1 []) f.type f.arguments
  options : Gathers ((segments text).drop 2) f.options

/-! ## Reading tokens -/

theorem accepted_iff {tokens : List (List Char)} {es : List (String × OptionValue)} :
    Accepted tokens es ↔ es = tokens.filterMap option? := by
  constructor
  · intro h
    induction h with
    | nil => rfl
    | accept h hs ih => rw [List.filterMap_cons, option?_eq_some_iff.mpr h, ih]
    | ignore h hs ih => rw [List.filterMap_cons, option?_eq_none_iff.mpr h, ih]
  · rintro rfl
    induction tokens with
    | nil => exact .nil
    | cons token tokens ih =>
        cases htoken : option? token with
        | none =>
            rw [List.filterMap_cons, htoken]
            exact .ignore (option?_eq_none_iff.mp htoken) ih
        | some e =>
            rw [List.filterMap_cons, htoken]
            exact .accept (option?_eq_some_iff.mp htoken) ih

theorem optionsOf_eq (tokens : List (List Char)) :
    optionsOf tokens = Options.ofList ((tokens.map trim).filterMap option?) := by
  rw [optionsOf, List.filterMap_map]
  rfl

/-- Trimmed tokens are gathered into one map. -/
theorem optionsOf_eq_iff {tokens : List (List Char)} {o : Options} :
    optionsOf tokens = o ↔ Gathers (tokens.map trim) o := by
  rw [optionsOf_eq]
  constructor
  · rintro rfl
    exact ⟨_, accepted_iff.mpr rfl, Options.keys_ofList _, Options.get?_ofList _⟩
  · rintro ⟨es, hes, hkeys, hget⟩
    rw [← accepted_iff.mp hes]
    refine Options.ext_get? ?_ fun key => ?_
    · rw [Options.keys_ofList, hkeys]
    · rw [Options.get?_ofList, hget]

/-! ## Reading a field -/

/-- The parts of a field are its trimmed segments. -/
theorem parts_eq_segments (text : List Char) :
    trim (nameOf text) = (segments text).getD 0 [] ∧ typePartOf text = (segments text).getD 1 []
      ∧ ((text.splitOn ':').drop 2).map trim = (segments text).drop 2 := by
  unfold nameOf typePartOf segments
  match hsplit : text.splitOn ':' with
  | [] => exact absurd hsplit (List.splitOn_ne_nil ':' text)
  | [name] => exact ⟨rfl, rfl, rfl⟩
  | name :: type :: tokens => exact ⟨rfl, rfl, rfl⟩

/-- A field is what its text stands for. -/
theorem field_eq_iff {text : List Char} {f : Field} : field text = f ↔ ReadsAs text f := by
  obtain ⟨hname, htype, htokens⟩ := parts_eq_segments text
  rw [field_eq, hname, htype]
  constructor
  · rintro rfl
    exact ⟨rfl, typeOf_eq_iff.mp rfl, htokens ▸ optionsOf_eq_iff.mp rfl⟩
  · rintro ⟨hname, htype, hoptions⟩
    rw [typeOf_eq_iff.mpr htype, optionsOf_eq_iff.mpr (htokens ▸ hoptions), ← hname]

/-! ## The marker -/

theorem timestamps_mem_expand_iff {f : Field} :
    .timestamps ∈ expand f ↔ f.name = "" ∧ f.type = "timestamps" := by
  by_cases hmarker : f.name = "" ∧ f.type = "timestamps"
  · rw [expand_of_marker hmarker]
    exact iff_of_true List.mem_cons_self hmarker
  · refine iff_of_false ?_ hmarker
    by_cases hforeign : "foreign" ∈ f.options.keys
    · simp [expand_of_foreign hmarker hforeign]
    · simp [expand_of_not_foreign hmarker hforeign]

/-- The marker stands for itself alone. -/
theorem expand_eq_timestamps_iff {f : Field} :
    expand f = [.timestamps] ↔ f.name = "" ∧ f.type = "timestamps" := by
  refine ⟨fun h => ?_, expand_of_marker⟩
  rw [← timestamps_mem_expand_iff, h]
  exact List.mem_cons_self

/-- A blank text has the empty type, so it is no marker. -/
theorem type_field_of_blanks {text : List Char} (h : Blanks text) : (field text).type = "" := by
  rw [← field_trim, trim_blanks h]
  rfl

/-! ## The law -/

/-- **A field is read by its grammar.** Every text stands for exactly one column, and that is
what is read from it. It gives the marker exactly when the column has no name and the type
`timestamps`, and then it gives nothing else. -/
theorem field_eq_iff_readsAs (text : List Char) :
    (∀ f, field text = f ↔ ReadsAs text f)
      ∧ (.timestamps ∈ columnsOfPiece text
          ↔ ∃ f, ReadsAs text f ∧ f.name = "" ∧ f.type = "timestamps")
      ∧ (columnsOfPiece text = [.timestamps]
          ↔ ∃ f, ReadsAs text f ∧ f.name = "" ∧ f.type = "timestamps") := by
  have hread : (∃ f, ReadsAs text f ∧ f.name = "" ∧ f.type = "timestamps")
      ↔ (field text).name = "" ∧ (field text).type = "timestamps" := by
    constructor
    · rintro ⟨f, hf, hmarker⟩
      rwa [field_eq_iff.mpr hf]
    · exact fun hmarker => ⟨_, field_eq_iff.mp rfl, hmarker⟩
  refine ⟨fun f => field_eq_iff, ?_⟩
  rw [hread]
  by_cases hblank : Blanks text
  · have htype : ¬((field text).name = "" ∧ (field text).type = "timestamps") := by
      rw [type_field_of_blanks hblank]
      exact fun hmarker => absurd hmarker.2 (by decide)
    rw [columnsOfPiece_of_blanks hblank]
    exact ⟨iff_of_false (by simp) htype, iff_of_false (by simp) htype⟩
  · rw [columnsOfPiece_of_not_blanks hblank]
    exact ⟨timestamps_mem_expand_iff, expand_eq_timestamps_iff⟩

/-- A call with text after its group, a value that is overwritten by a bare modifier in its
place, and two tokens that fit no form. -/
example :
    field " total : decimal( 5 ,2)x: check(1)y :default():nullable:2(3):check".toList
      = ⟨"total", "decimal", ["5", "2"], Options.ofList [("check", .flag), ("nullable", .flag)]⟩ := by
  decide

end MigrationDraft.Shorthand
