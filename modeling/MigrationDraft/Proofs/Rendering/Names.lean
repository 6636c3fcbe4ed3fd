import MigrationDraft.Proofs.Rendering.MigrationFile
import MigrationDraft.Proofs.Shorthand.Parts

set_option autoImplicit false

/-!
# Columns without a name

A column gets its name from what stands before the first colon of a field. Nothing keeps that
from being blank, and only the marker is meant to be written so. A schema has a column without
a name exactly when one of its text's fields has a blank name and is not the marker
(`Schema.named_ofShorthand_iff`). Where there is none, every statement that adds a column names
it, and no statement removes a column without a name.
-/

namespace MigrationDraft

open Shorthand Text

def Schema.Named (columns : Schema) : Prop := ∀ f, .field f ∈ columns → f.name ≠ ""

/-! ## Names that are read -/

namespace Shorthand

/-- The columns that a field stands for have its name, and there is one unless it is the marker. -/
theorem exists_mem_expand_iff {f : Field} {name : String} :
    (∃ g, .field g ∈ expand f ∧ g.name = name)
      ↔ f.name = name ∧ ¬(f.name = "" ∧ f.type = "timestamps") := by
  by_cases hmarker : f.name = "" ∧ f.type = "timestamps"
  · simp [expand_of_marker hmarker, hmarker]
  · rw [and_iff_left hmarker]
    by_cases hforeign : "foreign" ∈ f.options.keys
    · simp [expand_of_foreign hmarker hforeign]
    · simp [expand_of_not_foreign hmarker hforeign]

theorem name_field_eq_empty_iff (s : List Char) : (field s).name = "" ↔ Blanks (nameOf s) := by
  rw [name_field, ← trim_eq_nil_iff]
  simp

end Shorthand

/-- Reading gives a column without a name exactly for the fields with a blank name that are not
the marker. -/
theorem Schema.named_iff_fields {text : String} :
    (Schema.ofShorthand text).Named
      ↔ ∀ s ∈ fields text.toList, Blanks (nameOf s) → (field s).type = "timestamps" := by
  constructor
  · intro h s hs hblank
    have hname := (name_field_eq_empty_iff s).mpr hblank
    refine Decidable.byContradiction fun htype => ?_
    obtain ⟨g, hg, hempty⟩ := exists_mem_expand_iff.mpr ⟨hname, fun hm => htype hm.2⟩
    exact h g (mem_ofShorthand_iff.mpr ⟨s, hs, hg⟩) hempty
  · intro h f hf hempty
    obtain ⟨s, hs, hf⟩ := mem_ofShorthand_iff.mp hf
    obtain ⟨hname, hmarker⟩ := exists_mem_expand_iff.mp ⟨f, hf, hempty⟩
    exact hmarker ⟨hname, h s hs ((name_field_eq_empty_iff s).mp hname)⟩

/-! ## Names in statements -/

/-- The statement calls the type of the column and puts its quoted name first. -/
def NamesColumn (f : Field) (statement : String) : Prop :=
  ∃ rest, statement = "$table->" ++ f.type ++ "(" ++ quoted f.name ++ rest

/-- The statement that removes a column without a name. -/
def dropUnnamed : String := "$table->dropColumn('');"

/-- The name is the first argument, and the others follow after a comma each. -/
theorem Field.intercalate_callArguments {f : Field} (h : f.name ≠ "") :
    String.intercalate ", " f.callArguments
      = quoted f.name ++ String.intercalate ", " ("" :: f.arguments) := by
  rw [← String.intercalate_cons_append, String.append_empty, callArguments, if_neg h, quoted]

theorem namesColumn_addStatement {f : Field} (h : f.name ≠ "") :
    NamesColumn f (Column.field f).addStatement := by
  refine ⟨String.intercalate ", " ("" :: f.arguments) ++ ")"
    ++ String.join (f.options.toList.map optionCall) ++ ";", ?_⟩
  show "$table->" ++ f.type ++ "(" ++ String.intercalate ", " f.callArguments ++ ")"
    ++ String.join (f.options.toList.map optionCall) ++ ";" = _
  rw [Field.intercalate_callArguments h]
  simp only [String.append_assoc]

/-- A statement that names a column is not the one that removes a column without a name: its
first two quotes have the name between them. -/
theorem ne_dropUnnamed_of_namesColumn {f : Field} (h : f.name ≠ "") {statement : String}
    (hnames : NamesColumn f statement) : statement ≠ dropUnnamed := by
  rintro rfl
  obtain ⟨rest, he⟩ := hnames
  have hlist : "$table->dropColumn(".toList ++ '\'' :: ([] ++ '\'' :: ");".toList)
      = ("$table->".toList ++ (f.type.toList ++ ['(']))
        ++ '\'' :: (f.name.toList ++ '\'' :: rest.toList) := by
    have hchars := congrArg String.toList he
    simpa [dropUnnamed] using hchars
  -- there are two quotes, so none is in the type or in the name
  have hquotes : f.type.toList.count '\'' = 0 ∧ f.name.toList.count '\'' = 0 := by
    have hcount := congrArg (List.count '\'') hlist
    simp only [List.count_append, List.count_cons_self] at hcount
    have hleft : "$table->dropColumn(".toList.count '\'' = 0 ∧ ");".toList.count '\'' = 0 := by
      decide
    rw [hleft.1, hleft.2, List.count_nil] at hcount
    omega
  have hname : '\'' ∉ f.name.toList := List.count_eq_zero.mp hquotes.2
  have hcall : '\'' ∉ "$table->".toList ++ (f.type.toList ++ ['(']) := by
    simpa using List.count_eq_zero.mp hquotes.1
  obtain ⟨_, hafter⟩ := append_cons_inj_of_not_mem (by decide) hcall hlist
  obtain ⟨hempty, _⟩ := append_cons_inj_of_not_mem (by simp) hname hafter
  exact h (String.toList_eq_nil_iff.mp hempty.symm)

theorem ne_dropUnnamed_of_dropStatement {f : Field} (h : f.name ≠ "") :
    (Column.field f).dropStatement ≠ dropUnnamed := by
  intro he
  -- nothing but the name can make the two differ in length
  have hlength : ("$table->dropColumn('" ++ f.name ++ "');").length = dropUnnamed.length :=
    congrArg String.length he
  have hempty : dropUnnamed.length = "$table->dropColumn('".length + "');".length := by decide
  rw [String.length_append, String.length_append, hempty] at hlength
  have hname : f.name.length = 0 := by omega
  exact h (by simpa using hname)

/-- In a schema whose columns have names no statement removes a column without one. -/
theorem Schema.Named.statement_ne_dropUnnamed {columns : Schema} (h : columns.Named) {c : Column}
    (hc : c ∈ columns) (d : Direction) : c.statement d ≠ dropUnnamed := by
  cases c with
  | timestamps => cases d <;> decide
  | field f =>
      have hname : f.name ≠ "" := h f hc
      cases d with
      | add => exact ne_dropUnnamed_of_namesColumn hname (namesColumn_addStatement hname)
      | drop => exact ne_dropUnnamed_of_dropStatement hname

/-- The columns that a new table gets have names as well. -/
theorem Schema.Named.withImplicit {columns : Schema} (h : columns.Named) :
    columns.withImplicit.Named := by
  intro f hf
  rcases List.mem_append.mp hf with hf | hf
  · rcases List.mem_append.mp hf with hf | hf
    · split at hf
      · cases hf
      · cases List.mem_singleton.mp hf
        decide
    · exact h f hf
  · split at hf
    · cases hf
    · cases List.mem_singleton.mp hf

/-- Every statement of a migration is one of a column of the schema or of an implicit one. -/
theorem Body.exists_of_mem_statements {columns : Schema} {action : Action} {up down : Body}
    (h : forAction? columns action = some (up, down)) :
    ∀ s ∈ up.statements ++ down.statements, ∃ c ∈ columns.withImplicit, ∃ d, s = c.statement d := by
  -- a change of a table has no columns but those of the schema
  have hchange : ∀ d, ∀ s ∈ columns.map fun c => c.statement d,
      ∃ c ∈ columns.withImplicit, ∃ d, s = c.statement d := by
    intro d s hs
    obtain ⟨c, hc, rfl⟩ := List.mem_map.mp hs
    exact ⟨c, by simp [Schema.withImplicit, hc], d, rfl⟩
  intro s hs
  cases action with
  | create =>
      cases h
      obtain ⟨c, hc, rfl⟩ : ∃ c ∈ columns.withImplicit, c.statement .add = s := by
        simpa [statements] using hs
      exact ⟨c, hc, .add, rfl⟩
  | add =>
      cases h
      exact (List.mem_append.mp hs).elim (hchange .add s) (hchange .drop s)
  | remove =>
      cases h
      exact (List.mem_append.mp hs).elim (hchange .drop s) (hchange .add s)
  | other verb => cases h

/-- A change of a table removes all of its columns in one of its methods, those without a name
included. -/
theorem Body.dropUnnamed_mem_statements {columns : Schema} (hnamed : ¬columns.Named)
    {action : Action} {up down : Body} (haction : action ≠ .create)
    (h : forAction? columns action = some (up, down)) :
    dropUnnamed ∈ up.statements ++ down.statements := by
  obtain ⟨f, hf⟩ := Classical.not_forall.mp hnamed
  obtain ⟨hf, hname⟩ := Classical.not_imp.mp hf
  have hempty : f.name = "" := Decidable.not_not.mp hname
  have hdrop : dropUnnamed ∈ columns.map fun c => c.statement .drop := by
    refine List.mem_map.mpr ⟨.field f, hf, ?_⟩
    show "$table->dropColumn('" ++ f.name ++ "');" = dropUnnamed
    rw [hempty]
    decide
  cases action with
  | create => exact absurd rfl haction
  | add =>
      cases h
      exact List.mem_append_right _ hdrop
  | remove =>
      cases h
      exact List.mem_append_left _ hdrop
  | other verb => cases h

/-! ## The law -/

/-- **Columns have names unless a field is written without one.** Where they have, no statement
of a migration removes a column without a name, and each that adds a column names it. Where they
have not, a change of a table removes a column without a name. -/
theorem Schema.named_ofShorthand_iff (text : String) :
    let columns := Schema.ofShorthand text
    (columns.Named
        ↔ ∀ s ∈ fields text.toList, Blanks (nameOf s) → (field s).type = "timestamps")
      ∧ (columns.Named → ∀ action up down, Body.forAction? columns action = some (up, down) →
          dropUnnamed ∉ up.statements ++ down.statements
            ∧ ∀ f, .field f ∈ columns.withImplicit → NamesColumn f (Column.field f).addStatement)
      ∧ (¬columns.Named → ∀ action up down, action ≠ .create →
          Body.forAction? columns action = some (up, down) →
            dropUnnamed ∈ up.statements ++ down.statements) := by
  intro columns
  refine ⟨Schema.named_iff_fields, fun hnamed action up down h => ?_,
    fun hnamed action up down haction h => Body.dropUnnamed_mem_statements hnamed haction h⟩
  have himplicit := hnamed.withImplicit
  refine ⟨fun hmem => ?_, fun f hf => namesColumn_addStatement (himplicit f hf)⟩
  obtain ⟨c, hc, d, hs⟩ := Body.exists_of_mem_statements h dropUnnamed hmem
  exact himplicit.statement_ne_dropUnnamed hc d hs.symm

/-- A field with a blank name that is the marker, and so does no harm. -/
theorem Schema.named_ofShorthand_iff_marker :
    let columns := Schema.ofShorthand "user_id:integer:foreign, : timestamps(0):x"
    columns.Named
      ∧ dropUnnamed ∉ (columns.map fun c => c.statement .add)
        ++ columns.map fun c => c.statement .drop := by
  intro columns
  obtain ⟨hiff, hstatements, _⟩ :=
    Schema.named_ofShorthand_iff "user_id:integer:foreign, : timestamps(0):x"
  have hnamed : columns.Named := hiff.mpr (by decide)
  exact ⟨hnamed, (hstatements hnamed .add _ _ rfl).1⟩

/-- A field that starts with its colon and is not the marker: the column has no name, the
statement that adds it does not name it, and the one that removes it removes nothing. -/
theorem Schema.not_named_ofShorthand_type_only :
    let column := Field.plain "" "string"
    Schema.ofShorthand ":string" = [.field column]
      ∧ ¬(Schema.ofShorthand ":string").Named
      ∧ (Column.field column).addStatement = "$table->string();"
      ∧ (Column.field column).dropStatement = dropUnnamed := by
  intro column
  have hread : Schema.ofShorthand ":string" = [.field column] := by decide
  refine ⟨hread, fun h => ?_, by decide, by decide⟩
  rw [hread] at h
  exact h column (by simp) rfl

end MigrationDraft
