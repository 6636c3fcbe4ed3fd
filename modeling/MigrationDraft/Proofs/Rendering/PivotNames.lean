import Mathlib.Data.Sym.Sym2
import MigrationDraft.Proofs.Inflection.Shift
import MigrationDraft.Proofs.Template.Simultaneous

set_option autoImplicit false

/-!
# The names of a pivot table

The names of the two joined tables are put in lower case and in alphabetical order first. So two
tables have one pivot table, however they are given (`ofTables_eq_iff`), and nothing that the
migration shows depends on their order and letter case (`alike_ofTables`).

The singulars are taken after that, in the order of the tables. It is the alphabetical order of the
singulars too, except where one name overtakes the other (`columns_le_iff`): `user_roles` comes
before `users`, but `user_role` comes after `user`.
-/

namespace MigrationDraft.Pivot

open Inflection

/-! ## One pivot table for two tables -/

/-- The two joined tables, in no order. -/
def tables (p : Pivot) : Sym2 String := s(p.first, p.second)

@[simp] theorem tables_ofTables (one two : String) (time : Timestamp) :
    (ofTables one two time).tables = s(lowered one, lowered two) := by
  unfold ofTables
  split
  · rfl
  · exact Sym2.eq_swap

@[simp] theorem time_ofTables (one two : String) (time : Timestamp) :
    (ofTables one two time).time = time := by
  unfold ofTables
  split <;> rfl

/-- The alphabetical order leaves no choice. -/
theorem eq_of_tables {p q : Pivot} (htables : p.tables = q.tables) (htime : p.time = q.time) :
    p = q := by
  obtain ⟨first, second, time, hle⟩ := p
  obtain ⟨first', second', time', hle'⟩ := q
  obtain rfl : time = time' := htime
  rcases Sym2.eq_iff.mp htables with ⟨hfirst, hsecond⟩ | ⟨hfirst, hsecond⟩
  · obtain rfl : first = first' := hfirst
    obtain rfl : second = second' := hsecond
    rfl
  · obtain rfl : first = second' := hfirst
    obtain rfl : second = first' := hsecond
    -- each of the two names comes first
    obtain rfl : first = second := le_antisymm hle hle'
    rfl

/-- Two pivot tables are the same exactly if they join the same tables at the same time. -/
theorem ofTables_eq_iff {one two one' two' : String} {time time' : Timestamp} :
    ofTables one two time = ofTables one' two' time'
      ↔ s(lowered one, lowered two) = s(lowered one', lowered two') ∧ time = time' := by
  rw [← tables_ofTables one two time, ← tables_ofTables one' two' time']
  constructor
  · intro h
    have htime := congrArg Pivot.time h
    rw [time_ofTables, time_ofTables] at htime
    exact ⟨congrArg tables h, htime⟩
  · rintro ⟨htables, rfl⟩
    exact eq_of_tables htables (by rw [time_ofTables, time_ofTables])

/-- The two show the same names and the same file, whatever stubs and columns the file is made
of. -/
structure Alike (p q : Pivot) : Prop where
  tableName : p.tableName = q.tableName
  className : p.className = q.className
  fileName : p.fileName = q.fileName
  render : ∀ stubs columns, p.render stubs columns = q.render stubs columns

theorem alike_of_eq {p q : Pivot} (h : p = q) : Alike p q :=
  h ▸ ⟨rfl, rfl, rfl, fun _ _ => rfl⟩

/-- **The order and the letter case of the tables show nowhere.** -/
theorem alike_ofTables (one two : String) (time : Timestamp) :
    Alike (ofTables two one time) (ofTables one two time)
      ∧ ∀ one' two', lowered one' = lowered one → lowered two' = lowered two →
        Alike (ofTables one' two' time) (ofTables one two time) := by
  constructor
  · exact alike_of_eq (ofTables_eq_iff.mpr ⟨Sym2.eq_swap, rfl⟩)
  · intro one' two' hone htwo
    refine alike_of_eq (ofTables_eq_iff.mpr ⟨?_, rfl⟩)
    rw [hone, htwo]

/-- A capital letter that is two characters in lower case, and a capital sigma at the end of a
word. -/
theorem alike_ofTables_case_of_two_lengths :
    let time : Timestamp := ⟨2024, 1, 31, 12, 5, 9⟩
    lowered "İller" = lowered "i̇ller" ∧ lowered "ΟΔΟΣ" = lowered "οδος"
      ∧ Alike (ofTables "İller" "ΟΔΟΣ" time) (ofTables "i̇ller" "οδος" time) := by
  intro time
  have hone : lowered "İller" = lowered "i̇ller" := by decide +kernel
  have htwo : lowered "ΟΔΟΣ" = lowered "οδος" := by decide +kernel
  exact ⟨hone, htwo, (alike_ofTables "i̇ller" "οδος" time).2 "İller" "ΟΔΟΣ" hone htwo⟩

/-! ## The order of the singulars -/

/-- **The names are the singulars of the tables, in the order of the tables.** The names of the
pivot table and of its class and the names in its file have the singulars in the alphabetical order
of the two tables. It is their own alphabetical order exactly if the first table does not overtake
the second. -/
theorem columns_le_iff (one two : String) (time : Timestamp) :
    let p := ofTables one two time
    ∃ t u, s(t, u) = s(lowered one, lowered two) ∧ t ≤ u
      ∧ p.tableName = singularize t ++ "_" ++ singularize u
      ∧ p.className
        = "Create" ++ pascalCase (singularize t) ++ pascalCase (singularize u) ++ "PivotTable"
      ∧ (∀ source, p.fillNames source
        = fillAll source [(Slot.pivotTable, singularize t ++ "_" ++ singularize u),
          (Slot.columnOne, singularize t), (Slot.columnTwo, singularize u), (Slot.tableOne, t),
          (Slot.tableTwo, u)])
      ∧ (singularize t ≤ singularize u ↔ ¬ Overtakes t u) := by
  intro p
  have htables : p.tables = s(lowered one, lowered two) := tables_ofTables one two time
  -- the rest is so for every two tables in order
  clear_value p
  refine ⟨p.first, p.second, htables, p.first_le_second, rfl, rfl, fun _ => rfl, ?_⟩
  rw [← singularize_lt_iff p.first_le_second, not_lt]

/-- Two tables whose singulars are joined in the wrong order. -/
theorem columns_not_le_user_roles_users :
    let p := ofTables "users" "user_roles" ⟨2024, 1, 31, 12, 5, 9⟩
    p.tableName = "user_role_user" ∧ p.columnOne = "user_role" ∧ p.columnTwo = "user"
      ∧ ¬ p.columnOne ≤ p.columnTwo := by
  decide +kernel

end MigrationDraft.Pivot
