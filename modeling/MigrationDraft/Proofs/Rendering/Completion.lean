import Mathlib.Data.List.Perm.Subperm
import MigrationDraft.Proofs.Rendering.ImplicitColumns

set_option autoImplicit false

/-!
# The completion of a schema is the least one

A schema is complete for a new table when it has a column for the key and something that records
the times (`Complete`). A new table's schema is the given one as an unbroken block, with what it
lacks of the two at its ends (`Lacks`). It is complete, so completing it again changes nothing, and
no complete schema around the given one is shorter (`withImplicit_least`).
-/

namespace MigrationDraft.Schema

/-! ## Complete schemas -/

/-- A new table gets nothing more than these columns. -/
def Complete (columns : Schema) : Prop := HasKey columns ∧ RecordsTimes columns

instance (columns : Schema) : Decidable (Complete columns) :=
  inferInstanceAs (Decidable (_ ∧ _))

theorem hasKey_append {a b : Schema} : HasKey (a ++ b) ↔ HasKey a ∨ HasKey b := by
  rw [← hasKey_iff, hasColumn_append, Bool.or_eq_true, hasKey_iff, hasKey_iff]

theorem recordsTimes_append {a b : Schema} :
    RecordsTimes (a ++ b) ↔ RecordsTimes a ∨ RecordsTimes b := by
  rw [← recordsTimes_iff, hasTimestamps_append, Bool.or_eq_true, recordsTimes_iff,
    recordsTimes_iff]

/-! ## What a schema lacks -/

/-- `front` is the key column if the columns lack it and nothing otherwise, and `back` is the marker
if they lack that. -/
structure Lacks (columns front back : Schema) : Prop where
  front_cases : front = [] ∨ front = [idColumn]
  back_cases : back = [] ∨ back = [.timestamps]
  front_iff : front = [idColumn] ↔ ¬HasKey columns
  back_iff : back = [.timestamps] ↔ ¬RecordsTimes columns

private theorem cases_unless {present : Bool} {p : Prop} (h : present = true ↔ p) (c : Column) :
    ((if present then [] else [c]) = [] ∨ (if present then [] else [c]) = [c])
      ∧ ((if present then [] else [c]) = [c] ↔ ¬p) := by
  rw [← h]
  cases present <;> simp

/-- A completed schema is the given one as a block with what it lacks at the two ends. -/
theorem exists_lacks (columns : Schema) :
    ∃ front back, Lacks columns front back ∧ withImplicit columns = front ++ columns ++ back := by
  obtain ⟨front_cases, front_iff⟩ := cases_unless hasKey_iff idColumn
  obtain ⟨back_cases, back_iff⟩ := cases_unless recordsTimes_iff .timestamps
  exact ⟨_, _, ⟨front_cases, back_cases, front_iff, back_iff⟩, rfl⟩

theorem complete_withImplicit (columns : Schema) : Complete (withImplicit columns) :=
  ⟨hasKey_iff.mp (hasColumn_withImplicit columns),
    recordsTimes_iff.mp (hasTimestamps_withImplicit columns)⟩

theorem withImplicit_eq_self_iff {columns : Schema} :
    withImplicit columns = columns ↔ Complete columns := by
  constructor
  · intro h
    rw [← h]
    exact complete_withImplicit columns
  · rintro ⟨hkey, htimes⟩
    exact withImplicit_eq_self (hasKey_iff.mpr hkey) (recordsTimes_iff.mpr htimes)

/-! ## No shorter completion -/

theorem HasKey.length_pos {columns : Schema} (h : HasKey columns) : 0 < columns.length := by
  obtain ⟨f, hf, _⟩ := h
  exact List.length_pos_of_mem hf

theorem RecordsTimes.length_pos {columns : Schema} (h : RecordsTimes columns) :
    0 < columns.length := by
  rcases h with hmarker | ⟨f, hf, _⟩
  · exact List.length_pos_of_mem hmarker
  · exact List.length_pos_of_mem hf

/-- The column of the key is none that records the times. -/
theorem Complete.two_le_length {columns : Schema} (h : Complete columns) :
    2 ≤ columns.length := by
  obtain ⟨⟨f, hf, hid⟩, htimes⟩ := h
  obtain ⟨c, hc, hne⟩ : ∃ c ∈ columns, Column.field f ≠ c := by
    rcases htimes with hmarker | ⟨g, hg, hname⟩
    · exact ⟨_, hmarker, Column.noConfusion⟩
    · -- a column has one name, so the column of the key is not this one
      refine ⟨_, hg, fun hfg => ?_⟩
      rw [← Column.field.inj hfg, hid] at hname
      revert hname
      decide
  have hboth : [Column.field f, c].Nodup := by
    simp [hne]
  have hsub : [Column.field f, c] ⊆ columns := by
    simp [hf, hc]
  exact (List.subperm_of_subset hboth hsub).length_le

/-- What the columns lack, a complete schema has around them in some form. -/
theorem Lacks.length_le {columns front back around : Schema} (h : Lacks columns front back)
    (hkey : HasKey columns ∨ HasKey around) (htimes : RecordsTimes columns ∨ RecordsTimes around) :
    front.length + back.length ≤ around.length := by
  have hkeyAround : front = [idColumn] → HasKey around := fun hfront =>
    hkey.resolve_left (h.front_iff.mp hfront)
  have htimesAround : back = [.timestamps] → RecordsTimes around := fun hback =>
    htimes.resolve_left (h.back_iff.mp hback)
  rcases h.front_cases with hfront | hfront <;> rcases h.back_cases with hback | hback
  · rw [hfront, hback]
    exact Nat.zero_le _
  · rw [hfront, hback]
    exact (htimesAround hback).length_pos
  · rw [hfront, hback]
    exact (hkeyAround hfront).length_pos
  · rw [hfront, hback]
    exact Complete.two_le_length ⟨hkeyAround hfront, htimesAround hback⟩

theorem length_withImplicit_le {before columns after : Schema}
    (h : Complete (before ++ columns ++ after)) :
    (withImplicit columns).length ≤ (before ++ columns ++ after).length := by
  obtain ⟨hkey, htimes⟩ := h
  rw [hasKey_append, hasKey_append] at hkey
  rw [recordsTimes_append, recordsTimes_append] at htimes
  obtain ⟨front, back, hlacks, heq⟩ := exists_lacks columns
  have haround : front.length + back.length ≤ (before ++ after).length := by
    refine hlacks.length_le ?_ ?_
    · rw [hasKey_append]
      tauto
    · rw [recordsTimes_append]
      tauto
  rw [heq]
  simp only [List.length_append] at haround ⊢
  omega

/-! ## The completion -/

/-- **A new table gets the least completion of its schema.** The schema stays one unbroken block,
with the key column in front of it exactly when no column has that name and the marker behind it
exactly when nothing records the times. The result is complete, and no complete schema around the
given one is shorter; it is the given one exactly when that is complete, and completing it again
changes nothing. So a new table gets the same bodies from a schema and from its completion. -/
theorem withImplicit_least (columns : Schema) :
    (∃ front back, Lacks columns front back ∧ withImplicit columns = front ++ columns ++ back)
      ∧ Complete (withImplicit columns)
      ∧ (∀ before after, Complete (before ++ columns ++ after) →
          (withImplicit columns).length ≤ (before ++ columns ++ after).length)
      ∧ (withImplicit columns = columns ↔ Complete columns)
      ∧ withImplicit (withImplicit columns) = withImplicit columns
      ∧ ∀ stubs table, ∃ fragments,
          Fragments.build stubs columns ⟨.create, table⟩ = .ok fragments
            ∧ Fragments.build stubs (withImplicit columns) ⟨.create, table⟩ = .ok fragments := by
  refine ⟨exists_lacks columns, complete_withImplicit columns,
    fun before after h => length_withImplicit_le h, withImplicit_eq_self_iff,
    withImplicit_withImplicit columns, fun stubs table => ?_⟩
  rw [Fragments.build_withImplicit]
  exact ⟨_, rfl, rfl⟩

/-- A schema with one of the time columns and a name that occurs twice, and a key of another type in
front of it. -/
theorem withImplicit_least_posts :
    let columns := ofShorthand "user_id:integer:foreign, created_at:date"
    let before : Schema := [.field (Field.plain "id" "uuid")]
    Complete (before ++ columns ++ [])
      ∧ (withImplicit columns).length ≤ (before ++ columns ++ []).length := by
  intro columns before
  have h : Complete (before ++ columns ++ []) := by decide +kernel
  exact ⟨h, (withImplicit_least columns).2.2.1 before [] h⟩

end MigrationDraft.Schema
