import MigrationDraft.Migration
import MigrationDraft.Proofs.Rendering.PivotNames
import MigrationDraft.Proofs.Text.Bytes

set_option autoImplicit false

/-!
# The order of files

Migrations are run in the order of their files' names. A name begins with the time that its file
was made at, every field of the time in a fixed width and the longest unit first, so that the first
field in which two times differ decides the order of their texts (`text_append_lt_text_append`). It
does so before the rest of the names is looked at, whatever is named and whether it is a migration
or a pivot table.
-/

namespace MigrationDraft

open Text

namespace Timestamp

/-! ## The order of times -/

/-- The fields from the longest unit to the shortest. -/
def fields (t : Timestamp) : List Int := [t.year, t.month, t.day, t.hour, t.minute, t.second]

/-- A time is earlier than another if it is less in the first field in which they differ. -/
instance : LT Timestamp := ⟨fun t u => t.fields < u.fields⟩

instance (t u : Timestamp) : Decidable (t < u) :=
  inferInstanceAs (Decidable (t.fields < u.fields))

variable {t u : Timestamp}

theorem lt_iff : t < u
    ↔ t.year < u.year ∨ t.year = u.year ∧ (t.month < u.month ∨ t.month = u.month
      ∧ (t.day < u.day ∨ t.day = u.day ∧ (t.hour < u.hour ∨ t.hour = u.hour
        ∧ (t.minute < u.minute ∨ t.minute = u.minute ∧ t.second < u.second)))) := by
  show t.fields < u.fields ↔ _
  simp only [fields, List.cons_lt_cons_iff, List.not_lt_nil, and_false, or_false, Int.ofNat_lt,
    Int.ofNat_inj]

/-! ## The order of their texts -/

/-- Every field fits the width that it is written with, as it does in all local times of the years
0 to 9999. -/
structure Fits (t : Timestamp) : Prop where
  zero_le_year : 0 ≤ t.year
  year : t.year < 10000
  month : t.month < 100
  day : t.day < 100
  hour : t.hour < 100
  minute : t.minute < 100
  second : t.second < 100

namespace Fits

theorem yearText_eq (h : t.Fits) : yearText t.year = fixedDigits 4 t.year.toNat := by
  rw [yearText, if_neg (not_lt.mpr h.zero_le_year), if_pos h.year]

theorem toList_text_append (h : t.Fits) (rest : List Char) : t.text.toList ++ rest
    = fixedDigits 4 t.year.toNat ++ '_' :: (fixedDigits 2 t.month ++ '_' :: (fixedDigits 2 t.day
      ++ '_' :: (fixedDigits 2 t.hour ++ (fixedDigits 2 t.minute
        ++ (fixedDigits 2 t.second ++ rest))))) := by
  simp [text, h.yearText_eq]

end Fits

/-- Texts that begin with times are in the order of the times. -/
theorem text_append_lt_text_append (ht : t.Fits) (hu : u.Fits) (h : t < u) (x y : String) :
    t.text ++ x < u.text ++ y := by
  have hyears : (t.year < u.year ↔ t.year.toNat < u.year.toNat)
      ∧ (t.year = u.year ↔ t.year.toNat = u.year.toNat) := by
    have ht' := ht.zero_le_year
    have hu' := hu.zero_le_year
    omega
  have hyear : u.year.toNat < 10 ^ 4 := by
    have hu' := hu.year
    omega
  rw [lt_iff, hyears.1, hyears.2] at h
  rw [String.lt_iff_toList_lt, String.toList_append, String.toList_append,
    ht.toList_text_append, hu.toList_text_append]
  -- a field decides, or it is the same and leaves the order to the next one
  refine fixedDigits_append_lt hyear (h.imp_right (And.imp_right fun h => .cons ?_))
  refine fixedDigits_append_lt hu.month (h.imp_right (And.imp_right fun h => .cons ?_))
  refine fixedDigits_append_lt hu.day (h.imp_right (And.imp_right fun h => .cons ?_))
  refine fixedDigits_append_lt hu.hour (h.imp_right (And.imp_right fun h => ?_))
  refine fixedDigits_append_lt hu.minute (h.imp_right (And.imp_right fun h => ?_))
  exact fixedDigits_append_lt hu.second (Or.inl h)

/-- A year of five digits has a sign in front, which comes before all digits. -/
example : (⟨9999, 12, 31, 23, 59, 59⟩ : Timestamp) < ⟨10000, 1, 1, 0, 0, 0⟩
    ∧ text ⟨10000, 1, 1, 0, 0, 0⟩ < text ⟨9999, 12, 31, 23, 59, 59⟩ := by decide +kernel

end Timestamp

/-! ## The order of files -/

/-- The names of the files that are made at a time, those of migrations and of pivot tables. -/
inductive IsFileName (time : Timestamp) : String → Prop where
  | migration (name : String) : IsFileName time (Migration.fileName ⟨name, time⟩)
  | pivot (one two : String) : IsFileName time (Pivot.ofTables one two time).fileName

theorem IsFileName.exists_eq_append {time : Timestamp} {file : String} (h : IsFileName time file) :
    ∃ rest, file = time.text ++ ("_" ++ rest) := by
  cases h with
  | migration name =>
      refine ⟨name ++ ".php", ?_⟩
      simp [Migration.fileName, String.append_assoc]
  | pivot one two =>
      refine ⟨"create_" ++ (Pivot.ofTables one two time).tableName ++ "_pivot_table.php", ?_⟩
      rw [Pivot.fileName, Pivot.time_ofTables]
      apply String.toList_inj.mp
      simp

/-- **Files are in the order in which they were made**, by the bytes of their names. Those of one
time begin alike. -/
theorem fileNames_in_order {t u : Timestamp} (ht : t.Fits) (hu : u.Fits) {file file' : String}
    (hfile : IsFileName t file) (hfile' : IsFileName u file') :
    (t < u → bytes file < bytes file')
      ∧ (t = u →
          ∃ rest rest', file = t.text ++ ("_" ++ rest) ∧ file' = t.text ++ ("_" ++ rest')) := by
  obtain ⟨rest, hrest⟩ := hfile.exists_eq_append
  obtain ⟨rest', hrest'⟩ := hfile'.exists_eq_append
  constructor
  · intro h
    rw [bytes_lt_bytes_iff, hrest, hrest']
    exact Timestamp.text_append_lt_text_append ht hu h _ _
  · rintro rfl
    exact ⟨rest, rest', hrest, hrest'⟩

/-- The last pivot table of a century, made in a leap second, and a migration after it, the name of
which begins with a letter that comes before all those of the pivot table's name. -/
theorem fileNames_in_order_leap_second :
    (⟨1999, 12, 31, 23, 59, 60⟩ : Timestamp).Fits ∧ (⟨2000, 1, 1, 0, 0, 0⟩ : Timestamp).Fits
      ∧ (⟨1999, 12, 31, 23, 59, 60⟩ : Timestamp) < ⟨2000, 1, 1, 0, 0, 0⟩
      ∧ bytes (Pivot.ofTables "Zoos" "yaks" ⟨1999, 12, 31, 23, 59, 60⟩).fileName
        < bytes (Migration.fileName ⟨"add_to_yaks", ⟨2000, 1, 1, 0, 0, 0⟩⟩) := by
  have ht : (⟨1999, 12, 31, 23, 59, 60⟩ : Timestamp).Fits := by constructor <;> decide
  have hu : (⟨2000, 1, 1, 0, 0, 0⟩ : Timestamp).Fits := by constructor <;> decide
  have hlt : (⟨1999, 12, 31, 23, 59, 60⟩ : Timestamp) < ⟨2000, 1, 1, 0, 0, 0⟩ := by decide
  exact ⟨ht, hu, hlt,
    (fileNames_in_order ht hu (.pivot "Zoos" "yaks") (.migration "add_to_yaks")).1 hlt⟩

end MigrationDraft
