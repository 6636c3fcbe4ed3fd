import MigrationDraft.Proofs.Shorthand.Parts
import MigrationDraft.Proofs.Text.Splitting
import MigrationDraft.Proofs.Text.Trim

set_option autoImplicit false

/-!
# Blanks between the segments of a field

A field is read from its segments, and each segment is trimmed first. So a field is what its
trimmed segments make of it (`field_congr`), and blanks that are put beside a colon or at an end
of its text go to the end of a segment and change nothing (`field_insert_blanks`). The same is
true of the piece of a text that the field is cut out of (`columnsOfPiece_insert_blanks`).
-/

namespace MigrationDraft.Shorthand

open Text

/-- The segments of a field, trimmed. -/
def segments (text : List Char) : List (List Char) := (text.splitOn ':').map trim

theorem fieldOfSegments_map_trim (ls : List (List Char)) :
    fieldOfSegments (ls.map trim) = fieldOfSegments ls := by
  match ls with
  | [] => rfl
  | [name] => simp only [List.map_cons, List.map_nil, fieldOfSegments, trim_trim]
  | name :: type :: tokens =>
      have htokens : optionsOf (tokens.map trim) = optionsOf tokens := by
        simp only [optionsOf, List.filterMap_map, Function.comp_def, trim_trim]
      simp only [List.map_cons, fieldOfSegments, trim_trim, htokens]

theorem field_eq_fieldOfSegments (s : List Char) : field s = fieldOfSegments (segments s) :=
  (fieldOfSegments_map_trim _).symm

/-- Texts with the same trimmed segments are the same field. -/
theorem field_congr {a b : List Char} (h : segments a = segments b) : field a = field b := by
  rw [field_eq_fieldOfSegments, h, ← field_eq_fieldOfSegments]

theorem trim_of_mem_segments {s p : List Char} (h : p ∈ segments s) : trim p = p := by
  obtain ⟨q, _, rfl⟩ := List.mem_map.mp h
  exact trim_trim q

/-! ## Blanks beside colons and at the ends -/

/-- The place between two parts of a field is at a colon or at an end of the field. -/
def AtColon (x y : List Char) : Prop :=
  (x = [] ∨ x.getLast? = some ':') ∨ (y = [] ∨ y.head? = some ':')

/-- Blanks at a colon or at an end of a field are trimmed away. -/
theorem segments_insert_blanks {x w y : List Char} (hw : Blanks w) (h : AtColon x y) :
    segments (x ++ (w ++ y)) = segments (x ++ y) := by
  obtain ⟨init, last, head, tail, hx, hy, hsplit⟩ := exists_splitOn_append ':' x y
  -- one of the two pieces at the place is empty, so the blanks are at an end of the other
  have htrim : trim (last ++ (w ++ head)) = trim (last ++ head) := by
    rcases h with h | h
    · obtain ⟨init', hx'⟩ := splitOn_of_getLast? h
      obtain rfl : last = [] := by
        rw [hx] at hx'
        exact List.singleton_inj.mp (List.append_inj' hx' rfl).2
      exact trim_blanks_append hw head
    · obtain ⟨tail', hy'⟩ := splitOn_of_head? h
      obtain rfl : head = [] := by
        rw [hy] at hy'
        exact (List.cons.inj hy').1
      rw [List.append_nil, List.append_nil]
      exact trim_append_blanks hw last
  have hcolon : ':' ∉ w := not_mem_of_blanks (by decide) hw
  have hnil := hsplit [] (by simp)
  rw [List.nil_append, List.nil_append] at hnil
  simp only [segments, hsplit w hcolon, hnil, List.map_append, List.map_cons, htrim]

theorem field_insert_blanks {x w y : List Char} (hw : Blanks w) (h : AtColon x y) :
    field (x ++ (w ++ y)) = field (x ++ y) :=
  field_congr (segments_insert_blanks hw h)

theorem field_trim (s : List Char) : field (trim s) = field s := by
  obtain ⟨a, b, ha, hb, hs⟩ := exists_blanks_trim s
  have hfront : field (a ++ (trim s ++ b)) = field (trim s ++ b) :=
    field_insert_blanks (x := []) ha (Or.inl (Or.inl rfl))
  have hback : field (trim s ++ (b ++ [])) = field (trim s ++ []) :=
    field_insert_blanks hb (Or.inr (Or.inl rfl))
  rw [List.append_nil, List.append_nil] at hback
  rw [← hback, ← hfront, ← hs]

/-! ## Pieces -/

/-- A piece gives what its field stands for, unless it is blank. -/
theorem columnsOfPiece_of_not_blanks {piece : List Char} (h : ¬Blanks piece) :
    columnsOfPiece piece = expand (field piece) := by
  rw [columnsOfPiece_of_trim_ne_nil (mt trim_eq_nil_iff.mp h), field_trim]

theorem columnsOfPiece_of_blanks {piece : List Char} (h : Blanks piece) :
    columnsOfPiece piece = [] := by
  rw [columnsOfPiece, trim_blanks h]

theorem columnsOfPiece_insert_blanks {x w y : List Char} (hw : Blanks w) (h : AtColon x y) :
    columnsOfPiece (x ++ (w ++ y)) = columnsOfPiece (x ++ y) := by
  have hblanks : Blanks (x ++ (w ++ y)) ↔ Blanks (x ++ y) := by
    simp only [Blanks, List.forall_mem_append]
    exact and_congr_right fun _ => and_iff_right hw
  by_cases hp : Blanks (x ++ y)
  · rw [columnsOfPiece_of_blanks hp, columnsOfPiece_of_blanks (hblanks.mpr hp)]
  · rw [columnsOfPiece_of_not_blanks hp, columnsOfPiece_of_not_blanks (mt hblanks.mp hp),
      field_insert_blanks hw h]

end MigrationDraft.Shorthand
