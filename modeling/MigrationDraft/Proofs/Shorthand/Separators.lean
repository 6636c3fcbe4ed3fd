import MigrationDraft.Proofs.Shorthand.Commas
import MigrationDraft.Proofs.Shorthand.Segments
import Mathlib.Data.List.Induction

set_option autoImplicit false

/-!
# Insertions into a text

A text is a row of fields with outer commas between them (`mem_pieces_iff`), and every place in
it lies in one of them (`exists_fieldBetween`). The fields around that one are read without it
(`FieldBetween.ofShorthand`). What is inserted leaves them alone, as long as it has no outer
comma and the same depth of parentheses after it as before it (`FieldBetween.insert`).

Blanks are of this kind. Next to a separator they do not change the field itself either, so they
can be put there and at the ends of a text at will (`Schema.ofShorthand_insert_blanks`).
-/

namespace MigrationDraft

open Shorthand Text

namespace Shorthand

/-! ## Fields between commas -/

/-- A text is not cut anywhere exactly when none of its commas has depth zero. -/
theorem uncut_iff {depth : Nat} {p : List Char} :
    Uncut depth p ↔ ∀ x y, p = x ++ ',' :: y → depthAfter depth x ≠ 0 := by
  induction p generalizing depth with
  | nil => exact iff_of_true rfl fun x y h => by simp at h
  | cons c p ih =>
      rw [uncut_cons_iff, ih]
      constructor
      · rintro ⟨hcut, h⟩ x y hxy
        cases x with
        | nil =>
            obtain ⟨rfl, _⟩ := List.cons.inj hxy
            exact fun hd => hcut ⟨rfl, hd⟩
        | cons d x =>
            obtain ⟨rfl, hp⟩ := List.cons.inj hxy
            exact h x y hp
      · intro h
        refine ⟨?_, fun x y hp => h (c :: x) y (by rw [hp, List.cons_append])⟩
        rintro ⟨rfl, hd⟩
        exact h [] p rfl hd

/-- The text begins at depth zero after `a`: `a` is empty or ends in an outer comma. -/
def EndsAtComma (a : List Char) : Prop := a = [] ∨ ∃ a', a = a' ++ [','] ∧ depthAfter 0 a' = 0

/-- The text `p`, begun at the given depth, is over before `b`: `b` is empty or an outer comma is
next. -/
def StopsAtComma (depth : Nat) (p b : List Char) : Prop :=
  b = [] ∨ ∃ b', b = ',' :: b' ∧ depthAfter depth p = 0

/-- The text `p` is a field of `a ++ (p ++ b)`: it has no outer comma, and on either side of it is
one or an end of the whole text. -/
structure FieldBetween (a p b : List Char) : Prop where
  start : EndsAtComma a
  no_comma : ∀ x y, p = x ++ ',' :: y → depthAfter 0 x ≠ 0
  stop : StopsAtComma 0 p b

theorem EndsAtComma.depth {a : List Char} (h : EndsAtComma a) : depthAfter 0 a = 0 := by
  rcases h with rfl | ⟨a', rfl, hdepth⟩
  · rfl
  · rw [depthAfter_append, hdepth]
    rfl

/-- The schema of a text that is given by its characters. -/
theorem ofShorthand_ofList (s : List Char) :
    Schema.ofShorthand (String.ofList s) = (pieces s).flatMap columnsOfPiece := by
  rw [Schema.ofShorthand, String.toList_ofList]

theorem ofShorthand_ofList_nil : Schema.ofShorthand (String.ofList []) = [] := rfl

theorem ofShorthand_ofList_append_comma {a : List Char} (h : depthAfter 0 a = 0)
    (b : List Char) :
    Schema.ofShorthand (String.ofList (a ++ ',' :: b))
      = Schema.ofShorthand (String.ofList a) ++ Schema.ofShorthand (String.ofList b) := by
  simp only [ofShorthand_ofList, pieces_append_comma h, List.flatMap_append]

theorem EndsAtComma.ofShorthand_append {a : List Char} (h : EndsAtComma a) (b : List Char) :
    Schema.ofShorthand (String.ofList (a ++ b))
      = Schema.ofShorthand (String.ofList a) ++ Schema.ofShorthand (String.ofList b) := by
  rcases h with rfl | ⟨a', rfl, hdepth⟩
  · rfl
  · -- what follows the last comma of `a` alone is blank
    rw [List.append_assoc, List.singleton_append, ofShorthand_ofList_append_comma hdepth,
      ofShorthand_ofList_append_comma hdepth, ofShorthand_ofList_nil, List.append_nil]

theorem StopsAtComma.ofShorthand_append {p b : List Char} (h : StopsAtComma 0 p b) :
    Schema.ofShorthand (String.ofList (p ++ b))
      = Schema.ofShorthand (String.ofList p) ++ Schema.ofShorthand (String.ofList b) := by
  rcases h with rfl | ⟨b', rfl, hdepth⟩
  · rw [ofShorthand_ofList_nil, List.append_nil, List.append_nil]
  · have hcomma := ofShorthand_ofList_append_comma (a := []) rfl b'
    rw [List.nil_append, ofShorthand_ofList_nil, List.nil_append] at hcomma
    rw [ofShorthand_ofList_append_comma hdepth, hcomma]

/-- A field is read by itself, and the text before it and the text after it are read as if it
were not there. -/
theorem FieldBetween.ofShorthand {a p b : List Char} (h : FieldBetween a p b) :
    Schema.ofShorthand (String.ofList (a ++ (p ++ b)))
      = Schema.ofShorthand (String.ofList a)
        ++ (columnsOfPiece p ++ Schema.ofShorthand (String.ofList b)) := by
  have huncut : pieces p = [p] := uncut_iff.mpr h.no_comma
  have hpiece : Schema.ofShorthand (String.ofList p) = columnsOfPiece p := by
    rw [ofShorthand_ofList, huncut, List.flatMap_singleton]
  rw [h.start.ofShorthand_append, h.stop.ofShorthand_append, hpiece]

/-! ## Fields cover the text -/

theorem exists_endsAtComma (a : List Char) :
    ∃ a₀ x, a = a₀ ++ x ∧ EndsAtComma a₀ ∧ Uncut 0 x := by
  induction a using List.reverseRecOn with
  | nil => exact ⟨[], [], rfl, Or.inl rfl, rfl⟩
  | append_singleton a c ih =>
      obtain ⟨a₀, x, rfl, hstart, huncut⟩ := ih
      by_cases hcut : c = ',' ∧ depthAfter 0 x = 0
      · refine ⟨a₀ ++ x ++ [c], [], by simp, Or.inr ⟨a₀ ++ x, by rw [hcut.1], ?_⟩, rfl⟩
        rw [depthAfter_append, hstart.depth, hcut.2]
      · exact ⟨a₀, x ++ [c], by simp, hstart,
          huncut.append (uncut_cons_iff.mpr ⟨hcut, rfl⟩)⟩

theorem exists_stopsAtComma (depth : Nat) (b : List Char) :
    ∃ y b₀, b = y ++ b₀ ∧ Uncut depth y ∧ StopsAtComma depth y b₀ := by
  induction b generalizing depth with
  | nil => exact ⟨[], [], rfl, rfl, Or.inl rfl⟩
  | cons c b ih =>
      by_cases hcut : c = ',' ∧ depth = 0
      · exact ⟨[], c :: b, rfl, rfl, Or.inr ⟨b, by rw [hcut.1], hcut.2⟩⟩
      · obtain ⟨y, b₀, rfl, huncut, hstop⟩ := ih (nextDepth depth c)
        exact ⟨c :: y, b₀, rfl, uncut_cons_iff.mpr ⟨hcut, huncut⟩, hstop⟩

/-- Every place in a text is in one of its fields. -/
theorem exists_fieldBetween (a b : List Char) :
    ∃ a₀ x y b₀, a = a₀ ++ x ∧ b = y ++ b₀ ∧ FieldBetween a₀ (x ++ y) b₀ := by
  obtain ⟨a₀, x, ha, hstart, hx⟩ := exists_endsAtComma a
  obtain ⟨y, b₀, hb, hy, hstop⟩ := exists_stopsAtComma (depthAfter 0 x) b
  refine ⟨a₀, x, y, b₀, ha, hb, hstart, uncut_iff.mp (hx.append hy), ?_⟩
  rw [StopsAtComma, depthAfter_append]
  exact hstop

/-- A field of what follows an outer comma is a field of the whole text. -/
theorem FieldBetween.after_comma {y a p b : List Char} (hy : depthAfter 0 y = 0)
    (h : FieldBetween a p b) : FieldBetween (y ++ ',' :: a) p b := by
  refine ⟨?_, h.no_comma, h.stop⟩
  rcases h.start with rfl | ⟨a', rfl, ha'⟩
  · exact Or.inr ⟨y, rfl, hy⟩
  · refine Or.inr ⟨y ++ ',' :: a', by simp, ?_⟩
    rw [depthAfter_append, hy]
    exact ha'

theorem FieldBetween.mem_pieces {a p b : List Char} (h : FieldBetween a p b) :
    p ∈ pieces (a ++ (p ++ b)) := by
  obtain ⟨hstart, hcommas, hstop⟩ := h
  have hp : pieces p = [p] := uncut_iff.mpr hcommas
  have hmem : p ∈ pieces (p ++ b) := by
    rcases hstop with rfl | ⟨b, rfl, hdepth⟩
    · simp [hp]
    · simp [pieces_append_comma hdepth, hp]
  rcases hstart with rfl | ⟨a', rfl, hdepth⟩
  · exact hmem
  · rw [List.append_assoc, List.singleton_append, pieces_append_comma hdepth]
    exact List.mem_append_right _ hmem

/-- The pieces of a text are its fields. -/
theorem mem_pieces_iff {s p : List Char} :
    p ∈ pieces s ↔ ∃ a b, s = a ++ (p ++ b) ∧ FieldBetween a p b := by
  constructor
  · -- by induction on the length: a piece is the first one, or it is one of what follows the first
    intro hp
    induction hlength : s.length using Nat.strongRecOn generalizing s with
    | _ n ih =>
      obtain ⟨y, b, rfl, huncut, hstop⟩ := exists_stopsAtComma 0 s
      have hy : pieces y = [y] := huncut
      have hfirst : FieldBetween [] y b := ⟨Or.inl rfl, uncut_iff.mp huncut, hstop⟩
      rcases hstop with rfl | ⟨b, rfl, hdepth⟩
      · rw [List.append_nil, hy, List.mem_singleton] at hp
        exact ⟨[], [], by rw [hp]; rfl, hp ▸ hfirst⟩
      · rw [pieces_append_comma hdepth, hy, List.singleton_append, List.mem_cons] at hp
        rcases hp with rfl | hp
        · exact ⟨[], _, rfl, hfirst⟩
        · have hlt : b.length < n := by
            simp only [← hlength, List.length_append, List.length_cons]
            omega
          obtain ⟨a, b', rfl, hfield⟩ := ih b.length hlt hp rfl
          exact ⟨y ++ ',' :: a, b', by simp, hfield.after_comma hdepth⟩
  · rintro ⟨a, b, rfl, h⟩
    exact h.mem_pieces

/-! ## What can be inserted -/

theorem neutral_of_blanks {w : List Char} (hw : Blanks w) : Neutral w :=
  neutral_of_not_mem (not_mem_of_blanks (by decide) hw) (not_mem_of_blanks (by decide) hw)
    (not_mem_of_blanks (by decide) hw)

/-- A neutral text can be inserted anywhere in a field, which stays one field. -/
theorem FieldBetween.insert {a x y b t : List Char} (h : FieldBetween a (x ++ y) b)
    (ht : Neutral t) : FieldBetween a (x ++ (t ++ y)) b := by
  have hdepth : depthAfter 0 (x ++ (t ++ y)) = depthAfter 0 (x ++ y) := by
    simp only [depthAfter_append, ht.depth]
  refine ⟨h.start, ?_, ?_⟩
  · obtain ⟨hx, hy⟩ := uncut_append_iff.mp (uncut_iff.mpr h.no_comma)
    refine uncut_iff.mp (hx.append ((ht.uncut _).append ?_))
    rwa [ht.depth]
  · rw [StopsAtComma, hdepth]
    exact h.stop

/-! ## Blanks at separators -/

/-- The place between two parts of a text is an end of the text, or it is next to a colon or an
outer comma. -/
inductive AtSeparator : List Char → List Char → Prop
  | start (b : List Char) : AtSeparator [] b
  | stop (a : List Char) : AtSeparator a []
  | afterColon (a b : List Char) : AtSeparator (a ++ [':']) b
  | beforeColon (a b : List Char) : AtSeparator a (':' :: b)
  | afterComma {a : List Char} (h : depthAfter 0 a = 0) (b : List Char) :
      AtSeparator (a ++ [',']) b
  | beforeComma {a : List Char} (h : depthAfter 0 a = 0) (b : List Char) :
      AtSeparator a (',' :: b)

/-- In its own field such a place is at a colon or at an end. -/
theorem AtSeparator.atColon {a₀ x y b₀ : List Char} (h : AtSeparator (a₀ ++ x) (y ++ b₀))
    (hfield : FieldBetween a₀ (x ++ y) b₀) : AtColon x y := by
  generalize ha : a₀ ++ x = a at h
  generalize hb : y ++ b₀ = b at h
  cases h with
  | start => exact Or.inl (Or.inl (List.append_eq_nil_iff.mp ha).2)
  | stop => exact Or.inr (Or.inl (List.append_eq_nil_iff.mp hb).1)
  | afterColon a' =>
      -- the colon is the last character of `x`, if there is one
      rcases List.eq_nil_or_concat x with hx | ⟨x', c, rfl⟩
      · exact Or.inl (Or.inl hx)
      · rw [List.concat_eq_append, ← List.append_assoc] at ha
        obtain rfl := List.singleton_inj.mp (List.append_inj' ha rfl).2
        exact Or.inl (Or.inr (by simp))
  | beforeColon _ b' =>
      cases y with
      | nil => exact Or.inr (Or.inl rfl)
      | cons c y =>
          obtain ⟨rfl, _⟩ := List.cons.inj hb
          exact Or.inr (Or.inr rfl)
  | @afterComma a' hdepth =>
      rcases List.eq_nil_or_concat x with hx | ⟨x', c, rfl⟩
      · exact Or.inl (Or.inl hx)
      · -- the comma would be an outer one inside the field
        rw [List.concat_eq_append, ← List.append_assoc] at ha
        obtain ⟨rfl, hc⟩ := List.append_inj' ha rfl
        obtain rfl := List.singleton_inj.mp hc
        rw [depthAfter_append, hfield.start.depth] at hdepth
        exact absurd hdepth (hfield.no_comma x' y (by simp))
  | @beforeComma a hdepth b' =>
      cases y with
      | nil => exact Or.inr (Or.inl rfl)
      | cons c y =>
          -- here too the comma would be inside the field
          obtain ⟨rfl, _⟩ := List.cons.inj hb
          rw [← ha, depthAfter_append, hfield.start.depth] at hdepth
          exact absurd hdepth (hfield.no_comma x y rfl)

end Shorthand

/-! ## The law -/

/-- **Blanks at separators do not matter.** Blanks that are put before or after a colon or an
outer comma of a text, or at one of its ends, leave its schema as it is. -/
theorem Schema.ofShorthand_insert_blanks (a w b : String) (hw : Blanks w.toList)
    (h : AtSeparator a.toList b.toList) :
    Schema.ofShorthand (a ++ w ++ b) = Schema.ofShorthand (a ++ b) := by
  obtain ⟨a₀, x, y, b₀, ha, hb, hfield⟩ := exists_fieldBetween a.toList b.toList
  rw [ha, hb] at h
  have hwithout : a ++ b = String.ofList (a₀ ++ ((x ++ y) ++ b₀)) := by
    rw [← String.toList_inj]
    simp [ha, hb]
  have hwith : a ++ w ++ b = String.ofList (a₀ ++ ((x ++ (w.toList ++ y)) ++ b₀)) := by
    rw [← String.toList_inj]
    simp [ha, hb]
  rw [hwithout, hwith, hfield.ofShorthand, (hfield.insert (neutral_of_blanks hw)).ofShorthand,
    columnsOfPiece_insert_blanks hw (h.atColon hfield)]

/-- A no-break space and a line feed before a colon that cuts a group, in a text with stray and
open parentheses, and the same after a comma. -/
theorem Schema.ofShorthand_insert_blanks_nested :
    let w := "\u00a0\n"
    let a := "x)),p:enum((a"
    let b := ":b),c):foreign,(,"
    let c := "x)),"
    let d := "user_id:int(:foreign"
    (Blanks w.toList ∧ AtSeparator a.toList b.toList
        ∧ Schema.ofShorthand (a ++ w ++ b) = Schema.ofShorthand (a ++ b))
      ∧ AtSeparator c.toList d.toList
        ∧ Schema.ofShorthand (c ++ w ++ d) = Schema.ofShorthand (c ++ d) := by
  intro w a b c d
  have hw : Blanks w.toList := by decide
  have hcolon : AtSeparator a.toList b.toList := by
    have hb : b.toList = ':' :: "b),c):foreign,(,".toList := by decide
    rw [hb]
    exact .beforeColon a.toList _
  have hcomma : AtSeparator c.toList d.toList := by
    have hc : c.toList = "x))".toList ++ [','] := by decide
    rw [hc]
    exact .afterComma (by decide) d.toList
  exact ⟨⟨hw, hcolon, Schema.ofShorthand_insert_blanks a w b hw hcolon⟩, hcomma,
    Schema.ofShorthand_insert_blanks c w d hw hcomma⟩

end MigrationDraft
