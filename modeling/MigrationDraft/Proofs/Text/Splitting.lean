import MigrationDraft.Text

set_option autoImplicit false

/-!
# Splitting and joining

What is known of the parts of a text that was split at a separator, and of a text that was
joined from its parts. Splitting loses and adds no character but the separator, and no part
holds one.

The lines of a text are such parts, read in such a way that the two usual line ends make no
difference. A text that is joined from lines has these lines again (`lines_intercalate`).
-/

namespace MigrationDraft.Text

section

variable {α : Type}

/-! ## Joined lists -/

/-- What is in a part is in the whole. -/
theorem mem_intercalate_of_mem {sep l : List α} {ls : List (List α)} (hl : l ∈ ls) {c : α}
    (hc : c ∈ l) : c ∈ sep.intercalate ls := by
  induction ls with
  | nil => cases hl
  | cons m ls ih =>
      cases ls with
      | nil =>
          rw [List.intercalate_singleton]
          exact List.mem_singleton.mp hl ▸ hc
      | cons n ls =>
          rw [List.intercalate_cons_cons, List.mem_append, List.mem_append]
          rcases List.mem_cons.mp hl with rfl | hl
          · exact Or.inl (Or.inl hc)
          · exact Or.inr (ih hl)

/-- What is in the whole is in the separator or in a part. -/
theorem mem_of_mem_intercalate {sep : List α} {ls : List (List α)} {c : α}
    (hc : c ∈ sep.intercalate ls) : c ∈ sep ∨ ∃ l ∈ ls, c ∈ l := by
  induction ls with
  | nil => cases hc
  | cons m ls ih =>
      cases ls with
      | nil =>
          rw [List.intercalate_singleton] at hc
          exact Or.inr ⟨m, List.mem_cons_self, hc⟩
      | cons n ls =>
          rw [List.intercalate_cons_cons, List.mem_append, List.mem_append] at hc
          rcases hc with (hc | hc) | hc
          · exact Or.inr ⟨m, List.mem_cons_self, hc⟩
          · exact Or.inl hc
          · rcases ih hc with hsep | ⟨l, hl, hcl⟩
            · exact Or.inl hsep
            · exact Or.inr ⟨l, List.mem_cons_of_mem _ hl, hcl⟩

/-- An element of a list that ends in `y` is that last one, or it stands before it. -/
theorem append_singleton_eq_append_cons_iff {l a b : List α} {x y : α} :
    l ++ [y] = a ++ x :: b
      ↔ (l = a ∧ y = x ∧ b = []) ∨ ∃ b', l = a ++ x :: b' ∧ b = b' ++ [y] := by
  constructor
  · intro h
    rcases List.eq_nil_or_concat b with rfl | ⟨b', z, rfl⟩
    · obtain ⟨hl, hy⟩ := List.append_inj' h rfl
      exact Or.inl ⟨hl, List.singleton_inj.mp hy, rfl⟩
    · rw [List.concat_eq_append, ← List.cons_append, ← List.append_assoc] at h
      obtain ⟨hl, hy⟩ := List.append_inj' h rfl
      exact Or.inr ⟨b', hl, by rw [List.concat_eq_append, hy]⟩
  · rintro (⟨rfl, rfl, rfl⟩ | ⟨b', rfl, rfl⟩)
    · rfl
    · simp

/-- A last part is joined to what the others make. -/
theorem intercalate_concat {sep : List α} {ls : List (List α)} (h : ls ≠ []) (l : List α) :
    sep.intercalate (ls ++ [l]) = sep.intercalate ls ++ (sep ++ l) := by
  induction ls with
  | nil => exact absurd rfl h
  | cons m ls ih =>
      cases ls with
      | nil => simp
      | cons n ls =>
          rw [List.cons_append, List.cons_append, List.intercalate_cons_cons,
            ← List.cons_append, ih (List.cons_ne_nil n ls), List.intercalate_cons_cons]
          simp only [List.append_assoc]

/-- After the first part the separator stands in front of each part. -/
theorem intercalate_cons_eq_append_flatMap (sep l : List α) (ls : List (List α)) :
    sep.intercalate (l :: ls) = l ++ ls.flatMap (sep ++ ·) := by
  induction ls generalizing l with
  | nil => simp
  | cons m ls ih =>
      rw [List.intercalate_cons_cons, ih m, List.flatMap_cons]
      simp only [List.append_assoc]

/-- All of a separator but its first element can as well stand in front of the parts. -/
theorem intercalate_cons_separator (x : α) (indent l : List α) (ls : List (List α)) :
    (x :: indent).intercalate (l :: ls) = [x].intercalate (l :: ls.map (indent ++ ·)) := by
  rw [intercalate_cons_eq_append_flatMap, intercalate_cons_eq_append_flatMap, List.flatMap_map]
  rfl

/-- Parts joined with a separator are nothing only if there is no part, or one and it is
empty. -/
theorem intercalate_singleton_ne_nil {x : α} {ls : List (List α)} (h : ls ≠ [])
    (hone : ls ≠ [[]]) : [x].intercalate ls ≠ [] := by
  match ls, h, hone with
  | [l], _, hone =>
      rw [List.intercalate_singleton]
      exact fun hl => hone (by rw [hl])
  | l :: m :: ls, _, _ => simp

/-! ## Split lists -/

/-- What is in a part was in the list that was split. -/
theorem mem_of_mem_splitOnP {p : α → Bool} {c : α} {s l : List α} (hl : l ∈ s.splitOnP p)
    (hc : c ∈ l) : c ∈ s := by
  induction s generalizing l with
  | nil =>
      rw [List.splitOnP_nil, List.mem_singleton] at hl
      exact hl ▸ hc
  | cons a s ih =>
      rw [List.splitOnP_cons_eq_if_modifyHead] at hl
      split at hl
      · rcases List.mem_cons.mp hl with rfl | hl
        · cases hc
        · exact List.mem_cons_of_mem a (ih hl hc)
      · -- the element is the first one of the first part
        cases hs : s.splitOnP p with
        | nil => exact absurd hs (List.splitOnP_ne_nil p s)
        | cons m ms =>
            rw [hs, List.modifyHead_cons, List.mem_cons] at hl
            rw [hs] at ih
            rcases hl with rfl | hl
            · rcases List.mem_cons.mp hc with rfl | hc
              · exact List.mem_cons_self
              · exact List.mem_cons_of_mem a (ih List.mem_cons_self hc)
            · exact List.mem_cons_of_mem a (ih (List.mem_cons_of_mem m hl) hc)

theorem mem_of_mem_splitOn [BEq α] {x c : α} {s l : List α} (hl : l ∈ s.splitOn x)
    (hc : c ∈ l) : c ∈ s := by
  rw [List.splitOn_eq_splitOnP] at hl
  exact mem_of_mem_splitOnP hl hc

section

variable [BEq α] [LawfulBEq α]

/-- A list has only one first occurrence of an element. -/
theorem append_cons_inj_of_not_mem {x : α} {a a' b b' : List α} (ha : x ∉ a) (ha' : x ∉ a')
    (h : a ++ x :: b = a' ++ x :: b') : a = a' ∧ b = b' := by
  have hsplit := congrArg (List.splitOn x) h
  rw [List.splitOn_append_cons_self_of_not_mem ha,
    List.splitOn_append_cons_self_of_not_mem ha'] at hsplit
  have haa' : a = a' := (List.cons.inj hsplit).1
  subst haa'
  exact ⟨rfl, (List.cons.inj (List.append_cancel_left h)).2⟩

/-- What has no separator goes to the first part of what follows it. -/
theorem splitOn_append_of_not_mem {c : α} {z : List α} (hz : c ∉ z) (y : List α) :
    (z ++ y).splitOn c = (y.splitOn c).modifyHead (z ++ ·) := by
  induction z with
  | nil =>
      cases h : y.splitOn c with
      | nil => exact absurd h (List.splitOn_ne_nil c y)
      | cons p ps => simp [h]
  | cons a z ih =>
      rw [List.mem_cons, not_or] at hz
      rw [List.cons_append, List.splitOn_cons_eq_if_modifyHead, if_neg (by simp [Ne.symm hz.1]),
        ih hz.2, List.modifyHead_modifyHead]
      rfl

/-- What has no separator and is put between two lists goes to the last part of the one and the
first part of the other. -/
theorem exists_splitOn_append (c : α) (x y : List α) :
    ∃ init last head tail, x.splitOn c = init ++ [last] ∧ y.splitOn c = head :: tail
      ∧ ∀ z, c ∉ z → (x ++ (z ++ y)).splitOn c = init ++ (last ++ (z ++ head)) :: tail := by
  obtain ⟨head, tail, hy⟩ := List.exists_cons_of_ne_nil (List.splitOn_ne_nil c y)
  have hjoin : ∀ {b z : List α}, c ∉ b → c ∉ z →
      (b ++ (z ++ y)).splitOn c = (b ++ (z ++ head)) :: tail := by
    intro b z hb hz
    have hbz : c ∉ b ++ z := by simp [hb, hz]
    rw [← List.append_assoc, splitOn_append_of_not_mem hbz, hy, List.modifyHead_cons,
      List.append_assoc]
  by_cases hc : c ∈ x
  · -- `last` is what follows the last separator of `x`
    obtain ⟨a, b, hrev, ha⟩ := List.eq_append_cons_of_mem (List.mem_reverse.mpr hc)
    have hx : x = b.reverse ++ c :: a.reverse := by simpa using congrArg List.reverse hrev
    have hlast : c ∉ a.reverse := by simpa using ha
    refine ⟨b.reverse.splitOn c, a.reverse, head, tail, ?_, hy, fun z hz => ?_⟩
    · rw [hx, List.splitOn_append_cons_self, List.splitOn_eq_singleton hlast]
    · rw [hx, List.append_assoc, List.cons_append, List.splitOn_append_cons_self, hjoin hlast hz]
  · exact ⟨[], x, head, tail, List.splitOn_eq_singleton hc, hy, fun z hz => hjoin hc hz⟩

/-- After a separator at its end a list has an empty part. -/
theorem splitOn_of_getLast? {c : α} {x : List α} (h : x = [] ∨ x.getLast? = some c) :
    ∃ init, x.splitOn c = init ++ [[]] := by
  rcases h with rfl | h
  · exact ⟨[], List.splitOn_nil c⟩
  · obtain ⟨a, rfl⟩ := List.getLast?_eq_some_iff.mp h
    exact ⟨a.splitOn c, by rw [List.splitOn_append_cons_self, List.splitOn_nil]⟩

/-- Before a separator at its front a list has an empty part. -/
theorem splitOn_of_head? {c : α} {y : List α} (h : y = [] ∨ y.head? = some c) :
    ∃ tail, y.splitOn c = [] :: tail := by
  rcases h with rfl | h
  · exact ⟨[], List.splitOn_nil c⟩
  · obtain ⟨b, rfl⟩ := List.head?_eq_some_iff.mp h
    exact ⟨b.splitOn c, List.splitOn_append_cons_self_of_not_mem List.not_mem_nil b⟩

/-- Joined parts can be told apart again if none has the separator's first element, and nor has
the rest of the separator. -/
theorem intercalate_cons_inj {x : α} {rest l l' : List α} {ls ls' : List (List α)}
    (hrest : x ∉ rest) (h : ∀ m ∈ l :: ls, x ∉ m) (h' : ∀ m ∈ l' :: ls', x ∉ m)
    (heq : (x :: rest).intercalate (l :: ls) = (x :: rest).intercalate (l' :: ls')) :
    l :: ls = l' :: ls' := by
  -- cut at `x`, every part but the first has the rest of the separator in front
  have hparts : ∀ {m : List α} {ms : List (List α)}, (∀ n ∈ m :: ms, x ∉ n) →
      ((x :: rest).intercalate (m :: ms)).splitOn x = m :: ms.map (rest ++ ·) := by
    intro m ms hms
    rw [intercalate_cons_separator]
    refine List.splitOn_intercalate x (fun n hn => ?_) (List.cons_ne_nil _ _)
    rcases List.mem_cons.mp hn with rfl | hn
    · exact hms n List.mem_cons_self
    · obtain ⟨p, hp, rfl⟩ := List.mem_map.mp hn
      rw [List.mem_append, not_or]
      exact ⟨hrest, hms p (List.mem_cons_of_mem m hp)⟩
  have hsplit := congrArg (List.splitOn x) heq
  rw [hparts h, hparts h'] at hsplit
  obtain ⟨rfl, hls⟩ := List.cons.inj hsplit
  have hcancel : ∀ m n : List α, rest ++ m = rest ++ n → m = n := fun _ _ => List.append_cancel_left
  rw [List.map_inj_right hcancel] at hls
  rw [hls]

/-- No part holds the separator. -/
theorem not_mem_of_mem_splitOn {x : α} {s l : List α} (hl : l ∈ s.splitOn x) : x ∉ l := by
  induction s generalizing l with
  | nil =>
      rw [List.splitOn_nil, List.mem_singleton] at hl
      simp [hl]
  | cons c s ih =>
      rw [List.splitOn_cons_eq_if_modifyHead] at hl
      split at hl
      · rcases List.mem_cons.mp hl with rfl | hl
        · simp
        · exact ih hl
      · next hcx =>
          -- the character goes to the first part, and the others are parts of the rest
          have hne : x ≠ c := fun h => hcx (by simp [h])
          cases hs : s.splitOn x with
          | nil => exact absurd hs (List.splitOn_ne_nil x s)
          | cons p ps =>
              rw [hs, List.modifyHead_cons] at hl
              rcases List.mem_cons.mp hl with rfl | hl
              · have hp : x ∉ p := ih (by simp [hs])
                simp [hne, hp]
              · exact ih (by simp [hs, hl])

end

end

/-! ## Trimmed parts -/

/-- Parts with blanks at no end, joined by a separator that is no blank, have no blanks at the
ends. -/
theorem trimmed_intercalate {x : Char} (hx : isBlank x = false) {ls : List (List Char)}
    (h : ∀ l ∈ ls, Trimmed l) : Trimmed ([x].intercalate ls) := by
  induction ls with
  | nil => exact ⟨by simp, by simp⟩
  | cons l ls ih =>
      have hl : Trimmed l := h l List.mem_cons_self
      have hls := ih fun m hm => h m (List.mem_cons_of_mem _ hm)
      cases ls with
      | nil =>
          rw [List.intercalate_singleton]
          exact hl
      | cons m ls =>
          rw [List.intercalate_cons_cons]
          -- at either end stands a part, or the separator if that part is empty
          generalize [x].intercalate (m :: ls) = t at hls
          constructor
          · cases l with
            | nil => simp [hx]
            | cons c l => simpa using hl.1
          · rw [List.append_assoc, List.singleton_append, List.getLast?_append]
            cases t with
            | nil => simp [hx]
            | cons c t =>
                have hlast := hls.2
                rw [List.getLast?_cons_cons]
                simpa using hlast

/-! ## Lines -/

/-- The line without a carriage return at its end. -/
def withoutReturn (line : List Char) : List Char := (dropSuffix? ['\r'] line).getD line

/-- The lines of a text. Each ends with a line feed, before which a carriage return does not
count. What follows the last line feed is a line unless it is empty. -/
def lines (s : List Char) : List (List Char) :=
  let parts := s.splitOn '\n'
  parts.dropLast.map withoutReturn ++ parts.getLast?.toList.filter (· ≠ [])

theorem withoutReturn_eq_self {line : List Char} (h : line.getLast? ≠ some '\r') :
    withoutReturn line = line := by
  unfold withoutReturn
  cases hr : dropSuffix? ['\r'] line with
  | none => rfl
  | some front =>
      rw [dropSuffix?_eq_some_iff.mp hr, List.getLast?_concat] at h
      exact absurd rfl h

/-- Lines that were joined are read again. -/
theorem lines_intercalate {ls : List (List Char)} {last : List Char} (hlast : last ≠ [])
    (hfeed : ∀ l ∈ ls ++ [last], '\n' ∉ l) (hreturn : ∀ l ∈ ls, l.getLast? ≠ some '\r') :
    lines (['\n'].intercalate (ls ++ [last])) = ls ++ [last] := by
  have hparts : (['\n'].intercalate (ls ++ [last])).splitOn '\n' = ls ++ [last] :=
    List.splitOn_intercalate '\n' hfeed (by simp)
  have hfront : ls.map withoutReturn = ls :=
    (List.map_congr_left fun l hl => withoutReturn_eq_self (hreturn l hl)).trans (List.map_id ls)
  simp [lines, hparts, hfront, hlast]

end MigrationDraft.Text
