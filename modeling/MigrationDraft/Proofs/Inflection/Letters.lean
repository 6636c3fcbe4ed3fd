import MigrationDraft.Inflection
import MigrationDraft.Proofs.Text.Splitting

set_option autoImplicit false

/-!
# The characters of an inflected name

Inflection changes letters only. The characters of a plural that are of a kind with no letter in
it are those of the name, in the same order and as often (`filter_pluralize`).
-/

namespace MigrationDraft.Inflection

open Text

/-! ## A kind of characters without letters -/

section

variable {p : Char → Bool} (hp : ∀ c, c.isAlpha = true → p c = false)

include hp

theorem filter_letters {w : List Char} (h : w.all Char.isAlpha = true) : w.filter p = [] := by
  rw [List.filter_eq_nil_iff]
  intro c hc
  simp [hp c (List.all_eq_true.mp h c hc)]

theorem filter_irregularPlural? {w q : List Char} (h : irregularPlural? w = some q) :
    q.filter p = w.filter p := by
  obtain ⟨e, he, rfl⟩ := Option.map_eq_some_iff.mp h
  have hletters : ∀ e ∈ irregularNouns,
      e.1.toList.all Char.isAlpha = true ∧ e.2.toList.all Char.isAlpha = true := by decide
  obtain ⟨hsingular, hplural⟩ := hletters e (List.mem_of_find?_eq_some he)
  have hfound : (e.1.toList == w) = true := by simpa using List.find?_some he
  rw [filter_letters hp hplural, ← beq_iff_eq.mp hfound, filter_letters hp hsingular]

theorem filter_pluralInIes? {w q : List Char} (h : pluralInIes? w = some q) :
    q.filter p = w.filter p := by
  obtain ⟨stem, hstem, h⟩ := Option.bind_eq_some_iff.mp h
  rw [dropSuffix?_eq_some_iff.mp hstem]
  split at h
  · cases h
    rw [List.filter_append, List.filter_append, filter_letters hp (w := "ies".toList) (by decide),
      filter_letters hp (w := "y".toList) (by decide)]
  · cases h

theorem filter_regularPlural (w : List Char) : (regularPlural w).filter p = w.filter p := by
  have hes : "es".toList.filter p = [] := filter_letters hp (by decide)
  have hs : "s".toList.filter p = [] := filter_letters hp (by decide)
  unfold regularPlural
  split
  · rw [List.filter_append, hes, List.append_nil]
  · rw [List.filter_append, hs, List.append_nil]

theorem filter_pluralWord (w : List Char) : (pluralWord w).filter p = w.filter p := by
  unfold pluralWord
  split
  · rfl
  · cases hirregular : irregularPlural? w with
    | some q => exact filter_irregularPlural? hp hirregular
    | none =>
        cases hies : pluralInIes? w with
        | some q => exact filter_pluralInIes? hp hies
        | none => exact filter_regularPlural hp w

end

/-! ## Names of several words -/

theorem filter_intercalate (p : Char → Bool) (sep : List Char) (ls : List (List Char)) :
    (sep.intercalate ls).filter p = (sep.filter p).intercalate (ls.map (List.filter p)) := by
  induction ls with
  | nil => rfl
  | cons l ls ih =>
      cases ls with
      | nil => simp
      | cons m ls =>
          rw [List.intercalate_cons_cons, List.filter_append, List.filter_append, ih]
          simp [List.intercalate_cons_cons]

theorem map_modifyLast {α β : Type} {f : α → α} {g : α → β} (h : ∀ a, g (f a) = g a)
    (l : List α) : (modifyLast f l).map g = l.map g := by
  induction l using modifyLast.induct with
  | case1 => rfl
  | case2 a => simp [modifyLast, h]
  | case3 a b l ih => rw [modifyLast, List.map_cons, ih, ← List.map_cons]

/-- A change of words that keeps the characters of a kind keeps those of a name. -/
theorem filter_onLastWord {p : Char → Bool} {f : List Char → List Char}
    (hf : ∀ w, (f w).filter p = w.filter p) (w : List Char) :
    (onLastWord f w).filter p = w.filter p := by
  rw [onLastWord, filter_intercalate, map_modifyLast hf, ← filter_intercalate,
    List.intercalate_splitOn]

/-- The characters of a kind without letters are the same in the plural of a name. -/
theorem filter_pluralize {p : Char → Bool} (hp : ∀ c, c.isAlpha = true → p c = false)
    (name : String) : (pluralize name).toList.filter p = name.toList.filter p := by
  rw [pluralize, String.toList_ofList]
  exact filter_onLastWord (filter_pluralWord hp) name.toList

end MigrationDraft.Inflection
