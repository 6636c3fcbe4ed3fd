import MigrationDraft.Inflection
import MigrationDraft.Proofs.Text.Splitting
import MigrationDraft.Proofs.Text.LetterCase

set_option autoImplicit false

/-!
# Names word by word

Inflection leaves all of a name but its last word as it is. A name is either one word or some
text, an underscore and its last word, and `onLastWord f` applies `f` to that word and keeps
what stands before it. Two inflections in a row give the name back exactly when they give its
last word back (`onLastWord_onLastWord_eq_self_iff`).

A class name is made word by word. It has no opening brace that the migration's name does not
have: capital letters come from a table, and no entry of the table leads to a brace. The class
name of two names with an underscore between them is their class names side by side.
-/

namespace MigrationDraft.Inflection

/-! ## The last word -/

/-- What follows the last underscore of a name, the whole name where there is none. -/
def lastWord (w : List Char) : List Char := (w.splitOn '_').getLastD []

/-- A name is one word, or ends with an underscore and one word. -/
theorem one_word_or_append (w : List Char) :
    '_' ∉ w ∨ ∃ front l, '_' ∉ l ∧ w = front ++ '_' :: l := by
  by_cases h : '_' ∈ w
  · -- the last underscore of the name is the first one from behind
    obtain ⟨a, b, hab, ha⟩ := List.eq_append_cons_of_mem (List.mem_reverse.mpr h)
    refine Or.inr ⟨b.reverse, a.reverse, by simpa using ha, ?_⟩
    have hw := congrArg List.reverse hab
    simpa using hw
  · exact Or.inl h

theorem lastWord_of_not_mem {w : List Char} (h : '_' ∉ w) : lastWord w = w := by
  rw [lastWord, List.splitOn_eq_singleton h]
  rfl

theorem lastWord_append_cons (front : List Char) {l : List Char} (h : '_' ∉ l) :
    lastWord (front ++ '_' :: l) = l := by
  rw [lastWord, List.splitOn_append_cons_self, List.splitOn_eq_singleton h, List.getLastD_concat]

theorem not_mem_lastWord (w : List Char) : '_' ∉ lastWord w := by
  rcases one_word_or_append w with h | ⟨front, l, h, rfl⟩
  · rw [lastWord_of_not_mem h]
    exact h
  · rw [lastWord_append_cons front h]
    exact h

/-! ## A change of the last word -/

theorem modifyLast_concat {α : Type} (f : α → α) (as : List α) (a : α) :
    modifyLast f (as ++ [a]) = as ++ [f a] := by
  induction as with
  | nil => rfl
  | cons b as ih =>
      cases as with
      | nil => rfl
      | cons c as => exact congrArg (b :: ·) ih

theorem onLastWord_of_not_mem (f : List Char → List Char) {w : List Char} (h : '_' ∉ w) :
    onLastWord f w = f w := by
  rw [onLastWord, List.splitOn_eq_singleton h]
  exact List.intercalate_singleton

/-- What stands before the last word stays. -/
theorem onLastWord_append_cons (f : List Char → List Char) (front : List Char) {l : List Char}
    (h : '_' ∉ l) : onLastWord f (front ++ '_' :: l) = front ++ '_' :: f l := by
  calc onLastWord f (front ++ '_' :: l)
      = ['_'].intercalate (modifyLast f (front.splitOn '_' ++ [l])) := by
        rw [onLastWord, List.splitOn_append_cons_self, List.splitOn_eq_singleton h]
    _ = ['_'].intercalate (front.splitOn '_') ++ (['_'] ++ f l) := by
        rw [modifyLast_concat, Text.intercalate_concat (List.splitOn_ne_nil '_' front)]
    _ = front ++ '_' :: f l := by
        rw [List.intercalate_splitOn, List.singleton_append]

/-- A second change works on what the first one made of the last word, if that is still one
word. -/
theorem onLastWord_onLastWord (g : List Char → List Char) {f : List Char → List Char}
    (hf : ∀ l, '_' ∉ l → '_' ∉ f l) (w : List Char) :
    onLastWord g (onLastWord f w) = onLastWord (fun l => g (f l)) w := by
  rcases one_word_or_append w with h | ⟨front, l, h, rfl⟩
  · rw [onLastWord_of_not_mem f h, onLastWord_of_not_mem g (hf w h), onLastWord_of_not_mem _ h]
  · rw [onLastWord_append_cons f front h, onLastWord_append_cons g front (hf l h),
      onLastWord_append_cons _ front h]

/-- A change leaves the name as it is exactly when it does so to the last word. -/
theorem onLastWord_eq_self_iff (f : List Char → List Char) (w : List Char) :
    onLastWord f w = w ↔ f (lastWord w) = lastWord w := by
  rcases one_word_or_append w with h | ⟨front, l, h, rfl⟩
  · rw [onLastWord_of_not_mem f h, lastWord_of_not_mem h]
  · rw [onLastWord_append_cons f front h, lastWord_append_cons front h, List.append_right_inj,
      List.cons.injEq, and_iff_right rfl]

/-- Two changes give the name back exactly when they give its last word back. -/
theorem onLastWord_onLastWord_eq_self_iff (g : List Char → List Char)
    {f : List Char → List Char} (hf : ∀ l, '_' ∉ l → '_' ∉ f l) (w : List Char) :
    onLastWord g (onLastWord f w) = w ↔ g (f (lastWord w)) = lastWord w := by
  rw [onLastWord_onLastWord g hf]
  exact onLastWord_eq_self_iff _ w

/-! ## Class names -/

open Text

/-- A class name has no opening brace that the migration's name does not have. -/
theorem brace_not_mem_pascalCase {name : String} (h : '\x7b' ∉ name.toList) :
    '\x7b' ∉ (pascalCase name).toList := by
  rw [pascalCase, String.toList_ofList]
  intro hmem
  obtain ⟨word, hword, hmem⟩ := List.mem_flatMap.mp hmem
  cases word with
  | nil => cases hmem
  | cons c word =>
      rcases List.mem_append.mp hmem with hupper | hrest
      · have hc : c = '\x7b' := eq_brace_of_mem_upperChar hupper
        exact h (mem_of_mem_splitOnP hword (hc ▸ List.mem_cons_self))
      · exact h (mem_of_mem_splitOnP hword (List.mem_cons_of_mem c hrest))

/-- A word ends at an underscore, so the words of the two sides are named apart. -/
theorem pascalCase_append_underscore (a b : String) :
    pascalCase (a ++ "_" ++ b) = pascalCase a ++ pascalCase b := by
  have hlist : (a ++ "_" ++ b).toList = a.toList ++ '_' :: b.toList := by simp
  rw [pascalCase, hlist, List.splitOnP_append_cons a.toList b.toList (by decide),
    List.flatMap_append, String.ofList_append]
  rfl

end MigrationDraft.Inflection
