import MigrationDraft.Inflection

set_option autoImplicit false

/-!
# Words by their endings and the tables

What the tests that the inflection rules make say about a word: that it has a certain ending,
or that it is in one of the tables of exceptions.
-/

namespace MigrationDraft.Inflection

open Text

/-! ## Endings -/

def EndsIn (endings : List String) (w : String) : Prop := ∃ e ∈ endings, ∃ stem, w = stem ++ e

/-- The beginning of a word that has letters and no vowel at its end. -/
def ConsonantStem (w : String) : Prop := w ≠ "" ∧ ¬ EndsIn ["a", "e", "i", "o", "u"] w

/-- The endings to which the plural adds `es` for good. -/
def hisses : List String := ["ss", "x", "zz", "ch", "sh"]

/-- The endings to which the plural adds `es`. -/
def sibilants : List String := ["s", "x", "z", "ch", "sh"]

theorem ofList_eq_append_iff {w : List Char} {s e : String} :
    String.ofList w = s ++ e ↔ w = s.toList ++ e.toList := by
  rw [← String.toList_inj, String.toList_ofList, String.toList_append]

theorem isIn_iff {words : List String} {w : List Char} :
    isIn words w = true ↔ String.ofList w ∈ words := by
  rw [isIn, List.any_eq_true]
  constructor
  · rintro ⟨s, hs, hw⟩
    rwa [← beq_iff_eq.mp hw, String.ofList_toList]
  · intro h
    exact ⟨_, h, by simp⟩

theorem endsInAny_iff {endings : List String} {w : List Char} :
    endsInAny endings w = true ↔ EndsIn endings (String.ofList w) := by
  rw [endsInAny, List.any_eq_true]
  refine exists_congr fun e => and_congr_right fun _ => ?_
  rw [endsWith_iff]
  constructor
  · rintro ⟨stem, hw⟩
    exact ⟨String.ofList stem, by rw [ofList_eq_append_iff, String.toList_ofList, hw]⟩
  · rintro ⟨stem, hw⟩
    exact ⟨stem.toList, ofList_eq_append_iff.mp hw⟩

theorem endsInVowel_eq (w : List Char) :
    endsInVowel w = endsInAny ["a", "e", "i", "o", "u"] w := by
  rcases List.eq_nil_or_concat w with rfl | ⟨m, c, rfl⟩
  · rfl
  · rw [List.concat_eq_append, endsInVowel, List.getLast?_concat]
    simp

theorem consonantStem_iff {m : List Char} :
    ConsonantStem (String.ofList m) ↔ m ≠ [] ∧ endsInVowel m = false := by
  rw [ConsonantStem, ← endsInAny_iff, ← endsInVowel_eq, Bool.not_eq_true]
  refine and_congr_left fun _ => not_congr ?_
  rw [← String.toList_inj, String.toList_ofList]
  rfl

theorem isUsStem_iff {m : List Char} :
    isUsStem m = true ↔ ∃ h, String.ofList m = h ++ "us" ∧ ConsonantStem h := by
  rw [isUsStem]
  constructor
  · intro hm
    cases hh : dropSuffix? "us".toList m with
    | none => rw [hh] at hm; cases hm
    | some h =>
        rw [hh] at hm
        refine ⟨String.ofList h, ?_, consonantStem_iff.mpr (by simpa using hm)⟩
        rw [ofList_eq_append_iff, String.toList_ofList, dropSuffix?_eq_some_iff.mp hh]
  · rintro ⟨h, hm, hh⟩
    rw [dropSuffix?_eq_some_iff.mpr (ofList_eq_append_iff.mp hm)]
    rw [← String.ofList_toList (s := h), consonantStem_iff] at hh
    simpa using hh

/-! ## Tables -/

theorem isInvariable_iff {w : List Char} :
    isInvariable w = true ↔ String.ofList w = "" ∨ String.ofList w ∈ uncountableNouns := by
  rw [isInvariable, Bool.or_eq_true, isIn_iff, List.isEmpty_iff, ← String.toList_inj,
    String.toList_ofList]
  rfl

/-- A search that finds nothing: no entry has the word. -/
theorem find?_eq_none_iff_not_mem {entries : List (String × String)}
    (word : String × String → String) {w : List Char} :
    entries.find? (fun e => (word e).toList == w) = none
      ↔ String.ofList w ∉ entries.map word := by
  rw [List.find?_eq_none, List.mem_map]
  constructor
  · rintro h ⟨e, he, hw⟩
    exact h e he (by rw [hw, String.toList_ofList, beq_self_eq_true])
  · intro h e he hw
    exact h ⟨e, he, by rw [← beq_iff_eq.mp hw, String.ofList_toList]⟩

theorem irregularPlural?_eq_none_iff {w : List Char} :
    irregularPlural? w = none ↔ String.ofList w ∉ irregularNouns.map Prod.fst :=
  Option.map_eq_none_iff.trans (find?_eq_none_iff_not_mem Prod.fst)

theorem irregularSingular?_eq_none_iff {p : List Char} :
    irregularSingular? p = none ↔ String.ofList p ∉ irregularNouns.map Prod.snd :=
  Option.map_eq_none_iff.trans (find?_eq_none_iff_not_mem Prod.snd)

end MigrationDraft.Inflection
