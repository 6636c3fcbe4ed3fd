import MigrationDraft.Proofs.Inflection.Rules
import MigrationDraft.Proofs.Inflection.Shift

set_option autoImplicit false

/-!
# Singulars of singulars

A word in which the rules have found its singular has an ending that they leave alone
(`SettledEnding`), so only a table can change it once more. The table of irregular nouns does when
what the rules leave is an irregular plural, as in `peoples`. There are nine such words
(`doubledPlurals`), and the singular of any other name is its own singular
(`singularize_singularize_iff`).
-/

namespace MigrationDraft.Inflection

open Text

/-- Irregular plurals with the ending of a regular one behind them. -/
def doubledPlurals : List String :=
  ["peoples", "childrens", "mens", "womens", "mices", "geeses", "teeths", "feets", "menuses"]

/-! ## Endings that the rules leave alone -/

/-- The word is no plural by its ending. -/
def SettledEnding (w : List Char) : Prop :=
  w.getLast? ≠ some 's' ∨ endsInAny ["ss", "us"] w = true

/-- Every rule but the one for `ss` and `us` takes an `s` off. -/
theorem dropSuffix?_eq_none_of_getLast? {w : List Char} (hw : w.getLast? ≠ some 's')
    (ending : List Char) : dropSuffix? (ending ++ ['s']) w = none := by
  rw [Option.eq_none_iff_forall_ne_some]
  intro stem hstem
  refine hw ?_
  rw [dropSuffix?_eq_some_iff.mp hstem, ← List.append_assoc, List.getLast?_concat]

theorem singularWord_of_settledEnding {w : List Char} (hw : SettledEnding w)
    (hp : PluralByRule w) : singularWord w = w := by
  rw [singularWord_of_byRule hp]
  by_cases hends : endsInAny ["ss", "us"] w = true
  · rw [singularInSsOrUs?, if_pos hends]
    rfl
  · have hs : w.getLast? ≠ some 's' := hw.resolve_right hends
    have hies : dropSuffix? "ies".toList w = none := dropSuffix?_eq_none_of_getLast? hs ['i', 'e']
    have hes : dropSuffix? "es".toList w = none := dropSuffix?_eq_none_of_getLast? hs ['e']
    have hnone : dropSuffix? "s".toList w = none := dropSuffix?_eq_none_of_getLast? hs []
    rw [singularInSsOrUs?, if_neg hends, singularOfIes?, hies, singularOfEs?, hes, singularOfS?,
      hnone]
    rfl

/-- What is left by the rule for `es` ends in a hiss or in `us`. -/
theorem settledEnding_of_losesEs {w : List Char} (h : losesEs w = true) : SettledEnding w := by
  by_cases hs : w.getLast? = some 's'
  · obtain ⟨m, rfl⟩ := List.getLast?_eq_some_iff.mp hs
    refine Or.inr ?_
    rw [losesEs, Bool.or_eq_true, Bool.and_eq_true] at h
    rcases h with ⟨hhiss, -⟩ | hus
    · simp [hisses] at hhiss ⊢
      exact Or.inl hhiss
    · obtain ⟨head, hm, -⟩ := isUsStem_iff.mp hus
      exact endsInAny_iff.mpr ⟨"us", by decide, head, hm⟩
  · exact Or.inl hs

/-! ## What the rules leave of a word -/

/-- How the rules come from a word to its singular. -/
inductive Reduces (w singular : List Char) : Prop where
  /-- The word is a singular already. -/
  | kept (hsingular : singular = w)
  /-- As `cities`. -/
  | toY (m : List Char) (hsingular : singular = m ++ ['y'])
  /-- As `boxes`. -/
  | withoutEs (hw : w = singular ++ ['e', 's']) (hsingular : losesEs singular = true)
  /-- As `posts`. -/
  | withoutS (hw : w = singular ++ ['s']) (hsingular : singular.getLast? ≠ some 's')

theorem reduces_append_s {w : List Char} (hw : w ≠ []) (hp : PluralByRule (w ++ ['s'])) :
    Reduces (w ++ ['s']) (singularWord (w ++ ['s'])) := by
  by_cases hu : w.getLast? = some 'u'
  · exact .kept (singularWord_us hu hp)
  · by_cases hs : w.getLast? = some 's'
    · -- a word in `ss` is kept as one in `us` is
      have hends : endsInAny ["s", "u"] w = true := by simp [hs]
      refine .kept ?_
      rw [singularWord_append_s hw hp, if_pos hends]
    · rcases ie_or_e_or_other w with ⟨m, rfl⟩ | ⟨m, rfl, hi⟩ | he
      · rw [singularWord_ies hp]
        split
        · exact .withoutS rfl (by simp)
        · split
          · next hm =>
              rw [hm]
              exact .withoutS rfl (by decide)
          · exact .toY m rfl
      · rw [singularWord_es hi hp]
        cases hloses : losesEs m with
        | true => exact .withoutEs (by simp) hloses
        | false => exact .withoutS rfl (by simp)
      · rw [singularWord_s hw he hs hu hp]
        exact .withoutS rfl hs

theorem reduces_singularWord {w : List Char} (hp : PluralByRule w) :
    Reduces w (singularWord w) := by
  by_cases hs : w.getLast? = some 's'
  · obtain ⟨m, rfl⟩ := List.getLast?_eq_some_iff.mp hs
    cases m with
    | nil => exact .kept (by decide)
    | cons c m => exact reduces_append_s (by simp) hp
  · exact .kept (singularWord_of_settledEnding (Or.inl hs) hp)

/-! ## The second time -/

/-- A word that the rules leave alone is changed only if it is an irregular plural. -/
theorem mem_plurals_of_singularWord_ne {q : List Char} (hq : SettledEnding q)
    (h : singularWord q ≠ q) : String.ofList q ∈ irregularNouns.map Prod.snd := by
  by_contra hmem
  have hvaries : isInvariable q = false := by
    rw [← Bool.not_eq_true]
    exact fun hinvariable => h (if_pos hinvariable)
  exact h (singularWord_of_settledEnding hq
    ⟨hvaries, irregularSingular?_eq_none_iff.mpr hmem⟩)

/-- No irregular plural ends in `y`. -/
theorem getLast?_ne_y_of_mem_plurals :
    ∀ p ∈ irregularNouns.map Prod.snd, p.toList.getLast? ≠ some 'y' := by decide

/-- Of the irregular plurals only `menus` could have lost an `es`. -/
theorem append_es_mem_doubledPlurals :
    ∀ p ∈ irregularNouns.map Prod.snd, losesEs p.toList = true → p ++ "es" ∈ doubledPlurals := by
  decide

theorem append_s_mem_doubledPlurals :
    ∀ p ∈ irregularNouns.map Prod.snd, p.toList.getLast? ≠ some 's' →
      p ++ "s" ∈ doubledPlurals := by
  decide

/-- A word that the rules reduce to one with another singular is a doubled plural. -/
theorem Reduces.mem_doubledPlurals {w : List Char} (h : Reduces w (singularWord w))
    (hne : singularWord (singularWord w) ≠ singularWord w) :
    String.ofList w ∈ doubledPlurals := by
  -- the singular is an irregular plural, so the word is one with the ending that was taken off
  generalize hsingular : singularWord w = q at h hne
  cases h with
  | kept hq =>
      refine absurd ?_ hne
      rw [hq, hsingular, hq]
  | toY m hq =>
      have hlast : q.getLast? = some 'y' := by rw [hq, List.getLast?_concat]
      have hmem := mem_plurals_of_singularWord_ne (Or.inl (by simp [hlast])) hne
      refine absurd ?_ (getLast?_ne_y_of_mem_plurals _ hmem)
      rw [String.toList_ofList, hlast]
  | withoutEs hw hq =>
      have hmem := mem_plurals_of_singularWord_ne (settledEnding_of_losesEs hq) hne
      have happend : String.ofList w = String.ofList q ++ "es" := by
        rw [hw]
        exact String.ofList_append
      rw [happend]
      exact append_es_mem_doubledPlurals _ hmem (by rwa [String.toList_ofList])
  | withoutS hw hq =>
      have hmem := mem_plurals_of_singularWord_ne (Or.inl hq) hne
      have happend : String.ofList w = String.ofList q ++ "s" := by
        rw [hw]
        exact String.ofList_append
      rw [happend]
      exact append_s_mem_doubledPlurals _ hmem (by rwa [String.toList_ofList])

/-- The singular of a singular, word by word. -/
theorem singularWord_singularWord_iff (w : List Char) :
    singularWord (singularWord w) = singularWord w ↔ String.ofList w ∉ doubledPlurals := by
  constructor
  · intro h hmem
    have htable : ∀ p ∈ doubledPlurals,
        singularWord (singularWord p.toList) ≠ singularWord p.toList := by decide
    refine htable _ hmem ?_
    rwa [String.toList_ofList]
  · -- uncountable and irregular words give singulars that stay, so the rules are left
    intro hmem
    by_contra hne
    cases hvaries : isInvariable w with
    | true =>
        have hsame : singularWord w = w := if_pos hvaries
        exact hne (by rw [hsame, hsame])
    | false =>
        cases hirregular : irregularSingular? w with
        | some q =>
            have htable : ∀ e ∈ irregularNouns, singularWord e.1.toList = e.1.toList := by decide
            have hq : singularWord w = q := by
              rw [singularWord, hvaries, hirregular]
              rfl
            obtain ⟨e, he, rfl⟩ := Option.map_eq_some_iff.mp hirregular
            exact hne (by rw [hq, htable e (List.mem_of_find?_eq_some he)])
        | none => exact hmem ((reduces_singularWord ⟨hvaries, hirregular⟩).mem_doubledPlurals hne)

/-! ## Names -/

/-- The singular of a word is a word. -/
theorem not_mem_singularWord {l : List Char} (h : '_' ∉ l) : '_' ∉ singularWord l := by
  intro hmem
  have hcases := (shift_singularWord l).mem_or_isAlpha (c := '_') (by rwa [String.toList_ofList])
  rw [String.toList_ofList] at hcases
  rcases hcases with hl | hletter
  · exact h hl
  · exact absurd hletter (by decide)

/-- **The singular of a name is its own singular, unless the last word is a doubled plural.** -/
theorem singularize_singularize_iff (name : String) :
    singularize (singularize name) = singularize name
      ↔ String.ofList (lastWord name.toList) ∉ doubledPlurals := by
  rw [← singularWord_singularWord_iff, singularize, singularize, String.toList_ofList,
    ← String.toList_inj, String.toList_ofList, String.toList_ofList]
  rcases one_word_or_append name.toList with h | ⟨front, l, h, hname⟩
  · rw [lastWord_of_not_mem h, onLastWord_of_not_mem singularWord h,
      onLastWord_of_not_mem singularWord (not_mem_singularWord h)]
  · rw [hname, lastWord_append_cons front h, onLastWord_append_cons singularWord front h,
      onLastWord_append_cons singularWord front (not_mem_singularWord h),
      List.append_right_inj, List.cons.injEq, and_iff_right rfl]

/-- What is left of a doubled plural is a plural itself. -/
example :
    singularize "lost_peoples" = "lost_people"
      ∧ singularize "lost_people" = "lost_person" := by
  decide +kernel

end MigrationDraft.Inflection
