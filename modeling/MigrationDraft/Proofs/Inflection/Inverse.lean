import MigrationDraft.Proofs.Inflection.Words
import MigrationDraft.Proofs.Inflection.Letters
import MigrationDraft.Proofs.Inflection.Rules

set_option autoImplicit false

/-!
# Nouns that the singular gives back from the plural

The rules for the plural and those for the singular are two cascades with tables of exceptions
of their own, and they do not undo each other on every word: the plural of `serie` is
uncountable, that of `live` is the plural of `life`, and that of `axe` reads as one of `ax`. The
words on which they do are described here by their endings and the tables alone
(`singularize_pluralize_iff`).

The description is a disjunction over the endings of a noun, the plural decides between three
forms. So the description is first brought to what it says for each form, where one rule for
the singular is to be compared with it.
-/

namespace MigrationDraft.Inflection

open Text

/-! ## Reversible nouns -/

/-- The nouns whose plural by the rules is undone by the rules for the singular. -/
inductive Reversible (w : String) : Prop where
  /-- As `city`, but not `py`, the plural of which is that of `pie`. -/
  | consonantY (m : String) (hw : w = m ++ "y") (hm : ConsonantStem m)
      (hie : m ++ "ie" ∉ ieNouns)
  /-- As `box`, but not `cach`, the plural of which is that of `cache`. -/
  | hissing (hw : EndsIn hisses w) (hche : w ++ "e" ∉ cheNouns)
  /-- As `status`. -/
  | us (h : String) (hw : w = h ++ "us") (hh : ConsonantStem h)
  /-- As `post`, but not `sortie`, `axe` or `fuse`. -/
  | plain (hends : ¬ EndsIn ("u" :: sibilants) w)
      (hy : ∀ m, w = m ++ "y" → ¬ ConsonantStem m)
      (hie : EndsIn ["ie"] w → w ∈ ieNouns ∨ w = "ie")
      (hche : ∀ m, w = m ++ "e" → EndsIn hisses m → w ∈ cheNouns)
      (huse : ∀ h, w = h ++ "use" → ¬ ConsonantStem h)

/-! ## The rules against the description -/

/-- A noun that is left by all rules for its ending. -/
structure LosesS (w : List Char) : Prop where
  not_sibilant : endsInAny sibilants w = false
  not_u : w.getLast? ≠ some 'u'
  not_y : pluralInIes? w = none
  ie : ∀ m, w = m ++ ['i', 'e'] → isIn ieNouns w = true ∨ m = []
  e : ∀ m, w = m ++ ['e'] → losesEs m = false

theorem losesEs_iff {w : List Char} :
    losesEs w = true ↔ (EndsIn hisses (String.ofList w) ∧ String.ofList w ++ "e" ∉ cheNouns)
      ∨ ∃ h, String.ofList w = h ++ "us" ∧ ConsonantStem h := by
  have hche : String.ofList (w ++ ['e']) = String.ofList w ++ "e" := String.ofList_append
  rw [losesEs, Bool.or_eq_true, Bool.and_eq_true, Bool.not_eq_true', isUsStem_iff, endsInAny_iff,
    ← hche, ← isIn_iff, Bool.not_eq_true]

theorem pluralInIes?_eq_none_iff {w : List Char} :
    pluralInIes? w = none ↔ ∀ m, String.ofList w = m ++ "y" → ¬ ConsonantStem m := by
  rw [Option.eq_none_iff_forall_ne_some]
  constructor
  · intro h m hw hm
    rw [← String.ofList_toList (s := m), consonantStem_iff] at hm
    have hies := pluralInIes?_eq_some hm
    rw [show m.toList ++ ['y'] = w from (ofList_eq_append_iff.mp hw).symm] at hies
    exact h _ hies
  · intro h p hp
    obtain ⟨m, hw, hm, -⟩ := exists_of_pluralInIes? hp
    refine h (String.ofList m) ?_ (consonantStem_iff.mpr hm)
    rw [hw]
    exact String.ofList_append

theorem forall_losesEs_eq_false_iff {w : List Char} :
    (∀ m, w = m ++ ['e'] → losesEs m = false)
      ↔ (∀ m, String.ofList w = m ++ "e" → EndsIn hisses m → String.ofList w ∈ cheNouns)
        ∧ ∀ h, String.ofList w = h ++ "use" → ¬ ConsonantStem h := by
  constructor
  · intro h
    constructor
    · intro m hw hm
      have hloses := h m.toList (ofList_eq_append_iff.mp hw)
      rw [← Bool.not_eq_true, losesEs_iff, not_or, String.ofList_toList, ← hw] at hloses
      exact Decidable.not_not.mp fun hche => hloses.1 ⟨hm, hche⟩
    · -- a word in `use` is one in `e` after a stem in `us`
      intro m hw hm
      have hloses := h (m.toList ++ ['u', 's']) (by simpa using ofList_eq_append_iff.mp hw)
      rw [← Bool.not_eq_true, losesEs_iff, not_or] at hloses
      exact hloses.2 ⟨m, ofList_eq_append_iff.mpr rfl, hm⟩
  · rintro ⟨hche, huse⟩ m hw
    have hwe : String.ofList w = String.ofList m ++ "e" := by
      rw [hw]
      exact String.ofList_append
    rw [← Bool.not_eq_true, losesEs_iff, not_or]
    constructor
    · rintro ⟨hm, hnot⟩
      exact hnot (hwe ▸ hche _ hwe hm)
    · rintro ⟨h, hm, hh⟩
      refine huse h ?_ hh
      rw [hwe, hm, String.append_assoc]
      rfl

theorem losesS_iff {w : List Char} :
    LosesS w ↔ ¬ EndsIn ("u" :: sibilants) (String.ofList w)
      ∧ (∀ m, String.ofList w = m ++ "y" → ¬ ConsonantStem m)
      ∧ (EndsIn ["ie"] (String.ofList w) → String.ofList w ∈ ieNouns ∨ String.ofList w = "ie")
      ∧ (∀ m, String.ofList w = m ++ "e" → EndsIn hisses m → String.ofList w ∈ cheNouns)
      ∧ ∀ h, String.ofList w = h ++ "use" → ¬ ConsonantStem h := by
  have hends : ¬ EndsIn ("u" :: sibilants) (String.ofList w)
      ↔ w.getLast? ≠ some 'u' ∧ endsInAny sibilants w = false := by
    rw [← endsInAny_iff, Bool.not_eq_true]
    show (endsWith ['u'] w || endsInAny sibilants w) = false ↔ _
    rw [Bool.or_eq_false_iff, endsWith_singleton, decide_eq_false_iff_not]
  have hie : (∀ m, w = m ++ ['i', 'e'] → isIn ieNouns w = true ∨ m = [])
      ↔ (EndsIn ["ie"] (String.ofList w)
        → String.ofList w ∈ ieNouns ∨ String.ofList w = "ie") := by
    have hshort : ∀ m, w = m ++ ['i', 'e'] → (m = [] ↔ String.ofList w = "ie") := by
      rintro m rfl
      rw [← String.toList_inj, String.toList_ofList]
      show m = [] ↔ m ++ ['i', 'e'] = ['i', 'e']
      rw [List.append_left_eq_self]
    rw [← isIn_iff]
    constructor
    · rintro h ⟨e, he, stem, hw⟩
      rw [List.mem_singleton.mp he] at hw
      have hw' : w = stem.toList ++ ['i', 'e'] := ofList_eq_append_iff.mp hw
      exact (h _ hw').imp id (hshort _ hw').mp
    · intro h m hw
      refine (h ⟨"ie", List.mem_singleton_self _, String.ofList m, ?_⟩).imp id (hshort m hw).mpr
      rw [hw]
      exact String.ofList_append
  -- each condition on the text is now one on its letters, which is a field of the structure
  rw [← pluralInIes?_eq_none_iff, ← forall_losesEs_eq_false_iff, ← hie, hends]
  constructor
  · intro h
    exact ⟨⟨h.not_u, h.not_sibilant⟩, h.not_y, h.ie, h.e⟩
  · rintro ⟨⟨hu, hs⟩, hy, hie, he⟩
    exact ⟨hs, hu, hy, hie, he⟩

theorem reversible_iff {w : List Char} :
    Reversible (String.ofList w)
      ↔ (∃ m, w = m ++ ['y'] ∧ (m ≠ [] ∧ endsInVowel m = false)
          ∧ isIn ieNouns (m ++ ['i', 'e']) = false)
        ∨ losesEs w = true ∨ LosesS w := by
  have hie : ∀ m : List Char, isIn ieNouns (m ++ ['i', 'e']) = false
      ↔ String.ofList m ++ "ie" ∉ ieNouns := by
    intro m
    have happend : String.ofList (m ++ ['i', 'e']) = String.ofList m ++ "ie" :=
      String.ofList_append
    rw [← happend, ← isIn_iff, Bool.not_eq_true]
  constructor
  · intro h
    cases h with
    | consonantY m hw hm hnot =>
        rw [← String.ofList_toList (s := m)] at hm hnot
        exact Or.inl ⟨m.toList, ofList_eq_append_iff.mp hw, consonantStem_iff.mp hm,
          (hie _).mpr hnot⟩
    | hissing hw hche => exact Or.inr (Or.inl (losesEs_iff.mpr (Or.inl ⟨hw, hche⟩)))
    | us h hw hh => exact Or.inr (Or.inl (losesEs_iff.mpr (Or.inr ⟨h, hw, hh⟩)))
    | plain hends hy hie hche huse =>
        exact Or.inr (Or.inr (losesS_iff.mpr ⟨hends, hy, hie, hche, huse⟩))
  · rintro (⟨m, hw, hm, hnot⟩ | h | h)
    · refine .consonantY (String.ofList m) ?_ (consonantStem_iff.mpr hm) ((hie m).mp hnot)
      rw [hw]
      exact String.ofList_append
    · rcases losesEs_iff.mp h with ⟨hw, hche⟩ | ⟨h, hw, hh⟩
      · exact .hissing hw hche
      · exact .us h hw hh
    · obtain ⟨hends, hy, hie, hche, huse⟩ := losesS_iff.mp h
      exact .plain hends hy hie hche huse

/-! ### The description on each form of the plural -/

theorem reversible_consonantY_iff {m : List Char} (hm : m ≠ [] ∧ endsInVowel m = false) :
    Reversible (String.ofList (m ++ ['y'])) ↔ isIn ieNouns (m ++ ['i', 'e']) = false := by
  have hloses : losesEs (m ++ ['y']) = false :=
    losesEs_eq_false (c := 'y') (by decide) List.getLast?_concat
  have hnot : ¬ LosesS (m ++ ['y']) := fun h => by
    have hy := h.not_y
    rw [pluralInIes?_eq_some hm] at hy
    cases hy
  rw [reversible_iff]
  simp [hloses, hnot, hm]

theorem reversible_sibilant_iff {w : List Char} (hs : endsInAny sibilants w = true) :
    Reversible (String.ofList w) ↔ losesEs w = true := by
  have hnot : ¬ LosesS w := fun h => by
    rw [h.not_sibilant] at hs
    cases hs
  have hy : ∀ m, w ≠ m ++ ['y'] := fun m hm =>
    getLast?_ne_of_sibilant (c := 'y') hs (by decide) (by rw [hm, List.getLast?_concat])
  rw [reversible_iff]
  simp [hnot, hy]

theorem reversible_of_not_sibilant_iff {w : List Char} (hs : endsInAny sibilants w = false)
    (hy : pluralInIes? w = none) : Reversible (String.ofList w) ↔ LosesS w := by
  have hloses : ¬ losesEs w = true := fun h => by
    rw [sibilant_of_losesEs h] at hs
    cases hs
  have hnotY : ¬ ∃ m, w = m ++ ['y'] ∧ (m ≠ [] ∧ endsInVowel m = false)
      ∧ isIn ieNouns (m ++ ['i', 'e']) = false := by
    rintro ⟨m, rfl, hm, -⟩
    rw [pluralInIes?_eq_some hm] at hy
    cases hy
  rw [reversible_iff, or_iff_right hnotY, or_iff_right hloses]

/-! ## Back and forth -/

/-- A noun that takes an `s` loses it again exactly if no rule for its ending is in the way. -/
theorem singularWord_append_s_iff {w : List Char} (hw : w ≠ [])
    (hs : endsInAny sibilants w = false) (hy : pluralInIes? w = none)
    (hp : PluralByRule (w ++ ['s'])) : singularWord (w ++ ['s']) = w ↔ LosesS w := by
  constructor
  · intro h
    refine { not_sibilant := hs, not_u := ?_, not_y := hy, ie := ?_, e := ?_ }
    -- a word that broke one of the conditions would come back as another one
    · intro hu
      rw [singularWord_us hu hp] at h
      simp at h
    · rintro m rfl
      rw [singularWord_ies hp] at h
      by_cases hie : isIn ieNouns (m ++ ['i', 'e']) = true
      · exact Or.inl hie
      · by_cases hm : m = []
        · exact Or.inr hm
        · simp [hie, hm] at h
    · rintro m rfl
      by_cases hi : m.getLast? = some 'i'
      · exact losesEs_eq_false (by decide) hi
      · rw [singularWord_es hi hp] at h
        cases hloses : losesEs m with
        | false => rfl
        | true => simp [hloses] at h
  · intro h
    have hnotS : w.getLast? ≠ some 's' := by
      intro hlast
      obtain ⟨m, rfl⟩ := List.getLast?_eq_some_iff.mp hlast
      simp [sibilants] at hs
    -- the rules for `ies` and `es` are tried in front of the one for `s`
    rcases ie_or_e_or_other w with ⟨m, rfl⟩ | ⟨m, rfl, hi⟩ | he
    · rw [singularWord_ies hp]
      rcases h.ie m rfl with hie | rfl
      · rw [if_pos hie]
      · simp
    · rw [singularWord_es hi hp, h.e m rfl]
      rfl
    · exact singularWord_s hw he hnotS h.not_u hp

/-- A noun that no table knows comes back from a plural that no table knows if it is reversible,
and only then. -/
theorem singularWord_pluralWord_iff_of_byRule {w : List Char} (hw : NounByRule w)
    (hp : PluralByRule (pluralWord w)) :
    singularWord (pluralWord w) = w ↔ Reversible (String.ofList w) := by
  -- every plural ends in `s`, and what is before it decides on the rule for the singular
  rcases pluralWord_cases hw with ⟨m, rfl, hm, hplural⟩ | ⟨hs, hplural⟩ | ⟨hs, hy, hplural⟩
  · have happend : m ++ ['i', 'e', 's'] = (m ++ ['i', 'e']) ++ ['s'] := by simp
    rw [hplural, happend] at hp ⊢
    rw [reversible_consonantY_iff hm, singularWord_ies hp, if_neg hm.1]
    cases isIn ieNouns (m ++ ['i', 'e']) <;> simp
  · have happend : w ++ ['e', 's'] = (w ++ ['e']) ++ ['s'] := by simp
    have hi : w.getLast? ≠ some 'i' := getLast?_ne_of_sibilant hs (by decide)
    rw [hplural, happend] at hp ⊢
    rw [reversible_sibilant_iff hs, singularWord_es hi hp]
    cases losesEs w <;> simp
  · have hne : w ≠ [] := fun h => by
      rw [h] at hw
      cases hw.1
    rw [hplural] at hp ⊢
    rw [reversible_of_not_sibilant_iff hs hy, singularWord_append_s_iff hne hs hy hp]

/-! ## The tables -/

theorem singularWord_pluralWord_of_isInvariable {w : List Char} (h : isInvariable w = true) :
    singularWord (pluralWord w) = w := by
  have hplural : pluralWord w = w := if_pos h
  rw [hplural]
  exact if_pos h

theorem singularWord_pluralWord_of_irregular {w q : List Char} (hw : isInvariable w = false)
    (h : irregularPlural? w = some q) : singularWord (pluralWord w) = w := by
  have htable : ∀ e ∈ irregularNouns, singularWord e.2.toList = e.1.toList := by decide
  have hplural : pluralWord w = q := by
    rw [pluralWord, hw, h]
    rfl
  obtain ⟨e, he, rfl⟩ := Option.map_eq_some_iff.mp h
  have hfound : (e.1.toList == w) = true := by simpa using List.find?_some he
  rw [hplural, htable e (List.mem_of_find?_eq_some he), beq_iff_eq.mp hfound]

/-- A plural that is in a table is not made back into a noun that is in none. -/
theorem pluralByRule_of_eq {w : List Char} (hw : NounByRule w)
    (h : singularWord (pluralWord w) = w) : PluralByRule (pluralWord w) := by
  have hne : pluralWord w ≠ w := by
    rcases pluralWord_cases hw with ⟨m, rfl, -, hplural⟩ | ⟨-, hplural⟩ | ⟨-, -, hplural⟩ <;>
      simp [hplural]
  have hvaries : isInvariable (pluralWord w) = false := by
    rw [← Bool.not_eq_true]
    intro hinvariable
    have hsame : singularWord (pluralWord w) = pluralWord w := if_pos hinvariable
    exact hne (hsame.symm.trans h)
  refine ⟨hvaries, ?_⟩
  cases hirregular : irregularSingular? (pluralWord w) with
  | none => rfl
  | some s =>
      have hs : singularWord (pluralWord w) = s := by
        rw [singularWord, hvaries, hirregular]
        rfl
      obtain ⟨e, he, hes⟩ := Option.map_eq_some_iff.mp hirregular
      -- the noun would be an irregular one
      refine absurd (List.mem_map.mpr ⟨e, List.mem_of_find?_eq_some he, ?_⟩)
        (irregularPlural?_eq_none_iff.mp hw.2)
      rw [← h, hs, ← hes, String.ofList_toList]

theorem pluralByRule_iff {w : List Char} (hw : NounByRule w) :
    PluralByRule (pluralWord w)
      ↔ String.ofList (pluralWord w) ∉ uncountableNouns
        ∧ String.ofList (pluralWord w) ∉ irregularNouns.map Prod.snd := by
  have hne : String.ofList (pluralWord w) ≠ "" := by
    rw [Ne, ← String.toList_inj, String.toList_ofList]
    rcases pluralWord_cases hw with ⟨m, rfl, -, hplural⟩ | ⟨-, hplural⟩ | ⟨-, -, hplural⟩ <;>
      simp [hplural]
  rw [PluralByRule, irregularSingular?_eq_none_iff, ← Bool.not_eq_true, isInvariable_iff,
    or_iff_right hne]

/-- A word is given back because of a table, or by the rules if no table has its plural. -/
theorem singularWord_pluralWord_iff (w : List Char) :
    singularWord (pluralWord w) = w
      ↔ isInvariable w = true ∨ irregularPlural? w ≠ none
        ∨ (String.ofList (pluralWord w) ∉ uncountableNouns
          ∧ String.ofList (pluralWord w) ∉ irregularNouns.map Prod.snd
          ∧ Reversible (String.ofList w)) := by
  cases hvaries : isInvariable w with
  | true => simp [singularWord_pluralWord_of_isInvariable hvaries]
  | false =>
      cases hirregular : irregularPlural? w with
      | some q => simp [singularWord_pluralWord_of_irregular hvaries hirregular]
      | none =>
          have hw : NounByRule w := ⟨hvaries, hirregular⟩
          rw [or_iff_right Bool.false_ne_true, or_iff_right (fun h => h rfl), ← and_assoc,
            ← pluralByRule_iff hw]
          constructor
          · intro h
            have hp := pluralByRule_of_eq hw h
            exact ⟨hp, (singularWord_pluralWord_iff_of_byRule hw hp).mp h⟩
          · rintro ⟨hp, h⟩
            exact (singularWord_pluralWord_iff_of_byRule hw hp).mpr h

/-! ## Names -/

/-- The plural of a word is a word. -/
theorem not_mem_pluralWord {l : List Char} (h : '_' ∉ l) : '_' ∉ pluralWord l := by
  have hletters : ∀ c : Char, c.isAlpha = true → (c == '_') = false := by
    intro c hc
    rw [beq_eq_false_iff_ne]
    rintro rfl
    exact absurd hc (by decide)
  have hnone : ∀ s : List Char, '_' ∉ s ↔ s.filter (· == '_') = [] := by
    intro s
    rw [List.filter_eq_nil_iff]
    exact ⟨fun hs c hc he => hs (beq_iff_eq.mp he ▸ hc), fun hs hm => hs _ hm rfl⟩
  rw [hnone, filter_pluralWord hletters, ← hnone]
  exact h

/-- **The singular undoes the plural on the words described by their endings**, and on no
others: what decides is the last word of the name. It is empty, it is uncountable or irregular,
or it is reversible and its plural is neither uncountable nor that of an irregular noun. -/
theorem singularize_pluralize_iff (name : String) :
    singularize (pluralize name) = name
      ↔ let l := String.ofList (lastWord name.toList)
        l = "" ∨ l ∈ uncountableNouns ∨ l ∈ irregularNouns.map Prod.fst
          ∨ (pluralize l ∉ uncountableNouns ∧ pluralize l ∉ irregularNouns.map Prod.snd
            ∧ Reversible l) := by
  extract_lets l
  have hl : '_' ∉ lastWord name.toList := not_mem_lastWord name.toList
  have hplural : pluralize l = String.ofList (pluralWord (lastWord name.toList)) := by
    rw [pluralize, String.toList_ofList, onLastWord_of_not_mem pluralWord hl]
  rw [← or_assoc, ← isInvariable_iff, ← Decidable.not_not (p := l ∈ irregularNouns.map Prod.fst),
    ← irregularPlural?_eq_none_iff, hplural, ← ne_eq, ← singularWord_pluralWord_iff,
    ← onLastWord_onLastWord_eq_self_iff singularWord (fun _ => not_mem_pluralWord)]
  rw [singularize, pluralize, String.toList_ofList, ← String.toList_inj, String.toList_ofList]

end MigrationDraft.Inflection
