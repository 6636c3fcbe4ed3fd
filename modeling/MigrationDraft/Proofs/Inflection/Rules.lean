import MigrationDraft.Proofs.Inflection.Endings

set_option autoImplicit false

/-!
# The rules for a regular plural and its singular

A regular plural has one of three forms (`pluralWord_cases`), each of them some word with an `s`
behind it. What the singular of such a word is depends on the last letters before the `s` only:
one lemma for each rule of the cascade, from `singularWord_us` to `singularWord_s`.
-/

namespace MigrationDraft.Inflection

open Text

/-! ## Regular plurals -/

/-- No table says what the plural is. -/
def NounByRule (w : List Char) : Prop := isInvariable w = false ∧ irregularPlural? w = none

/-- No table says what the singular is. -/
def PluralByRule (p : List Char) : Prop := isInvariable p = false ∧ irregularSingular? p = none

theorem pluralInIes?_eq_some {m : List Char} (hm : m ≠ [] ∧ endsInVowel m = false) :
    pluralInIes? (m ++ ['y']) = some (m ++ ['i', 'e', 's']) := by
  have hstem : dropSuffix? "y".toList (m ++ ['y']) = some m := dropSuffix?_eq_some_iff.mpr rfl
  rw [pluralInIes?, hstem]
  simp [hm]

theorem exists_of_pluralInIes? {w p : List Char} (h : pluralInIes? w = some p) :
    ∃ m, w = m ++ ['y'] ∧ (m ≠ [] ∧ endsInVowel m = false) ∧ p = m ++ ['i', 'e', 's'] := by
  obtain ⟨m, hm, h⟩ := Option.bind_eq_some_iff.mp h
  split at h
  · next hstem =>
      exact ⟨m, dropSuffix?_eq_some_iff.mp hm, by simpa using hstem, (Option.some.inj h).symm⟩
  · cases h

/-- The three forms of a regular plural. -/
theorem pluralWord_cases {w : List Char} (hw : NounByRule w) :
    (∃ m, w = m ++ ['y'] ∧ (m ≠ [] ∧ endsInVowel m = false) ∧ pluralWord w = m ++ ['i', 'e', 's'])
      ∨ (endsInAny sibilants w = true ∧ pluralWord w = w ++ ['e', 's'])
      ∨ (endsInAny sibilants w = false ∧ pluralInIes? w = none
        ∧ pluralWord w = w ++ ['s']) := by
  have hplural : pluralWord w = (pluralInIes? w).getD (regularPlural w) := by
    rw [pluralWord, hw.1, hw.2]
    rfl
  rw [hplural]
  cases hies : pluralInIes? w with
  | some p => exact Or.inl (exists_of_pluralInIes? hies)
  | none =>
      refine Or.inr ?_
      by_cases h : endsInAny sibilants w = true
      · exact Or.inl ⟨h, if_pos h⟩
      · exact Or.inr ⟨Bool.eq_false_iff.mpr h, rfl, if_neg h⟩

/-! ## The rules for the singular on a word with an `s` behind it -/

theorem singularInSsOrUs?_append_s (w : List Char) :
    singularInSsOrUs? (w ++ ['s'])
      = if endsInAny ["s", "u"] w then some (w ++ ['s']) else none := by
  have hends : endsInAny ["ss", "us"] (w ++ ['s']) = endsInAny ["s", "u"] w := by
    simp
  rw [singularInSsOrUs?, hends]

theorem singularOfIes?_append_s (w : List Char) :
    singularOfIes? (w ++ ['s'])
      = (dropSuffix? ['i', 'e'] w).bind fun m =>
          if isIn ieNouns (m ++ ['i', 'e']) then some (m ++ ['i', 'e'])
          else if !m.isEmpty then some (m ++ ['y']) else none :=
  congrArg (Option.bind · _) (dropSuffix?_concat ['i', 'e'] w 's' 's')

/-- What stands before the ending `es` is a noun without its `e`. -/
def losesEs (m : List Char) : Bool :=
  (endsInAny hisses m && !isIn cheNouns (m ++ ['e'])) || isUsStem m

theorem singularOfEs?_append_s (w : List Char) :
    singularOfEs? (w ++ ['s'])
      = (dropSuffix? ['e'] w).bind fun m => if losesEs m then some m else none := by
  have hstem : dropSuffix? "es".toList (w ++ ['s']) = dropSuffix? ['e'] w :=
    dropSuffix?_concat ['e'] w 's' 's'
  rw [singularOfEs?, hstem]
  refine congrArg _ (funext fun m => ?_)
  show (if endsInAny hisses m && !isIn cheNouns (m ++ ['e']) then some m
    else if isUsStem m then some m else none) = _
  unfold losesEs
  cases endsInAny hisses m && !isIn cheNouns (m ++ ['e']) <;> simp

theorem singularOfS?_append_s {w : List Char} (hw : w ≠ []) :
    singularOfS? (w ++ ['s']) = some w := by
  have hstem : dropSuffix? "s".toList (w ++ ['s']) = some w := dropSuffix?_eq_some_iff.mpr rfl
  rw [singularOfS?, hstem]
  simp [hw]

/-- What the rules for `ies`, `es` and `s` tell apart, the `s` taken off. -/
theorem ie_or_e_or_other (w : List Char) :
    (∃ m, w = m ++ ['i', 'e']) ∨ (∃ m, w = m ++ ['e'] ∧ m.getLast? ≠ some 'i')
      ∨ w.getLast? ≠ some 'e' := by
  by_cases he : w.getLast? = some 'e'
  · obtain ⟨m, rfl⟩ := List.getLast?_eq_some_iff.mp he
    by_cases hi : m.getLast? = some 'i'
    · obtain ⟨r, rfl⟩ := List.getLast?_eq_some_iff.mp hi
      exact Or.inl ⟨r, by simp⟩
    · exact Or.inr (Or.inl ⟨m, rfl, hi⟩)
  · exact Or.inr (Or.inr he)

theorem singularWord_of_byRule {p : List Char} (hp : PluralByRule p) :
    singularWord p
      = (singularInSsOrUs? p <|> singularOfIes? p <|> singularOfEs? p <|> singularOfS? p).getD
          p := by
  rw [singularWord, hp.1, hp.2]
  rfl

/-- A word in `s` is in `ss` or `us`, falls to one of the rules for `ies` and `es`, or loses its
`s`. -/
theorem singularWord_append_s {w : List Char} (hw : w ≠ []) (hp : PluralByRule (w ++ ['s'])) :
    singularWord (w ++ ['s'])
      = if endsInAny ["s", "u"] w then w ++ ['s']
        else (singularOfIes? (w ++ ['s']) <|> singularOfEs? (w ++ ['s'])).getD w := by
  rw [singularWord_of_byRule hp, singularInSsOrUs?_append_s, singularOfS?_append_s hw]
  split
  · rfl
  · cases singularOfIes? (w ++ ['s']) <;> cases singularOfEs? (w ++ ['s']) <;> rfl

theorem singularWord_us {w : List Char} (hu : w.getLast? = some 'u')
    (hp : PluralByRule (w ++ ['s'])) : singularWord (w ++ ['s']) = w ++ ['s'] := by
  have hw : w ≠ [] := fun h => by rw [h] at hu; cases hu
  have hends : endsInAny ["s", "u"] w = true := by simp [hu]
  rw [singularWord_append_s hw hp, if_pos hends]

theorem singularWord_ies {m : List Char} (hp : PluralByRule ((m ++ ['i', 'e']) ++ ['s'])) :
    singularWord ((m ++ ['i', 'e']) ++ ['s'])
      = if isIn ieNouns (m ++ ['i', 'e']) then m ++ ['i', 'e']
        else if m = [] then ['i', 'e'] else m ++ ['y'] := by
  have hends : endsInAny ["s", "u"] (m ++ ['i', 'e']) = false := by simp
  have hstem : dropSuffix? ['i', 'e'] (m ++ ['i', 'e']) = some m :=
    dropSuffix?_eq_some_iff.mpr rfl
  rw [singularWord_append_s (by simp) hp, hends, singularOfIes?_append_s, hstem]
  by_cases hie : isIn ieNouns (m ++ ['i', 'e']) = true
  · simp [hie]
  · by_cases hm : m = []
    · -- too short for a noun in `y`, and no rule for `es` takes the word either
      subst hm
      rfl
    · simp [hie, hm]

theorem singularWord_es {m : List Char} (hi : m.getLast? ≠ some 'i')
    (hp : PluralByRule ((m ++ ['e']) ++ ['s'])) :
    singularWord ((m ++ ['e']) ++ ['s']) = if losesEs m then m else m ++ ['e'] := by
  have hends : endsInAny ["s", "u"] (m ++ ['e']) = false := by simp
  have hnoIe : dropSuffix? ['i', 'e'] (m ++ ['e']) = none := by
    rw [Option.eq_none_iff_forall_ne_some]
    intro r hr
    have hm : m = r ++ ['i'] :=
      List.append_cancel_right ((dropSuffix?_eq_some_iff.mp hr).trans (by simp))
    exact hi (by rw [hm, List.getLast?_concat])
  have hstem : dropSuffix? ['e'] (m ++ ['e']) = some m := dropSuffix?_eq_some_iff.mpr rfl
  rw [singularWord_append_s (by simp) hp, hends, singularOfIes?_append_s, hnoIe,
    singularOfEs?_append_s, hstem]
  cases hloses : losesEs m <;> simp [hloses]

/-- No rule but the last is about a word that has neither of the letters e, s and u before its
`s`. -/
theorem singularWord_s {w : List Char} (hw : w ≠ []) (he : w.getLast? ≠ some 'e')
    (hs : w.getLast? ≠ some 's') (hu : w.getLast? ≠ some 'u') (hp : PluralByRule (w ++ ['s'])) :
    singularWord (w ++ ['s']) = w := by
  have hends : endsInAny ["s", "u"] w = false := by simp [hs, hu]
  have hnone : ∀ q, dropSuffix? (q ++ ['e']) w = none := by
    intro q
    rw [Option.eq_none_iff_forall_ne_some]
    intro m hm
    exact he (by rw [dropSuffix?_eq_some_iff.mp hm, ← List.append_assoc, List.getLast?_concat])
  have hnoE : dropSuffix? ['e'] w = none := hnone []
  have hnoIe : dropSuffix? ['i', 'e'] w = none := hnone ['i']
  rw [singularWord_append_s hw hp, hends, singularOfIes?_append_s, singularOfEs?_append_s, hnoE,
    hnoIe]
  rfl

/-! ## Hissing endings -/

theorem sibilant_of_losesEs {w : List Char} (h : losesEs w = true) :
    endsInAny sibilants w = true := by
  rw [losesEs, Bool.or_eq_true, Bool.and_eq_true] at h
  rcases h with ⟨hhiss, -⟩ | hus
  · rcases List.eq_nil_or_concat w with rfl | ⟨m, c, rfl⟩
    · cases hhiss
    · rw [List.concat_eq_append] at hhiss ⊢
      simp [hisses, sibilants] at hhiss ⊢
      grind
  · obtain ⟨h, hw, -⟩ := isUsStem_iff.mp hus
    have hw' : w = h.toList ++ ['u', 's'] := ofList_eq_append_iff.mp hw
    rw [hw']
    simp [sibilants]

theorem not_sibilant_of_getLast? {w : List Char} {c : Char} (hc : c ∉ ['s', 'x', 'z', 'h'])
    (hw : w.getLast? = some c) : endsInAny sibilants w = false := by
  obtain ⟨m, rfl⟩ := List.getLast?_eq_some_iff.mp hw
  simp [sibilants] at hc ⊢
  grind

theorem getLast?_ne_of_sibilant {w : List Char} {c : Char} (hw : endsInAny sibilants w = true)
    (hc : c ∉ ['s', 'x', 'z', 'h']) : w.getLast? ≠ some c := by
  intro hlast
  rw [not_sibilant_of_getLast? hc hlast] at hw
  cases hw

theorem losesEs_eq_false {w : List Char} {c : Char} (hc : c ∉ ['s', 'x', 'z', 'h'])
    (hw : w.getLast? = some c) : losesEs w = false := by
  rw [← Bool.not_eq_true]
  exact fun h => getLast?_ne_of_sibilant (sibilant_of_losesEs h) hc hw

end MigrationDraft.Inflection
