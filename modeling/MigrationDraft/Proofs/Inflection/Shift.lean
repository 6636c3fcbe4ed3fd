import MigrationDraft.Proofs.Inflection.Endings
import MigrationDraft.Proofs.Inflection.Words
import MigrationDraft.Proofs.Text.Order

set_option autoImplicit false

/-!
# What the singular changes in a name

All rules for the singular change the end of a name only, and most of them just take letters off:
`posts`, `boxes`, `children`. The others put an ending in place of another that is either later in
the alphabet (`raisedEndings`) or earlier (`loweredEndings`), and `shift_singularize` says that
there is no third kind.

That decides what becomes of the order of two names. Names that part before their endings keep it.
Others need not: `Overtakes` lists what can happen, and nothing else does (`singularize_lt_iff`).
-/

namespace MigrationDraft.Inflection

open Text

/-! ## Endings that are replaced -/

/-- Endings of plurals, each with the later one that the singular has: those of `cities`, `people`,
`mice`, `geese`, `teeth` and `feet`. -/
def raisedEndings : List (String × String) :=
  [("ies", "y"), ("ople", "rson"), ("ice", "ouse"), ("eese", "oose"), ("eeth", "ooth"),
    ("eet", "oot")]

/-- Endings of plurals, each with the earlier one that the singular has: those of `men` and
`knives`. -/
def loweredEndings : List (String × String) := [("en", "an"), ("ves", "fe")]

theorem lt_of_mem_raisedEndings : ∀ e ∈ raisedEndings, e.1 < e.2 := by decide

theorem lt_of_mem_loweredEndings : ∀ e ∈ loweredEndings, e.2 < e.1 := by decide

/-- How a name and its singular differ. -/
inductive Shift (name singular : String) : Prop where
  /-- The singular is a beginning of the name. -/
  | shortened (rest : String) (hname : name = singular ++ rest)
  /-- It has a later ending. -/
  | raised (stem : String) (e : String × String) (he : e ∈ raisedEndings)
      (hname : name = stem ++ e.1) (hsingular : singular = stem ++ e.2)
  /-- It has an earlier ending. -/
  | lowered (stem : String) (e : String × String) (he : e ∈ loweredEndings)
      (hname : name = stem ++ e.1) (hsingular : singular = stem ++ e.2)

namespace Shift

/-- What stands in front is kept. -/
theorem prepend (front : String) {name singular : String} (h : Shift name singular) :
    Shift (front ++ name) (front ++ singular) := by
  cases h with
  | shortened rest hname =>
      exact .shortened rest (by rw [String.append_assoc, ← hname])
  | raised stem e he hname hsingular =>
      exact .raised (front ++ stem) e he (by rw [hname, String.append_assoc])
        (by rw [hsingular, String.append_assoc])
  | lowered stem e he hname hsingular =>
      exact .lowered (front ++ stem) e he (by rw [hname, String.append_assoc])
        (by rw [hsingular, String.append_assoc])

theorem same (name : String) : Shift name name :=
  .shortened "" String.append_empty.symm

/-- A character of the singular is one of the name or a letter. -/
theorem mem_or_isAlpha {name singular : String} (h : Shift name singular) {c : Char}
    (hc : c ∈ singular.toList) : c ∈ name.toList ∨ c.isAlpha = true := by
  have hletters : ∀ e ∈ raisedEndings ++ loweredEndings, e.2.toList.all Char.isAlpha = true := by
    decide
  have hreplaced : ∀ (stem : String) (e : String × String), e ∈ raisedEndings ++ loweredEndings →
      name = stem ++ e.1 → singular = stem ++ e.2 → c ∈ name.toList ∨ c.isAlpha = true := by
    intro stem e he hname hsingular
    rw [hsingular, String.toList_append] at hc
    rcases List.mem_append.mp hc with hstem | hending
    · rw [hname, String.toList_append]
      exact Or.inl (List.mem_append_left _ hstem)
    · exact Or.inr (List.all_eq_true.mp (hletters e he) c hending)
  cases h with
  | shortened rest hname =>
      rw [hname, String.toList_append]
      exact Or.inl (List.mem_append_left _ hc)
  | raised stem e he hname hsingular =>
      exact hreplaced stem e (List.mem_append_left _ he) hname hsingular
  | lowered stem e he hname hsingular =>
      exact hreplaced stem e (List.mem_append_right _ he) hname hsingular

/-- The singulars of the table. -/
theorem of_mem_irregularNouns : ∀ e ∈ irregularNouns, Shift e.2 e.1 := by
  have hraised : ∀ (stem : String) (e : String × String), e ∈ raisedEndings →
      Shift (stem ++ e.1) (stem ++ e.2) := fun stem e he => .raised stem e he rfl rfl
  have hlowered : ∀ (stem : String) (e : String × String), e ∈ loweredEndings →
      Shift (stem ++ e.1) (stem ++ e.2) := fun stem e he => .lowered stem e he rfl rfl
  simp only [irregularNouns, List.forall_mem_cons]
  refine ⟨hraised "pe" ("ople", "rson") (by decide), .shortened "ren" (by decide),
    hlowered "m" ("en", "an") (by decide), hlowered "wom" ("en", "an") (by decide),
    hraised "m" ("ice", "ouse") (by decide), hraised "g" ("eese", "oose") (by decide),
    hraised "t" ("eeth", "ooth") (by decide), hraised "f" ("eet", "oot") (by decide),
    hlowered "kni" ("ves", "fe") (by decide), hlowered "wi" ("ves", "fe") (by decide),
    hlowered "li" ("ves", "fe") (by decide), .shortened "zes" (by decide),
    .shortened "s" (by decide), fun e he => nomatch he⟩

end Shift

/-! ## The rules one by one -/

section

variable {w q : List Char}

theorem shift_irregularSingular? (h : irregularSingular? w = some q) :
    Shift (String.ofList w) (String.ofList q) := by
  obtain ⟨e, he, rfl⟩ := Option.map_eq_some_iff.mp h
  have hfound : (e.2.toList == w) = true := by simpa using List.find?_some he
  rw [← beq_iff_eq.mp hfound, String.ofList_toList, String.ofList_toList]
  exact Shift.of_mem_irregularNouns e (List.mem_of_find?_eq_some he)

theorem shift_singularInSsOrUs? (h : singularInSsOrUs? w = some q) :
    Shift (String.ofList w) (String.ofList q) := by
  unfold singularInSsOrUs? at h
  split at h
  · cases h
    exact .same _
  · cases h

/-- An ending that is only taken off. -/
theorem shift_of_dropSuffix? {ending : String} (h : dropSuffix? ending.toList w = some q) :
    Shift (String.ofList w) (String.ofList q) :=
  .shortened ending
    (by rw [ofList_eq_append_iff, String.toList_ofList, dropSuffix?_eq_some_iff.mp h])

theorem shift_singularOfIes? (h : singularOfIes? w = some q) :
    Shift (String.ofList w) (String.ofList q) := by
  obtain ⟨stem, hstem, h⟩ := Option.bind_eq_some_iff.mp h
  have hw : w = stem ++ "ies".toList := dropSuffix?_eq_some_iff.mp hstem
  split at h
  · cases h
    refine .shortened "s" ?_
    rw [ofList_eq_append_iff, String.toList_ofList, hw, List.append_assoc]
    rfl
  · split at h
    · cases h
      refine .raised (String.ofList stem) ("ies", "y") (by decide) ?_ ?_
      · rw [hw]
        exact String.ofList_append
      · exact String.ofList_append
    · cases h

theorem shift_singularOfEs? (h : singularOfEs? w = some q) :
    Shift (String.ofList w) (String.ofList q) := by
  obtain ⟨stem, hstem, h⟩ := Option.bind_eq_some_iff.mp h
  have hq : q = stem := by grind
  exact hq ▸ shift_of_dropSuffix? hstem

theorem shift_singularOfS? (h : singularOfS? w = some q) :
    Shift (String.ofList w) (String.ofList q) := by
  obtain ⟨stem, hstem, h⟩ := Option.bind_eq_some_iff.mp h
  have hq : q = stem := by grind
  exact hq ▸ shift_of_dropSuffix? hstem

end

theorem shift_singularWord (w : List Char) :
    Shift (String.ofList w) (String.ofList (singularWord w)) := by
  unfold singularWord
  split
  · exact .same _
  · -- the rules in the order in which they are tried
    cases hirregular : irregularSingular? w with
    | some q => exact shift_irregularSingular? hirregular
    | none =>
        cases hss : singularInSsOrUs? w with
        | some q => exact shift_singularInSsOrUs? hss
        | none =>
            cases hies : singularOfIes? w with
            | some q => exact shift_singularOfIes? hies
            | none =>
                cases hes : singularOfEs? w with
                | some q => exact shift_singularOfEs? hes
                | none =>
                    cases hs : singularOfS? w with
                    | some q => exact shift_singularOfS? hs
                    | none => exact .same _

/-- The singular of a name has letters off its end, or a later or an earlier ending. -/
theorem shift_singularize (name : String) : Shift name (singularize name) := by
  rw [singularize]
  rcases one_word_or_append name.toList with h | ⟨front, l, h, hname⟩
  · have hword := shift_singularWord name.toList
    rw [String.ofList_toList] at hword
    rw [onLastWord_of_not_mem singularWord h]
    exact hword
  · have hword := (shift_singularWord l).prepend (String.ofList (front ++ ['_']))
    rw [← String.ofList_append, ← String.ofList_append] at hword
    rw [hname, onLastWord_append_cons singularWord front h]
    have hofList : name = String.ofList (front ++ ['_'] ++ l) := by
      apply String.toList_inj.mp
      rw [String.toList_ofList, hname, List.append_assoc, List.singleton_append]
    rw [hofList]
    simpa using hword

/-- The singular has no opening brace that the name does not have. -/
theorem brace_not_mem_singularize {name : String} (h : '\x7b' ∉ name.toList) :
    '\x7b' ∉ (singularize name).toList := by
  intro hmem
  rcases (shift_singularize name).mem_or_isAlpha hmem with hname | hletter
  · exact h hname
  · exact absurd hletter (by decide)

/-! ## The order of two singulars -/

/-- The singular of the name `t` comes after that of the name `u`, although `t` comes first. -/
inductive Overtakes (t u : String) : Prop where
  /-- The singular of `u` is the beginning of the other: `user_roles` and `users`. -/
  | longer (rest : String) (hrest : rest ≠ "") (ht : singularize t = singularize u ++ rest)
  /-- The singular of `t` has a later ending, too late for what the singular of `u` has in its
  place: `cities` and `citrus`. -/
  | raised (stem rest : String) (e : String × String) (he : e ∈ raisedEndings)
      (ht : t = stem ++ e.1 ∧ singularize t = stem ++ e.2) (hu : singularize u = stem ++ rest)
      (hrest : rest < e.2)
  /-- The singular of `u` has an earlier ending, too early for what the singular of `t` has in its
  place: `maps` and `men`. -/
  | lowered (stem rest : String) (e : String × String) (he : e ∈ loweredEndings)
      (ht : singularize t = stem ++ rest) (hu : u = stem ++ e.1 ∧ singularize u = stem ++ e.2)
      (hrest : e.2 < rest)

section

variable {t u : String}

theorem Overtakes.lt (h : Overtakes t u) : singularize u < singularize t := by
  cases h with
  | longer rest hrest ht =>
      rw [ht]
      exact lt_append _ hrest
  | raised stem rest e _ ht hu hrest =>
      rw [ht.2, hu]
      exact append_lt_append_iff.mpr hrest
  | lowered stem rest e _ ht hu hrest =>
      rw [ht, hu.2]
      exact append_lt_append_iff.mpr hrest

/-- What lies between a name and its earlier singular starts like both. -/
theorem exists_append_of_between_singular {z : String} (h : singularize u ≤ z) (hz : z ≤ u) :
    (∃ r, z = singularize u ++ r)
      ∨ ∃ stem r, ∃ e ∈ loweredEndings,
        (u = stem ++ e.1 ∧ singularize u = stem ++ e.2) ∧ z = stem ++ r := by
  cases shift_singularize u with
  | shortened rest hname =>
      have hfrom : singularize u ++ "" ≤ z := by rwa [String.append_empty]
      have hto : z ≤ singularize u ++ rest := hname ▸ hz
      exact Or.inl (exists_append_of_between hfrom hto)
  | raised stem e he hname hsingular =>
      -- such a singular is later than the name
      have hlt : u < singularize u := by
        calc u = stem ++ e.1 := hname
          _ < stem ++ e.2 := append_lt_append_iff.mpr (lt_of_mem_raisedEndings e he)
          _ = singularize u := hsingular.symm
      exact absurd (hlt.trans_le h) (not_lt.mpr hz)
  | lowered stem e he hname hsingular =>
      obtain ⟨r, hr⟩ := exists_append_of_between (hsingular ▸ h) (hname ▸ hz)
      exact Or.inr ⟨stem, r, e, he, ⟨hname, hsingular⟩, hr⟩

namespace Overtakes

variable (h : singularize u < singularize t)

include h

/-- An extension of the other singular is longer, unless it is that singular itself. -/
theorem of_append {rest : String} (ht : singularize t = singularize u ++ rest) :
    Overtakes t u := by
  refine .longer rest (fun hrest => ?_) ht
  rw [ht, hrest, String.append_empty] at h
  exact lt_irrefl _ h

theorem of_raised {stem rest : String} {e : String × String} (he : e ∈ raisedEndings)
    (ht : t = stem ++ e.1 ∧ singularize t = stem ++ e.2) (hu : singularize u = stem ++ rest) :
    Overtakes t u := by
  refine .raised stem rest e he ht hu ?_
  rw [ht.2, hu] at h
  exact append_lt_append_iff.mp h

theorem of_lowered {stem rest : String} {e : String × String} (he : e ∈ loweredEndings)
    (ht : singularize t = stem ++ rest) (hu : u = stem ++ e.1 ∧ singularize u = stem ++ e.2) :
    Overtakes t u := by
  refine .lowered stem rest e he ht hu ?_
  rw [ht, hu.2] at h
  exact append_lt_append_iff.mp h

/-- A singular that lies between a name and that name's singular overtakes the name. -/
theorem of_le (hle : singularize t ≤ u) : Overtakes t u := by
  rcases exists_append_of_between_singular h.le hle with ⟨r, hr⟩ | ⟨stem, r, e, he, hu, hr⟩
  · exact of_append h hr
  · exact of_lowered h he hr hu

/-- A name with a later singular overtakes because of its own ending, or because of that of the
other name if that has its singular before it. -/
theorem of_later (htu : t ≤ u) {stem : String} {e : String × String} (he : e ∈ raisedEndings)
    (ht : t = stem ++ e.1 ∧ singularize t = stem ++ e.2) : Overtakes t u := by
  by_cases hle : t ≤ singularize u
  · -- the other singular lies between this name and its singular
    obtain ⟨r, hr⟩ := exists_append_of_between (ht.1 ▸ hle) (ht.2 ▸ h.le)
    exact of_raised h he ht hr
  · rcases exists_append_of_between_singular (not_le.mp hle).le htu with
      ⟨r, hr⟩ | ⟨stem', r, e', he', hu, hr⟩
    · -- the name starts with its stem and with the other singular
      rcases append_eq_append_cases (ht.1.symm.trans hr) with ⟨q, hq⟩ | ⟨q, hq⟩
      · exact of_raised h he ht hq
      · exact of_append h (by rw [ht.2, hq, String.append_assoc])
    · -- the name starts with its stem and with that of the other
      rcases append_eq_append_cases (ht.1.symm.trans hr) with ⟨q, hq⟩ | ⟨q, hq⟩
      · exact of_raised h he ht (by rw [hu.2, hq, String.append_assoc])
      · exact of_lowered h he' (by rw [ht.2, hq, String.append_assoc]) hu

end Overtakes

/-- **Singulars are in the order of their names, but for the names that overtake.** -/
theorem singularize_lt_iff (htu : t ≤ u) : singularize u < singularize t ↔ Overtakes t u := by
  constructor
  · intro h
    cases shift_singularize t with
    | shortened rest hname =>
        have hle : singularize t ≤ t := by
          calc singularize t ≤ singularize t ++ rest := le_append _ rest
            _ = t := hname.symm
        exact .of_le h (hle.trans htu)
    | raised stem e he hname hsingular => exact .of_later h htu he ⟨hname, hsingular⟩
    | lowered stem e he hname hsingular =>
        have hlt : singularize t < t := by
          calc singularize t = stem ++ e.2 := hsingular
            _ < stem ++ e.1 := append_lt_append_iff.mpr (lt_of_mem_loweredEndings e he)
            _ = t := hname.symm
        exact .of_le h (hlt.le.trans htu)
  · exact Overtakes.lt

end

/-- `citrus` is its own singular, and `city` comes after it. -/
example : "cities" ≤ "citrus" ∧ singularize "citrus" < singularize "cities" := by decide +kernel

/-- `map` comes after `man`. -/
example : "maps" ≤ "men" ∧ singularize "men" < singularize "maps" := by decide +kernel

end MigrationDraft.Inflection
