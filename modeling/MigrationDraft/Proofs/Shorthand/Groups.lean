import MigrationDraft.Shorthand

set_option autoImplicit false

/-!
# The forms of a segment

What the readers of groups accept, said without the readers: a head, an opening parenthesis, an
inside that is not empty and has no closing parenthesis, that parenthesis, and anything after
it. The head of a type has no opening parenthesis, that of a modifier is one or more letters.

A type segment is a call or a bare type (`TypeForm`). A token is a modifier with a value in its
group, a bare modifier, or nothing that is known (`TokenForm`).
-/

namespace MigrationDraft.Shorthand

open Text

/-! ## Types -/

/-- The segment is a head, a group with this inside, and anything after the group. -/
def IsCall (segment head inner : List Char) : Prop :=
  '(' ∉ head ∧ inner ≠ [] ∧ ')' ∉ inner ∧ ∃ rest, segment = head ++ '(' :: (inner ++ ')' :: rest)

theorem typeGroup?_eq_some_iff {s head inner : List Char} :
    typeGroup? s = some (head, inner) ↔ IsCall s head inner := by
  constructor
  · intro h
    unfold typeGroup? at h
    split at h
    · cases h
    · next c rest hdrop =>
        -- the head ends at the first character that is an opening parenthesis
        obtain ⟨hs, htake, hc⟩ := eq_append_of_dropWhile_eq_cons hdrop
        have hopen : c = '(' := by simpa using hc
        obtain ⟨inner', hinner, he⟩ := Option.map_eq_some_iff.mp h
        cases he
        obtain ⟨hne, hmem, rest', hrest⟩ := inside?_eq_some_iff.mp hinner
        refine ⟨fun hm => ?_, hne, hmem, rest', ?_⟩
        · simpa using htake _ hm
        · rw [hopen, hrest] at hs
          exact hs
  · rintro ⟨hhead, hne, hmem, rest, rfl⟩
    unfold typeGroup?
    rw [dropWhile_append_cons (decide_ne_of_not_mem hhead) (by simp),
      takeWhile_append_cons (decide_ne_of_not_mem hhead) (by simp)]
    simp only [inside?_eq_some_iff.mpr ⟨hne, hmem, rest, rfl⟩, Option.map_some]

/-- A type without an opening parenthesis has no group. -/
theorem typeGroup?_eq_none {s : List Char} (h : '(' ∉ s) : typeGroup? s = none := by
  cases hg : typeGroup? s with
  | none => rfl
  | some g =>
      obtain ⟨head, inner⟩ := g
      obtain ⟨_, _, _, rest, rfl⟩ := typeGroup?_eq_some_iff.mp hg
      simp at h

/-- The type and the arguments that a type segment stands for. -/
inductive TypeForm (segment : List Char) : String → List String → Prop
  /-- The head of a call is the type, and commas cut the inside into arguments. -/
  | call {head inner : List Char} (h : IsCall segment head inner) :
      TypeForm segment (String.ofList head)
        ((inner.splitOn ',').map fun argument => String.ofList (trim argument))
  /-- What is no call is a type without arguments. -/
  | bare (h : ∀ head inner, ¬IsCall segment head inner) :
      TypeForm segment (String.ofList segment) []

theorem typeOf_eq_iff {segment : List Char} {type : String} {arguments : List String} :
    typeOf segment = (type, arguments) ↔ TypeForm segment type arguments := by
  unfold typeOf
  constructor
  · intro h
    split at h
    · next hgroup =>
        cases h
        exact .call (typeGroup?_eq_some_iff.mp hgroup)
    · next hgroup =>
        cases h
        refine .bare fun head inner hcall => ?_
        rw [typeGroup?_eq_some_iff.mpr hcall] at hgroup
        cases hgroup
  · intro h
    cases h with
    | call h => rw [typeGroup?_eq_some_iff.mpr h]
    | bare h =>
        have hgroup : typeGroup? segment = none :=
          Option.eq_none_iff_forall_ne_some.mpr fun g hg => h g.1 g.2 (typeGroup?_eq_some_iff.mp hg)
        rw [hgroup]

/-! ## Modifiers -/

theorem optionGroup?_eq_some_iff {s key value : List Char} :
    optionGroup? s = some (key, value)
      ↔ (key ≠ [] ∧ ∀ c ∈ key, c.isAlpha = true) ∧ value ≠ [] ∧ ')' ∉ value
        ∧ ∃ rest, s = key ++ '(' :: (value ++ ')' :: rest) := by
  constructor
  · intro h
    unfold optionGroup? at h
    split at h
    · next c key' rest htake hdrop =>
        obtain ⟨hs, hall, _⟩ := eq_append_of_dropWhile_eq_cons hdrop
        obtain ⟨value', hvalue, he⟩ := Option.map_eq_some_iff.mp h
        cases he
        obtain ⟨hne, hmem, rest', hrest⟩ := inside?_eq_some_iff.mp hvalue
        rw [htake] at hs hall
        exact ⟨⟨by simp, hall⟩, hne, hmem, rest', by rw [hs, hrest]⟩
    · cases h
  · rintro ⟨⟨hkey, hall⟩, hne, hmem, rest, rfl⟩
    have hopen : Char.isAlpha '(' = false := by decide
    unfold optionGroup?
    rw [dropWhile_append_cons hall hopen, takeWhile_append_cons hall hopen]
    cases key with
    | nil => exact absurd rfl hkey
    | cons c key => simp only [inside?_eq_some_iff.mpr ⟨hne, hmem, rest, rfl⟩, Option.map_some]

/-- The modifier that a token stands for. A token may stand for none. -/
inductive TokenForm : List Char → String × OptionValue → Prop
  /-- Letters, a group with the value, and anything after the group. -/
  | valued {key value rest : List Char} (hkey : key ≠ [])
      (hletters : ∀ c ∈ key, c.isAlpha = true) (hvalue : value ≠ []) (hclose : ')' ∉ value) :
      TokenForm (key ++ '(' :: (value ++ ')' :: rest))
        (String.ofList key, .literal (String.ofList value))
  /-- A token that opens no group. -/
  | bare {token : List Char} (hne : token ≠ []) (hopen : '(' ∉ token) :
      TokenForm token (String.ofList token, .flag)

theorem option?_eq_some_iff {token : List Char} {e : String × OptionValue} :
    option? token = some e ↔ TokenForm token e := by
  unfold option?
  constructor
  · intro h
    split at h
    · obtain ⟨⟨key, value⟩, hgroup, rfl⟩ := Option.map_eq_some_iff.mp h
      obtain ⟨⟨hkey, hletters⟩, hvalue, hclose, rest, rfl⟩ := optionGroup?_eq_some_iff.mp hgroup
      exact .valued hkey hletters hvalue hclose
    · next hopen =>
        split at h
        · cases h
        · next hempty =>
            cases h
            exact .bare (by simpa using hempty) hopen
  · intro h
    cases h with
    | valued hkey hletters hvalue hclose =>
        rw [if_pos (by simp), optionGroup?_eq_some_iff.mpr
          ⟨⟨hkey, hletters⟩, hvalue, hclose, _, rfl⟩]
        rfl
    | bare hne hopen => rw [if_neg hopen, if_neg (by simpa using hne)]

theorem option?_eq_none_iff {token : List Char} :
    option? token = none ↔ ∀ e, ¬TokenForm token e := by
  rw [Option.eq_none_iff_forall_ne_some]
  exact forall_congr' fun e => not_congr option?_eq_some_iff

end MigrationDraft.Shorthand
