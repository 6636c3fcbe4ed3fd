import MigrationDraft.Proofs.Template.Filling

set_option autoImplicit false

/-!
# Filling a text that may hold anything

Where a text holds what a user wrote, two braces may stand anywhere in it, and a token may come
about that no template has. Still a fill does not mix up what is kept apart: a token has no
blank and no line break, so no occurrence of it reaches over one. Such a separator is a *fence*
(`Fence`): a fill of the whole is a fill of each side of it (`fill_fence`), whatever stands
there.
-/

namespace MigrationDraft

namespace Text

/-! ## Replacing on two sides of a character -/

section

variable {pattern : List Char} {c : Char} (hc : c ∉ pattern)

include hc

/-- Whether a pattern begins a text is settled before the first character that it does not
have. -/
theorem startsWith_append_cons (a b : List Char) :
    startsWith pattern (a ++ c :: b) = startsWith pattern a := by
  rw [Bool.eq_iff_iff, startsWith_iff, startsWith_iff]
  constructor
  · rintro ⟨r, hr⟩
    rcases List.append_eq_append_iff.mp hr with ⟨d, hd, hcons⟩ | ⟨d, ha, _⟩
    · cases d with
      | nil => exact ⟨[], by rw [hd, List.append_nil, List.append_nil]⟩
      | cons x d =>
          -- the pattern would reach the character
          have hx : c = x := (List.cons.inj hcons).1
          exact absurd (by rw [hd, hx]; simp) hc
    · exact ⟨d, ha⟩
  · rintro ⟨r, rfl⟩
    exact ⟨r ++ c :: b, by rw [List.append_assoc]⟩

private theorem replaceFrom_append_cons (hp : pattern ≠ []) (value : List Char) {n : Nat}
    {a : List Char} (hn : n ≤ a.length) (b : List Char) :
    replaceFrom pattern value n (a ++ c :: b)
      = replaceFrom pattern value n a ++ c :: replace pattern value b := by
  induction a generalizing n with
  | nil =>
      have hzero : n = 0 := by simpa using hn
      have hstart : startsWith pattern (c :: b) = false := by
        have h := startsWith_append_cons hc [] b
        rw [List.nil_append] at h
        rw [h, Bool.eq_false_iff, Ne, startsWith_iff]
        rintro ⟨r, hr⟩
        exact hp (List.append_eq_nil_iff.mp hr.symm).1
      rw [hzero, List.nil_append]
      exact replace_cons_of_not hstart value
  | cons x a ih =>
      cases n with
      | succ n => exact ih (Nat.le_of_succ_le_succ hn)
      | zero =>
          have hstart := startsWith_append_cons hc (x :: a) b
          rw [List.cons_append] at hstart
          rw [List.cons_append, replaceFrom, replaceFrom, hstart]
          split
          · next h =>
              -- the occurrence lies in front of the character
              obtain ⟨r, hr⟩ := startsWith_iff.mp h
              have hlen : pattern.length - 1 ≤ a.length := by
                have := congrArg List.length hr
                rw [List.length_append, List.length_cons] at this
                omega
              rw [ih hlen, List.append_assoc]
          · rw [ih (Nat.zero_le _), List.cons_append]

/-- No occurrence of a pattern reaches over a character that it does not have. -/
theorem replace_append_cons (hp : pattern ≠ []) (value a b : List Char) :
    replace pattern value (a ++ c :: b)
      = replace pattern value a ++ c :: replace pattern value b :=
  replaceFrom_append_cons hc hp value (Nat.zero_le _) b

end

/-- No occurrence of a pattern reaches over, or into, a text that has none of its characters. -/
theorem replace_append_append {pattern sep : List Char} (hp : pattern ≠ []) (hsep : sep ≠ [])
    (h : ∀ c ∈ sep, c ∉ pattern) (value a b : List Char) :
    replace pattern value (a ++ (sep ++ b))
      = replace pattern value a ++ (sep ++ replace pattern value b) := by
  induction sep generalizing a with
  | nil => exact absurd rfl hsep
  | cons c sep ih =>
      obtain ⟨hc, hrest⟩ := List.forall_mem_cons.mp h
      rw [List.cons_append, replace_append_cons hc hp, List.cons_append]
      cases sep with
      | nil => rfl
      | cons d sep =>
          have htail := ih (by simp) hrest []
          rw [List.nil_append, replace_nil, List.nil_append] at htail
          rw [htail]

/-- A text without the pattern stays. -/
theorem replace_eq_self {pattern s : List Char} (h : ¬ pattern <:+: s) (value : List Char) :
    replace pattern value s = s := by
  induction s with
  | nil => rfl
  | cons c s ih =>
      have hstart : startsWith pattern (c :: s) = false := by
        rw [Bool.eq_false_iff, Ne, startsWith_iff]
        rintro ⟨r, hr⟩
        exact h ⟨[], r, by rw [hr, List.nil_append]⟩
      rw [replace_cons_of_not hstart, ih fun hs => h (hs.trans (List.suffix_cons c s).isInfix)]

/-! ## What is left of a pattern -/

/-- An occurrence of a pattern lies on one side of a character that it does not have. -/
theorem infix_append_cons {pattern a b : List Char} {c : Char} (hc : c ∉ pattern)
    (h : pattern <:+: a ++ c :: b) : pattern <:+: a ∨ pattern <:+: b := by
  obtain ⟨l, r, h⟩ := h
  rw [List.append_assoc] at h
  rcases List.append_eq_append_iff.mp h with ⟨d, ha, hd⟩ | ⟨d, hl, hd⟩
  · -- it begins before the character
    have hprefix : startsWith pattern (d ++ c :: b) = true := startsWith_iff.mpr ⟨r, hd.symm⟩
    rw [startsWith_append_cons hc, startsWith_iff] at hprefix
    obtain ⟨e, rfl⟩ := hprefix
    exact Or.inl ⟨l, e, by rw [ha, List.append_assoc]⟩
  · -- it begins after the character, since it does not begin with it
    cases d with
    | nil =>
        cases pattern with
        | nil => exact Or.inr (List.nil_infix)
        | cons x pattern =>
            have hx : c = x := (List.cons.inj hd).1
            exact absurd (hx ▸ List.mem_cons_self) hc
    | cons x d =>
        have hb : b = d ++ (pattern ++ r) := (List.cons.inj hd).2
        exact Or.inr ⟨d, r, by rw [hb, List.append_assoc]⟩

section

variable {pattern value : List Char} (hne : value ≠ [])
  (hfirst : ∀ c ∈ value.head?, c ∉ pattern) (hlast : ∀ c ∈ value.getLast?, c ∉ pattern)
  (hvalue : ¬ pattern <:+: value)

include hne hfirst in
/-- A replacement does not bring about a beginning of the pattern, if the value cannot go on with
one. -/
private theorem prefix_of_prefix_replace {start s : List Char} (hstart : start ⊆ pattern)
    (h : start <+: replace pattern value s) : start <+: s := by
  induction s generalizing start with
  | nil => exact h
  | cons x s ih =>
      cases start with
      | nil => exact List.nil_prefix
      | cons y start =>
          obtain ⟨c, rest, rfl⟩ := List.exists_cons_of_ne_nil hne
          rw [replace, replaceFrom] at h
          split at h
          · have hy : y = c := (List.cons_prefix_cons.mp h).1
            exact absurd (hstart (hy ▸ List.mem_cons_self)) (hfirst c rfl)
          · obtain ⟨hy, hrest⟩ := List.cons_prefix_cons.mp h
            have hsub : start ⊆ pattern := List.Subset.trans (List.subset_cons_self y start) hstart
            exact List.cons_prefix_cons.mpr ⟨hy, ih hsub hrest⟩

include hne hfirst hlast hvalue in
private theorem not_infix_replaceFrom (hp : pattern ≠ []) (n : Nat) (s : List Char) :
    ¬ pattern <:+: replaceFrom pattern value n s := by
  induction s generalizing n with
  | nil => cases n <;> exact fun h => hp (List.infix_nil.mp h)
  | cons x s ih =>
      cases n with
      | succ n => exact ih n
      | zero =>
          intro h
          rw [replaceFrom] at h
          split at h
          · -- the last character of the value parts it from what follows
            obtain ⟨front, d, rfl⟩ := List.eq_nil_or_concat value |>.resolve_left hne
            rw [List.concat_eq_append] at *
            rw [List.append_assoc, List.singleton_append] at h
            have hd : d ∉ pattern := hlast d List.getLast?_concat
            rcases infix_append_cons hd h with h | h
            · exact hvalue (h.trans (List.prefix_append front [d]).isInfix)
            · exact ih _ h
          · next hstart =>
              rcases List.infix_cons_iff.mp h with h | h
              · -- the pattern would have begun here before
                obtain ⟨y, rest, rfl⟩ := List.exists_cons_of_ne_nil hp
                obtain ⟨rfl, hrest⟩ := List.cons_prefix_cons.mp h
                obtain ⟨r, hr⟩ := prefix_of_prefix_replace hne hfirst
                  (List.subset_cons_self y rest) hrest
                exact hstart (startsWith_iff.mpr ⟨r, by rw [List.cons_append, hr]⟩)
              · exact ih 0 h

include hne hfirst hlast hvalue in
/-- After a replacement the pattern is gone, if it is not in the value and the ends of the value
are no characters of it. -/
theorem not_infix_replace (hp : pattern ≠ []) (s : List Char) :
    ¬ pattern <:+: replace pattern value s :=
  not_infix_replaceFrom hne hfirst hlast hvalue hp 0 s

end

end Text

open Template

/-! ## Fences -/

/-- A text that is not empty and has no character of the name's token. -/
def Fence (name sep : String) : Prop := sep ≠ "" ∧ ∀ c ∈ sep.toList, c ∉ (token name).toList

instance (name sep : String) : Decidable (Fence name sep) :=
  have : Decidable (∀ c ∈ sep.toList, c ∉ (token name).toList) := List.decidableBAll _ _
  inferInstanceAs (Decidable (_ ∧ _))

/-- The text is not empty, and its ends are no characters of the name's token. -/
def EndsApart (name value : String) : Prop :=
  value.toList ≠ [] ∧ (∀ c ∈ value.toList.head?, c ∉ (token name).toList)
    ∧ ∀ c ∈ value.toList.getLast?, c ∉ (token name).toList

instance (name value : String) : Decidable (EndsApart name value) :=
  have (o : Option Char) : Decidable (∀ c ∈ o, c ∉ (token name).toList) :=
    Option.decidableForallMem o
  inferInstanceAs (Decidable (_ ∧ _ ∧ _))

def HoldsToken (name s : String) : Prop := (token name).toList <:+: s.toList

instance (name s : String) : Decidable (HoldsToken name s) :=
  inferInstanceAs (Decidable (_ <:+: _))

section

variable {name : String}

/-- A text without the token of a name has no place for a value. -/
theorem fill_eq_self {s : String} (h : ¬ HoldsToken name s) (value : String) :
    fill s name value = s := by
  apply String.toList_inj.mp
  rw [toList_fill, Text.replace_eq_self h]

/-- The token itself is the place for the value. -/
theorem fill_token (name value : String) : fill (token name) name value = value := by
  apply String.toList_inj.mp
  have h := Text.replace_append (token_ne_nil name) value.toList []
  rwa [List.append_nil, Text.replace_nil, List.append_nil, ← toList_fill] at h

/-- The token of another name stays. -/
theorem fill_token_of_ne {other : String} (hname : PlainName name) (hother : PlainName other)
    (hne : other ≠ name) (value : String) : fill (token other) name value = token other := by
  apply String.toList_inj.mp
  have h := replace_token_append hname hother hne value.toList []
  rwa [List.append_nil, Text.replace_nil, List.append_nil, ← toList_fill] at h

/-- After a fill the token is gone, if it is not in the value and the ends of the value are no
characters of it. -/
theorem not_holdsToken_fill {value : String} (hends : EndsApart name value)
    (hvalue : ¬ HoldsToken name value) (s : String) : ¬ HoldsToken name (fill s name value) := by
  obtain ⟨hne, hfirst, hlast⟩ := hends
  unfold HoldsToken
  rw [toList_fill]
  exact Text.not_infix_replace hne hfirst hlast hvalue (token_ne_nil name) s.toList

/-- A fill of a text with a fence in it is a fill of its two sides. -/
theorem fill_fence {sep : String} (h : Fence name sep) (s t value : String) :
    fill (s ++ sep ++ t) name value = fill s name value ++ sep ++ fill t name value := by
  apply String.toList_inj.mp
  have hne : sep.toList ≠ [] := fun he => h.1 (String.toList_inj.mp he)
  have hsides := Text.replace_append_append (token_ne_nil name) hne h.2 value.toList s.toList
    t.toList
  simpa [toList_fill] using hsides

end

end MigrationDraft
