import MigrationDraft.Text.LetterCase

set_option autoImplicit false

/-!
# Characters that no other letter case leads to

A case mapping changes a character by an entry of a table, or leaves it as it is. So a character
that no entry leads to comes from itself only (`eq_of_mem_convert`), and the opening brace is one of
these in both directions: a text in upper or in lower case has no brace that it did not have before.
-/

namespace MigrationDraft.Text

open LetterCase

namespace LetterCase

/-- A table either leaves a code point as it is or moves it by the offset of a run that holds
it. -/
theorem follow_cases (runs : List Run) (n : Nat) :
    follow runs n = n
      ∨ ∃ r ∈ runs, r.first ≤ n ∧ n ≤ r.last ∧ follow runs n = ((n : Int) + r.offset).toNat := by
  induction runs with
  | nil => exact Or.inl rfl
  | cons r rs ih =>
      rw [follow]
      by_cases hfirst : n < r.first
      · rw [if_pos hfirst]
        exact Or.inl rfl
      · rw [if_neg hfirst]
        by_cases hlast : n ≤ r.last
        · rw [if_pos hlast]
          split
          · exact Or.inr ⟨r, List.mem_cons_self, by omega, hlast, rfl⟩
          · exact Or.inl rfl
        · rw [if_neg hlast]
          rcases ih with hsame | ⟨q, hq, hmoved⟩
          · exact Or.inl hsame
          · exact Or.inr ⟨q, List.mem_cons_of_mem r hq, hmoved⟩

/-- The run moves no code point to `n`. -/
def Run.misses (n : Nat) (r : Run) : Bool :=
  (n : Int) < r.first + r.offset || r.last + r.offset < (n : Int)

/-- A code point that no run leads to comes from itself only. -/
theorem eq_of_follow_eq {runs : List Run} {n m : Nat} (hm : 0 < m)
    (h : ∀ r ∈ runs, r.misses m = true) (hn : follow runs n = m) : n = m := by
  rcases follow_cases runs n with hsame | ⟨r, hr, hfirst, hlast, hmoved⟩
  · rw [← hsame, hn]
  · have hmisses := h r hr
    rw [Run.misses, Bool.or_eq_true, decide_eq_true_eq, decide_eq_true_eq] at hmisses
    omega

end LetterCase

theorem toNat_eq_of_ofNat_eq {n : Nat} {c : Char} (hc : c ≠ '\x00') (h : Char.ofNat n = c) :
    n = c.toNat := by
  by_cases hn : n.isValidChar
  · have hvalid : Char.ofNat n = Char.ofNatAux n hn := dif_pos hn
    rw [← h, hvalid]
    rfl
  · have hzero : Char.ofNat n = '\x00' := dif_neg hn
    exact absurd (h.symm.trans hzero) hc

/-- A character that no entry of the tables leads to comes from itself only. -/
theorem eq_of_mem_convert {expansions : List (Nat × List Nat)} {runs : List Run} {a c : Char}
    (ha : a ≠ '\x00') (hexpansions : ∀ e ∈ expansions, a ∉ e.2.map Char.ofNat)
    (hruns : ∀ r ∈ runs, r.misses a.toNat = true) (h : a ∈ convert expansions runs c) : c = a := by
  unfold convert at h
  cases hlookup : expansions.lookup c.toNat with
  | some ns =>
      rw [hlookup] at h
      obtain ⟨before, after, htable, _⟩ := List.lookup_eq_some_iff.mp hlookup
      exact absurd h (hexpansions (c.toNat, ns) (by rw [htable]; simp))
  | none =>
      rw [hlookup] at h
      have hcode : follow runs c.toNat = a.toNat :=
        toNat_eq_of_ofNat_eq ha (List.mem_singleton.mp h).symm
      have hpos : 0 < a.toNat := Nat.pos_of_ne_zero fun hzero => ha (Char.toNat_inj.mp hzero)
      exact Char.toNat_inj.mp (eq_of_follow_eq hpos hruns hcode)

/-- Only an opening brace has one in its upper case. -/
theorem eq_brace_of_mem_upperChar {c : Char} (h : '\x7b' ∈ upperChar c) : c = '\x7b' :=
  eq_of_mem_convert (by decide) (by decide +kernel) (by decide +kernel) h

/-- Only an opening brace has one in its lower case. -/
theorem eq_brace_of_mem_lowerChar {c : Char} (h : '\x7b' ∈ lowerChar c) : c = '\x7b' :=
  eq_of_mem_convert (by decide) (by decide +kernel) (by decide +kernel) h

theorem brace_not_mem_lowerFrom {s : List Char} (h : '\x7b' ∉ s) (before : List Char) :
    '\x7b' ∉ lowerFrom before s := by
  induction s generalizing before with
  | nil => exact List.not_mem_nil
  | cons c s ih =>
      rw [List.mem_cons, not_or] at h
      rw [lowerFrom, List.mem_append, not_or]
      refine ⟨?_, ih h.2 (c :: before)⟩
      split
      · -- a sigma stays one, of whichever form
        split <;> decide
      · exact fun hc => h.1 (eq_brace_of_mem_lowerChar hc).symm

/-- A text in lower case has no opening brace that the text does not have. -/
theorem brace_not_mem_lower {s : List Char} (h : '\x7b' ∉ s) : '\x7b' ∉ lower s :=
  brace_not_mem_lowerFrom h []

end MigrationDraft.Text
