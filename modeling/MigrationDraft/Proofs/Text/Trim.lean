import MigrationDraft.Text

set_option autoImplicit false

/-!
# Trimming

`trim` takes the longest runs of blanks off the two ends of a text and nothing else: what is
left is trimmed (`trimmed_trim`), the text is that between two runs of blanks
(`exists_blanks_trim`), and blanks put at an end make no difference (`trim_blanks_append`,
`trim_append_blanks`).
-/

namespace MigrationDraft.Text

def Blanks (s : List Char) : Prop := ∀ c ∈ s, isBlank c = true

instance (s : List Char) : Decidable (Blanks s) :=
  List.decidableBAll _ s

instance (s : List Char) : Decidable (Trimmed s) :=
  have (o : Option Char) : Decidable (∀ c ∈ o, isBlank c = false) := Option.decidableForallMem o
  inferInstanceAs (Decidable (_ ∧ _))

theorem not_mem_of_blanks {c : Char} (hc : isBlank c = false) {w : List Char} (hw : Blanks w) :
    c ∉ w := by
  intro hm
  rw [hw c hm] at hc
  cases hc

/-- A letter is no blank. -/
theorem isBlank_of_isAlpha {c : Char} (h : c.isAlpha = true) : isBlank c = false := by
  have hrange : (65 ≤ c.toNat ∧ c.toNat ≤ 90) ∨ (97 ≤ c.toNat ∧ c.toNat ≤ 122) := by
    rcases Bool.or_eq_true_iff.mp h with hupper | hlower
    · exact Or.inl (decide_eq_true_eq.mp hupper)
    · obtain ⟨hfirst, hlast⟩ := Bool.and_eq_true_iff.mp hlower
      exact Or.inr ⟨decide_eq_true_eq.mp hfirst, decide_eq_true_eq.mp hlast⟩
  simp only [isBlank, blankRanges, List.any_cons, List.any_nil, Bool.or_false,
    Bool.or_eq_false_iff, Bool.and_eq_false_iff, decide_eq_false_iff_not]
  omega

/-! ## One end -/

/-- Nothing is dropped from a list whose first element does not ask for it. -/
private theorem dropWhile_eq_self {p : Char → Bool} {s : List Char}
    (h : ∀ c ∈ s.head?, p c = false) : s.dropWhile p = s := by
  cases s with
  | nil => rfl
  | cons c s =>
      have hc : p c = false := h c (by simp)
      simp [hc]

theorem trimStart_eq_self {s : List Char} (h : ∀ c ∈ s.head?, isBlank c = false) :
    trimStart s = s :=
  dropWhile_eq_self h

theorem trimEnd_eq_self {s : List Char} (h : ∀ c ∈ s.getLast?, isBlank c = false) :
    trimEnd s = s := by
  have hrev : ∀ c ∈ s.reverse.head?, isBlank c = false := by
    rw [List.head?_reverse]
    exact h
  rw [trimEnd, dropWhile_eq_self hrev, List.reverse_reverse]

theorem trimStart_blanks_append {b : List Char} (hb : Blanks b) (s : List Char) :
    trimStart (b ++ s) = trimStart s :=
  List.dropWhile_append_of_pos hb

theorem trimEnd_append_blanks {b : List Char} (hb : Blanks b) (s : List Char) :
    trimEnd (s ++ b) = trimEnd s := by
  have hrev : ∀ c ∈ b.reverse, isBlank c = true := fun c hc => hb c (List.mem_reverse.mp hc)
  rw [trimEnd, List.reverse_append, List.dropWhile_append_of_pos hrev, ← trimEnd]

theorem head?_trimStart (s : List Char) : ∀ c ∈ (trimStart s).head?, isBlank c = false := by
  intro c hc
  have h := List.head?_dropWhile_not isBlank s
  rw [← trimStart, hc] at h
  exact h

theorem getLast?_trimEnd (s : List Char) : ∀ c ∈ (trimEnd s).getLast?, isBlank c = false := by
  intro c hc
  rw [trimEnd, List.getLast?_reverse] at hc
  exact head?_trimStart s.reverse c hc

/-- Nothing but blanks is taken off the end. -/
theorem exists_trimEnd_append (s : List Char) : ∃ b, Blanks b ∧ trimEnd s ++ b = s := by
  refine ⟨(s.reverse.takeWhile isBlank).reverse, ?_, trimEnd_append s⟩
  intro c hc
  exact List.all_eq_true.mp List.all_takeWhile c (List.mem_reverse.mp hc)

/-- Nothing but blanks is taken off the front. -/
theorem exists_append_trimStart (s : List Char) : ∃ b, Blanks b ∧ b ++ trimStart s = s :=
  ⟨s.takeWhile isBlank, fun c hc => List.all_eq_true.mp List.all_takeWhile c hc,
    append_trimStart s⟩

/-! ## Both ends -/

theorem trim_eq_self {s : List Char} (h : Trimmed s) : trim s = s := by
  rw [trim, trimStart_eq_self h.1, trimEnd_eq_self h.2]

/-- Blanks in front of a text make no difference to its trimmed form. -/
theorem trim_blanks_append {b : List Char} (hb : Blanks b) (s : List Char) :
    trim (b ++ s) = trim s := by
  rw [trim, trimStart_blanks_append hb, ← trim]

theorem trim_blanks {b : List Char} (hb : Blanks b) : trim b = [] := by
  have h := trim_blanks_append hb []
  rw [List.append_nil] at h
  exact h

/-- Blanks after a text make no difference to its trimmed form. -/
theorem trim_append_blanks {b : List Char} (hb : Blanks b) (s : List Char) :
    trim (s ++ b) = trim s := by
  by_cases hs : Blanks s
  · have hsb : Blanks (s ++ b) := fun c hc => (List.mem_append.mp hc).elim (hs c) (hb c)
    rw [trim_blanks hsb, trim_blanks hs]
  · have hne : trimStart s ≠ [] := by
      intro h
      obtain ⟨a, ha, hs'⟩ := exists_append_trimStart s
      rw [h, List.append_nil] at hs'
      exact hs (hs' ▸ ha)
    have hstart : trimStart (s ++ b) = trimStart s ++ b := by
      unfold trimStart at hne ⊢
      rw [List.dropWhile_append, if_neg (by simpa using hne)]
    rw [trim, hstart, trimEnd_append_blanks hb, ← trim]

theorem trimmed_trim (s : List Char) : Trimmed (trim s) := by
  refine ⟨fun c hc => ?_, getLast?_trimEnd _⟩
  -- The front of what `trimEnd` leaves is the front of what it was given.
  obtain ⟨b, _, hb⟩ := exists_trimEnd_append (trimStart s)
  refine head?_trimStart s c ?_
  rw [← hb, List.head?_append]
  rw [trim] at hc
  simp [Option.mem_def.mp hc]

@[simp] theorem trim_trim (s : List Char) : trim (trim s) = trim s := trim_eq_self (trimmed_trim s)

/-- A text is its trimmed form between two runs of blanks. -/
theorem exists_blanks_trim (s : List Char) :
    ∃ a b, Blanks a ∧ Blanks b ∧ s = a ++ (trim s ++ b) := by
  obtain ⟨a, ha, hs⟩ := exists_append_trimStart s
  obtain ⟨b, hb, ht⟩ := exists_trimEnd_append (trimStart s)
  exact ⟨a, b, ha, hb, by rw [trim, ht, hs]⟩

theorem mem_of_mem_trim {s : List Char} {c : Char} (h : c ∈ trim s) : c ∈ s := by
  obtain ⟨a, b, _, _, hs⟩ := exists_blanks_trim s
  rw [hs]
  simp [h]

/-- Only blanks are trimmed to nothing. -/
theorem trim_eq_nil_iff {s : List Char} : trim s = [] ↔ Blanks s := by
  constructor
  · intro h
    obtain ⟨a, b, ha, hb, hs⟩ := exists_blanks_trim s
    rw [h, List.nil_append] at hs
    intro c hc
    rw [hs] at hc
    exact (List.mem_append.mp hc).elim (ha c) (hb c)
  · exact trim_blanks

end MigrationDraft.Text
