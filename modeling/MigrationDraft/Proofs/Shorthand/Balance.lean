import MigrationDraft.Proofs.Shorthand.Scanning
import MigrationDraft.Shorthand

set_option autoImplicit false

/-!
# Balanced parentheses

A text is *rising* when none of its prefixes closes more parentheses than it opens, and
*balanced* when it is rising and closes as many as it opens. Rising texts add up: a text made of
rising texts is rising, and it is balanced only if each of them is (`BalancedWhen.append`,
`BalancedWhen.group`, `BalancedWhen.intercalate`).

Taking a balanced text apart is the other half. An automaton that counts the open parentheses
checks for balance, and it also bars characters from the inside of parentheses
(`closed_iff`). The pieces between the outer commas of a balanced text are balanced
(`closed_of_mem_pieces`), and so are the segments between colons, if these stand outside all
parentheses (`closed_of_mem_splitOn`).
-/

namespace MigrationDraft.Shorthand

open Text

/-! ## Rising and balanced texts -/

/-- No prefix has more closing parentheses than opening ones. -/
def Rising (s : List Char) : Prop := ∀ p, p <+: s → p.count ')' ≤ p.count '('

/-- No prefix has more closing parentheses than opening ones, and the totals agree. -/
structure Balanced (s : List Char) : Prop where
  rising : Rising s
  total : s.count '(' = s.count ')'

/-- Where the character stands in the text, as many parentheses are closed as are opened before
it. -/
def OnlyOutside (c : Char) (s : List Char) : Prop :=
  ∀ p rest, s = p ++ c :: rest → p.count '(' = p.count ')'

theorem Rising.count_le {s : List Char} (h : Rising s) : s.count ')' ≤ s.count '(' :=
  h s (List.prefix_refl s)

theorem rising_of_not_mem {s : List Char} (h : ')' ∉ s) : Rising s := by
  intro p hp
  have hclose : p.count ')' = 0 := List.count_eq_zero.mpr fun hm => h (hp.subset hm)
  omega

theorem balanced_of_not_mem {s : List Char} (ho : '(' ∉ s) (hc : ')' ∉ s) : Balanced s :=
  ⟨rising_of_not_mem hc, by rw [List.count_eq_zero.mpr ho, List.count_eq_zero.mpr hc]⟩

/-- A rising text that opens nothing closes nothing. -/
theorem Rising.not_mem_close {s : List Char} (h : Rising s) (ho : '(' ∉ s) : ')' ∉ s := by
  have hopen : s.count '(' = 0 := List.count_eq_zero.mpr ho
  have hle := h.count_le
  exact List.count_eq_zero.mp (by omega)

/-! ## Putting together -/

theorem Rising.append {a b : List Char} (ha : Rising a) (hb : Rising b) : Rising (a ++ b) := by
  intro p hp
  -- the prefix ends in the first text or in the second
  rcases List.prefix_or_prefix_of_prefix hp (List.prefix_append a b) with hpa | ⟨q, rfl⟩
  · exact ha p hpa
  · have hq := hb q ((List.prefix_append_right_inj a).mp hp)
    have hle := ha.count_le
    rw [List.count_append, List.count_append]
    omega

theorem Rising.group {s : List Char} (h : Rising s) : Rising ('(' :: (s ++ [')'])) := by
  intro p hp
  -- only the whole has the last parenthesis, and that has the first one too
  rcases List.prefix_cons_iff.mp hp with rfl | ⟨q, rfl, hq⟩
  · simp
  · rcases List.prefix_concat_iff.mp hq with rfl | hq
    · have hle := h.count_le
      simpa using hle
    · have hle := h q hq
      rw [List.count_cons_self, List.count_cons_of_ne (by decide)]
      omega

/-- The text is rising, and it is balanced exactly if `P` holds. -/
structure BalancedWhen (P : Prop) (s : List Char) : Prop where
  rising : Rising s
  balanced_iff : Balanced s ↔ P

theorem Rising.balancedWhen {s : List Char} (h : Rising s) : BalancedWhen (Balanced s) s :=
  ⟨h, Iff.rfl⟩

theorem Balanced.when {s : List Char} (h : Balanced s) : BalancedWhen True s :=
  ⟨h.rising, iff_true_intro h⟩

namespace BalancedWhen

variable {P Q : Prop} {a b s : List Char}

theorem congr (h : BalancedWhen P s) (hPQ : P ↔ Q) : BalancedWhen Q s :=
  ⟨h.rising, h.balanced_iff.trans hPQ⟩

/-- Rising texts cannot make up for each other: together they are balanced only if each is. -/
theorem append (ha : BalancedWhen P a) (hb : BalancedWhen Q b) :
    BalancedWhen (P ∧ Q) (a ++ b) := by
  refine ⟨ha.rising.append hb.rising, ?_⟩
  rw [← ha.balanced_iff, ← hb.balanced_iff]
  have hale := ha.rising.count_le
  have hble := hb.rising.count_le
  constructor
  · intro h
    have htotal := h.total
    rw [List.count_append, List.count_append] at htotal
    exact ⟨⟨ha.rising, by omega⟩, ⟨hb.rising, by omega⟩⟩
  · rintro ⟨ha', hb'⟩
    refine ⟨ha.rising.append hb.rising, ?_⟩
    rw [List.count_append, List.count_append, ha'.total, hb'.total]

/-- Parentheses around a text make no difference to its balance. -/
theorem group (h : BalancedWhen P s) : BalancedWhen P ('(' :: (s ++ [')'])) := by
  refine ⟨h.rising.group, ?_⟩
  have htotal : ('(' :: (s ++ [')'])).count '(' = ('(' :: (s ++ [')'])).count ')'
      ↔ s.count '(' = s.count ')' := by simp
  rw [← h.balanced_iff]
  exact ⟨fun hs => ⟨h.rising, htotal.mp hs.total⟩, fun hs => ⟨h.rising.group, htotal.mpr hs.total⟩⟩

theorem flatMap {α : Type} {f : α → List Char} {P : α → Prop} {l : List α}
    (h : ∀ x ∈ l, BalancedWhen (P x) (f x)) : BalancedWhen (∀ x ∈ l, P x) (l.flatMap f) := by
  induction l with
  | nil => exact (balanced_of_not_mem (by simp) (by simp)).when.congr (by simp)
  | cons x l ih =>
      obtain ⟨hx, hl⟩ := List.forall_mem_cons.mp h
      rw [List.flatMap_cons]
      exact (hx.append (ih hl)).congr List.forall_mem_cons.symm

theorem intercalate {sep : List Char} (hsep : Balanced sep) {P : List Char → Prop}
    {ls : List (List Char)} (h : ∀ l ∈ ls, BalancedWhen (P l) l) :
    BalancedWhen (∀ l ∈ ls, P l) (sep.intercalate ls) := by
  induction ls with
  | nil => exact (balanced_of_not_mem (by simp) (by simp)).when.congr (by simp)
  | cons l ls ih =>
      obtain ⟨hl, hls⟩ := List.forall_mem_cons.mp h
      cases ls with
      | nil =>
          rw [List.intercalate_singleton]
          exact hl.congr (by simp)
      | cons m ls =>
          rw [List.intercalate_cons_cons]
          have hjoin := (hl.append hsep.when).append (ih hls)
          exact hjoin.congr (by rw [and_true, List.forall_mem_cons (l := m :: ls)])

end BalancedWhen

/-! ## The automaton -/

/-- The number of open parentheses after one more character, none where one is closed that was
not open and where a barred character stands inside parentheses. -/
def nextLevel (bar : List Char) (level : Nat) (c : Char) : Option Nat :=
  if c ∈ bar ∧ level ≠ 0 then none
  else if c = '(' then some (level + 1)
  else if c = ')' then if level = 0 then none else some (level - 1)
  else some level

/-- The text is balanced, and none of the characters in `bar` stands inside its parentheses. -/
def Closed (bar s : List Char) : Prop := run (nextLevel bar) 0 s = some 0

instance (bar s : List Char) : Decidable (Closed bar s) :=
  inferInstanceAs (Decidable (run (nextLevel bar) 0 s = some 0))

/-- What a step of the automaton can be. -/
theorem nextLevel_eq_some_iff {bar : List Char} {n m : Nat} {c : Char} :
    nextLevel bar n c = some m ↔ (c ∈ bar → n = 0)
      ∧ ((c = '(' ∧ m = n + 1) ∨ (c = ')' ∧ n = m + 1) ∨ (c ≠ '(' ∧ c ≠ ')' ∧ m = n)) := by
  unfold nextLevel
  grind

/-- A step moves the parenthesis it reads from the text to the level. -/
private theorem count_cons_of_nextLevel {bar : List Char} {n m : Nat} {c : Char}
    (h : nextLevel bar n c = some m) (s : List Char) :
    n + (c :: s).count '(' + s.count ')' = m + s.count '(' + (c :: s).count ')' := by
  rcases (nextLevel_eq_some_iff.mp h).2 with ⟨rfl, rfl⟩ | ⟨rfl, rfl⟩ | ⟨ho, hc, rfl⟩
  · simp
    omega
  · simp
    omega
  · simp [ho, hc]

/-- What the automaton checks of a text that leads from level `n` to level `m`. -/
structure Levels (bar : List Char) (n m : Nat) (s : List Char) : Prop where
  rising : ∀ p, p <+: s → p.count ')' ≤ n + p.count '('
  total : n + s.count '(' = m + s.count ')'
  outside : ∀ c ∈ bar, ∀ p rest, s = p ++ c :: rest → n + p.count '(' = p.count ')'

section

variable {bar s : List Char} {n j m : Nat} {c : Char}

theorem Levels.cons (hstep : nextLevel bar n c = some j) (h : Levels bar j m s) :
    Levels bar n m (c :: s) := by
  have hcount := count_cons_of_nextLevel hstep
  refine ⟨fun p hp => ?_, ?_, fun x hx p rest hs => ?_⟩
  · -- a prefix of the whole is empty, or it is a prefix of the rest after the first character
    rcases List.prefix_cons_iff.mp hp with rfl | ⟨t, rfl, ht⟩
    · simp
    · have hle := h.rising t ht
      have hct := hcount t
      omega
  · have heq := h.total
    have hcs := hcount s
    omega
  · cases p with
    | nil =>
        have hn : n = 0 := (nextLevel_eq_some_iff.mp hstep).1 ((List.cons.inj hs).1 ▸ hx)
        simp [hn]
    | cons y p =>
        obtain ⟨rfl, htail⟩ := List.cons.inj hs
        have heq := h.outside x hx p rest htail
        have hcp := hcount p
        omega

theorem Levels.of_cons (hstep : nextLevel bar n c = some j) (h : Levels bar n m (c :: s)) :
    Levels bar j m s := by
  have hcount := count_cons_of_nextLevel hstep
  refine ⟨fun p hp => ?_, ?_, fun x hx p rest hs => ?_⟩
  · have hle := h.rising (c :: p) ((List.prefix_cons_inj c).mpr hp)
    have hcp := hcount p
    omega
  · have heq := h.total
    have hcs := hcount s
    omega
  · have heq := h.outside x hx (c :: p) rest (by rw [hs]; rfl)
    have hcp := hcount p
    omega

/-- The automaton does not stop at the first character. -/
theorem Levels.exists_step (h : Levels bar n m (c :: s)) : ∃ j, nextLevel bar n c = some j := by
  -- the empty prefix and the first character alone say that neither reason to stop is given
  have hbar : c ∈ bar → n = 0 := fun hc => by simpa using h.outside c hc [] s rfl
  by_cases ho : c = '('
  · exact ⟨n + 1, nextLevel_eq_some_iff.mpr ⟨hbar, Or.inl ⟨ho, rfl⟩⟩⟩
  · by_cases hc : c = ')'
    · have hle : 1 ≤ n := by simpa [hc] using h.rising [c] (by simp)
      exact ⟨n - 1, nextLevel_eq_some_iff.mpr ⟨hbar, Or.inr (Or.inl ⟨hc, by omega⟩)⟩⟩
    · exact ⟨n, nextLevel_eq_some_iff.mpr ⟨hbar, Or.inr (Or.inr ⟨ho, hc, rfl⟩)⟩⟩

end

/-- The automaton checks what it is meant to check. -/
theorem run_nextLevel_eq_some_iff {bar s : List Char} {n m : Nat} :
    run (nextLevel bar) n s = some m ↔ Levels bar n m s := by
  induction s generalizing n with
  | nil =>
      constructor
      · intro h
        cases h
        exact ⟨by simp, rfl, by simp⟩
      · intro h
        exact congrArg some h.total
  | cons c s ih =>
      rw [run_cons_eq_some_iff]
      constructor
      · rintro ⟨j, hstep, h⟩
        exact (ih.mp h).cons hstep
      · intro h
        obtain ⟨j, hstep⟩ := h.exists_step
        exact ⟨j, hstep, ih.mpr (h.of_cons hstep)⟩

theorem closed_iff {bar s : List Char} :
    Closed bar s ↔ Balanced s ∧ ∀ c ∈ bar, OnlyOutside c s := by
  unfold Closed
  rw [run_nextLevel_eq_some_iff]
  constructor
  · rintro ⟨hrise, htotal, hout⟩
    simp only [Nat.zero_add] at hrise htotal hout
    exact ⟨⟨hrise, htotal⟩, hout⟩
  · rintro ⟨h, hout⟩
    refine ⟨fun p hp => ?_, ?_, fun c hc p rest hs => ?_⟩
    · rw [Nat.zero_add]
      exact h.rising p hp
    · rw [Nat.zero_add, Nat.zero_add]
      exact h.total
    · rw [Nat.zero_add]
      exact hout c hc p rest hs

theorem Closed.balanced {bar s : List Char} (h : Closed bar s) : Balanced s :=
  (closed_iff.mp h).1

/-! ## Other characters -/

def isParenthesis (c : Char) : Bool := c == '(' || c == ')'

/-- Characters that are no parentheses do not matter where none is barred. -/
theorem run_nextLevel_filter (n : Nat) (s : List Char) :
    run (nextLevel []) n (s.filter isParenthesis) = run (nextLevel []) n s := by
  induction s generalizing n with
  | nil => rfl
  | cons c s ih =>
      by_cases hc : isParenthesis c = true
      · rw [List.filter_cons_of_pos hc, run_cons, run_cons]
        simp only [ih]
      · have hother : c ≠ '(' ∧ c ≠ ')' := by simpa [isParenthesis] using hc
        have hstep : nextLevel [] n c = some n :=
          nextLevel_eq_some_iff.mpr ⟨by simp, Or.inr (Or.inr ⟨hother.1, hother.2, rfl⟩)⟩
        rw [List.filter_cons_of_neg hc, ih, run_cons, hstep]
        rfl

/-- Texts with the same parentheses in the same order are balanced together. -/
theorem Balanced.of_filter_eq {s t : List Char} (ht : Balanced t)
    (h : s.filter isParenthesis = t.filter isParenthesis) : Balanced s := by
  have hclosed : Closed [] t := closed_iff.mpr ⟨ht, by simp⟩
  unfold Closed at hclosed
  rw [← run_nextLevel_filter, ← h, run_nextLevel_filter] at hclosed
  exact Closed.balanced hclosed

/-! ## Taking apart -/

section

variable {bar s : List Char}

/-- Outside the texts that stop the automaton, its level is the depth of the scanner that looks
for commas. -/
theorem nextDepth_of_nextLevel {n m : Nat} {c : Char} (h : nextLevel bar n c = some m) :
    nextDepth n c = m := by
  rcases (nextLevel_eq_some_iff.mp h).2 with ⟨rfl, rfl⟩ | ⟨rfl, rfl⟩ | ⟨ho, hc, rfl⟩
  · rfl
  · rfl
  · simp [nextDepth, ho, hc]

private theorem runsThrough_piecesFrom_level {n : Nat} (h : run (nextLevel bar) n s = some 0) :
    RunsThrough (nextLevel bar) 0 n (piecesFrom n s) := by
  induction s generalizing n with
  | nil => exact ⟨h, by simp⟩
  | cons c s ih =>
      obtain ⟨m, hm, h⟩ := run_cons_eq_some_iff.mp h
      have hdepth := nextDepth_of_nextLevel hm
      rw [piecesFrom]
      split
      · next hcut =>
          -- a comma leaves the level at zero, where the next piece begins
          have hm' : m = 0 := by rw [← hdepth, hcut.1, hcut.2]; rfl
          rw [hm'] at h
          rw [hcut.2]
          exact (ih h).cut
      · rw [hdepth]
        exact (ih h).modifyHead hm

/-- The pieces between the outer commas of a balanced text are balanced. -/
theorem closed_of_mem_pieces (h : Closed bar s) : ∀ p ∈ pieces s, Closed bar p :=
  (runsThrough_piecesFrom_level h).run_of_mem

private theorem runsThrough_splitOn_level {sep : Char} (hbar : sep ∈ bar) (ho : sep ≠ '(')
    (hc : sep ≠ ')') {n : Nat} (h : run (nextLevel bar) n s = some 0) :
    RunsThrough (nextLevel bar) 0 n (s.splitOn sep) := by
  induction s generalizing n with
  | nil => exact ⟨h, by simp⟩
  | cons c s ih =>
      obtain ⟨m, hm, h⟩ := run_cons_eq_some_iff.mp h
      rw [List.splitOn_cons_eq_if_modifyHead]
      split
      · next hcut =>
          rw [beq_iff_eq.mp hcut] at hm
          -- the separator is met at level zero only, and it leaves the level as it is
          obtain ⟨hzero, hstep⟩ := nextLevel_eq_some_iff.mp hm
          have hn : n = 0 := hzero hbar
          have hm' : m = 0 := by
            rcases hstep with ⟨he, _⟩ | ⟨he, _⟩ | ⟨_, _, he⟩
            · exact absurd he ho
            · exact absurd he hc
            · rw [he, hn]
          rw [hm'] at h
          rw [hn]
          exact (ih h).cut
      · exact (ih h).modifyHead hm

/-- The segments of a balanced text are balanced if the separator is outside parentheses. -/
theorem closed_of_mem_splitOn {sep : Char} (hbar : sep ∈ bar) (ho : sep ≠ '(') (hc : sep ≠ ')')
    (h : Closed bar s) : ∀ p ∈ s.splitOn sep, Closed bar p :=
  (runsThrough_splitOn_level hbar ho hc h).run_of_mem

theorem Closed.trim (h : Closed bar s) : Closed bar (trim s) := by
  show run (nextLevel bar) 0 (Text.trim s) = some 0
  refine run_trim ?_ h
  intro n m c hblank hstep
  rcases (nextLevel_eq_some_iff.mp hstep).2 with ⟨rfl, _⟩ | ⟨rfl, _⟩ | ⟨_, _, he⟩
  · exact absurd hblank (by decide)
  · exact absurd hblank (by decide)
  · exact he

/-- What comes before a point of a balanced text is rising. -/
theorem Closed.rising_of_append {a b : List Char} (h : Closed bar (a ++ b)) : Rising a :=
  fun p hp => h.balanced.rising p (hp.trans (List.prefix_append a b))

/-- What is inside the first group of a balanced text has none of the barred characters. -/
theorem Closed.not_mem_inner {head inner rest : List Char}
    (h : Closed bar (head ++ '(' :: (inner ++ rest))) (hhead : '(' ∉ head)
    (hinner : ')' ∉ inner) : ∀ c ∈ bar, c ∉ inner := by
  intro c hc hmem
  obtain ⟨front, back, rfl⟩ := List.append_of_mem hmem
  have hout := (closed_iff.mp h).2 c hc (head ++ '(' :: front) (back ++ rest) (by simp)
  have hhead' : ')' ∉ head := h.rising_of_append.not_mem_close hhead
  have hfront : ')' ∉ front := fun hm => hinner (List.mem_append_left _ hm)
  -- one parenthesis is open there, and none has been closed
  have hclosed : (head ++ '(' :: front).count ')' = 0 :=
    List.count_eq_zero.mpr (by simp [hhead', hfront])
  have hopened : 0 < (head ++ '(' :: front).count '(' := List.count_pos_iff.mpr (by simp)
  omega

end

end MigrationDraft.Shorthand
