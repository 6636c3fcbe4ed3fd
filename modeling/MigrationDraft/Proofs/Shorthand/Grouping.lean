import MigrationDraft.Proofs.Shorthand.Commas
import MigrationDraft.Proofs.Shorthand.Scanning
import MigrationDraft.Proofs.Text.Splitting

set_option autoImplicit false

/-!
# Texts with regular groups

A text is *grouped* when each of its opening parentheses is closed before another parenthesis
is opened, before a colon and before the end, and when no other parenthesis is closed. This is
checked by an automaton whose state says whether a group is open. The automaton also takes a
list of characters that it bars outside groups.

Grouping is kept by all that reading does to a text: the pieces between the outer commas of a
grouped text are grouped and have no comma outside a group (`grouped_of_mem_pieces`), their
segments are grouped and have no colon (`grouped_of_mem_splitOn`), and so are the trimmed
segments (`Grouped.trim`). Such a segment is self-contained. Without an opening parenthesis it is
plain (`Grouped.plain`), and where it has a group, what comes before the first group and what is
inside it are plain as well (`Grouped.plain_head_inner`).
-/

namespace MigrationDraft.Shorthand

open Text

/-! ## The automaton -/

/-- The state after one more character, none where the text is not grouped. -/
def nextState (bar : List Char) (isOpen : Bool) (c : Char) : Option Bool :=
  if isOpen then
    if c = ')' then some false else if c = '(' ∨ c = ':' then none else some true
  else if c = '(' then some true
  else if c = ')' ∨ c ∈ bar then none
  else some false

def stateAfter (bar : List Char) (isOpen : Bool) (s : List Char) : Option Bool :=
  s.foldlM (nextState bar) isOpen

/-- The text is grouped, and none of the characters in `bar` stands outside its groups. -/
def Grouped (bar s : List Char) : Prop := stateAfter bar false s = some false

instance (bar s : List Char) : Decidable (Grouped bar s) :=
  inferInstanceAs (Decidable (stateAfter bar false s = some false))

@[simp] theorem stateAfter_cons (bar : List Char) (isOpen : Bool) (c : Char) (s : List Char) :
    stateAfter bar isOpen (c :: s) = (nextState bar isOpen c).bind fun j => stateAfter bar j s :=
  rfl

/-- What a step from outside all groups can be. -/
theorem nextState_false_eq_some {bar : List Char} {c : Char} {j : Bool}
    (h : nextState bar false c = some j) :
    (c = '(' ∧ j = true) ∨ (c ≠ '(' ∧ c ≠ ')' ∧ c ∉ bar ∧ j = false) := by
  unfold nextState at h
  rw [if_neg (by simp)] at h
  split at h
  · next ho => exact Or.inl ⟨ho, (Option.some.inj h).symm⟩
  · next ho =>
      split at h
      · cases h
      · next hc =>
          rw [not_or] at hc
          exact Or.inr ⟨ho, hc.1, hc.2, (Option.some.inj h).symm⟩

/-- Only an opening parenthesis opens a group. -/
theorem eq_false_of_nextState {bar : List Char} {c : Char} {j : Bool} (hc : c ≠ '(')
    (h : nextState bar false c = some j) : j = false := by
  rcases nextState_false_eq_some h with ⟨ho, _⟩ | ⟨_, _, _, hj⟩
  · exact absurd ho hc
  · exact hj

/-- What a step inside a group can be. -/
theorem nextState_true_eq_some {bar : List Char} {c : Char} {j : Bool}
    (h : nextState bar true c = some j) :
    (c = ')' ∧ j = false) ∨ (c ≠ '(' ∧ c ≠ ')' ∧ c ≠ ':' ∧ j = true) := by
  unfold nextState at h
  rw [if_pos rfl] at h
  split at h
  · next hc => exact Or.inl ⟨hc, (Option.some.inj h).symm⟩
  · next hc =>
      split at h
      · cases h
      · next ho =>
          rw [not_or] at ho
          exact Or.inr ⟨ho.1, hc, ho.2, (Option.some.inj h).symm⟩

/-- A step stays what it is when a further character is barred, unless it is a step over that
character outside all groups. -/
theorem nextState_bar {bar : List Char} {isOpen j : Bool} {c x : Char}
    (h : nextState bar isOpen c = some j) (hx : isOpen = false → c ≠ x) :
    nextState (x :: bar) isOpen c = some j := by
  cases isOpen with
  | true => exact h
  | false =>
      rcases nextState_false_eq_some h with ⟨rfl, rfl⟩ | ⟨ho, hc, hbar, rfl⟩
      · rfl
      · have hcx : c ≠ x := hx rfl
        simp [nextState, ho, hc, hbar, hcx]

/-- Only parentheses change the state. -/
theorem eq_of_nextState {bar : List Char} {i j : Bool} {c : Char} (ho : c ≠ '(') (hc : c ≠ ')')
    (h : nextState bar i c = some j) : j = i := by
  cases i with
  | false => exact eq_false_of_nextState ho h
  | true =>
      rcases nextState_true_eq_some h with ⟨hclose, _⟩ | ⟨_, _, _, hj⟩
      · exact absurd hclose hc
      · exact hj

/-! ## Cutting and splitting -/

/-- The depth of parentheses that a state stands for. -/
private def depthOf (isOpen : Bool) : Nat := if isOpen then 1 else 0

private theorem nextDepth_depthOf {bar : List Char} {isOpen j : Bool} {c : Char}
    (h : nextState bar isOpen c = some j) : nextDepth (depthOf isOpen) c = depthOf j := by
  cases isOpen with
  | true =>
      rcases nextState_true_eq_some h with ⟨rfl, rfl⟩ | ⟨ho, hc, _, rfl⟩
      · rfl
      · simp [nextDepth, ho, hc]
  | false =>
      rcases nextState_false_eq_some h with ⟨rfl, rfl⟩ | ⟨ho, hc, _, rfl⟩
      · rfl
      · simp [nextDepth, ho, hc]

private theorem runsThrough_piecesFrom {bar s : List Char} {isOpen : Bool}
    (h : stateAfter bar isOpen s = some false) :
    RunsThrough (nextState (',' :: bar)) false isOpen (piecesFrom (depthOf isOpen) s) := by
  induction s generalizing isOpen with
  | nil => exact ⟨h, by simp⟩
  | cons c s ih =>
      rw [stateAfter_cons] at h
      obtain ⟨j, hj, h⟩ := Option.bind_eq_some_iff.mp h
      rw [piecesFrom]
      split
      · next hcut =>
          -- at depth zero no group is open, and none is open after the comma
          have hopen : isOpen = false := by
            cases isOpen with
            | false => rfl
            | true => exact absurd hcut.2 (by simp [depthOf])
          have hj' : j = false := eq_false_of_nextState (by simp [hcut.1]) (hopen ▸ hj)
          rw [hj'] at h
          rw [hopen]
          exact (ih h).cut
      · next hcut =>
          have hne : isOpen = false → c ≠ ',' := by
            rintro rfl rfl
            exact hcut ⟨rfl, rfl⟩
          rw [nextDepth_depthOf hj]
          exact (ih h).modifyHead (nextState_bar hj hne)

/-- The pieces of a grouped text are grouped, with commas only inside their groups. -/
theorem grouped_of_mem_pieces {bar s : List Char} (h : Grouped bar s) :
    ∀ p ∈ pieces s, Grouped (',' :: bar) p :=
  (runsThrough_piecesFrom h).run_of_mem

private theorem runsThrough_splitOn {bar s : List Char} {isOpen : Bool}
    (h : stateAfter bar isOpen s = some false) :
    RunsThrough (nextState (':' :: bar)) false isOpen (s.splitOn ':') := by
  induction s generalizing isOpen with
  | nil => exact ⟨h, by simp⟩
  | cons c s ih =>
      rw [stateAfter_cons] at h
      obtain ⟨j, hj, h⟩ := Option.bind_eq_some_iff.mp h
      rw [List.splitOn_cons_eq_if_modifyHead]
      split
      · next hcolon =>
          rw [beq_iff_eq.mp hcolon] at hj
          -- a colon is met outside all groups only
          have hopen : isOpen = false := by
            cases isOpen with
            | false => rfl
            | true => cases hj
          have hj' : j = false := eq_false_of_nextState (by decide) (hopen ▸ hj)
          rw [hj'] at h
          rw [hopen]
          exact (ih h).cut
      · next hcolon =>
          have hc : c ≠ ':' := fun he => hcolon (beq_iff_eq.mpr he)
          exact (ih h).modifyHead (nextState_bar hj fun _ => hc)

/-- The segments of a grouped text are grouped and hold no colon outside a group. -/
theorem grouped_of_mem_splitOn {bar s : List Char} (h : Grouped bar s) :
    ∀ p ∈ s.splitOn ':', Grouped (':' :: bar) p :=
  (runsThrough_splitOn h).run_of_mem

/-! ## Trimming -/

theorem Grouped.trim {bar s : List Char} (h : Grouped bar s) : Grouped bar (trim s) := by
  show run (nextState bar) false (Text.trim s) = some false
  refine run_trim (fun hblank hj => eq_of_nextState ?_ ?_ hj) h
  · rintro rfl
    exact absurd hblank (by decide)
  · rintro rfl
    exact absurd hblank (by decide)

/-! ## The shape of a grouped text -/

/-- A barred character is not met outside all groups, unless it opens one. -/
theorem eq_true_of_nextState_of_mem {bar : List Char} {i j : Bool} {c : Char} (hbar : c ∈ bar)
    (hc : c ≠ '(') (h : nextState bar i c = some j) : i = true := by
  cases i with
  | true => rfl
  | false =>
      rcases nextState_false_eq_some h with ⟨ho, _⟩ | ⟨_, _, hn, _⟩
      · exact absurd ho hc
      · exact absurd hbar hn

/-- A colon that is barred outside groups is nowhere, as no group holds one. -/
theorem not_mem_colon_of_stateAfter {bar s : List Char} {i j : Bool} (hbar : ':' ∈ bar)
    (h : stateAfter bar i s = some j) : ':' ∉ s := by
  induction s generalizing i with
  | nil => simp
  | cons c s ih =>
      rw [stateAfter_cons] at h
      obtain ⟨k, hk, h⟩ := Option.bind_eq_some_iff.mp h
      rw [List.mem_cons, not_or]
      refine ⟨?_, ih h⟩
      rintro rfl
      rw [eq_true_of_nextState_of_mem hbar (by decide) hk] at hk
      cases hk

theorem Grouped.not_mem_colon {bar s : List Char} (h : Grouped bar s) (hbar : ':' ∈ bar) :
    ':' ∉ s :=
  not_mem_colon_of_stateAfter hbar h

/-- Where commas are barred outside groups, none is at depth zero, and the depth at the end is
that of the last state. -/
private theorem uncut_of_stateAfter {bar s : List Char} {i j : Bool} (hbar : ',' ∈ bar)
    (h : stateAfter bar i s = some j) :
    Uncut (depthOf i) s ∧ depthAfter (depthOf i) s = depthOf j := by
  induction s generalizing i with
  | nil =>
      cases h
      exact ⟨rfl, rfl⟩
  | cons c s ih =>
      rw [stateAfter_cons] at h
      obtain ⟨k, hk, h⟩ := Option.bind_eq_some_iff.mp h
      obtain ⟨huncut, hdepth⟩ := ih h
      rw [uncut_cons_iff, depthAfter_cons, nextDepth_depthOf hk]
      refine ⟨⟨?_, huncut⟩, hdepth⟩
      rintro ⟨rfl, hzero⟩
      rw [eq_true_of_nextState_of_mem hbar (by decide) hk] at hzero
      exact absurd hzero (by simp [depthOf])

theorem Grouped.selfContained {bar s : List Char} (h : Grouped bar s) (hbar : ',' ∈ bar) :
    SelfContained s := by
  obtain ⟨huncut, hdepth⟩ := uncut_of_stateAfter hbar h
  exact ⟨huncut, hdepth⟩

/-- An open group is closed by the first parenthesis that comes. -/
theorem exists_inner_of_stateAfter_true {bar s : List Char}
    (h : stateAfter bar true s = some false) :
    ∃ inner rest, s = inner ++ ')' :: rest ∧ ∀ c ∈ [':', '(', ')'], c ∉ inner := by
  induction s with
  | nil => cases h
  | cons c s ih =>
      rw [stateAfter_cons] at h
      obtain ⟨j, hj, h⟩ := Option.bind_eq_some_iff.mp h
      rcases nextState_true_eq_some hj with ⟨rfl, rfl⟩ | ⟨ho, hc, hcolon, rfl⟩
      · exact ⟨[], s, rfl, by simp⟩
      · obtain ⟨inner, rest, rfl, hinner⟩ := ih h
        refine ⟨c :: inner, rest, rfl, fun x hx hmem => ?_⟩
        rcases List.mem_cons.mp hmem with rfl | hmem
        · simp [ho, hc, hcolon] at hx
        · exact hinner x hx hmem

/-- A grouped text has no parenthesis, or a first group after a head without any. -/
theorem Grouped.plain_or_group {bar s : List Char} (h : Grouped bar s) :
    (∀ c ∈ '(' :: ')' :: bar, c ∉ s)
      ∨ ∃ head inner rest, s = head ++ '(' :: (inner ++ ')' :: rest)
        ∧ (∀ c ∈ '(' :: ')' :: bar, c ∉ head) ∧ ∀ c ∈ [':', '(', ')'], c ∉ inner := by
  induction s with
  | nil => exact Or.inl (by simp)
  | cons c s ih =>
      unfold Grouped at h
      rw [stateAfter_cons] at h
      obtain ⟨j, hj, h⟩ := Option.bind_eq_some_iff.mp h
      rcases nextState_false_eq_some hj with ⟨rfl, rfl⟩ | ⟨ho, hc, hbar, rfl⟩
      · obtain ⟨inner, rest, rfl, hinner⟩ := exists_inner_of_stateAfter_true h
        exact Or.inr ⟨[], inner, rest, rfl, by simp, hinner⟩
      · have hne : ∀ x ∈ '(' :: ')' :: bar, x ≠ c := by
          rintro x hx rfl
          simp [ho, hc, hbar] at hx
        rcases ih h with hplain | ⟨head, inner, rest, rfl, hhead, hinner⟩
        · exact Or.inl fun x hx => by simp [hne x hx, hplain x hx]
        · exact Or.inr ⟨c :: head, inner, rest, rfl,
            fun x hx => by simp [hne x hx, hhead x hx], hinner⟩

theorem Grouped.plain {bar s : List Char} (h : Grouped bar s) (hopen : '(' ∉ s) :
    ∀ c ∈ '(' :: ')' :: bar, c ∉ s := by
  rcases h.plain_or_group with hplain | ⟨head, inner, rest, rfl, _⟩
  · exact hplain
  · simp at hopen

theorem Grouped.plain_head_inner {bar head inner rest : List Char}
    (h : Grouped bar (head ++ '(' :: (inner ++ ')' :: rest))) (hhead : '(' ∉ head)
    (hinner : ')' ∉ inner) :
    (∀ c ∈ '(' :: ')' :: bar, c ∉ head) ∧ ∀ c ∈ [':', '(', ')'], c ∉ inner := by
  rcases h.plain_or_group with hplain | ⟨first, inside, rest₁, he, hfirst, hinside⟩
  · exact absurd (hplain '(' List.mem_cons_self) (by simp)
  · obtain ⟨rfl, hrest⟩ := append_cons_inj_of_not_mem hhead (hfirst '(' List.mem_cons_self) he
    obtain ⟨rfl, _⟩ := append_cons_inj_of_not_mem hinner (hinside ')' (by simp)) hrest
    exact ⟨hfirst, hinside⟩

end MigrationDraft.Shorthand
