import MigrationDraft.Proofs.Text.Trim

set_option autoImplicit false

/-!
# Automata on the parts of a text

A kind of texts is often given by an automaton that reads the text from left to right and stops
where the text is not of the kind. Such a kind goes over from a text to its parts if the
automaton is in its first state wherever the text is cut. `RunsThrough` says that of all parts
at once. A cut and a character in front keep it, and these two are the steps of every function
that cuts a text.
-/

namespace MigrationDraft.Shorthand

open Text

section

variable {σ : Type} {step : σ → Char → Option σ}

/-- The state after a text, none where the automaton stops. -/
def run (step : σ → Char → Option σ) (i : σ) (s : List Char) : Option σ := s.foldlM step i

@[simp] theorem run_cons (i : σ) (c : Char) (s : List Char) :
    run step i (c :: s) = (step i c).bind fun j => run step j s := rfl

theorem run_cons_eq_some_iff {i k : σ} {c : Char} {s : List Char} :
    run step i (c :: s) = some k ↔ ∃ j, step i c = some j ∧ run step j s = some k :=
  Option.bind_eq_some_iff

theorem run_append_eq_some_iff {i k : σ} {a b : List Char} :
    run step i (a ++ b) = some k ↔ ∃ j, run step i a = some j ∧ run step j b = some k := by
  unfold run
  rw [List.foldlM_append]
  exact Option.bind_eq_some_iff

/-! ## Cutting -/

/-- The automaton goes through the first of the parts from a given state and through the others
from its first state, and it is in its first state after each. -/
def RunsThrough (step : σ → Char → Option σ) (start i : σ) : List (List Char) → Prop
  | [] => False
  | p :: ps => run step i p = some start ∧ ∀ q ∈ ps, run step start q = some start

namespace RunsThrough

variable {start i j : σ} {c : Char} {ls : List (List Char)}

theorem cut (h : RunsThrough step start start ls) : RunsThrough step start start ([] :: ls) := by
  cases ls with
  | nil => exact h.elim
  | cons p ps => exact ⟨rfl, List.forall_mem_cons.mpr h⟩

theorem modifyHead (hc : step i c = some j) (h : RunsThrough step start j ls) :
    RunsThrough step start i (ls.modifyHead (c :: ·)) := by
  cases ls with
  | nil => exact h.elim
  | cons p ps => exact ⟨run_cons_eq_some_iff.mpr ⟨j, hc, h.1⟩, h.2⟩

theorem run_of_mem (h : RunsThrough step start start ls) :
    ∀ p ∈ ls, run step start p = some start := by
  cases ls with
  | nil => exact h.elim
  | cons p ps => exact List.forall_mem_cons.mpr h

end RunsThrough

/-! ## Trimming -/

private theorem eq_of_run_blanks
    (hblank : ∀ {i j c}, isBlank c = true → step i c = some j → j = i) {b : List Char} {i j : σ}
    (hb : Blanks b) (h : run step i b = some j) : j = i := by
  induction b generalizing i with
  | nil => exact (Option.some.inj h).symm
  | cons c b ih =>
      obtain ⟨k, hk, h⟩ := run_cons_eq_some_iff.mp h
      have hki : k = i := hblank (hb c List.mem_cons_self) hk
      exact hki ▸ ih (fun x hx => hb x (List.mem_cons_of_mem c hx)) h

/-- Where blanks change no state, those at the ends of a text can be left out. -/
theorem run_trim {start : σ}
    (hblank : ∀ {i j c}, isBlank c = true → step i c = some j → j = i) {s : List Char}
    (h : run step start s = some start) : run step start (trim s) = some start := by
  obtain ⟨a, b, ha, hb, hs⟩ := exists_blanks_trim s
  rw [hs] at h
  obtain ⟨i, hi, h⟩ := run_append_eq_some_iff.mp h
  obtain ⟨j, hj, h⟩ := run_append_eq_some_iff.mp h
  have hi' : i = start := eq_of_run_blanks hblank ha hi
  have hj' : start = j := eq_of_run_blanks hblank hb h
  rw [hi', ← hj'] at hj
  exact hj

end

end MigrationDraft.Shorthand
