import MigrationDraft.Proofs.Text.Splitting

set_option autoImplicit false

/-!
# Self-delimiting texts

Things of a kind are printed in a self-delimiting way when a text that starts with one of them
leaves no choice: it starts with no other, and what follows the thing is fixed too. What is
closed by a character of which it has none is self-delimiting, a run of such things ends where
something else starts (`SelfDelimiting.flatMap_append_inj`), and joined things can be told apart
again whatever the separator is (`SelfDelimiting.intercalate_inj`).
-/

namespace MigrationDraft.Text

/-- A text starts with at most one thing of the kind, in at most one way. -/
def SelfDelimiting {α : Type} (kind : α → Prop) (print : α → List Char) : Prop :=
  ∀ ⦃a b : α⦄, kind a → kind b → ∀ ⦃s t : List Char⦄, print a ++ s = print b ++ t → a = b ∧ s = t

namespace SelfDelimiting

section

variable {α : Type} {kind : α → Prop} {print : α → List Char}

/-- A character that the things do not have closes them. -/
theorem closed {stop : Char} (hstop : ∀ a, kind a → stop ∉ print a)
    (hinj : ∀ a b, kind a → kind b → print a = print b → a = b) :
    SelfDelimiting kind fun a => print a ++ [stop] := by
  intro a b ha hb s t h
  rw [List.append_assoc, List.append_assoc] at h
  obtain ⟨hprint, hrest⟩ := append_cons_inj_of_not_mem (hstop a ha) (hstop b hb) h
  exact ⟨hinj a b ha hb hprint, hrest⟩

variable (h : SelfDelimiting kind print)

include h

/-- The same text in front of each makes no difference. -/
theorem prepend (front : List Char) : SelfDelimiting kind fun a => front ++ print a := by
  intro a b ha hb s t hst
  rw [List.append_assoc, List.append_assoc] at hst
  exact h ha hb (List.append_cancel_left hst)

/-- A run of things ends where none of them starts. -/
theorem flatMap_append_inj {s t : List Char} (hs : ∀ a, kind a → ¬print a <+: s)
    (ht : ∀ a, kind a → ¬print a <+: t) {as bs : List α} (has : ∀ a ∈ as, kind a)
    (hbs : ∀ b ∈ bs, kind b) (hst : as.flatMap print ++ s = bs.flatMap print ++ t) :
    as = bs ∧ s = t := by
  induction as generalizing bs with
  | nil =>
      cases bs with
      | nil => exact ⟨rfl, hst⟩
      | cons b bs =>
          rw [List.flatMap_nil, List.nil_append, List.flatMap_cons, List.append_assoc] at hst
          exact absurd ⟨_, hst.symm⟩ (hs b (hbs b List.mem_cons_self))
  | cons a as ih =>
      have ha : kind a := has a List.mem_cons_self
      rw [List.flatMap_cons, List.append_assoc] at hst
      cases bs with
      | nil => exact absurd ⟨_, hst⟩ (ht a ha)
      | cons b bs =>
          rw [List.flatMap_cons, List.append_assoc] at hst
          -- both runs start with the same thing, and what follows it is the same text
          obtain ⟨rfl, hrest⟩ := h ha (hbs b List.mem_cons_self) hst
          obtain ⟨rfl, heq⟩ := ih (fun a ha => has a (List.mem_cons_of_mem _ ha))
            (fun b hb => hbs b (List.mem_cons_of_mem _ hb)) hrest
          exact ⟨rfl, heq⟩

/-- Joined things can be told apart again, also where the separator occurs in one of them. -/
theorem intercalate_inj (hne : ∀ a, kind a → print a ≠ []) (sep : List Char) {as bs : List α}
    (has : ∀ a ∈ as, kind a) (hbs : ∀ b ∈ bs, kind b)
    (heq : sep.intercalate (as.map print) = sep.intercalate (bs.map print)) : as = bs := by
  have hprint : ∀ a, kind a → ∀ u, print a ++ u ≠ [] := by
    intro a ha u hu
    exact hne a ha (List.append_eq_nil_iff.mp hu).1
  cases as with
  | nil =>
      cases bs with
      | nil => rfl
      | cons b bs =>
          rw [List.map_cons, intercalate_cons_eq_append_flatMap] at heq
          exact absurd heq.symm (hprint b (hbs b List.mem_cons_self) _)
  | cons a as =>
      have ha : kind a := has a List.mem_cons_self
      rw [List.map_cons, intercalate_cons_eq_append_flatMap] at heq
      cases bs with
      | nil => exact absurd heq (hprint a ha _)
      | cons b bs =>
          rw [List.map_cons, intercalate_cons_eq_append_flatMap, List.flatMap_map,
            List.flatMap_map] at heq
          obtain ⟨rfl, hrest⟩ := h ha (hbs b List.mem_cons_self) heq
          -- what follows the first thing is a run of separators with a thing after each
          have hend : ∀ a, kind a → ¬(sep ++ print a <+: []) := by
            intro a ha hprefix
            exact hne a ha (List.append_eq_nil_iff.mp (List.prefix_nil.mp hprefix)).2
          obtain ⟨rfl, -⟩ := (h.prepend sep).flatMap_append_inj hend hend
            (fun a ha => has a (List.mem_cons_of_mem _ ha))
            (fun b hb => hbs b (List.mem_cons_of_mem _ hb)) (congrArg (· ++ []) hrest)
          rfl

end

end SelfDelimiting

end MigrationDraft.Text
