import MigrationDraft.Proofs.Template.Fences
import MigrationDraft.Proofs.Template.Simultaneous

set_option autoImplicit false

/-!
# A slot with a line of its own

A value that may hold anything, tokens and single braces included, keeps a template from being
clean, so what is filled in after it need not be one substitution. It is one, all the same, around
a slot between two fences, say a blank and a line break: the fills before and after the slot do
not see the value, and the value stays as it is if none of the later fills finds its token in it
(`fillAll_line`).
-/

namespace MigrationDraft

open Template

/-! ## Fills in a row -/

theorem fillAll_append (s : String) (first last : List (String × String)) :
    fillAll s (first ++ last) = fillAll (fillAll s first) last :=
  List.foldl_append

theorem fillAll_eq_self {s : String} {values : List (String × String)}
    (h : ∀ e ∈ values, fill s e.1 e.2 = s) : fillAll s values = s := by
  induction values with
  | nil => rfl
  | cons e values ih =>
      obtain ⟨he, hvalues⟩ := List.forall_mem_cons.mp h
      calc fillAll s (e :: values)
          = fillAll (fill s e.1 e.2) values := rfl
        _ = s := by rw [he, ih hvalues]

/-- What is a fence for each of the names keeps the two sides apart in all fills. -/
theorem fillAll_fence {sep : String} {values : List (String × String)}
    (h : ∀ e ∈ values, Fence e.1 sep) (s t : String) :
    fillAll (s ++ sep ++ t) values = fillAll s values ++ sep ++ fillAll t values := by
  induction values generalizing s t with
  | nil => rfl
  | cons e values ih =>
      obtain ⟨he, hvalues⟩ := List.forall_mem_cons.mp h
      calc fillAll (s ++ sep ++ t) (e :: values)
          = fillAll (fill (s ++ sep ++ t) e.1 e.2) values := rfl
        _ = fillAll (fill s e.1 e.2 ++ sep ++ fill t e.1 e.2) values := by
            rw [fill_fence he]
        _ = fillAll s (e :: values) ++ sep ++ fillAll t (e :: values) := ih hvalues _ _

namespace Template

/-! ## Slots that are not there -/

/-- A substitution brings in no slots. -/
theorem slot_mem_of_mem_substitute {slot : String} {t : Template}
    {values : String → Option String} (h : .slot slot ∈ t.substitute values) : .slot slot ∈ t := by
  induction t with
  | nil => exact h
  | cons p t ih =>
      cases p with
      | text s => exact List.mem_cons_of_mem _ (ih (by simpa using h))
      | slot name =>
          rw [substitute_cons_slot, List.mem_cons] at h
          cases hv : values name with
          | none =>
              rw [hv] at h
              exact List.mem_cons.mpr (h.imp_right ih)
          | some v =>
              rw [hv] at h
              exact List.mem_cons_of_mem _ (ih (h.resolve_left (by simp)))

/-- A clean template without the slot has no place for a value. -/
theorem fill_source_of_not_mem {t : Template} (ht : Clean t) {name : String}
    (hname : PlainName name) (h : .slot name ∉ t) (value : String) :
    fill t.source name value = t.source := by
  rw [fill_text ht hname, substitute_single, expand_only_of_not_mem h]

/-! ## The line -/

section

variable {slot value : String} {first last : List (String × String)} (hslot : PlainName slot)
  (hnames : ∀ e ∈ first ++ last, PlainName e.1)

include hslot hnames

/-- Fills around that of a slot that is not there are one substitution. -/
theorem fillAll_source_around {t : Template} (ht : Clean t) (h : .slot slot ∉ t)
    (hvalues : ∀ e ∈ first ++ last, inert e.2.toList = true) :
    fillAll t.source (first ++ (slot, value) :: last)
      = (t.substitute (List.lookup · (first ++ last))).source := by
  obtain ⟨hnames₁, hnames₂⟩ := List.forall_mem_append.mp hnames
  obtain ⟨hvalues₁, hvalues₂⟩ := List.forall_mem_append.mp hvalues
  generalize hu : t.substitute (List.lookup · first) = u
  have hclean : Clean u := hu ▸ ht.substitute_lookup hvalues₁
  have hmem : .slot slot ∉ u := fun hm => h (slot_mem_of_mem_substitute (hu ▸ hm))
  calc fillAll t.source (first ++ (slot, value) :: last)
      = fillAll (fill (fillAll t.source first) slot value) last := fillAll_append ..
    _ = fillAll (fill u.source slot value) last := by
        rw [fillAll_source ht hnames₁ hvalues₁, hu]
    _ = fillAll u.source last := by rw [fill_source_of_not_mem hclean hslot hmem]
    _ = (u.substitute (List.lookup · last)).source := fillAll_source hclean hnames₂ hvalues₂
    _ = (t.substitute (List.lookup · (first ++ last))).source := by
        rw [← hu, substitute_lookup_append]

/-- The token of the slot becomes the value, and the later fills leave the value alone. -/
theorem fillAll_token (hne : ∀ e ∈ first, slot ≠ e.1)
    (hvalue : ∀ e ∈ last, ¬ HoldsToken e.1 value) :
    fillAll (token slot) (first ++ (slot, value) :: last) = value := by
  have hfirst : fillAll (token slot) first = token slot :=
    fillAll_eq_self fun e he =>
      fill_token_of_ne (hnames e (List.mem_append_left last he)) hslot (hne e he) e.2
  calc fillAll (token slot) (first ++ (slot, value) :: last)
      = fillAll (fill (fillAll (token slot) first) slot value) last := fillAll_append ..
    _ = fillAll value last := by rw [hfirst, fill_token]
    _ = value := fillAll_eq_self fun e he => fill_eq_self (hvalue e he) e.2

/-- **A value on a line of its own changes nothing around it.** The slot is in the line only, and
the values of the other names are inert. -/
theorem fillAll_line {before after : Template} {start stop : String}
    (hbefore : Clean before) (hafter : Clean after)
    (hslot₁ : .slot slot ∉ before) (hslot₂ : .slot slot ∉ after)
    (hvalues : ∀ e ∈ first ++ last, inert e.2.toList = true)
    (hfences : ∀ e ∈ first ++ (slot, value) :: last, Fence e.1 start ∧ Fence e.1 stop)
    (hne : ∀ e ∈ first, slot ≠ e.1) (hvalue : ∀ e ∈ last, ¬ HoldsToken e.1 value) :
    fillAll (before ++ ([.text start, .slot slot, .text stop] : Template) ++ after).source
        (first ++ (slot, value) :: last)
      = (before.substitute (List.lookup · (first ++ last))).source ++ (start ++ value ++ stop)
        ++ (after.substitute (List.lookup · (first ++ last))).source := by
  have hsource : (before ++ ([.text start, .slot slot, .text stop] : Template) ++ after).source
      = before.source ++ start ++ (token slot ++ stop ++ after.source) := by
    simp [String.append_assoc]
  rw [hsource, fillAll_fence fun e he => (hfences e he).1,
    fillAll_fence fun e he => (hfences e he).2,
    fillAll_source_around hslot hnames hbefore hslot₁ hvalues,
    fillAll_source_around hslot hnames hafter hslot₂ hvalues,
    fillAll_token hslot hnames hne hvalue]
  simp only [String.append_assoc]

end

end Template

end MigrationDraft
