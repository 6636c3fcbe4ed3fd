import MigrationDraft.Migration
import MigrationDraft.Proofs.Template.Filling
import MigrationDraft.Proofs.Options.Entries

set_option autoImplicit false

/-!
# Filling all slots at once

A source is filled with one value after the other (`fillAll`), and each fill looks for its token in
the whole text, the earlier values included. In a clean template with inert values it finds the
slots of its name and nothing else, so fills in a row put all values in place at once
(`fillAll_source`). A text is inert if it has no two braces of a kind side by side and no brace at
its ends (`Detached`). With such texts and values, and one value for each name, the order of the
fills is of no account (`fillAll_eq_substitute`).
-/

namespace MigrationDraft

open Template

/-- The source filled with one value after the other, each given with its name. -/
def fillAll (source : String) (values : List (String × String)) : String :=
  values.foldl (fun s e => fill s e.1 e.2) source

namespace Template

/-! ## One substitution after the other -/

/-- One substitution after the other is one substitution, in which the first goes before. -/
theorem substitute_substitute (first later : String → Option String) (t : Template) :
    (t.substitute first).substitute later
      = t.substitute fun name => (first name).or (later name) := by
  induction t with
  | nil => rfl
  | cons p t ih =>
      cases p with
      | text s => simp [ih]
      | slot name =>
          cases hfirst : first name with
          | some v => simp [hfirst, ih]
          | none => cases hlater : later name <;> simp [hfirst, hlater, ih]

/-- Substituting from one list after the other is substituting from both. -/
theorem substitute_lookup_append (a b : List (String × String)) (t : Template) :
    (t.substitute (List.lookup · a)).substitute (List.lookup · b)
      = t.substitute (List.lookup · (a ++ b)) := by
  rw [substitute_substitute]
  congr 1
  funext name
  rw [List.lookup_append]

theorem substitute_lookup_nil (t : Template) :
    t.substitute (List.lookup · ([] : List (String × String))) = t := by
  simp

/-- Inert values keep a template clean. -/
theorem Clean.substitute {t : Template} (ht : Clean t) {values : String → Option String}
    (h : ∀ name v, values name = some v → inert v.toList = true) :
    Clean (Template.substitute values t) := by
  rw [substitute_eq_expand]
  refine ht.expand fun slot hslot => ?_
  cases hv : values slot with
  | none => exact Clean.cons (ht _ hslot) clean_nil
  | some v => exact Clean.text (h slot v hv) clean_nil

theorem Clean.substitute_lookup {t : Template} (ht : Clean t) {values : List (String × String)}
    (h : ∀ e ∈ values, inert e.2.toList = true) :
    Clean (t.substitute (List.lookup · values)) := by
  refine ht.substitute fun name v hv => ?_
  obtain ⟨before, after, rfl, _⟩ := List.lookup_eq_some_iff.mp hv
  exact h (name, v) (by simp)

/-! ## Fills in a row -/

/-- **Fills in a row are one substitution.** The source of a clean template that is filled with
inert values, one after the other, is the source of the template with all of them in place. Of two
values for one name the first counts. -/
theorem fillAll_source {t : Template} (ht : Clean t) {values : List (String × String)}
    (hnames : ∀ e ∈ values, PlainName e.1) (hvalues : ∀ e ∈ values, inert e.2.toList = true) :
    fillAll t.source values = (t.substitute (List.lookup · values)).source := by
  induction values generalizing t with
  | nil =>
      rw [substitute_lookup_nil]
      rfl
  | cons e values ih =>
      obtain ⟨name, v⟩ := e
      obtain ⟨hname, hnames⟩ := List.forall_mem_cons.mp hnames
      obtain ⟨hvalue, hvalues⟩ := List.forall_mem_cons.mp hvalues
      -- after a fill there is again the source of a clean template, with the value as a text in it
      have hclean : Clean (t.substitute (List.lookup · [(name, v)])) :=
        ht.substitute_lookup (by simpa using hvalue)
      calc fillAll t.source ((name, v) :: values)
          = fillAll (fill t.source name v) values := rfl
        _ = fillAll (t.substitute (List.lookup · [(name, v)])).source values := by
            rw [fill_text ht hname]
        _ = ((t.substitute (List.lookup · [(name, v)])).substitute (List.lookup · values)).source :=
            ih hclean hnames hvalues
        _ = (t.substitute (List.lookup · ((name, v) :: values))).source := by
            rw [substitute_lookup_append, List.singleton_append]

/-! ## Detached texts -/

def IsBrace (c : Char) : Prop := c = '\x7b' ∨ c = '\x7d'

instance (c : Char) : Decidable (IsBrace c) := inferInstanceAs (Decidable (_ ∨ _))

/-- The text has no two opening and no two closing braces side by side, and it neither starts nor
ends with a brace. -/
def Detached (s : String) : Prop :=
  (¬ ['\x7b', '\x7b'] <:+: s.toList ∧ ¬ ['\x7d', '\x7d'] <:+: s.toList)
    ∧ (∀ c ∈ s.toList.head?, ¬ IsBrace c) ∧ ∀ c ∈ s.toList.getLast?, ¬ IsBrace c

instance (s : String) : Decidable (Detached s) :=
  have (o : Option Char) : Decidable (∀ c ∈ o, ¬ IsBrace c) := Option.decidableForallMem o
  inferInstanceAs (Decidable ((¬ _ <:+: _ ∧ ¬ _ <:+: _) ∧ _ ∧ _))

/-- A text is detached, and the name of a slot can stand in a token. -/
def DetachedPiece : Piece → Prop
  | .text source => Detached source
  | .slot name => PlainName name

instance (p : Piece) : Decidable (DetachedPiece p) :=
  match p with
  | .text source => inferInstanceAs (Decidable (Detached source))
  | .slot name => inferInstanceAs (Decidable (PlainName name))

theorem inert_of_not_infix {s : List Char} (h : ¬ ['\x7b', '\x7b'] <:+: s)
    (hlast : ∀ c ∈ s.getLast?, c ≠ '\x7b') : inert s = true := by
  induction s with
  | nil => rfl
  | cons c s ih =>
      refine inert_cons.mpr ⟨fun hc => ?_, ?_⟩
      · -- the brace is not the last character, and the next one is no second brace
        cases s with
        | nil => exact absurd hc (hlast c rfl)
        | cons d s =>
            refine ⟨d, rfl, fun hd => h ⟨[], s, ?_⟩⟩
            rw [hc, hd]
            rfl
      · refine ih (fun hs => h (hs.trans (List.suffix_cons c s).isInfix)) fun d hd => ?_
        cases s with
        | nil => cases hd
        | cons e s => exact hlast d (by rwa [List.getLast?_cons_cons])

theorem Detached.inert {s : String} (h : Detached s) : inert s.toList = true :=
  inert_of_not_infix h.1.1 fun c hc hopen => h.2.2 c hc (Or.inl hopen)

theorem clean_of_detached {t : Template} (h : ∀ p ∈ t, DetachedPiece p) : Clean t := by
  intro p hp
  cases p with
  | text source => exact Detached.inert (h _ hp)
  | slot name => exact h _ hp

/-- **The order of the fills is of no account.** Take a template with detached texts and names
without braces, and detached values for distinct names without braces. In whatever order its source
is filled with them, the result is the source with all values in place: each token of one of the
names has become its value, and all else, the other tokens included, is as it was. -/
theorem fillAll_eq_substitute {t : Template} {values order : List (String × String)}
    (ht : ∀ p ∈ t, DetachedPiece p) (hnames : ∀ e ∈ values, PlainName e.1)
    (hvalues : ∀ e ∈ values, Detached e.2) (hdistinct : (values.map Prod.fst).Nodup)
    (horder : order.Perm values) :
    fillAll t.source order = (t.substitute (List.lookup · values)).source := by
  have hfill : fillAll t.source order = (t.substitute (List.lookup · order)).source :=
    fillAll_source (clean_of_detached ht) (fun e he => hnames e (horder.mem_iff.mp he))
      fun e he => (hvalues e (horder.mem_iff.mp he)).inert
  have hsame : (List.lookup · order) = (List.lookup · values) :=
    funext (Text.lookup_eq_of_perm hdistinct horder)
  rw [hfill, hsame]

/-- Adjacent tokens, single braces in a text and in a value, an empty value, a token that stays and
a name that is not there. -/
theorem fillAll_eq_substitute_braces :
    let t : Template :=
      [.slot "a", .slot "b", .text " if (x) \x7b y \x7d ", .slot "c", .text "", .slot "a"]
    let values := [("a", ""), ("b", "v \x7b\x7d w"), ("d", "z")]
    let order := [("d", "z"), ("b", "v \x7b\x7d w"), ("a", "")]
    (∀ p ∈ t, DetachedPiece p) ∧ (∀ e ∈ values, PlainName e.1) ∧ (∀ e ∈ values, Detached e.2)
      ∧ (values.map Prod.fst).Nodup ∧ order.Perm values
      ∧ fillAll t.source order = "v \x7b\x7d w if (x) \x7b y \x7d \x7b\x7bc\x7d\x7d" := by
  intro t values order
  have ht : ∀ p ∈ t, DetachedPiece p := by decide +kernel
  have hnames : ∀ e ∈ values, PlainName e.1 := by decide +kernel
  have hvalues : ∀ e ∈ values, Detached e.2 := by decide +kernel
  have hdistinct : (values.map Prod.fst).Nodup := by decide +kernel
  have horder : order.Perm values := by decide +kernel
  refine ⟨ht, hnames, hvalues, hdistinct, horder, ?_⟩
  rw [fillAll_eq_substitute ht hnames hvalues hdistinct horder]
  decide +kernel

end Template

/-! ## The names of a pivot table -/

namespace Pivot

/-- The names of a pivot table with their slots, in the order in which they are filled in. -/
def names (p : Pivot) : List (String × String) :=
  [(Slot.pivotTable, p.tableName), (Slot.columnOne, p.columnOne), (Slot.columnTwo, p.columnTwo),
    (Slot.tableOne, p.first), (Slot.tableTwo, p.second)]

def nameSlots : List String :=
  [Slot.pivotTable, Slot.columnOne, Slot.columnTwo, Slot.tableOne, Slot.tableTwo]

@[simp] theorem map_fst_names (p : Pivot) : p.names.map Prod.fst = nameSlots := rfl

theorem fst_mem_nameSlots {p : Pivot} {e : String × String} (h : e ∈ p.names) :
    e.1 ∈ nameSlots :=
  p.map_fst_names ▸ List.mem_map_of_mem h

theorem plainName_names (p : Pivot) : ∀ e ∈ p.names, PlainName e.1 := by
  have hslots : ∀ slot ∈ nameSlots, PlainName slot := by decide +kernel
  exact fun e he => hslots e.1 (fst_mem_nameSlots he)

/-- Whatever stub a user has for pivot tables, as long as it is clean, inert names are put in all at
once. -/
theorem fillNames_source (p : Pivot) {t : Template} (ht : Clean t)
    (hnames : ∀ e ∈ p.names, inert e.2.toList = true) :
    p.fillNames t.source = (t.substitute (List.lookup · p.names)).source := by
  rw [← fillAll_source ht p.plainName_names hnames]
  rfl

end Pivot

end MigrationDraft
