import MigrationDraft.Proofs.Text.Splitting
import MigrationDraft.Template

set_option autoImplicit false

/-!
# Filling a template through its source

`fill` works on the source of a template, a plain text in which it looks for tokens. It could
miss a token, or take for one what is not: two braces that come from a value, or that a text
and its neighbour form together. A text is *inert* when this cannot happen, because each of
its opening braces is followed by some other character of the text. On a template with inert
texts and names free of braces `fill` does what it is meant to do: it puts a template in place
of a slot (`fill_source`). Several fills in a row are then one `expand`, also where a value
has slots of its own that a later fill reaches.
-/

namespace MigrationDraft.Template

/-! ## Inert texts -/

/-- Each opening brace is followed by a character that is none, so no token begins in the text,
whatever comes after it. -/
def inert : List Char → Bool
  | [] => true
  | c :: s => (c ≠ '\x7b' || s.head?.any (· ≠ '\x7b')) && inert s

theorem inert_cons {c : Char} {s : List Char} :
    inert (c :: s) = true ↔ (c = '\x7b' → ∃ d ∈ s.head?, d ≠ '\x7b') ∧ inert s = true := by
  by_cases hc : c = '\x7b' <;> simp [inert, hc, Option.any_eq_true]

theorem inert_of_not_mem {s : List Char} (h : '\x7b' ∉ s) : inert s = true := by
  induction s with
  | nil => rfl
  | cons c s ih =>
      rw [List.mem_cons, not_or] at h
      exact inert_cons.mpr ⟨fun hc => absurd hc.symm h.1, ih h.2⟩

theorem inert_append {s t : List Char} (hs : inert s = true) (ht : inert t = true) :
    inert (s ++ t) = true := by
  induction s with
  | nil => exact ht
  | cons c s ih =>
      obtain ⟨hc, hs⟩ := inert_cons.mp hs
      rw [List.cons_append]
      refine inert_cons.mpr ⟨fun h => ?_, ih hs⟩
      obtain ⟨d, hd, hne⟩ := hc h
      exact ⟨d, by rw [List.head?_append, Option.mem_def.mp hd]; rfl, hne⟩

/-- An inert text written as a literal: its characters can be looked at without decoding it. -/
theorem inert_ofList {s : List Char} (h : inert s = true) :
    inert (String.ofList s).toList = true := by
  rw [String.toList_ofList]
  exact h

theorem inert_toList_append {s t : String} (hs : inert s.toList = true)
    (ht : inert t.toList = true) : inert (s ++ t).toList = true := by
  rw [String.toList_append]
  exact inert_append hs ht

/-- There are no two opening braces side by side in an inert text. -/
theorem not_infix_of_inert {s : List Char} (h : inert s = true) :
    ¬ ['\x7b', '\x7b'] <:+: s := by
  rintro ⟨before, after, rfl⟩
  induction before with
  | nil =>
      obtain ⟨d, hd, hne⟩ := (inert_cons.mp h).1 rfl
      exact hne (Option.some.inj hd).symm
  | cons c before ih => exact ih (inert_cons.mp h).2

/-! ## Tokens -/

/-- A name that can stand in a token has no braces. -/
def PlainName (name : String) : Prop := '\x7b' ∉ name.toList ∧ '\x7d' ∉ name.toList

instance (name : String) : Decidable (PlainName name) :=
  inferInstanceAs (Decidable (_ ∧ _))

theorem token_ne_nil (name : String) : (token name).toList ≠ [] := by
  simp [toList_token]

/-- No token begins in an inert text. -/
theorem startsWith_token_of_inert (name : String) {c : Char} {s : List Char}
    (h : inert (c :: s) = true) (r : List Char) :
    Text.startsWith (token name).toList (c :: (s ++ r)) = false := by
  rw [Bool.eq_false_iff, Ne, Text.startsWith_iff]
  rintro ⟨after, hafter⟩
  rw [toList_token, List.cons_append, List.cons_append, List.cons.injEq] at hafter
  obtain ⟨d, hd, hne⟩ := (inert_cons.mp h).1 hafter.1
  cases s with
  | nil => cases hd
  | cons e s =>
      rw [List.cons_append, List.cons.injEq] at hafter
      exact hne ((Option.some.inj hd).symm.trans hafter.2.1)

/-- A fill passes over an inert text. -/
theorem replace_append_of_inert (name : String) (value : List Char) {s : List Char}
    (h : inert s = true) (r : List Char) :
    Text.replace (token name).toList value (s ++ r)
      = s ++ Text.replace (token name).toList value r := by
  induction s with
  | nil => rfl
  | cons c s ih =>
      rw [List.cons_append,
        Text.replace_cons_of_not (startsWith_token_of_inert name h r), ih (inert_cons.mp h).2,
        List.cons_append]

/-- What follows the first brace of a token is inert. -/
theorem inert_token_tail {name : String} (h : PlainName name) :
    inert ('\x7b' :: (name.toList ++ ['\x7d', '\x7d'])) = true := by
  have htail : '\x7b' ∉ name.toList ++ ['\x7d', '\x7d'] := by
    simp [h.1]
  refine inert_cons.mpr ⟨fun _ => ?_, inert_of_not_mem htail⟩
  cases hname : name.toList with
  | nil => exact ⟨_, rfl, by decide⟩
  | cons c s => exact ⟨c, rfl, fun hc => h.1 (by rw [hname, hc]; exact List.mem_cons_self)⟩

/-- A fill passes over the token of another name. -/
theorem replace_token_append {name other : String} (hname : PlainName name)
    (hother : PlainName other) (hne : other ≠ name) (value r : List Char) :
    Text.replace (token name).toList value ((token other).toList ++ r)
      = (token other).toList ++ Text.replace (token name).toList value r := by
  have hstart : Text.startsWith (token name).toList
      ('\x7b' :: ('\x7b' :: (other.toList ++ ['\x7d', '\x7d']) ++ r)) = false := by
    rw [Bool.eq_false_iff, Ne, Text.startsWith_iff]
    rintro ⟨after, hafter⟩
    -- both names end at the first closing brace, so they would be the same
    have hnames : other.toList ++ '\x7d' :: ('\x7d' :: r)
        = name.toList ++ '\x7d' :: ('\x7d' :: after) := by
      simpa [toList_token] using hafter
    exact hne (String.toList_inj.mp
      (Text.append_cons_inj_of_not_mem hother.2 hname.2 hnames).1)
  rw [toList_token other, List.cons_append, Text.replace_cons_of_not hstart,
    replace_append_of_inert name value (inert_token_tail hother)]
  simp

/-! ## Clean templates -/

/-- A text is inert, and the name of a slot can stand in a token. -/
def CleanPiece : Piece → Prop
  | .text source => inert source.toList = true
  | .slot name => PlainName name

/-- The only tokens in the source of the template are those of its slots. -/
def Clean (t : Template) : Prop := ∀ p ∈ t, CleanPiece p

theorem clean_nil : Clean [] := fun _ hp => nomatch hp

theorem Clean.cons {p : Piece} {t : Template} (hp : CleanPiece p) (ht : Clean t) :
    Clean (p :: t) := by
  intro q hq
  rcases List.mem_cons.mp hq with rfl | hq
  · exact hp
  · exact ht q hq

theorem Clean.append {t u : Template} (ht : Clean t) (hu : Clean u) : Clean (t ++ u) := by
  intro p hp
  rcases List.mem_append.mp hp with hp | hp
  · exact ht p hp
  · exact hu p hp

theorem Clean.text {s : String} {t : Template} (h : inert s.toList = true) (ht : Clean t) :
    Clean (.text s :: t) :=
  Clean.cons h ht

theorem Clean.slot {name : String} {t : Template} (h : PlainName name) (ht : Clean t) :
    Clean (.slot name :: t) :=
  Clean.cons h ht

/-! ## Expansion -/

/-- The template with a template in place of each slot. -/
def expand (values : String → Template) (t : Template) : Template :=
  t.flatMap fun
    | .text source => [.text source]
    | .slot name => values name

/-- A value for one slot, which leaves every other slot as it is. -/
def only (name : String) (value : Template) : String → Template :=
  fun slot => if slot = name then value else [.slot slot]

@[simp] theorem only_self (name : String) (value : Template) : only name value name = value :=
  if_pos rfl

@[simp] theorem only_of_ne {slot name : String} (h : slot ≠ name) (value : Template) :
    only name value slot = [.slot slot] :=
  if_neg h

section

variable (values : String → Template)

@[simp] theorem expand_nil : expand values [] = [] := rfl

@[simp] theorem expand_append (t u : Template) :
    expand values (t ++ u) = expand values t ++ expand values u :=
  List.flatMap_append

@[simp] theorem expand_cons_text (s : String) (t : Template) :
    expand values (.text s :: t) = .text s :: expand values t := rfl

@[simp] theorem expand_cons_slot (name : String) (t : Template) :
    expand values (.slot name :: t) = values name ++ expand values t := rfl

theorem expand_slot (name : String) : expand values [.slot name] = values name := by simp

end

/-- One expansion after the other is one expansion, by values that are expanded themselves. -/
theorem expand_expand (values later : String → Template) (t : Template) :
    expand later (expand values t) = expand (fun name => expand later (values name)) t := by
  induction t with
  | nil => rfl
  | cons p t ih => cases p <;> simp [ih]

/-- A value for a slot that the template does not have changes nothing. -/
theorem expand_only_of_not_mem {name : String} {t : Template} (h : .slot name ∉ t)
    (value : Template) : expand (only name value) t = t := by
  induction t with
  | nil => rfl
  | cons p t ih =>
      rw [List.mem_cons, not_or] at h
      cases p with
      | text source => rw [expand_cons_text, ih h.2]
      | slot slot =>
          have hne : slot ≠ name := fun he => h.1 (by rw [he])
          rw [expand_cons_slot, only_of_ne hne, ih h.2, List.singleton_append]

/-- Clean values keep a template clean. -/
theorem Clean.expand {t : Template} (ht : Clean t) {values : String → Template}
    (hvalues : ∀ slot, .slot slot ∈ t → Clean (values slot)) :
    Clean (Template.expand values t) := by
  intro q hq
  obtain ⟨p, hp, hmem⟩ := List.mem_flatMap.mp hq
  cases p with
  | text source => exact List.mem_singleton.mp hmem ▸ ht _ hp
  | slot slot => exact hvalues slot hp q hmem

theorem Clean.only {t : Template} (ht : Clean t) (name : String) {value : Template}
    (hvalue : Clean value) : Clean (Template.expand (only name value) t) := by
  refine ht.expand fun slot hslot => ?_
  by_cases h : slot = name
  · rw [h, only_self]
    exact hvalue
  · rw [only_of_ne h]
    exact Clean.cons (ht _ hslot) clean_nil

/-! ## Sources -/

theorem source_text (s : String) : source [.text s] = s := by simp

/-- The source of an expansion depends on the sources of the values only. -/
theorem source_expand_congr {values others : String → Template} {t : Template}
    (h : ∀ slot, .slot slot ∈ t → (values slot).source = (others slot).source) :
    (expand values t).source = (expand others t).source := by
  induction t with
  | nil => rfl
  | cons p t ih =>
      have htail := ih fun slot hslot => h slot (List.mem_cons_of_mem p hslot)
      cases p with
      | text source => simp [htail]
      | slot slot => simp [htail, h slot List.mem_cons_self]

/-- Filling all slots of a template at once is an expansion. -/
theorem substitute_eq_expand (values : String → Option String) (t : Template) :
    t.substitute values
      = expand (fun slot => [((values slot).map Piece.text).getD (.slot slot)]) t := by
  induction t with
  | nil => rfl
  | cons p t ih =>
      cases p with
      | text source => simp [ih]
      | slot slot => cases hv : values slot <;> simp [hv, ih]

/-- Filling one slot with a text. -/
theorem substitute_single (name value : String) (t : Template) :
    t.substitute (List.lookup · [(name, value)]) = expand (only name [.text value]) t := by
  rw [substitute_eq_expand]
  congr 1
  funext slot
  by_cases h : slot = name
  · simp [h, only_self]
  · have hbeq : (slot == name) = false := by simp [h]
    simp [List.lookup_cons, hbeq, only_of_ne h]

/-- Inert texts in all slots of a clean template make an inert text. -/
theorem inert_source_substitute {t : Template} (ht : Clean t)
    {values : String → Option String}
    (h : ∀ slot, .slot slot ∈ t → ∃ v, values slot = some v ∧ inert v.toList = true) :
    inert (t.substitute values).source.toList = true := by
  induction t with
  | nil => rfl
  | cons p t ih =>
      have htail : inert (source (substitute values t)).toList = true :=
        ih (fun q hq => ht q (List.mem_cons_of_mem p hq))
          fun slot hslot => h slot (List.mem_cons_of_mem p hslot)
      cases p with
      | text s =>
          rw [substitute_cons_text, source_cons_text]
          exact inert_toList_append (ht _ List.mem_cons_self) htail
      | slot slot =>
          obtain ⟨v, hv, hinert⟩ := h slot List.mem_cons_self
          rw [substitute_cons_slot, hv, Option.map_some, Option.getD_some, source_cons_text]
          exact inert_toList_append hinert htail

/-- In the source of a clean template a fill finds the tokens of the slot and nothing else: it
puts a template in place of the slot. -/
theorem fill_source {t : Template} (ht : Clean t) {name : String} (hname : PlainName name)
    (value : Template) :
    fill t.source name value.source = (expand (only name value) t).source := by
  apply String.toList_inj.mp
  rw [toList_fill]
  induction t with
  | nil => rfl
  | cons p t ih =>
      have htail := ih fun q hq => ht q (List.mem_cons_of_mem p hq)
      have hp : CleanPiece p := ht p List.mem_cons_self
      -- the fill passes over inert texts and over the tokens of other names
      cases p with
      | text s =>
          rw [source_cons_text, String.toList_append, replace_append_of_inert name _ hp, htail]
          simp
      | slot slot =>
          rw [source_cons_slot, String.toList_append]
          by_cases h : slot = name
          · rw [h, Text.replace_append (token_ne_nil name), htail]
            simp
          · rw [replace_token_append hname hp h, htail]
            simp [h]

/-- Filling a slot of a clean template with a text. -/
theorem fill_text {t : Template} (ht : Clean t) {name : String} (hname : PlainName name)
    (value : String) :
    fill t.source name value = (t.substitute (List.lookup · [(name, value)])).source := by
  have h := fill_source ht hname [.text value]
  rw [source_text] at h
  rw [h, substitute_single]

end MigrationDraft.Template
