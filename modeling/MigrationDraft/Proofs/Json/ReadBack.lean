import MigrationDraft.Json.Reader

set_option autoImplicit false

/-!
# Written values read back

A value is known from its text. Both written forms of a value consist of the same tokens, with
blanks between them, and the tokens put together again give the value. So whatever text the strings
and the keys of a value hold, the reader finds it again (`read_pretty`, `read_compact`). The order
of its keys makes no difference to what they lead to (`find?_sortKeys`).
-/

namespace MigrationDraft.Json

open Text

/-! ## Induction -/

/-- A property of all values, from the items of an array and the values of an object to the
whole. -/
@[elab_as_elim]
theorem induction_on {P : Json → Prop} (string : ∀ text, P (.string text))
    (bool : ∀ b, P (.bool b)) (array : ∀ items, (∀ v ∈ items, P v) → P (.array items))
    (object : ∀ entries, (∀ e ∈ entries, P e.2) → P (.object entries)) : ∀ v, P v
  | .string text => string text
  | .bool b => bool b
  | .array items => array items fun v _ => induction_on string bool array object v
  | .object entries => object entries fun e he =>
      have hlt : sizeOf e.2 < sizeOf entries := by
        have hmem := List.sizeOf_lt_of_mem he
        have hpair : sizeOf e = 1 + sizeOf e.1 + sizeOf e.2 := rfl
        omega
      induction_on string bool array object e.2
termination_by v => sizeOf v

/-! ## Stretches of a text -/

/-- A stretch of text leads from one place to another and these tokens end in it. -/
def Leads (p : Place) (s : List Char) (q : Place) (ts : List Token) : Prop :=
  scanAll p s = some (q, ts)

section

variable {p q q' : Place} {c : Char} {s s' : List Char} {ts ts' : List Token}

theorem leads_nil (p : Place) : Leads p [] p [] := rfl

theorem leads_cons (hc : scan p c = some (q, ts)) (h : Leads q s q' ts') :
    Leads p (c :: s) q' (ts ++ ts') := by
  rw [Leads, scanAll, hc]
  show (scanAll q s).map _ = _
  rw [show scanAll q s = some (q', ts') from h]
  rfl

theorem leads_singleton (hc : scan p c = some (q, ts)) : Leads p [c] q ts := by
  simpa using leads_cons hc (leads_nil q)

theorem exists_of_leads_cons (h : Leads p (c :: s) q ts) :
    ∃ r us vs, scan p c = some (r, us) ∧ Leads r s q vs ∧ ts = us ++ vs := by
  obtain ⟨⟨r, us⟩, hc, hrest⟩ := Option.bind_eq_some_iff.mp h
  obtain ⟨⟨q', vs⟩, hs, heq⟩ := Option.map_eq_some_iff.mp hrest
  obtain ⟨rfl, rfl⟩ := Prod.mk.inj heq
  exact ⟨r, us, vs, hc, hs, rfl⟩

theorem Leads.append (h : Leads p s q ts) (h' : Leads q s' q' ts') :
    Leads p (s ++ s') q' (ts ++ ts') := by
  induction s generalizing p ts with
  | nil =>
      obtain ⟨rfl, rfl⟩ := Prod.mk.inj (Option.some.inj h)
      exact h'
  | cons c s ih =>
      obtain ⟨r, us, vs, hc, hs, rfl⟩ := exists_of_leads_cons h
      rw [List.append_assoc]
      exact leads_cons hc (ih hs)

end

/-! ## Strings and words -/

theorem hexValue?_hexDigit (n : Nat) : hexValue? (hexDigit n) = some (n % 16) := by
  have hdigits : ∀ m < 16, hexValue? (Nat.digitChar m) = some m := by decide
  exact hdigits (n % 16) (Nat.mod_lt n (by decide))

/-- A character that has no short escape is read from its two last digits. -/
theorem leads_digits (read : List Char) {c : Char} (h : c.toNat < 0x20) :
    Leads (.string read) ['\\', 'u', '0', '0', hexDigit (c.toNat / 16), hexDigit c.toNat]
      (.string (read ++ [c])) [] := by
  have hzeros : Leads (.string read) ['\\', 'u', '0', '0'] (.digits read 0 1) [] := rfl
  have hhigh : scan (.digits read 0 1) (hexDigit (c.toNat / 16))
      = some (.digits read (c.toNat / 16 % 16) 0, []) := by
    simp [scan, hexValue?_hexDigit]
  -- `hexDigit` takes its number modulo 16, and both digits are below it here
  have hvalue : 16 * (c.toNat / 16 % 16) + c.toNat % 16 = c.toNat := by omega
  have hlow : scan (.digits read (c.toNat / 16 % 16) 0) (hexDigit c.toNat)
      = some (.string (read ++ [c]), []) := by
    have hvalid : c.toNat.isValidChar := c.valid
    simp [scan, hexValue?_hexDigit, hvalue, hvalid, Char.ofNat_toNat]
  exact hzeros.append (leads_cons hhigh (leads_singleton hlow))

/-- What is written for a character is read as that character. -/
theorem leads_escape (read : List Char) (c : Char) :
    Leads (.string read) (escape c) (.string (read ++ [c])) [] := by
  by_cases hshort : c ∈ ['"', '\\', '\n', '\r', '\t', '\x08', '\x0c']
  · -- an escape of two characters, which the reader knows one by one
    simp only [List.mem_cons, List.not_mem_nil, or_false] at hshort
    rcases hshort with rfl | rfl | rfl | rfl | rfl | rfl | rfl <;> rfl
  · simp only [List.mem_cons, List.not_mem_nil, or_false, not_or] at hshort
    by_cases hcontrol : c.toNat < 0x20
    · have hescape : escape c
          = ['\\', 'u', '0', '0', hexDigit (c.toNat / 16), hexDigit c.toNat] := by
        simp [escape, hshort, hcontrol]
      rw [hescape]
      exact leads_digits read hcontrol
    · have hescape : escape c = [c] := by simp [escape, hshort, hcontrol]
      rw [hescape]
      exact leads_singleton (by simp [scan, hshort, hcontrol])

theorem leads_escapes (read cs : List Char) :
    Leads (.string read) (cs.flatMap escape) (.string (read ++ cs)) [] := by
  induction cs generalizing read with
  | nil => simpa using leads_nil (.string read)
  | cons c cs ih => simpa using (leads_escape read c).append (ih (read ++ [c]))

/-- A string is one token, whatever its text holds. -/
theorem leads_quote (text : String) :
    Leads .between (quote text).toList .between [.string text] := by
  have hopening : scan .between '"' = some (.string [], []) := rfl
  have hbody : Leads (.string []) (text.toList.flatMap escape) (.string text.toList) [] :=
    leads_escapes [] text.toList
  have hclosing : scan (.string text.toList) '"' = some (.between, [.string text]) := by
    simp [scan]
  rw [quote, String.toList_ofList]
  exact leads_cons hopening (hbody.append (leads_singleton hclosing))

theorem leads_gap {s : List Char} (h : ∀ c ∈ s, isGap c = true) :
    Leads .between s .between [] := by
  induction s with
  | nil => exact leads_nil .between
  | cons c s ih =>
      have hc : scan .between c = some (.between, []) := by
        rw [scan, if_pos (h c List.mem_cons_self)]
      exact leads_cons hc (ih fun d hd => h d (List.mem_cons_of_mem c hd))

/-! ## Tokens of a value -/

mutual

/-- The tokens of the written forms of a value. -/
def tokens : Json → List Token
  | .string text => [.string text]
  | .bool b => [.bool b]
  | .array items => .openArray :: ([.comma].intercalate (itemTokens items) ++ [.closeArray])
  | .object entries => .openObject :: ([.comma].intercalate (entryTokens entries) ++ [.closeObject])

def itemTokens : List Json → List (List Token)
  | [] => []
  | v :: vs => v.tokens :: itemTokens vs

def entryTokens : List (String × Json) → List (List Token)
  | [] => []
  | (key, v) :: es => (.string key :: .colon :: v.tokens) :: entryTokens es

end

/-- A function that works on the members of a list one by one. -/
theorem eq_map_of_cons {α β : Type} {f : List α → List β} {g : α → β} (hnil : f [] = [])
    (hcons : ∀ a as, f (a :: as) = g a :: f as) (as : List α) : f as = as.map g := by
  induction as with
  | nil => exact hnil
  | cons a as ih => rw [hcons, ih, List.map_cons]

@[simp] theorem itemTokens_eq_map (vs : List Json) : itemTokens vs = vs.map tokens :=
  eq_map_of_cons rfl (fun _ _ => rfl) vs

@[simp] theorem entryTokens_eq_map (es : List (String × Json)) :
    entryTokens es = es.map fun e => .string e.1 :: .colon :: e.2.tokens :=
  eq_map_of_cons rfl (fun _ _ => rfl) es

@[simp] theorem compactItems_eq_map (vs : List Json) : compactItems vs = vs.map compact :=
  eq_map_of_cons rfl (fun _ _ => rfl) vs

@[simp] theorem compactEntries_eq_map (es : List (String × Json)) :
    compactEntries es = es.map fun e => quote e.1 ++ ":" ++ e.2.compact :=
  eq_map_of_cons rfl (fun _ _ => rfl) es

@[simp] theorem prettyItems_eq_map (level : Nat) (vs : List Json) :
    prettyItems level vs = vs.map (prettyAt level) :=
  eq_map_of_cons rfl (fun _ _ => rfl) vs

@[simp] theorem prettyEntries_eq_map (level : Nat) (es : List (String × Json)) :
    prettyEntries level es = es.map fun e => quote e.1 ++ ": " ++ prettyAt level e.2 :=
  eq_map_of_cons rfl (fun _ _ => rfl) es

/-! ## Written forms -/

/-- The text consists of these tokens and of blanks. -/
def Holds (text : String) (ts : List Token) : Prop := Leads .between text.toList .between ts

theorem Holds.append {a b : String} {ts us : List Token} (ha : Holds a ts) (hb : Holds b us) :
    Holds (a ++ b) (ts ++ us) := by
  unfold Holds
  rw [String.toList_append]
  exact Leads.append ha hb

/-- A text between two brackets. -/
theorem Holds.bracket {opening body closing : String} {t u : Token} {ts : List Token}
    (hopening : Holds opening [t]) (h : Holds body ts) (hclosing : Holds closing [u]) :
    Holds (opening ++ body ++ closing) (t :: (ts ++ [u])) :=
  (hopening.append h).append hclosing

theorem holds_quote (text : String) : Holds (quote text) [.string text] := leads_quote text

theorem holds_boolText (b : Bool) : Holds (boolText b) [.bool b] := by
  cases b <;> rfl

theorem holds_gap {text : String} (h : ∀ c ∈ text.toList, isGap c = true) : Holds text [] :=
  leads_gap h

theorem holds_indent (level : Nat) : Holds (indent level) [] := by
  refine holds_gap fun c hc => ?_
  rw [indent, String.toList_ofList] at hc
  rw [(List.mem_replicate.mp hc).2]
  rfl

theorem holds_intercalate {α : Type} {text : α → String} {ts : α → List Token} {separator : String}
    (hseparator : Holds separator [.comma]) {as : List α} (h : ∀ a ∈ as, Holds (text a) (ts a)) :
    Holds (separator.intercalate (as.map text)) ([.comma].intercalate (as.map ts)) := by
  induction as with
  | nil => rfl
  | cons a as ih =>
      have ha : Holds (text a) (ts a) := h a List.mem_cons_self
      have has := ih fun b hb => h b (List.mem_cons_of_mem a hb)
      cases as with
      | nil => simpa using ha
      | cons b as => simpa using (ha.append hseparator).append has

/-- Bracketed lines hold what the lines hold, with the brackets around and commas between. -/
theorem holds_block {α : Type} {text : α → String} {ts : α → List Token} {as : List α}
    {opening closing : String} {t u : Token} (hopening : Holds opening [t])
    (hclosing : Holds closing [u]) (h : ∀ a ∈ as, Holds (text a) (ts a)) (level : Nat) :
    Holds (block level opening closing (as.map text))
      (t :: ([.comma].intercalate (as.map ts) ++ [u])) := by
  have hbreak : Holds "\n" [] := rfl
  have hcomma : Holds ",\n" [.comma] := rfl
  have hlines := holds_intercalate (hcomma.append (holds_indent (level + 1))) h
  cases as with
  -- without lines there is no break between the brackets either
  | nil => exact hopening.append hclosing
  | cons a as =>
      have hopening' : Holds (opening ++ "\n" ++ indent (level + 1)) [t] :=
        (hopening.append hbreak).append (holds_indent (level + 1))
      have hclosing' : Holds ("\n" ++ indent level ++ closing) [u] :=
        (hbreak.append (holds_indent level)).append hclosing
      have hblock := hopening'.bracket hlines hclosing'
      rwa [← String.append_assoc, ← String.append_assoc] at hblock

theorem holds_pretty (v : Json) (level : Nat) : Holds (prettyAt level v) v.tokens := by
  induction v using induction_on generalizing level with
  | string text =>
      rw [prettyAt, tokens]
      exact holds_quote text
  | bool b =>
      rw [prettyAt, tokens]
      exact holds_boolText b
  | array items ih =>
      have hopening : Holds "[" [.openArray] := rfl
      have hclosing : Holds "]" [.closeArray] := rfl
      rw [prettyAt, tokens, prettyItems_eq_map, itemTokens_eq_map]
      exact holds_block hopening hclosing (fun v hv => ih v hv (level + 1)) level
  | object entries ih =>
      have hopening : Holds "\x7b" [.openObject] := rfl
      have hclosing : Holds "\x7d" [.closeObject] := rfl
      have hcolon : Holds ": " [.colon] := rfl
      have hentry : ∀ e ∈ entries, Holds (quote e.1 ++ ": " ++ prettyAt (level + 1) e.2)
          (.string e.1 :: .colon :: e.2.tokens) :=
        fun e he => ((holds_quote e.1).append hcolon).append (ih e he (level + 1))
      rw [prettyAt, tokens, prettyEntries_eq_map, entryTokens_eq_map]
      exact holds_block hopening hclosing hentry level

theorem holds_compact (v : Json) : Holds v.compact v.tokens := by
  have hcomma : Holds "," [.comma] := rfl
  induction v using induction_on with
  | string text =>
      rw [compact, tokens]
      exact holds_quote text
  | bool b =>
      rw [compact, tokens]
      exact holds_boolText b
  | array items ih =>
      have hopening : Holds "[" [.openArray] := rfl
      have hclosing : Holds "]" [.closeArray] := rfl
      rw [compact, tokens, compactItems_eq_map, itemTokens_eq_map]
      exact hopening.bracket (holds_intercalate hcomma ih) hclosing
  | object entries ih =>
      have hopening : Holds "\x7b" [.openObject] := rfl
      have hclosing : Holds "\x7d" [.closeObject] := rfl
      have hcolon : Holds ":" [.colon] := rfl
      have hentry : ∀ e ∈ entries, Holds (quote e.1 ++ ":" ++ e.2.compact)
          (.string e.1 :: .colon :: e.2.tokens) :=
        fun e he => ((holds_quote e.1).append hcolon).append (ih e he)
      rw [compact, tokens, compactEntries_eq_map, entryTokens_eq_map]
      exact hopening.bracket (holds_intercalate hcomma hentry) hclosing

/-! ## Putting tokens together -/

def Goes (i : State) (ts : List Token) (j : State) : Prop := ts.foldlM step i = some j

section

variable {i j k : State} {t : Token} {ts us : List Token}

theorem goes_nil (i : State) : Goes i [] i := rfl

theorem goes_cons (ht : step i t = some j) (h : Goes j ts k) : Goes i (t :: ts) k := by
  rw [Goes, List.foldlM_cons, ht]
  exact h

theorem goes_singleton (ht : step i t = some j) : Goes i [t] j := goes_cons ht (goes_nil j)

theorem Goes.append (h : Goes i ts j) (h' : Goes j us k) : Goes i (ts ++ us) k := by
  rw [Goes, List.foldlM_append, h]
  exact h'

end

/-- A key, a colon and a value. -/
theorem goes_entry {v : Json} {stack : List Frame} {ts : List Token} {key : String}
    (read : List (String × Json))
    (h : Goes ⟨.value, .entry read key :: stack⟩ ts ⟨.after v, .entry read key :: stack⟩) :
    Goes ⟨.key, .entries read :: stack⟩ (.string key :: .colon :: ts)
      ⟨.after v, .entry read key :: stack⟩ := by
  have hkey : step ⟨.key, .entries read :: stack⟩ (.string key)
      = some ⟨.colon, .entry read key :: stack⟩ := rfl
  exact goes_cons hkey (goes_cons rfl h)

/-- A list of things with commas between them and a closing bracket. `front` is the state in front
of a thing, `back` the one behind it and `finish` the one behind the bracket, with the things so
far. -/
theorem goes_separated {α : Type} (front : List α → State) (back : List α → α → State)
    (finish : List α → State) {ts : α → List Token} {closing : Token}
    (hcomma : ∀ read a, step (back read a) .comma = some (front (read ++ [a])))
    (hclosing : ∀ read a, step (back read a) closing = some (finish (read ++ [a])))
    {a : α} {as : List α} (h : ∀ b ∈ a :: as, ∀ read, Goes (front read) (ts b) (back read b))
    (read : List α) :
    Goes (front read) ([.comma].intercalate ((a :: as).map ts) ++ [closing])
      (finish (read ++ a :: as)) := by
  -- the first thing moves over to those that are read, so these change with it
  induction as generalizing a read with
  | nil =>
      have ha := h a List.mem_cons_self read
      simpa using ha.append (goes_singleton (hclosing read a))
  | cons b as ih =>
      have ha := h a List.mem_cons_self read
      have has := ih (fun c hc => h c (List.mem_cons_of_mem a hc)) (read ++ [a])
      simpa using ha.append (goes_cons (hcomma read a) has)

theorem goes_tokens (v : Json) (stack : List Frame) :
    Goes ⟨.value, stack⟩ v.tokens ⟨.after v, stack⟩ := by
  induction v using induction_on generalizing stack with
  | string text =>
      rw [tokens]
      exact goes_singleton rfl
  | bool b =>
      rw [tokens]
      exact goes_singleton rfl
  | array items ih =>
      rw [tokens, itemTokens_eq_map]
      -- an empty array ends right after its bracket, where no comma may stand
      cases items with
      | nil => exact goes_cons rfl (goes_singleton rfl)
      | cons v vs =>
          exact goes_cons rfl (goes_separated
            (fun read => ⟨.value, .items read :: stack⟩)
            (fun read v => ⟨.after v, .items read :: stack⟩)
            (fun vs => ⟨.after (.array vs), stack⟩)
            (fun _ _ => rfl) (fun _ _ => rfl) (fun w hw read => ih w hw (.items read :: stack)) [])
  | object entries ih =>
      rw [tokens, entryTokens_eq_map]
      cases entries with
      | nil => exact goes_cons rfl (goes_singleton rfl)
      | cons e es =>
          exact goes_cons rfl (goes_separated
            (fun read => ⟨.key, .entries read :: stack⟩)
            (fun read e => ⟨.after e.2, .entry read e.1 :: stack⟩)
            (fun es => ⟨.after (.object es), stack⟩)
            (fun _ _ => rfl) (fun _ _ => rfl)
            (fun d hd read => goes_entry read (ih d hd (.entry read d.1 :: stack))) [])

@[simp] theorem ofTokens_tokens (v : Json) : ofTokens v.tokens = some v := by
  rw [ofTokens, show v.tokens.foldlM step ⟨.value, []⟩ = _ from goes_tokens v []]

theorem read_of_holds {text gap : String} {v : Json} (h : Holds text v.tokens)
    (hgap : ∀ c ∈ gap.toList, isGap c = true) : read (text ++ gap) = some v := by
  have hwhole : scanAll .between (text ++ gap).toList = some (.between, v.tokens ++ []) :=
    h.append (holds_gap hgap)
  rw [read, tokens?, hwhole, List.append_nil]
  exact ofTokens_tokens v

/-- The value over several lines reads as the value, with any blanks behind it. -/
theorem read_pretty (v : Json) {gap : String} (hgap : ∀ c ∈ gap.toList, isGap c = true) :
    read (v.pretty ++ gap) = some v :=
  read_of_holds (holds_pretty v 0) hgap

/-- The value on one line reads as the value, with any blanks behind it. -/
theorem read_compact (v : Json) {gap : String} (hgap : ∀ c ∈ gap.toList, isGap c = true) :
    read (v.compact ++ gap) = some v :=
  read_of_holds (holds_compact v) hgap

/-! ## Order of keys -/

theorem lookup_insertByKey (e : String × Json) (es : List (String × Json)) (key : String) :
    (insertByKey e es).lookup key = (e :: es).lookup key := by
  induction es with
  | nil => rfl
  | cons d es ih =>
      unfold insertByKey
      split
      case isTrue => rfl
      case isFalse h =>
        -- an entry with the same key is not passed
        have hne : e.1 ≠ d.1 := fun heq => h (heq ▸ String.le_refl e.1)
        rw [List.lookup_cons, ih, List.lookup_cons, List.lookup_cons, List.lookup_cons]
        by_cases hd : key = d.1
        · simp [hd, beq_false_of_ne hne.symm]
        · simp [beq_false_of_ne hd]

theorem lookup_sortEntries (es : List (String × Json)) (key : String) :
    (sortEntries es).lookup key = (es.lookup key).map sortKeys := by
  induction es with
  | nil => rfl
  | cons e es ih =>
      rw [sortEntries, lookup_insertByKey, List.lookup_cons, List.lookup_cons, ih]
      cases key == e.1 <;> rfl

/-- Keys lead to the same value, in whatever order the keys of the objects stand. -/
theorem find?_sortKeys (keys : List String) (v : Json) :
    v.sortKeys.find? keys = (v.find? keys).map sortKeys := by
  induction keys generalizing v with
  | nil => rfl
  | cons key keys ih =>
      cases v with
      | object entries =>
          rw [sortKeys, find?, find?, lookup_sortEntries, Option.bind_map, Option.map_bind]
          congr 1
          funext v
          exact ih v
      | _ => simp [sortKeys, find?]

theorem findString?_sortKeys (keys : List String) (v : Json) :
    v.sortKeys.findString? keys = v.findString? keys := by
  rw [findString?, findString?, find?_sortKeys]
  match v.find? keys with
  | none => rfl
  | some (.string text) => rfl
  | some (.bool b) => rfl
  | some (.array items) => rfl
  | some (.object entries) => rfl

end MigrationDraft.Json
