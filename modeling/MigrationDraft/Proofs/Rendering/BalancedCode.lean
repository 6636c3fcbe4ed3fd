import MigrationDraft.Proofs.Shorthand.Balance
import MigrationDraft.Proofs.Shorthand.Provenance
import MigrationDraft.Fragments

set_option autoImplicit false

/-!
# Balanced shorthand and balanced code

A column's statement takes over what is read from a text: the name, the type, the keys and the
values, which are the arguments of the type and the texts of the modifiers. From a balanced
text whose colons are outside all parentheses, reading takes a balanced name, a balanced type and
balanced keys. A value ends at the first closing parenthesis, so one with parentheses of its
own is cut short. This is the only way in which a statement can get out of balance: it is
balanced exactly when its values are, and they all are when no parentheses are nested
(`Schema.balanced_addStatement_iff`).
-/

namespace MigrationDraft

open Shorthand Text

/-! ## Values -/

/-- The text of a value, none for a bare modifier. -/
def OptionValue.text? : OptionValue → Option String
  | .flag => none
  | .literal text => some text

/-- The values of a column: the arguments of its type and the texts of its modifiers. -/
def Field.values (f : Field) : List String :=
  f.arguments ++ f.options.toList.filterMap fun e => e.2.text?

/-- The values of an entry. The marker has none. -/
def Column.values : Column → List String
  | .field f => f.values
  | .timestamps => []

theorem Field.forall_mem_values {f : Field} {P : String → Prop} :
    (∀ v ∈ f.values, P v)
      ↔ (∀ a ∈ f.arguments, P a) ∧ ∀ e ∈ f.options.toList, ∀ t ∈ e.2.text?, P t := by
  unfold Field.values
  rw [List.forall_mem_append]
  refine and_congr_right fun _ => ?_
  constructor
  · intro h e he t ht
    exact h t (List.mem_filterMap.mpr ⟨e, he, ht⟩)
  · intro h v hv
    obtain ⟨e, he, hev⟩ := List.mem_filterMap.mp hv
    exact h e he v hev

/-! ## Statements -/

/-- Only in its values can the column leave a parenthesis open. -/
structure Field.OpenInValues (f : Field) : Prop where
  name : Balanced f.name.toList
  type : Balanced f.type.toList
  keys : ∀ e ∈ f.options.toList, Balanced e.1.toList
  values : ∀ v ∈ f.values, Rising v.toList

theorem balanced_quoted {name : String} (h : Balanced name.toList) :
    Balanced (quoted name).toList := by
  have hquote : Balanced "'".toList := balanced_of_not_mem (by decide) (by decide)
  rw [quoted, String.toList_append, String.toList_append]
  exact ((hquote.when.append h.when).append hquote.when).balanced_iff.mpr (by simp)

/-- The text of a call: a head, and arguments in parentheses. -/
theorem balancedWhen_call {P Q : Prop} {head arguments : String}
    (hhead : BalancedWhen P head.toList) (harguments : BalancedWhen Q arguments.toList) :
    BalancedWhen (P ∧ Q) (head ++ "(" ++ arguments ++ ")").toList := by
  have htext : (head ++ "(" ++ arguments ++ ")").toList
      = head.toList ++ ('(' :: (arguments.toList ++ [')'])) := by
    simp [String.toList_append]
  rw [htext]
  exact hhead.append harguments.group

theorem balancedWhen_optionCall {e : String × OptionValue} (hkey : Balanced e.1.toList)
    (hvalue : ∀ t ∈ e.2.text?, Rising t.toList) :
    BalancedWhen (∀ t ∈ e.2.text?, Balanced t.toList) (optionCall e).toList := by
  obtain ⟨key, value⟩ := e
  have harrow : Balanced "->".toList := balanced_of_not_mem (by decide) (by decide)
  have hhead : BalancedWhen (True ∧ True) ("->" ++ key).toList := by
    rw [String.toList_append]
    exact harrow.when.append hkey.when
  cases value with
  | flag =>
      -- a bare modifier is a call without arguments
      have hempty : Balanced "".toList := balanced_of_not_mem (by decide) (by decide)
      have hcall := balancedWhen_call hhead hempty.when
      rw [String.append_empty, String.append_assoc] at hcall
      exact hcall.congr (by simp [OptionValue.text?])
  | literal text =>
      have htext : Rising text.toList := hvalue text rfl
      exact (balancedWhen_call hhead htext.balancedWhen).congr (by simp [OptionValue.text?])

theorem Field.OpenInValues.balancedWhen_callArguments {f : Field} (h : f.OpenInValues) :
    BalancedWhen (∀ a ∈ f.arguments, Balanced a.toList)
      (String.intercalate ", " f.callArguments).toList := by
  have hcomma : Balanced ", ".toList := balanced_of_not_mem (by decide) (by decide)
  have harguments : ∀ a ∈ f.arguments, Rising a.toList := (Field.forall_mem_values.mp h.values).1
  have hname : Balanced ("'" ++ f.name ++ "'").toList := balanced_quoted h.name
  have hcall : (∀ a ∈ f.callArguments, Rising a.toList)
      ∧ ((∀ a ∈ f.callArguments, Balanced a.toList) ↔ ∀ a ∈ f.arguments, Balanced a.toList) := by
    unfold Field.callArguments
    split
    · exact ⟨harguments, Iff.rfl⟩
    · rw [List.forall_mem_cons, List.forall_mem_cons]
      exact ⟨⟨hname.rising, harguments⟩, and_iff_right hname⟩
  rw [String.toList_intercalate]
  refine (BalancedWhen.intercalate hcomma (P := Balanced) fun l hl => ?_).congr ?_
  · obtain ⟨a, ha, rfl⟩ := List.mem_map.mp hl
    exact (hcall.1 a ha).balancedWhen
  · rw [List.forall_mem_map]
    exact hcall.2

/-- A statement is balanced when the values in it are. -/
theorem Field.OpenInValues.balanced_statement_iff {f : Field} (h : f.OpenInValues) :
    Balanced (Column.field f).addStatement.toList ↔ ∀ v ∈ f.values, Balanced v.toList := by
  have hvalues := (Field.forall_mem_values.mp h.values).2
  have harrow : Balanced "$table->".toList := balanced_of_not_mem (by decide) (by decide)
  have hend : Balanced ";".toList := balanced_of_not_mem (by decide) (by decide)
  have hhead : BalancedWhen (True ∧ True) ("$table->" ++ f.type).toList := by
    rw [String.toList_append]
    exact harrow.when.append h.type.when
  have hoptions : BalancedWhen (∀ e ∈ f.options.toList, ∀ t ∈ e.2.text?, Balanced t.toList)
      (String.join (f.options.toList.map optionCall)).toList := by
    rw [String.toList_join, List.flatMap_map]
    exact .flatMap fun e he => balancedWhen_optionCall (h.keys e he) (hvalues e he)
  have hcall := balancedWhen_call hhead h.balancedWhen_callArguments
  have hstatement := (hcall.append hoptions).append hend.when
  rw [← String.toList_append, ← String.toList_append] at hstatement
  rw [Field.forall_mem_values]
  exact (hstatement.congr (by simp)).balanced_iff

/-! ## What is read from a balanced text -/

section

variable {bar s : List Char}

/-- A value that is cut out of a text whose parentheses may hold no character in `bar`. -/
def IsCut (bar : List Char) (v : String) : Prop :=
  ')' ∉ v.toList ∧ ('(' ∈ bar → '(' ∉ v.toList)

theorem balanced_typeOf (h : Closed bar s) :
    Balanced (typeOf s).1.toList ∧ ∀ a ∈ (typeOf s).2, IsCut bar a := by
  unfold typeOf
  split
  · next head inner hgroup =>
      obtain ⟨hhead, _, hinner, rest, rfl⟩ := typeGroup?_eq_some_iff.mp hgroup
      -- the head has no opening parenthesis, so a closing one would be unmatched
      have hclose : ')' ∉ head := h.rising_of_append.not_mem_close hhead
      refine ⟨?_, fun a ha => ?_⟩
      · rw [String.toList_ofList]
        exact balanced_of_not_mem hhead hclose
      · obtain ⟨part, hpart, rfl⟩ := List.mem_map.mp ha
        have hpart' : ∀ {c}, c ∉ inner → c ∉ trim part := fun hc hm =>
          hc (mem_of_mem_splitOn hpart (mem_of_mem_trim hm))
        rw [IsCut, String.toList_ofList]
        exact ⟨hpart' hinner, fun hbar => hpart' (h.not_mem_inner hhead hinner '(' hbar)⟩
  · rw [String.toList_ofList]
    exact ⟨h.balanced, fun a ha => nomatch ha⟩

theorem balanced_option? (h : Closed bar s) {e : String × OptionValue} (he : option? s = some e) :
    Balanced e.1.toList ∧ ∀ t ∈ e.2.text?, IsCut bar t := by
  cases option?_eq_some_iff.mp he with
  | @valued key value rest hkey hletters hvalue hclose =>
      have hopen : '(' ∉ key := fun hm => absurd (hletters _ hm) (by decide)
      have hkeyClose : ')' ∉ key := fun hm => absurd (hletters _ hm) (by decide)
      refine ⟨?_, fun t ht => ?_⟩
      · rw [String.toList_ofList]
        exact balanced_of_not_mem hopen hkeyClose
      · cases ht
        rw [IsCut, String.toList_ofList]
        exact ⟨hclose, h.not_mem_inner hopen hclose '('⟩
  | bare hne hopen =>
      rw [String.toList_ofList]
      exact ⟨balanced_of_not_mem hopen (h.balanced.rising.not_mem_close hopen),
        fun t ht => nomatch ht⟩

/-- A field of a balanced text is open in its values only, and these are cut out of the text. -/
theorem openInValues_field (hcolon : ':' ∈ bar) (h : Closed bar s) :
    (field s).OpenInValues ∧ ∀ v ∈ (field s).values, IsCut bar v := by
  -- no colon stands inside parentheses, so every part of the field is balanced
  have hsegments := closed_of_mem_splitOn hcolon (by decide) (by decide) h
  obtain ⟨hname, htype, htokens⟩ := forall_parts (P := Closed bar) rfl
    fun p hp => (hsegments p hp).trim
  have hoptions : ∀ e ∈ (field s).options.toList,
      Balanced e.1.toList ∧ ∀ t ∈ e.2.text?, IsCut bar t := by
    intro e he
    rw [field_eq] at he
    obtain ⟨token, htoken, hread⟩ := exists_token_of_mem_optionsOf he
    exact balanced_option? (htokens token htoken) hread
  have hvalues : ∀ v ∈ (field s).values, IsCut bar v := by
    refine Field.forall_mem_values.mpr ⟨?_, fun e he => (hoptions e he).2⟩
    rw [field_eq]
    exact (balanced_typeOf htype).2
  refine ⟨?_, hvalues⟩
  exact
    { name := by
        rw [name_field, String.toList_ofList]
        exact hname.balanced
      type := by
        rw [field_eq]
        exact (balanced_typeOf htype).1
      keys := fun e he => (hoptions e he).1
      values := fun v hv => rising_of_not_mem (hvalues v hv).1 }

end

/-! ## What a field stands for -/

theorem values_foreignKey (name : String) :
    (foreignKey name).values
      = [quoted "id", quoted (Inflection.pluralize (referencedName name))] := by
  simp [Field.values, OptionValue.text?]

/-- A companion is balanced throughout when the name of its column is. -/
theorem openInValues_foreignKey {name : String} (h : Balanced name.toList) :
    (foreignKey name).OpenInValues ∧ ∀ v ∈ (foreignKey name).values, Balanced v.toList := by
  have hother : HasWordCharacters fun c => isParenthesis c = false := by
    refine ⟨rfl, rfl, fun c hc => Bool.eq_false_iff.mpr fun hm => ?_⟩
    have hparenthesis : c = '(' ∨ c = ')' := by simpa [isParenthesis] using hm
    rcases hparenthesis with rfl | rfl
    · exact absurd hc (by decide)
    · exact absurd hc (by decide)
  -- the type and the keys of a companion are always the same
  have hwords : ∀ word ∈ ["foreign", "references", "on"], Balanced word.toList := by
    intro word hword
    simp only [List.mem_cons, List.not_mem_nil, or_false] at hword
    rcases hword with rfl | rfl | rfl <;> exact balanced_of_not_mem (by decide) (by decide)
  have hvalues : ∀ v ∈ (foreignKey name).values, Balanced v.toList := by
    rw [values_foreignKey]
    refine List.forall_mem_cons.mpr ⟨?_, List.forall_mem_singleton.mpr ?_⟩
    · exact balanced_of_not_mem (by decide) (by decide)
    · exact h.of_filter_eq (filter_referenced_table hother name)
  refine ⟨⟨h, hwords "foreign" (by simp), ?_, fun v hv => (hvalues v hv).rising⟩, hvalues⟩
  rw [options_foreignKey]
  exact List.forall_mem_cons.mpr ⟨hwords _ (by simp),
    List.forall_mem_singleton.mpr (hwords _ (by simp))⟩

/-- The entries that a field stands for are open in its values only, and have balanced ones
besides. -/
theorem openInValues_of_mem_expand {f g : Field} (h : f.OpenInValues)
    (hg : .field g ∈ expand f) :
    g.OpenInValues ∧ ∀ v ∈ g.values, v ∈ f.values ∨ Balanced v.toList := by
  obtain ⟨_, rfl | rfl⟩ := field_of_mem_expand hg
  · -- what is left of a column's modifiers was there before
    have hvalues : ∀ v ∈ f.withoutForeign.values, v ∈ f.values := by
      obtain ⟨harguments, hoptions⟩ :=
        (Field.forall_mem_values (P := (· ∈ f.values))).mp fun v hv => hv
      exact Field.forall_mem_values.mpr
        ⟨harguments, fun e he => hoptions e (Options.mem_of_mem_erase he)⟩
    refine ⟨?_, fun v hv => Or.inl (hvalues v hv)⟩
    exact
      { h with
        keys := fun e he => h.keys e (Options.mem_of_mem_erase he)
        values := fun v hv => h.values v (hvalues v hv) }
  · obtain ⟨hforeign, hvalues⟩ := openInValues_foreignKey h.name
    exact ⟨hforeign, fun v hv => Or.inr (hvalues v hv)⟩

/-- The fields of a balanced text are balanced. -/
theorem closed_of_mem_fields {bar s : List Char} (h : Closed bar s) :
    ∀ f ∈ fields s, Closed bar f := by
  intro f hf
  obtain ⟨p, hp, rfl⟩ := exists_piece_of_mem_fields hf
  exact (closed_of_mem_pieces h p hp).trim

/-- Every entry that is read from a balanced text is open in its values only, and each of these is
cut out of the text or balanced. -/
theorem openInValues_of_mem_ofShorthand {bar : List Char} {text : String} (hcolon : ':' ∈ bar)
    (h : Closed bar text.toList) {g : Field} (hg : .field g ∈ Schema.ofShorthand text) :
    g.OpenInValues ∧ ∀ v ∈ g.values, IsCut bar v ∨ Balanced v.toList := by
  obtain ⟨f, hf, hg⟩ := mem_ofShorthand_iff.mp hg
  obtain ⟨hfield, hcut⟩ := openInValues_field hcolon (closed_of_mem_fields h f hf)
  obtain ⟨hopen, hvalues⟩ := openInValues_of_mem_expand hfield hg
  exact ⟨hopen, fun v hv => (hvalues v hv).imp (hcut v) id⟩

/-! ## The law -/

theorem balanced_addStatement_timestamps : Balanced Column.timestamps.addStatement.toList := by
  have hclosed : Closed [] Column.timestamps.addStatement.toList := by decide
  exact hclosed.balanced

/-- **A statement that is read from a balanced text is balanced exactly when its values are**, as
long as the colons of the text stand outside all parentheses. Without nested parentheses every
statement is balanced. -/
theorem Schema.balanced_addStatement_iff (text : String) (hbalanced : Balanced text.toList)
    (hcolon : OnlyOutside ':' text.toList) :
    (∀ c ∈ Schema.ofShorthand text,
        (Balanced c.addStatement.toList ↔ ∀ v ∈ c.values, Balanced v.toList))
      ∧ (OnlyOutside '(' text.toList →
        ∀ c ∈ Schema.ofShorthand text, Balanced c.addStatement.toList) := by
  have hvalues : ∀ c ∈ Schema.ofShorthand text,
      (Balanced c.addStatement.toList ↔ ∀ v ∈ c.values, Balanced v.toList) := by
    have hclosed : Closed [':'] text.toList :=
      closed_iff.mpr ⟨hbalanced, by simpa using hcolon⟩
    intro c hc
    cases c with
    | timestamps => exact iff_of_true balanced_addStatement_timestamps fun v hv => nomatch hv
    | field g =>
        exact (openInValues_of_mem_ofShorthand (by simp) hclosed hc).1.balanced_statement_iff
  refine ⟨hvalues, fun hflat c hc => (hvalues c hc).mpr ?_⟩
  -- no value can hold a parenthesis that opens
  have hclosed : Closed [':', '('] text.toList :=
    closed_iff.mpr ⟨hbalanced, by simpa using ⟨hcolon, hflat⟩⟩
  cases c with
  | timestamps => exact fun v hv => nomatch hv
  | field g =>
      intro v hv
      rcases (openInValues_of_mem_ofShorthand (by simp) hclosed hc).2 v hv with hcut | hv
      · exact balanced_of_not_mem (hcut.2 (by simp)) hcut.1
      · exact hv

/-- Texts in balance, the second without nested parentheses: a name, a type and a companion with
parentheses of their own, a group that is empty, text after a group, and a value cut short. -/
theorem Schema.balanced_addStatement_iff_nested :
    let nested := "a(b)_id:big():foreign, x:d((1), 2)y:unsigned:default(now())"
    let flat := "a(b)_id:big():foreign, x:d(1, 2)y:unsigned:default(now)()"
    (Balanced nested.toList ∧ OnlyOutside ':' nested.toList
      ∧ ∀ c ∈ Schema.ofShorthand nested,
        (Balanced c.addStatement.toList ↔ ∀ v ∈ c.values, Balanced v.toList))
      ∧ Balanced flat.toList ∧ OnlyOutside ':' flat.toList ∧ OnlyOutside '(' flat.toList
        ∧ ∀ c ∈ Schema.ofShorthand flat, Balanced c.addStatement.toList := by
  intro nested flat
  obtain ⟨hnested, hnestedOut⟩ := closed_iff.mp (show Closed [':'] nested.toList by decide)
  obtain ⟨hflat, hflatOut⟩ := closed_iff.mp (show Closed [':', '('] flat.toList by decide)
  have hcolon := hflatOut ':' (by simp)
  have hopen := hflatOut '(' (by simp)
  exact ⟨⟨hnested, hnestedOut ':' (by simp),
      (Schema.balanced_addStatement_iff nested hnested (hnestedOut ':' (by simp))).1⟩,
    hflat, hcolon, hopen, (Schema.balanced_addStatement_iff flat hflat hcolon).2 hopen⟩

/-- A balanced text with a call for a default value: the value ends inside the call, and the
statement leaves a parenthesis open. -/
theorem Schema.not_balanced_default_now :
    let text := "created:timestamp:default(now())"
    Balanced text.toList
      ∧ (Schema.ofShorthand text).map Column.addStatement
        = ["$table->timestamp('created')->default(now();"]
      ∧ ∃ c ∈ Schema.ofShorthand text, ¬ Balanced c.addStatement.toList := by
  intro text
  have hstatements : (Schema.ofShorthand text).map Column.addStatement
      = ["$table->timestamp('created')->default(now();"] := by decide
  refine ⟨?_, hstatements, ?_⟩
  · exact Closed.balanced (show Closed [] text.toList by decide)
  · have hmem : "$table->timestamp('created')->default(now();"
        ∈ (Schema.ofShorthand text).map Column.addStatement := by
      rw [hstatements]
      exact List.mem_singleton_self _
    obtain ⟨c, hc, hstatement⟩ := List.mem_map.mp hmem
    refine ⟨c, hc, fun h => absurd h.total ?_⟩
    rw [hstatement]
    decide

end MigrationDraft
