import MigrationDraft.Proofs.Rendering.Names
import MigrationDraft.Proofs.Text.SelfDelimiting

set_option autoImplicit false

/-!
# Schemas that can be recovered from the code

The statements that add columns say all there is to know about a schema, as long as no text in
it has the character that ends its place in the statement: `(` ends a type and the key of a
modifier, a single quote ends a name, a comma or `)` an argument and `)` a value. A statement is
then self-delimiting, from its type down to its semicolon, so no text of a column can pass for
the end of its statement, line breaks and whole statements included. Two schemas with the same
body are the same (`Fragments.up_eq_iff`).
-/

namespace MigrationDraft

open Shorthand Text Template

/-! ## Columns whose places end where they should -/

/-- The value can be told apart from others: a literal is there and is not closed before its
end. -/
def OptionValue.Recoverable : OptionValue → Prop
  | .flag => True
  | .literal text => text ≠ "" ∧ ')' ∉ text.toList

/-- The key of a modifier is not followed by a value before its end. -/
def RecoverableOption (e : String × OptionValue) : Prop := '(' ∉ e.1.toList ∧ e.2.Recoverable

/-- No text of the column has the character that ends its place. -/
structure Field.Recoverable (f : Field) : Prop where
  name_ne : f.name ≠ ""
  name : '\'' ∉ f.name.toList
  type : '(' ∉ f.type.toList
  arguments : ∀ a ∈ f.arguments, ',' ∉ a.toList ∧ ')' ∉ a.toList
  options : ∀ e ∈ f.options.toList, RecoverableOption e

def Column.Recoverable : Column → Prop
  | .field f => f.Recoverable
  | .timestamps => True

instance : DecidablePred OptionValue.Recoverable
  | .flag => inferInstanceAs (Decidable True)
  | .literal _ => inferInstanceAs (Decidable (_ ∧ _))

instance : DecidablePred RecoverableOption :=
  fun _ => inferInstanceAs (Decidable (_ ∧ _))

instance : DecidablePred Column.Recoverable
  | .timestamps => inferInstanceAs (Decidable True)
  | .field f =>
      decidable_of_iff
        (f.name ≠ "" ∧ '\'' ∉ f.name.toList ∧ '(' ∉ f.type.toList
          ∧ (∀ a ∈ f.arguments, ',' ∉ a.toList ∧ ')' ∉ a.toList)
          ∧ ∀ e ∈ f.options.toList, RecoverableOption e)
        ⟨fun ⟨hne, hname, htype, harguments, hoptions⟩ =>
            Field.Recoverable.mk hne hname htype harguments hoptions,
          fun ⟨hne, hname, htype, harguments, hoptions⟩ =>
            ⟨hne, hname, htype, harguments, hoptions⟩⟩

/-! ## Modifiers -/

/-- What stands between the parentheses of the call for a modifier. -/
def OptionValue.text : OptionValue → List Char
  | .flag => []
  | .literal text => text.toList

theorem OptionValue.text_inj {v w : OptionValue} (hv : v.Recoverable) (hw : w.Recoverable)
    (h : v.text = w.text) : v = w := by
  -- a flag has no text and a literal has some
  cases v with
  | flag =>
      cases w with
      | flag => rfl
      | literal t => exact absurd (String.toList_eq_nil_iff.mp h.symm) hw.1
  | literal s =>
      cases w with
      | flag => exact absurd (String.toList_eq_nil_iff.mp h) hv.1
      | literal t => exact congrArg literal (String.toList_inj.mp h)

theorem selfDelimiting_value :
    SelfDelimiting OptionValue.Recoverable fun v => v.text ++ [')'] := by
  apply SelfDelimiting.closed
  · intro v hv
    cases v with
    | flag => exact List.not_mem_nil
    | literal text => exact hv.2
  · intro v w hv hw
    exact OptionValue.text_inj hv hw

theorem toList_optionCall (e : String × OptionValue) :
    (optionCall e).toList = "->".toList ++ (e.1.toList ++ '(' :: (e.2.text ++ [')'])) := by
  obtain ⟨key, value⟩ := e
  cases value with
  | flag => simp [optionCall, OptionValue.text]
  | literal text => simp [optionCall, OptionValue.text]

theorem selfDelimiting_optionCall :
    SelfDelimiting RecoverableOption fun e => (optionCall e).toList := by
  intro e e' he he' s t h
  have hchars : e.1.toList ++ '(' :: (e.2.text ++ [')'] ++ s)
      = e'.1.toList ++ '(' :: (e'.2.text ++ [')'] ++ t) := by
    simpa [toList_optionCall] using h
  obtain ⟨hkey, hvalue⟩ := append_cons_inj_of_not_mem he.1 he'.1 hchars
  obtain ⟨hvalue, hrest⟩ := selfDelimiting_value he.2 he'.2 hvalue
  exact ⟨Prod.ext (String.toList_inj.mp hkey) hvalue, hrest⟩

/-- A literal without text cannot be told from a flag. -/
example : optionCall ("index", .literal "") = optionCall ("index", .flag) := by decide

/-! ## Arguments -/

/-- The arguments of a type as they follow the name. -/
def argumentsText (arguments : List String) : List Char :=
  (String.intercalate ", " ("" :: arguments)).toList

theorem selfDelimiting_arguments :
    SelfDelimiting (fun as : List String => ∀ a ∈ as, ',' ∉ a.toList ∧ ')' ∉ a.toList)
      fun as => argumentsText as ++ [')'] := by
  have htext : ∀ as,
      argumentsText as = (',' :: [' ']).intercalate ([] :: as.map String.toList) := by
    intro as
    rw [argumentsText, String.toList_intercalate]
    rfl
  -- the list is over at the first closing parenthesis, and its arguments at the commas
  apply SelfDelimiting.closed
  · intro as has hmem
    rw [htext] at hmem
    rcases mem_of_mem_intercalate hmem with hmem | ⟨l, hl, hmem⟩
    · exact absurd hmem (by decide)
    · rcases List.mem_cons.mp hl with rfl | hl
      · cases hmem
      · obtain ⟨a, ha, rfl⟩ := List.mem_map.mp hl
        exact (has a ha).2 hmem
  · intro as bs has hbs heq
    have hcomma : ∀ {cs : List String}, (∀ c ∈ cs, ',' ∉ c.toList ∧ ')' ∉ c.toList) →
        ∀ l ∈ [] :: cs.map String.toList, ',' ∉ l := by
      intro cs hcs l hl
      rcases List.mem_cons.mp hl with rfl | hl
      · exact List.not_mem_nil
      · obtain ⟨c, hc, rfl⟩ := List.mem_map.mp hl
        exact (hcs c hc).1
    rw [htext, htext] at heq
    have hparts := intercalate_cons_inj (by decide) (hcomma has) (hcomma hbs) heq
    exact (List.map_inj_right fun _ _ => String.toList_inj.mp).mp (List.cons.inj hparts).2

/-- An argument with a comma cannot be told from two. -/
example : argumentsText ["5, 2"] = argumentsText ["5", "2"] := by decide

/-! ## Statements -/

/-- The statement that adds a column, from the name on. -/
def Column.callText : Column → List Char
  | .timestamps => [')', ';']
  | .field f =>
      '\'' :: (f.name.toList ++ '\'' :: (argumentsText f.arguments ++ [')']
        ++ (f.options.toList.flatMap (fun e => (optionCall e).toList) ++ [';'])))

theorem Column.toList_addStatement {c : Column} (h : c.Recoverable) :
    c.addStatement.toList = "$table->".toList ++ (c.type.toList ++ '(' :: c.callText) := by
  cases c with
  | timestamps => decide
  | field f =>
      show ("$table->" ++ f.type ++ "(" ++ String.intercalate ", " f.callArguments ++ ")"
        ++ String.join (f.options.toList.map optionCall) ++ ";").toList = _
      rw [Field.intercalate_callArguments h.name_ne]
      simp [callText, type, argumentsText, String.toList_join, List.flatMap_map]

theorem not_optionCall_prefix (e : String × OptionValue) (s : List Char) :
    ¬(optionCall e).toList <+: ';' :: s := by
  rintro ⟨u, hu⟩
  rw [toList_optionCall] at hu
  exact absurd (List.cons.inj hu).1 (by decide)

/-- From the name on the statements of two columns of one type differ if the columns do. -/
theorem Field.callText_append_inj {f g : Field} (hf : f.Recoverable) (hg : g.Recoverable)
    (htype : f.type = g.type) {s t : List Char}
    (h : (Column.field f).callText ++ s = (Column.field g).callText ++ t) : f = g ∧ s = t := by
  have hchars : f.name.toList ++ '\'' :: (argumentsText f.arguments ++ [')']
        ++ (f.options.toList.flatMap (fun e => (optionCall e).toList) ++ ';' :: s))
      = g.name.toList ++ '\'' :: (argumentsText g.arguments ++ [')']
        ++ (g.options.toList.flatMap (fun e => (optionCall e).toList) ++ ';' :: t)) := by
    simpa [Column.callText] using h
  -- each place is read up to the character that ends it, and leaves the next one in front
  obtain ⟨hname, hcall⟩ := append_cons_inj_of_not_mem hf.name hg.name hchars
  obtain ⟨harguments, hcalls⟩ := selfDelimiting_arguments hf.arguments hg.arguments hcall
  obtain ⟨hoptions, hend⟩ := selfDelimiting_optionCall.flatMap_append_inj
    (fun e _ => not_optionCall_prefix e s) (fun e _ => not_optionCall_prefix e t)
    hf.options hg.options hcalls
  obtain ⟨fname, ftype, fargs, fopts⟩ := f
  obtain ⟨gname, gtype, gargs, gopts⟩ := g
  cases String.toList_inj.mp hname
  cases htype
  cases harguments
  cases Options.ext hoptions
  exact ⟨rfl, (List.cons.inj hend).2⟩

/-- Where a statement starts, its column is all that can be read. -/
theorem selfDelimiting_addStatement :
    SelfDelimiting Column.Recoverable fun c => c.addStatement.toList := by
  intro c c' hc hc' s t h
  have hmark : ∀ {c : Column}, c.Recoverable → '(' ∉ c.type.toList := by
    intro c hc
    cases c with
    | timestamps => decide
    | field f => exact hc.type
  have hchars : c.type.toList ++ '(' :: (c.callText ++ s)
      = c'.type.toList ++ '(' :: (c'.callText ++ t) := by
    simpa [Column.toList_addStatement hc, Column.toList_addStatement hc'] using h
  obtain ⟨htype, hcall⟩ := append_cons_inj_of_not_mem (hmark hc) (hmark hc') hchars
  -- the marker's call has nothing in its parentheses, that of a column starts with a quote
  cases c with
  | timestamps =>
      cases c' with
      | timestamps => exact ⟨rfl, (List.cons.inj (List.cons.inj hcall).2).2⟩
      | field g => exact absurd (List.cons.inj hcall).1 (by decide)
  | field f =>
      cases c' with
      | timestamps => exact absurd (List.cons.inj hcall).1 (by decide)
      | field g =>
          obtain ⟨rfl, hrest⟩ :=
            Field.callText_append_inj hc hc' (String.toList_inj.mp htype) hcall
          exact ⟨rfl, hrest⟩

/-- The statements of a schema say all there is to know about it. -/
theorem Schema.statements_add_inj {columns columns' : Schema}
    (h : ∀ c ∈ columns, c.Recoverable) (h' : ∀ c ∈ columns', c.Recoverable)
    (heq : columns.statements .add = columns'.statements .add) : columns = columns' := by
  have hchars : ∀ cs : Schema, (cs.statements .add).toList
      = statementSeparator.toList.intercalate (cs.map fun c => c.addStatement.toList) := by
    intro cs
    rw [statements, String.toList_intercalate, List.map_map]
    rfl
  have hne : ∀ c : Column, c.Recoverable → c.addStatement.toList ≠ [] := by
    intro c hc
    rw [Column.toList_addStatement hc]
    exact List.cons_ne_nil _ _
  have hlists := congrArg String.toList heq
  rw [hchars, hchars] at hlists
  exact selfDelimiting_addStatement.intercalate_inj hne _ h h' hlists

/-! ## The upward body -/

/-- A body differs from others in its statements only. -/
theorem Body.source_wrapped_inj {method : String} {columns columns' : Schema} {d : Direction}
    (table : String) (h : ((wrapped method columns d).template table).source
      = ((wrapped method columns' d).template table).source) :
    columns.statements d = columns'.statements d := by
  rw [source_wrapped, source_wrapped] at h
  apply String.toList_inj.mp
  have hchars := congrArg String.toList h
  simp only [String.toList_append] at hchars
  exact List.append_cancel_left (List.append_cancel_right hchars)

/-- **The code that adds the columns of a schema loses nothing of it.** For every two schemas of
markers and of columns whose texts do not end their own places, and for every table, the upward
bodies are the same only if the schemas are, down to the order of modifiers and their values. -/
theorem Fragments.up_eq_iff {columns columns' : Schema} (h : ∀ c ∈ columns, c.Recoverable)
    (h' : ∀ c ∈ columns', c.Recoverable) (table : String) :
    ∃ b b', build Stubs.builtin columns ⟨.add, table⟩ = .ok b
      ∧ build Stubs.builtin columns' ⟨.add, table⟩ = .ok b'
      ∧ (b.up = b'.up ↔ columns = columns') := by
  refine ⟨_, _, Body.build_of_forAction? rfl, Body.build_of_forAction? rfl, ?_⟩
  constructor
  · intro hup
    exact Schema.statements_add_inj h h' (Body.source_wrapped_inj table hup)
  · rintro rfl
    rfl

/-- A name that reads like a call, a value that looks like more than one, and a line break: the
order of the modifiers still shows. -/
theorem Fragments.up_eq_iff_modifiers_swapped :
    let note : Field := .withArguments (.plain "a), (b\n" "string") ["5", " 2"]
    let columns : Schema :=
      [.timestamps, .field ((note.withOption "nullable" .flag).withOption "default"
        (.literal "'x'->y(',"))]
    let columns' : Schema :=
      [.timestamps, .field ((note.withOption "default" (.literal "'x'->y(',")).withOption
        "nullable" .flag)]
    (∀ c ∈ columns, c.Recoverable) ∧ (∀ c ∈ columns', c.Recoverable)
      ∧ ∃ b b', build Stubs.builtin columns ⟨.add, "posts"⟩ = .ok b
        ∧ build Stubs.builtin columns' ⟨.add, "posts"⟩ = .ok b' ∧ b.up ≠ b'.up := by
  intro note columns columns'
  have h : ∀ c ∈ columns, c.Recoverable := by decide
  have h' : ∀ c ∈ columns', c.Recoverable := by decide
  have hne : columns ≠ columns' := by decide
  obtain ⟨b, b', hb, hb', hiff⟩ := Fragments.up_eq_iff h h' "posts"
  exact ⟨h, h', b, b', hb, hb', fun hup => hne (hiff.mp hup)⟩

end MigrationDraft
