import MigrationDraft.Proofs.Shorthand.Provenance
import MigrationDraft.Fragments

set_option autoImplicit false

/-!
# Statements inside a text

Two things about the statements of a schema that matter once they stand inside a generated
text: they occur in it one after the other, and they bring in no characters but those of their
columns and a few marks, so no opening brace if the shorthand text has none.
-/

namespace MigrationDraft

/-! ## Order of occurrence -/

/-- The parts occur in the text one after the other and do not overlap. -/
def OccurInOrder : List String → String → Prop
  | [], _ => True
  | p :: ps, s => ∃ before after, s = before ++ p ++ after ∧ OccurInOrder ps after

namespace OccurInOrder

theorem single (s : String) : OccurInOrder [s] s :=
  ⟨"", "", by simp, trivial⟩

theorem append {ps qs : List String} {s t : String} (hs : OccurInOrder ps s)
    (ht : OccurInOrder qs t) : OccurInOrder (ps ++ qs) (s ++ t) := by
  induction ps generalizing s with
  | nil =>
      cases qs with
      | nil => exact trivial
      | cons q qs =>
          obtain ⟨before, after, rfl, hafter⟩ := ht
          refine ⟨s ++ before, after, ?_, hafter⟩
          rw [String.append_assoc, String.append_assoc, String.append_assoc]
  | cons p ps ih =>
      obtain ⟨before, after, rfl, hafter⟩ := hs
      exact ⟨before, after ++ t, by rw [String.append_assoc], ih hafter⟩

theorem inside {ps : List String} {s : String} (h : OccurInOrder ps s) (before after : String) :
    OccurInOrder ps (before ++ s ++ after) := by
  have hleft : OccurInOrder ([] ++ ps) (before ++ s) := append trivial h
  have hright : OccurInOrder (([] ++ ps) ++ []) (before ++ s ++ after) := append hleft trivial
  rwa [List.append_nil, List.nil_append] at hright

/-- Joined parts occur in order. -/
theorem intercalate (sep : String) (ps : List String) :
    OccurInOrder ps (sep.intercalate ps) := by
  induction ps with
  | nil => exact trivial
  | cons p ps ih =>
      cases ps with
      | nil =>
          rw [String.intercalate_singleton]
          exact single p
      | cons q ps =>
          rw [String.intercalate_cons_cons]
          exact append (inside (single p) "" sep) ih

end OccurInOrder

/-! ## Alphabets -/

def WrittenWith (alphabet : Char → Prop) (s : String) : Prop := ∀ c ∈ s.toList, alphabet c

instance (alphabet : Char → Prop) [DecidablePred alphabet] (s : String) :
    Decidable (WrittenWith alphabet s) :=
  List.decidableBAll alphabet s.toList

/-- The texts from which statements are made, those of the columns apart. -/
def statementMarks : List String :=
  ["$table->timestamps();", "$table->dropTimestamps();", "$table->dropColumn('", "');",
    "$table->", "(", ", ", ")", "()", "->", "'", ";"]

section

variable {alphabet : Char → Prop}

namespace WrittenWith

theorem append {s t : String} (hs : WrittenWith alphabet s) (ht : WrittenWith alphabet t) :
    WrittenWith alphabet (s ++ t) := by
  intro c hc
  rw [String.toList_append, List.mem_append] at hc
  exact hc.elim (hs c) (ht c)

theorem join {ss : List String} (h : ∀ s ∈ ss, WrittenWith alphabet s) :
    WrittenWith alphabet (String.join ss) := by
  intro c hc
  rw [String.toList_join] at hc
  obtain ⟨s, hs, hc⟩ := List.mem_flatMap.mp hc
  exact h s hs c hc

theorem intercalate {sep : String} (hsep : WrittenWith alphabet sep) {ss : List String}
    (h : ∀ s ∈ ss, WrittenWith alphabet s) : WrittenWith alphabet (sep.intercalate ss) := by
  intro c hc
  rw [String.toList_intercalate] at hc
  rcases Text.mem_of_mem_intercalate hc with hc | ⟨l, hl, hc⟩
  · exact hsep c hc
  · obtain ⟨s, hs, rfl⟩ := List.mem_map.mp hl
    exact h s hs c hc

end WrittenWith

variable (hmarks : ∀ mark ∈ statementMarks, WrittenWith alphabet mark)

include hmarks

theorem writtenWith_optionCall {e : String × OptionValue} (h : OptionWrittenIn alphabet e) :
    WrittenWith alphabet (optionCall e) := by
  have harrow : WrittenWith alphabet "->" := hmarks _ (by decide)
  obtain ⟨key, value⟩ := e
  cases value with
  | flag => exact .append (.append harrow h) (hmarks _ (by decide))
  | literal text =>
      exact .append (.append (.append (.append harrow h.1) (hmarks _ (by decide))) h.2)
        (hmarks _ (by decide))

theorem writtenWith_callArguments {f : Field} (h : f.WrittenIn alphabet) :
    ∀ a ∈ f.callArguments, WrittenWith alphabet a := by
  have hquote : WrittenWith alphabet "'" := hmarks _ (by decide)
  unfold Field.callArguments
  split
  · exact h.arguments
  · exact List.forall_mem_cons.mpr ⟨.append (.append hquote h.name) hquote, h.arguments⟩

/-- A statement has the characters of its column and of the marks. -/
theorem writtenWith_statement {c : Column} (h : c.WrittenIn alphabet) (d : Direction) :
    WrittenWith alphabet (c.statement d) := by
  cases c with
  | timestamps => cases d <;> exact hmarks _ (by decide)
  | field f =>
      cases d with
      | add =>
          have harguments : WrittenWith alphabet (String.intercalate ", " f.callArguments) :=
            .intercalate (hmarks _ (by decide)) (writtenWith_callArguments hmarks h)
          have hoptions : WrittenWith alphabet (String.join (f.options.toList.map optionCall)) := by
            refine .join fun call hcall => ?_
            obtain ⟨e, he, rfl⟩ := List.mem_map.mp hcall
            exact writtenWith_optionCall hmarks (h.options e he)
          have hhead : WrittenWith alphabet ("$table->" ++ f.type ++ "(") :=
            .append (.append (hmarks _ (by decide)) h.type) (hmarks _ (by decide))
          have hcall := WrittenWith.append (hhead.append harguments) (hmarks ")" (by decide))
          exact (hcall.append hoptions).append (hmarks _ (by decide))
      | drop => exact .append (.append (hmarks _ (by decide)) h.name) (hmarks _ (by decide))

end

/-! ## Braces -/

def Braceless (s : String) : Prop := '\x7b' ∉ s.toList

instance (s : String) : Decidable (Braceless s) :=
  inferInstanceAs (Decidable (¬ _))

namespace Braceless

theorem of_forall {s : String} (h : ∀ c ∈ s.toList, c ≠ '\x7b') : Braceless s :=
  fun hm => h _ hm rfl

theorem ne_brace {s : String} (h : Braceless s) : ∀ c ∈ s.toList, c ≠ '\x7b' :=
  fun _ hc he => h (he ▸ hc)

theorem append {s t : String} (hs : Braceless s) (ht : Braceless t) : Braceless (s ++ t) :=
  of_forall (WrittenWith.append hs.ne_brace ht.ne_brace)

end Braceless

theorem hasWordCharacters_braceless : HasWordCharacters (· ≠ '\x7b') :=
  ⟨by decide, by decide, fun c hc he => absurd hc (by rw [he]; decide)⟩

namespace Schema

theorem writtenWith_statements {alphabet : Char → Prop}
    (hmarks : ∀ mark ∈ statementMarks, WrittenWith alphabet mark)
    (hseparator : WrittenWith alphabet statementSeparator) {columns : Schema}
    (h : ∀ c ∈ columns, c.WrittenIn alphabet) (d : Direction) :
    WrittenWith alphabet (columns.statements d) := by
  refine .intercalate hseparator fun s hs => ?_
  obtain ⟨c, hc, rfl⟩ := List.mem_map.mp hs
  exact writtenWith_statement hmarks (h c hc) d

theorem braceless_statements {columns : Schema} (h : ∀ c ∈ columns, c.WrittenIn (· ≠ '\x7b'))
    (d : Direction) : Braceless (columns.statements d) :=
  .of_forall (writtenWith_statements (by decide) (by decide) h d)

theorem braceless_ofShorthand {text : String} (h : Braceless text) :
    ∀ c ∈ Schema.ofShorthand text, c.WrittenIn (· ≠ '\x7b') :=
  writtenIn_ofShorthand hasWordCharacters_braceless (Braceless.ne_brace h)

/-- The columns that every new table gets bring in no brace. -/
theorem braceless_withImplicit {columns : Schema}
    (h : ∀ c ∈ columns, c.WrittenIn (· ≠ '\x7b')) :
    ∀ c ∈ columns.withImplicit, c.WrittenIn (· ≠ '\x7b') := by
  have hid : idColumn.WrittenIn (· ≠ '\x7b') :=
    ⟨Braceless.ne_brace (by decide), Braceless.ne_brace (by decide), (fun a ha => nomatch ha),
      fun e he => nomatch he⟩
  intro c hc
  unfold withImplicit at hc
  rcases List.mem_append.mp hc with hc | hc
  · rcases List.mem_append.mp hc with hc | hc
    · split at hc
      · cases hc
      · exact List.mem_singleton.mp hc ▸ hid
    · exact h c hc
  · split at hc
    · cases hc
    · exact List.mem_singleton.mp hc ▸ trivial

end Schema

end MigrationDraft
