import MigrationDraft.Fragments
import MigrationDraft.Proofs.Intent.Reading
import MigrationDraft.Proofs.Shorthand.Commas

set_option autoImplicit false

/-!
# Implicit columns and the same columns written out

A new table gets a key column in front and the marker for the time columns at the end unless it
has its own. Completing a schema twice is completing it once (`withImplicit_withImplicit`), so the
bodies of a new table are those of its completed schema. A shorthand text that writes both columns
around another text describes the other text's schema between them, and where that schema has
neither of its own, this is its completion. The user may therefore leave the two columns out or
write them down (`Fragments.generate_written_out`).
-/

namespace MigrationDraft

open Shorthand

namespace Schema

/-! ## What a new table needs -/

@[simp] theorem hasColumn_append (a b : Schema) (name : String) :
    hasColumn (a ++ b) name = (hasColumn a name || hasColumn b name) :=
  List.any_append

@[simp] theorem hasTimestamps_append (a b : Schema) :
    hasTimestamps (a ++ b) = (hasTimestamps a || hasTimestamps b) := by
  rw [Bool.eq_iff_iff]
  simp only [hasTimestamps, hasColumn_append, Bool.or_eq_true, decide_eq_true_eq, List.mem_append]
  grind

/-- A column has the name of the key. -/
def HasKey (columns : Schema) : Prop := ∃ f, Column.field f ∈ columns ∧ f.name = "id"

/-- The marker is there, or a column with the name of one of its two columns. -/
def RecordsTimes (columns : Schema) : Prop :=
  Column.timestamps ∈ columns
    ∨ ∃ f, Column.field f ∈ columns ∧ (f.name = "created_at" ∨ f.name = "updated_at")

theorem hasColumn_iff {columns : Schema} {name : String} :
    hasColumn columns name = true ↔ ∃ f, Column.field f ∈ columns ∧ f.name = name := by
  rw [hasColumn, List.any_eq_true]
  constructor
  · rintro ⟨c, hc, hnamed⟩
    have hname : c.name? = some name := beq_iff_eq.mp hnamed
    cases c with
    | field f => exact ⟨f, hc, Option.some.inj hname⟩
    | timestamps => cases hname
  · rintro ⟨f, hf, rfl⟩
    exact ⟨_, hf, beq_iff_eq.mpr rfl⟩

theorem hasKey_iff {columns : Schema} : hasColumn columns "id" = true ↔ HasKey columns :=
  hasColumn_iff

theorem recordsTimes_iff {columns : Schema} :
    hasTimestamps columns = true ↔ RecordsTimes columns := by
  rw [hasTimestamps, Bool.or_eq_true, Bool.or_eq_true, hasColumn_iff, hasColumn_iff,
    decide_eq_true_eq, or_assoc, ← exists_or]
  simp only [RecordsTimes, ← and_or_left]

instance (columns : Schema) : Decidable (HasKey columns) := decidable_of_iff _ hasKey_iff

instance (columns : Schema) : Decidable (RecordsTimes columns) :=
  decidable_of_iff _ recordsTimes_iff

/-- No column of the schema stands for one that a new table gets by itself. -/
def LacksImplicit (columns : Schema) : Prop :=
  ∀ c ∈ columns, c ≠ .timestamps ∧ c.name? ∉ [some "id", some "created_at", some "updated_at"]

instance (columns : Schema) : Decidable (LacksImplicit columns) :=
  inferInstanceAs (Decidable (∀ c ∈ columns, c ≠ .timestamps
    ∧ c.name? ∉ [some "id", some "created_at", some "updated_at"]))

theorem lacksImplicit_iff {columns : Schema} :
    LacksImplicit columns ↔ ¬ HasKey columns ∧ ¬ RecordsTimes columns := by
  have hmem : ∀ f : Field, some f.name ∈ [some "id", some "created_at", some "updated_at"]
      ↔ f.name = "id" ∨ f.name = "created_at" ∨ f.name = "updated_at" := by simp
  constructor
  · refine fun h => ⟨fun ⟨f, hf, hname⟩ => (h _ hf).2 ((hmem f).mpr (Or.inl hname)), ?_⟩
    rintro (hmarker | ⟨f, hf, hname⟩)
    · exact (h _ hmarker).1 rfl
    · exact (h _ hf).2 ((hmem f).mpr (Or.inr hname))
  · rintro ⟨hkey, htimes⟩ c hc
    cases c with
    | timestamps => exact absurd (Or.inl hc) htimes
    | field f =>
        refine ⟨Column.noConfusion, fun hname => ?_⟩
        rcases (hmem f).mp hname with hid | hname
        · exact hkey ⟨f, hc, hid⟩
        · exact htimes (Or.inr ⟨f, hc, hname⟩)

/-! ## Completing a schema -/

/-- A schema that has both columns is complete. -/
theorem withImplicit_eq_self {columns : Schema} (hid : hasColumn columns "id" = true)
    (htimes : hasTimestamps columns = true) : withImplicit columns = columns := by
  simp [withImplicit, hid, htimes]

theorem hasColumn_withImplicit (columns : Schema) :
    hasColumn (withImplicit columns) "id" = true := by
  rw [withImplicit, hasColumn_append, hasColumn_append]
  by_cases h : hasColumn columns "id" = true
  · rw [h, Bool.or_true, Bool.true_or]
  · have hkey : hasColumn [idColumn] "id" = true := by decide
    rw [if_neg h, hkey, Bool.true_or, Bool.true_or]

theorem hasTimestamps_withImplicit (columns : Schema) :
    hasTimestamps (withImplicit columns) = true := by
  rw [withImplicit, hasTimestamps_append, hasTimestamps_append]
  by_cases h : hasTimestamps columns = true
  · rw [h, Bool.or_true, Bool.true_or]
  · have hmarker : hasTimestamps [.timestamps] = true := by decide
    rw [if_neg h, hmarker, Bool.or_true]

/-- Completing a schema once more changes nothing. -/
@[simp] theorem withImplicit_withImplicit (columns : Schema) :
    withImplicit (withImplicit columns) = withImplicit columns :=
  withImplicit_eq_self (hasColumn_withImplicit columns) (hasTimestamps_withImplicit columns)

/-- Such a schema is completed at both ends. -/
theorem LacksImplicit.withImplicit_eq {columns : Schema} (h : LacksImplicit columns) :
    withImplicit columns = idColumn :: columns ++ [.timestamps] := by
  obtain ⟨hkey, htimes⟩ := lacksImplicit_iff.mp h
  rw [← hasKey_iff] at hkey
  rw [← recordsTimes_iff] at htimes
  rw [withImplicit, if_neg hkey, if_neg htimes]
  rfl

end Schema

/-- A new table gets the bodies of its completed schema. -/
theorem Fragments.build_withImplicit (stubs : Stubs) (columns : Schema) (table : String) :
    build stubs columns.withImplicit ⟨.create, table⟩ = build stubs columns ⟨.create, table⟩ := by
  rw [build, build, Schema.withImplicit_withImplicit]

/-! ## Writing both columns -/

/-- Both columns written around a text. The seams are outer commas, so what the text describes is
between them as it is. -/
theorem Schema.ofShorthand_written_out {shorthand : String}
    (h : depthAfter 0 shorthand.toList = 0) :
    ofShorthand ("id:increments," ++ shorthand ++ ",:timestamps")
      = idColumn :: ofShorthand shorthand ++ [.timestamps] := by
  have hkey : pieces "id:increments".toList = ["id:increments".toList] := by decide +kernel
  have hmarker : pieces ":timestamps".toList = [":timestamps".toList] := by decide +kernel
  have htext : ("id:increments," ++ shorthand ++ ",:timestamps").toList
      = "id:increments".toList ++ ',' :: (shorthand.toList ++ ',' :: ":timestamps".toList) := by
    simp
  have hpieces : pieces ("id:increments," ++ shorthand ++ ",:timestamps").toList
      = "id:increments".toList :: (pieces shorthand.toList ++ [":timestamps".toList]) := by
    rw [htext, pieces_append_comma (by decide +kernel), pieces_append_comma h, hkey, hmarker,
      List.singleton_append]
  have hfirst : columnsOfPiece "id:increments".toList = [idColumn] := by decide +kernel
  have hlast : columnsOfPiece ":timestamps".toList = [.timestamps] := by decide +kernel
  rw [ofShorthand, hpieces, List.flatMap_cons, List.flatMap_append, hfirst, List.flatMap_singleton,
    hlast]
  rfl

/-- **The two columns of a new table may be left out or written down.** For every name whose verb
means that a table is made, and every shorthand text without an open parenthesis at its end whose
columns stand for none of the two: the text has the same reading and the same bodies as the text
with both columns written around it. -/
theorem Fragments.generate_written_out (name shorthand : String)
    (hverb : Action.ofVerb (Intent.firstWord name) = .create)
    (hdepth : depthAfter 0 shorthand.toList = 0)
    (hlacks : Schema.LacksImplicit (Schema.ofShorthand shorthand)) :
    ∃ fragments, generate name shorthand = .ok (Intent.ofName name, fragments)
      ∧ generate name ("id:increments," ++ shorthand ++ ",:timestamps")
        = .ok (Intent.ofName name, fragments) := by
  have haction : (Intent.ofName name).action = .create := by
    rw [← hverb]
    exact Intent.action_ofName (by rw [hverb]; rfl)
  have hintent : Intent.ofName name = ⟨.create, (Intent.ofName name).table⟩ := by
    rw [← haction]
  have hschema : Schema.ofShorthand ("id:increments," ++ shorthand ++ ",:timestamps")
      = (Schema.ofShorthand shorthand).withImplicit := by
    rw [Schema.ofShorthand_written_out hdepth, hlacks.withImplicit_eq]
  have hbuild := build_withImplicit Stubs.builtin (Schema.ofShorthand shorthand)
    (Intent.ofName name).table
  rw [← hintent] at hbuild
  have hsame : generate name ("id:increments," ++ shorthand ++ ",:timestamps")
      = generate name shorthand := by
    rw [generate, generate, hschema, hbuild]
  obtain ⟨fragments, hfragments⟩ :
      ∃ fragments, generate name shorthand = .ok (Intent.ofName name, fragments) := by
    rw [generate, hintent]
    exact ⟨_, rfl⟩
  exact ⟨fragments, hfragments, hsame.trans hfragments⟩

/-- A text with stray and nested parentheses, a foreign key, and a blank field at its end. -/
theorem Fragments.generate_written_out_posts :
    let name := "make_posts_table"
    let shorthand := "x)),p:enum((a,b),c):foreign, user_id:integer:foreign, "
    Action.ofVerb (Intent.firstWord name) = .create ∧ depthAfter 0 shorthand.toList = 0
      ∧ Schema.LacksImplicit (Schema.ofShorthand shorthand)
      ∧ ∃ fragments, generate name shorthand = .ok (Intent.ofName name, fragments)
        ∧ generate name ("id:increments," ++ shorthand ++ ",:timestamps")
          = .ok (Intent.ofName name, fragments) := by
  intro name shorthand
  have hverb : Action.ofVerb (Intent.firstWord name) = .create := by decide +kernel
  have hdepth : depthAfter 0 shorthand.toList = 0 := by decide +kernel
  have hlacks : Schema.LacksImplicit (Schema.ofShorthand shorthand) := by decide +kernel
  exact ⟨hverb, hdepth, hlacks, Fragments.generate_written_out name shorthand hverb hdepth hlacks⟩

end MigrationDraft
