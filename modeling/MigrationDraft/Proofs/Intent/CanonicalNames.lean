import MigrationDraft.Proofs.Intent.Forward

set_option autoImplicit false

/-!
# The canonical name of an intent

An intent can be written as a name again: the word of its action, its table and the word `table`
(`canonicalName`). Two names may have the same intent, and an intent that is put together at will
need not have any name. Those that have one are the ones whose action is what its own word means, a
single word, and whose table has no connecting word in it (`nameable_iff`). Each of them is the
reading of its canonical name.
-/

/-! ## The word of an action -/

namespace MigrationDraft.Action

theorem eq_of_ofVerb_eq_other {verb v : String} (h : ofVerb verb = .other v) : verb = v := by
  have hverb : verb ∉ verbs := by
    intro hmem
    have hknown := isOther_ofVerb_eq_false_iff.mpr hmem
    rw [h] at hknown
    cases hknown
  rw [ofVerb_of_not_mem hverb] at h
  exact Action.other.inj h

/-- The word of an action that a verb means, means it too. -/
theorem ofVerb_text_ofVerb (verb : String) : ofVerb (ofVerb verb).text = ofVerb verb := by
  cases h : ofVerb verb with
  | create => rfl
  | add => rfl
  | remove => rfl
  | other v => rw [text, ← eq_of_ofVerb_eq_other h, h, eq_of_ofVerb_eq_other h]

/-- The word of an action has no underscore if the verb has none. -/
theorem not_mem_text_ofVerb {verb : String} (hverb : '_' ∉ verb.toList) :
    '_' ∉ (ofVerb verb).text.toList := by
  cases h : ofVerb verb with
  | create => decide
  | add => decide
  | remove => decide
  | other v => rwa [text, ← eq_of_ofVerb_eq_other h]

end MigrationDraft.Action

namespace MigrationDraft.Intent

/-! ## Intents that have a name -/

/-- The name that is made of an intent. -/
def canonicalName (i : Intent) : String := i.action.text ++ "_" ++ i.table ++ "_table"

/-- What an intent needs so that it is the reading of a name. -/
structure Nameable (i : Intent) : Prop where
  /-- The action is written as a single word. -/
  oneWord : '_' ∉ i.action.text.toList
  /-- The word means the action. -/
  means : Action.ofVerb i.action.text = i.action
  /-- The reading of the table does not stop inside of it. -/
  unconnected : Unconnected (wordsOf i.table)

/-- Words without an underscore come back when they are joined and split again. Of no words the
empty word comes back. -/
theorem wordsOf_intercalate {words : List (List Char)} (h : ∀ w ∈ words, '_' ∉ w) :
    wordsOf (String.ofList (['_'].intercalate words)) = words
      ∨ words = [] ∧ wordsOf (String.ofList (['_'].intercalate words)) = [[]] := by
  rw [wordsOf, String.toList_ofList]
  cases words with
  | nil => exact Or.inr ⟨rfl, List.splitOn_nil '_'⟩
  | cons w words => exact Or.inl (List.splitOn_intercalate '_' h (List.cons_ne_nil w words))

theorem SaysForward.nameable {words : List (List Char)} {i : Intent} (h : SaysForward words i)
    (hwords : ∀ w ∈ words, '_' ∉ w) : Nameable i := by
  cases h with
  | nothing => exact ⟨by decide, by decide, by decide +kernel⟩
  | @verb first others tail htail =>
      have hfirst : '_' ∉ (String.ofList first).toList := by
        rw [String.toList_ofList]
        exact hwords first List.mem_cons_self
      have hwordsTail : ∀ w ∈ tail, '_' ∉ w := fun w hw =>
        hwords w (List.mem_cons_of_mem first (htail.isSuffix.subset hw))
      refine ⟨Action.not_mem_text_ofVerb hfirst, Action.ofVerb_text_ofVerb _, ?_⟩
      rcases wordsOf_intercalate hwordsTail with heq | ⟨_, heq⟩
      · rw [heq]
        exact htail.unconnected
      · -- an empty table is written as one empty word
        rw [heq]
        decide +kernel

/-- What is read off a name can be written as one. -/
theorem nameable_ofName (name : String) : Nameable (ofName name) :=
  (saysForward_ofName name).nameable fun _ hw =>
    Text.not_mem_of_mem_splitOn (mem_of_mem_tellingWords hw)

/-- The canonical name says the verb and the words of the table. -/
theorem Nameable.tellingWords_canonicalName {i : Intent} (h : Nameable i) :
    tellingWords i.canonicalName = i.action.text.toList :: wordsOf i.table := by
  have hverb : wordsOf i.action.text = [i.action.text.toList] :=
    List.splitOn_eq_singleton h.oneWord
  rw [canonicalName, tellingWords_append_table, wordsOf_append_underscore, hverb,
    List.singleton_append]

theorem Nameable.ofName_canonicalName {i : Intent} (h : Nameable i) :
    ofName i.canonicalName = i := by
  have htable : ['_'].intercalate (wordsOf i.table) = i.table.toList :=
    List.intercalate_splitOn '_'
  have hsays : SaysForward (tellingWords i.canonicalName) i := by
    have hverb := @SaysForward.verb i.action.text.toList _ _ h.unconnected.tableEnd
    rw [htable, String.ofList_toList, String.ofList_toList, h.means] at hverb
    rw [h.tellingWords_canonicalName]
    exact hverb
  exact (saysForward_ofName i.canonicalName).unique hsays

/-- The intents of the names are the nameable ones. -/
theorem nameable_iff (i : Intent) : Nameable i ↔ ∃ name, ofName name = i := by
  constructor
  · intro h
    exact ⟨i.canonicalName, h.ofName_canonicalName⟩
  · rintro ⟨name, rfl⟩
    exact nameable_ofName name

/-- **The canonical name says the same.** What is read off any name is read off the canonical name
of its intent too: the verb may be known or not or be missing, and the table may be empty and may
hold or end in the word `table`. -/
theorem ofName_canonicalName_ofName (name : String) :
    ofName (ofName name).canonicalName = ofName name :=
  (nameable_ofName name).ofName_canonicalName

example : (ofName "drop_votes_from_table_table").canonicalName = "remove_table_table" := by
  decide +kernel

end MigrationDraft.Intent
