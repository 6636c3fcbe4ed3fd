import MigrationDraft.Intent
import MigrationDraft.Proofs.Text.Splitting

set_option autoImplicit false

/-!
# A migration's name from left to right

A name is read from its end. The same words in the order in which they are written, without a
last word `table`, say more directly what the reading is: the first of them is the verb, and
the name of the table is made of words after it. A verb that is known cannot be the word
`table`, so it is the first word of the name itself.
-/

/-! ## Known verbs -/

namespace MigrationDraft.Action

/-- The verbs whose meaning is known. -/
def verbs : List String :=
  ["create", "make", "add", "append", "update", "insert", "remove", "delete", "destroy", "drop"]

theorem isOther_ofVerb_eq_false_iff {verb : String} :
    (ofVerb verb).isOther = false ↔ verb ∈ verbs := by
  simp only [ofVerb, verbs, List.mem_cons, List.not_mem_nil, or_false]
  grind [isOther]

/-- A verb that is not known is kept. -/
theorem ofVerb_of_not_mem {verb : String} (h : verb ∉ verbs) : ofVerb verb = .other verb := by
  simp only [verbs, List.mem_cons, List.not_mem_nil, or_false, not_or] at h
  simp [ofVerb, h]

end MigrationDraft.Action

namespace MigrationDraft.Intent

open Text

def wordsOf (name : String) : List (List Char) := name.toList.splitOn '_'

/-- The words of a name without a last word `table`. -/
def tellingWords (name : String) : List (List Char) :=
  if (wordsOf name).getLast? = some "table".toList then (wordsOf name).dropLast
  else wordsOf name

def firstWord (name : String) : String := String.ofList ((wordsOf name).headD [])

theorem dropTableWord_reverse (words : List (List Char)) :
    dropTableWord words.reverse
      = (if words.getLast? = some "table".toList then words.dropLast else words).reverse := by
  cases h : words.reverse with
  | nil => rw [List.reverse_eq_nil_iff.mp h]; rfl
  | cons w ws =>
      have hwords : words = ws.reverse ++ [w] := by
        rw [← List.reverse_reverse words, h, List.reverse_cons]
      rw [hwords, List.getLast?_concat, List.dropLast_concat, dropTableWord]
      by_cases hw : w = "table".toList
      · rw [if_pos hw, if_pos (by rw [hw]), List.reverse_reverse]
      · rw [if_neg hw, if_neg fun he => hw (Option.some.inj he)]
        simp

/-- The verb is the first of the telling words, and the table is made of the rest. -/
theorem ofName_eq (name : String) :
    ofName name
      = { action := Action.ofVerb (String.ofList ((tellingWords name).headD []))
          table := String.ofList (tableOf (tellingWords name).tail.reverse) } := by
  have hbackward : dropTableWord (name.toList.splitOn '_').reverse
      = (tellingWords name).reverse := dropTableWord_reverse (wordsOf name)
  rw [ofName, hbackward, List.getLast?_reverse, List.dropLast_reverse, List.headD_eq_head?_getD]

theorem mem_tableOf {backward : List (List Char)} {c : Char} (h : c ∈ tableOf backward) :
    c = '_' ∨ ∃ w ∈ backward, c ∈ w := by
  rcases mem_of_mem_intercalate h with hc | ⟨w, hw, hc⟩
  · exact Or.inl (List.mem_singleton.mp hc)
  · rw [List.mem_reverse] at hw
    exact Or.inr ⟨w, (List.takeWhile_sublist _).subset hw, hc⟩

theorem mem_of_mem_tellingWords {name : String} {w : List Char} (h : w ∈ tellingWords name) :
    w ∈ wordsOf name := by
  unfold tellingWords at h
  split at h
  · exact List.dropLast_subset _ h
  · exact h

/-- Everything in the name of the table is in the name of the migration. -/
theorem mem_of_mem_table {name : String} {c : Char} (h : c ∈ (ofName name).table.toList) :
    c = '_' ∨ c ∈ name.toList := by
  rw [ofName_eq, String.toList_ofList] at h
  rcases mem_tableOf h with hc | ⟨w, hw, hc⟩
  · exact Or.inl hc
  · have hword : w ∈ wordsOf name :=
      mem_of_mem_tellingWords (List.mem_of_mem_tail (List.mem_reverse.mp hw))
    exact Or.inr (mem_of_mem_splitOn hword hc)

/-! ## The verb -/

/-- The word that is read as the verb: the first one. A name that is the word `table` has none. -/
def verb (name : String) : String := if name = "table" then "" else firstWord name

/-- The action of a name is the one that its verb means. -/
theorem action_ofName_eq (name : String) : (ofName name).action = Action.ofVerb (verb name) := by
  have hhead : String.ofList ((tellingWords name).headD []) = verb name := by
    by_cases hname : name = "table"
    · rw [hname]
      decide +kernel
    · rw [verb, if_neg hname, firstWord]
      unfold tellingWords
      split
      · next htable =>
          match hwords : wordsOf name with
          | [] => rfl
          | [w] =>
              -- the only word is `table`, so the name is
              rw [hwords] at htable
              have hw : w = "table".toList := Option.some.inj htable
              have hjoin : ['_'].intercalate (wordsOf name) = name.toList :=
                List.intercalate_splitOn '_'
              rw [hwords, hw] at hjoin
              exact absurd (String.toList_inj.mp hjoin.symm) hname
          | w :: v :: ws => rfl
      · rfl
  rw [ofName_eq, hhead]

/-- A verb that is known is the first word of the name. -/
theorem action_ofName {name : String} (h : (Action.ofVerb (firstWord name)).isOther = false) :
    (ofName name).action = Action.ofVerb (firstWord name) := by
  have hname : name ≠ "table" := by
    rintro rfl
    exact absurd h (by decide +kernel)
  rw [action_ofName_eq, verb, if_neg hname]

end MigrationDraft.Intent
