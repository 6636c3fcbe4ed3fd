import Mathlib.Data.List.DropRight
import MigrationDraft.Proofs.Intent.Reading

set_option autoImplicit false

/-!
# The left-to-right reading of a name

A name is read from its end, but what it says can be told in the order in which it is written
(`SaysForward`). Once a last word `table` is off, the first word is the verb, and the table is the
longest end of the other words in which no word is a connecting one (`TableEnd`). There is one such
end, so the words say one thing, and it is what the reading from the end finds
(`ofName_eq_iff_saysForward`).
-/

namespace MigrationDraft.Intent

open Text

/-! ## Connecting words -/

theorem isConnecting_iff {w : List Char} :
    isConnecting w = true ↔ String.ofList w ∈ connectingWords := by
  rw [isConnecting, List.any_eq_true]
  constructor
  · rintro ⟨v, hv, hvw⟩
    rwa [← beq_iff_eq.mp hvw, String.ofList_toList]
  · intro h
    exact ⟨_, h, beq_iff_eq.mpr String.toList_ofList⟩

/-- None of the words is a connecting word. -/
def Unconnected (words : List (List Char)) : Prop :=
  ∀ w ∈ words, String.ofList w ∉ connectingWords

instance (words : List (List Char)) : Decidable (Unconnected words) :=
  inferInstanceAs (Decidable (∀ w ∈ words, String.ofList w ∉ connectingWords))

theorem unconnected_iff {words : List (List Char)} :
    Unconnected words ↔ ∀ w ∈ words, (!isConnecting w) = true := by
  simp [Unconnected, ← isConnecting_iff]

/-! ## The end that names the table -/

/-- `tail` is the longest end of `words` in which no word is a connecting one. -/
structure TableEnd (words tail : List (List Char)) : Prop where
  isSuffix : tail <:+ words
  unconnected : Unconnected tail
  longest : ∀ other, other <:+ words → Unconnected other → other.length ≤ tail.length

theorem TableEnd.unique {words a b : List (List Char)} (ha : TableEnd words a)
    (hb : TableEnd words b) : a = b := by
  have hlength : a.length = b.length :=
    Nat.le_antisymm (hb.longest a ha.isSuffix ha.unconnected)
      (ha.longest b hb.isSuffix hb.unconnected)
  have hsuffix : a <:+ b :=
    List.suffix_of_suffix_length_le ha.isSuffix hb.isSuffix (Nat.le_of_eq hlength)
  exact hsuffix.eq_of_length hlength

/-- A list without a connecting word is its own end. -/
theorem Unconnected.tableEnd {words : List (List Char)} (h : Unconnected words) :
    TableEnd words words :=
  ⟨List.suffix_rfl, h, fun _ hother _ => hother.length_le⟩

/-- Walking back to the first connecting word gives the longest end. -/
theorem tableEnd_rtakeWhile (words : List (List Char)) :
    TableEnd words (words.rtakeWhile fun w => !isConnecting w) where
  isSuffix := List.rtakeWhile_suffix _ _
  unconnected := by
    rw [unconnected_iff]
    intro w hw
    have hpassed := List.mem_rtakeWhile_imp hw
    exact hpassed
  longest := by
    rintro other ⟨front, rfl⟩ hother
    -- the walk goes over the whole of `other` before it can stop
    have hwalk : ∀ w ∈ other.reverse, (!isConnecting w) = true := fun w hw =>
      unconnected_iff.mp hother w (List.mem_reverse.mp hw)
    rw [List.rtakeWhile, List.reverse_append, List.takeWhile_append_of_pos hwalk,
      List.length_reverse, List.length_append, List.length_reverse]
    exact Nat.le_add_right _ _

/-- The table is made of the longest end. -/
theorem TableEnd.tableOf_reverse {words tail : List (List Char)} (h : TableEnd words tail) :
    tableOf words.reverse = ['_'].intercalate tail := by
  have htail : words.rtakeWhile (fun w => !isConnecting w) = tail :=
    (tableEnd_rtakeWhile words).unique h
  rw [← htail]
  rfl

/-! ## What the words of a name say -/

/-- What the words of a name say from left to right, when a last word `table` is off. -/
inductive SaysForward : List (List Char) → Intent → Prop where
  /-- Without a word there is neither a verb nor a table. -/
  | nothing : SaysForward [] ⟨.other "", ""⟩
  /-- The first word is the verb, and the longest end of the others names the table. -/
  | verb {first : List Char} {others tail : List (List Char)} (h : TableEnd others tail) :
      SaysForward (first :: others)
        ⟨Action.ofVerb (String.ofList first), String.ofList (['_'].intercalate tail)⟩

theorem SaysForward.unique {words : List (List Char)} {i j : Intent} (hi : SaysForward words i)
    (hj : SaysForward words j) : i = j := by
  cases hi with
  | nothing =>
      cases hj with
      | nothing => rfl
  | verb hi =>
      cases hj with
      | verb hj => rw [hi.unique hj]

/-- The intent that is found from the end of some words is what they say from left to right. -/
theorem saysForward_backward (words : List (List Char)) :
    SaysForward words
      { action := Action.ofVerb (String.ofList (words.headD []))
        table := String.ofList (tableOf words.tail.reverse) } := by
  cases words with
  | nil => exact .nothing
  | cons first others =>
      have h : TableEnd others (others.rtakeWhile fun w => !isConnecting w) :=
        tableEnd_rtakeWhile others
      rw [List.tail_cons, h.tableOf_reverse]
      exact .verb h

theorem saysForward_ofName (name : String) : SaysForward (tellingWords name) (ofName name) := by
  rw [ofName_eq]
  exact saysForward_backward (tellingWords name)

/-! ## A word `table` at the end -/

theorem wordsOf_append_underscore (s t : String) :
    wordsOf (s ++ "_" ++ t) = wordsOf s ++ wordsOf t := by
  have htext : (s ++ "_" ++ t).toList = s.toList ++ '_' :: t.toList := by simp
  rw [wordsOf, htext, List.splitOn_append_cons_self]
  rfl

/-- Of a name with one more word `table` all words of the name are telling. -/
theorem tellingWords_append_table (name : String) :
    tellingWords (name ++ "_table") = wordsOf name := by
  have hname : name ++ "_table" = name ++ "_" ++ "table" := by
    rw [String.append_assoc]
    rfl
  have htable : wordsOf "table" = ["table".toList] := by decide +kernel
  rw [tellingWords, hname, wordsOf_append_underscore, htable, List.getLast?_concat, if_pos rfl,
    List.dropLast_concat]

/-! ## The two readings -/

/-- **A name says the same from either end.** An intent is the one of a name exactly when the words
of the name, without a last word `table`, say it from left to right. One such word goes, not two:
the words of a name to which `table` is added all count, also a `table` among them. And where no
word after the verb is a connecting one, whatever the verb is, all of them name the table, the empty
ones included. -/
theorem ofName_eq_iff_saysForward (name : String) :
    (∀ intent, ofName name = intent ↔ SaysForward (tellingWords name) intent)
      ∧ (∀ intent, ofName (name ++ "_table") = intent ↔ SaysForward (wordsOf name) intent)
      ∧ ∀ first others, tellingWords name = first :: others → Unconnected others →
          ofName name = ⟨Action.ofVerb (String.ofList first),
            String.ofList (['_'].intercalate others)⟩ := by
  have hiff : ∀ (s : String) (intent : Intent),
      ofName s = intent ↔ SaysForward (tellingWords s) intent := by
    intro s intent
    constructor
    · rintro rfl
      exact saysForward_ofName s
    · exact (saysForward_ofName s).unique
  refine ⟨hiff name, fun intent => ?_, fun first others hwords hothers => ?_⟩
  · rw [hiff, tellingWords_append_table]
  · rw [hiff, hwords]
    exact .verb hothers.tableEnd

/-- A connecting word for a verb, an empty word, and one word `table` that stays. -/
theorem ofName_eq_iff_saysForward_to :
    tellingWords "to__posts_table_table" = ["to".toList, [], "posts".toList, "table".toList]
      ∧ Unconnected [[], "posts".toList, "table".toList]
      ∧ ofName "to__posts_table_table" = ⟨.other "to", "_posts_table"⟩ := by
  have hwords : tellingWords "to__posts_table_table"
      = ["to".toList, [], "posts".toList, "table".toList] := by decide +kernel
  have hothers : Unconnected [[], "posts".toList, "table".toList] := by decide +kernel
  refine ⟨hwords, hothers, ?_⟩
  rw [(ofName_eq_iff_saysForward "to__posts_table_table").2.2 _ _ hwords hothers]
  decide +kernel

end MigrationDraft.Intent
