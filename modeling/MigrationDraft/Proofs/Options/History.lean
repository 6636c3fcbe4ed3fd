import MigrationDraft.Column
import MigrationDraft.Intent
import MigrationDraft.Proofs.Options.Entries
import MigrationDraft.Proofs.Text.Splitting
import Mathlib.Logic.ExistsUnique

set_option autoImplicit false

/-!
# The history of a map

What a map of modifiers answers is decided by the operations that came before, its *history*.
A key holds the value of its last insertion unless it was removed after that (`Holds`). A key
that is present was *born* by the one insertion that found it absent and after which it was
never removed (`Born`). Births give the keys their order, so that a value that is overwritten
stays in its place, and a key that is removed and inserted again goes to the end.

One operation keeps the agreement between a map and its history (`Recounts.perform`) and its
answer fits the history (`Recounts.fits`). By induction the same holds of every sequence of
operations, whatever list the map was collected from (`performAll_recounts_history`).
-/

namespace MigrationDraft.Options

/-! ## Operations and answers -/

/-- What can be asked of a map. -/
inductive Operation where
  | insert (key : String) (value : OptionValue)
  | remove (key : String)
  | get (key : String)
  | contains (key : String)
  | size
  | isEmpty
  deriving DecidableEq

/-- What a map answers. -/
inductive Answer where
  /-- Nothing but that it is done. -/
  | done
  /-- The value at a key, if there is one. -/
  | found (value : Option OptionValue)
  /-- Yes or no. -/
  | decided (yes : Bool)
  /-- A number of entries. -/
  | counted (n : Nat)
  deriving DecidableEq

/-- The answer of a map to an operation, and the map after it. -/
def perform (o : Options) : Operation → Answer × Options
  | .insert key value => (.done, o.insert key value)
  | .remove key => (.found (o.remove key).1, (o.remove key).2)
  | .get key => (.found (o.get? key), o)
  | .contains key => (.decided (o.contains key), o)
  | .size => (.counted o.size, o)
  | .isEmpty => (.decided o.isEmpty, o)

def performAll (o : Options) : List Operation → List Answer × Options
  | [] => ([], o)
  | op :: ops =>
      ((o.perform op).1 :: ((o.perform op).2.performAll ops).1,
        ((o.perform op).2.performAll ops).2)

/-- Collecting a list inserts its entries from the left. -/
def insertions (es : List (String × OptionValue)) : List Operation :=
  es.map fun e => .insert e.1 e.2

/-! ## Histories -/

/-- The last insertion of the key has the value, and the key was not removed after it. -/
def Holds (history : List Operation) (key : String) (value : OptionValue) : Prop :=
  ∃ before after, history = before ++ .insert key value :: after
    ∧ (∀ v, .insert key v ∉ after) ∧ .remove key ∉ after

def Present (history : List Operation) (key : String) : Prop := ∃ value, Holds history key value

/-- The operation number `n` inserted the key where it was absent, and the key was not removed
after it. -/
def Born (history : List Operation) (key : String) (n : Nat) : Prop :=
  ∃ before value after, history = before ++ .insert key value :: after
    ∧ before.length = n ∧ ¬Present before key ∧ .remove key ∉ after

/-- The one key was born before the other. -/
def BornBefore (history : List Operation) (key other : String) : Prop :=
  ∃ n m, Born history key n ∧ Born history other m ∧ n < m

/-- The answer that a history asks for. -/
inductive Fits (history : List Operation) : Operation → Answer → Prop
  | insert (key : String) (value : OptionValue) : Fits history (.insert key value) .done
  | remove {key : String} {found : Option OptionValue}
      (h : ∀ value, found = some value ↔ Holds history key value) :
      Fits history (.remove key) (.found found)
  | get {key : String} {found : Option OptionValue}
      (h : ∀ value, found = some value ↔ Holds history key value) :
      Fits history (.get key) (.found found)
  | contains {key : String} {yes : Bool} (h : yes = true ↔ Present history key) :
      Fits history (.contains key) (.decided yes)
  | size {keys : List String} (hnodup : keys.Nodup) (h : ∀ key, key ∈ keys ↔ Present history key) :
      Fits history .size (.counted keys.length)
  | isEmpty {yes : Bool} (h : yes = true ↔ ∀ key, ¬Present history key) :
      Fits history .isEmpty (.decided yes)

/-- Each answer fits the history up to its operation. -/
inductive AllFit : List Operation → List Operation → List Answer → Prop
  | nil {history : List Operation} : AllFit history [] []
  | cons {history ops : List Operation} {op : Operation} {answer : Answer}
      {answers : List Answer} (h : Fits history op answer)
      (hs : AllFit (history ++ [op]) ops answers) :
      AllFit history (op :: ops) (answer :: answers)

/-- The entries are those of the present keys, each once and with what it holds, in the order of
the births. -/
structure Lists (history : List Operation) (entries : List (String × OptionValue)) : Prop where
  nodup : (entries.map Prod.fst).Nodup
  mem_iff : ∀ key value, (key, value) ∈ entries ↔ Holds history key value
  order : (entries.map Prod.fst).Pairwise (BornBefore history)

/-- The map holds what its history says, in the order of the births. -/
structure Recounts (history : List Operation) (o : Options) : Prop where
  get? : ∀ key value, o.get? key = some value ↔ Holds history key value
  order : o.keys.Pairwise (BornBefore history)

/-! ## One more operation -/

section

variable {history : List Operation} {op : Operation} {key : String}

theorem holds_concat_iff {value : OptionValue} :
    Holds (history ++ [op]) key value
      ↔ op = .insert key value
        ∨ (Holds history key value ∧ (∀ v, op ≠ .insert key v) ∧ op ≠ .remove key) := by
  constructor
  · rintro ⟨before, after, h, hinsert, hremove⟩
    rcases Text.append_singleton_eq_append_cons_iff.mp h with ⟨_, hop, _⟩ | ⟨rest, hrest, rfl⟩
    · exact Or.inl hop
    · simp only [List.mem_append, List.mem_singleton, not_or] at hinsert hremove
      exact Or.inr ⟨⟨before, rest, hrest, fun v => (hinsert v).1, hremove.1⟩,
        fun v => Ne.symm (hinsert v).2, Ne.symm hremove.2⟩
  · rintro (rfl | ⟨⟨before, after, rfl, hinsert, hremove⟩, hop, hop'⟩)
    · exact ⟨history, [], rfl, by simp, by simp⟩
    · refine ⟨before, after ++ [op], by simp, fun v => ?_, ?_⟩
      · simp [hinsert v, Ne.symm (hop v)]
      · simp [hremove, Ne.symm hop']

theorem born_concat_iff {n : Nat} :
    Born (history ++ [op]) key n
      ↔ (n = history.length ∧ (∃ v, op = .insert key v) ∧ ¬Present history key)
        ∨ (Born history key n ∧ op ≠ .remove key) := by
  constructor
  · rintro ⟨before, value, after, h, rfl, habsent, hremove⟩
    rcases Text.append_singleton_eq_append_cons_iff.mp h with ⟨rfl, hop, _⟩ | ⟨rest, hrest, rfl⟩
    · exact Or.inl ⟨rfl, ⟨value, hop⟩, habsent⟩
    · rw [List.mem_append, List.mem_singleton, not_or] at hremove
      exact Or.inr ⟨⟨before, value, rest, hrest, rfl, habsent, hremove.1⟩, Ne.symm hremove.2⟩
  · rintro (⟨rfl, ⟨v, rfl⟩, habsent⟩ | ⟨⟨before, value, after, rfl, rfl, habsent, hremove⟩, hop⟩)
    · exact ⟨history, v, [], rfl, rfl, habsent, by simp⟩
    · refine ⟨before, value, after ++ [op], by simp, rfl, habsent, ?_⟩
      simp [hremove, Ne.symm hop]

theorem not_present_nil : ¬Present [] key := by
  rintro ⟨value, before, after, h, _⟩
  simp at h

theorem Born.lt_length {n : Nat} (h : Born history key n) : n < history.length := by
  obtain ⟨before, value, after, rfl, rfl, _⟩ := h
  simp

/-- A key that is not removed stays present. -/
theorem Present.concat (h : Present history key) (hop : op ≠ .remove key) :
    Present (history ++ [op]) key := by
  obtain ⟨value, h⟩ := h
  by_cases hinsert : ∃ v, op = .insert key v
  · obtain ⟨v, hv⟩ := hinsert
    exact ⟨v, holds_concat_iff.mpr (Or.inl hv)⟩
  · exact ⟨value, holds_concat_iff.mpr (Or.inr ⟨h, fun v hv => hinsert ⟨v, hv⟩, hop⟩)⟩

theorem Born.present {n : Nat} (h : Born history key n) : Present history key := by
  induction history using List.reverseRecOn with
  | nil => exact absurd h.lt_length (by simp)
  | append_singleton history op ih =>
      rcases born_concat_iff.mp h with ⟨_, ⟨v, hv⟩, _⟩ | ⟨h, hop⟩
      · exact ⟨v, holds_concat_iff.mpr (Or.inl hv)⟩
      · exact (ih h).concat hop

theorem Present.exists_born (h : Present history key) : ∃ n, Born history key n := by
  induction history using List.reverseRecOn with
  | nil => exact absurd h not_present_nil
  | append_singleton history op ih =>
      by_cases hpresent : Present history key
      · -- the key was born earlier, and it was not removed by the last operation
        obtain ⟨n, hn⟩ := ih hpresent
        obtain ⟨value, h⟩ := h
        have hop : op ≠ .remove key := by
          rintro rfl
          simpa using holds_concat_iff.mp h
        exact ⟨n, born_concat_iff.mpr (Or.inr ⟨hn, hop⟩)⟩
      · obtain ⟨value, h⟩ := h
        rcases holds_concat_iff.mp h with hop | ⟨h, _⟩
        · exact ⟨_, born_concat_iff.mpr (Or.inl ⟨rfl, ⟨value, hop⟩, hpresent⟩)⟩
        · exact absurd ⟨value, h⟩ hpresent

theorem Born.unique {n m : Nat} (hn : Born history key n) (hm : Born history key m) : n = m := by
  induction history using List.reverseRecOn with
  | nil => exact absurd hn.lt_length (by simp)
  | append_singleton history op ih =>
      rcases born_concat_iff.mp hn with ⟨hn, _, habsent⟩ | ⟨hn, _⟩
      · rcases born_concat_iff.mp hm with ⟨hm, _, _⟩ | ⟨hm, _⟩
        · exact hn.trans hm.symm
        · exact absurd hm.present habsent
      · rcases born_concat_iff.mp hm with ⟨_, _, habsent⟩ | ⟨hm, _⟩
        · exact absurd hn.present habsent
        · exact ih hn hm

/-- A key is present if it was born, and then it was born once. -/
theorem present_iff_existsUnique_born : Present history key ↔ ∃! n, Born history key n := by
  constructor
  · intro h
    obtain ⟨n, hn⟩ := h.exists_born
    exact ⟨n, hn, fun m hm => hm.unique hn⟩
  · rintro ⟨n, hn, _⟩
    exact hn.present

/-- The order of two keys stays as it is as long as neither is removed. -/
theorem BornBefore.concat {other : String} (h : BornBefore history key other)
    (hkey : op ≠ .remove key) (hother : op ≠ .remove other) :
    BornBefore (history ++ [op]) key other := by
  obtain ⟨n, m, hn, hm, hlt⟩ := h
  exact ⟨n, m, born_concat_iff.mpr (Or.inr ⟨hn, hkey⟩),
    born_concat_iff.mpr (Or.inr ⟨hm, hother⟩), hlt⟩

end

/-! ## One step -/

namespace Recounts

variable {history : List Operation} {o : Options}

theorem nil : Recounts [] empty := by
  refine ⟨fun key value => ?_, List.Pairwise.nil⟩
  have hnone : empty.get? key = none := rfl
  rw [hnone]
  exact iff_of_false (by simp) fun h => not_present_nil ⟨value, h⟩

theorem mem_keys_iff (h : Recounts history o) {key : String} :
    key ∈ o.keys ↔ Present history key := by
  rw [← contains_iff, Options.contains, Option.isSome_iff_exists]
  exact exists_congr fun value => h.get? key value

/-- An operation that writes no key leaves the map in agreement with its history. -/
theorem query (h : Recounts history o) {op : Operation}
    (hinsert : ∀ key v, op ≠ .insert key v) (hremove : ∀ key, op ≠ .remove key) :
    Recounts (history ++ [op]) o := by
  refine ⟨fun key value => ?_, h.order.imp fun hbefore =>
    hbefore.concat (hremove _) (hremove _)⟩
  rw [h.get?, holds_concat_iff]
  simp [hinsert, hremove]

theorem insert (h : Recounts history o) (key : String) (value : OptionValue) :
    Recounts (history ++ [.insert key value]) (o.insert key value) := by
  have horder : o.keys.Pairwise (BornBefore (history ++ [.insert key value])) :=
    h.order.imp fun hbefore => hbefore.concat (by simp) (by simp)
  refine ⟨fun k v => ?_, ?_⟩
  · rw [get?_insert, holds_concat_iff, ← h.get?]
    by_cases hk : k = key
    · simp [hk]
    · simp [hk, Ne.symm hk]
  · rw [keys_insert]
    by_cases hmem : key ∈ o.keys
    · rw [if_pos hmem]
      exact horder
    · rw [if_neg hmem, List.pairwise_append]
      refine ⟨horder, List.pairwise_singleton _ _, fun k hk k' hk' => ?_⟩
      -- the new key is born now, after all that are there
      obtain rfl := List.mem_singleton.mp hk'
      obtain ⟨n, hn⟩ := (h.mem_keys_iff.mp hk).exists_born
      have habsent : ¬Present history k' := fun hp => hmem (h.mem_keys_iff.mpr hp)
      exact ⟨n, history.length, born_concat_iff.mpr (Or.inr ⟨hn, by simp⟩),
        born_concat_iff.mpr (Or.inl ⟨rfl, ⟨value, rfl⟩, habsent⟩), hn.lt_length⟩

theorem erase (h : Recounts history o) (key : String) :
    Recounts (history ++ [.remove key]) (o.erase key) := by
  refine ⟨fun k v => ?_, ?_⟩
  · rw [get?_erase, holds_concat_iff, ← h.get?]
    by_cases hk : k = key
    · simp [hk]
    · simp [hk, Ne.symm hk]
  · rw [keys_erase, List.pairwise_filter]
    have hne : ∀ k, decide (k ≠ key) = true → Operation.remove key ≠ .remove k := by
      intro k hk he
      exact of_decide_eq_true hk (Operation.remove.inj he).symm
    exact h.order.imp fun hbefore hk hk' => hbefore.concat (hne _ hk) (hne _ hk')

/-- **An operation keeps a map in agreement with its history.** -/
theorem perform (h : Recounts history o) (op : Operation) :
    Recounts (history ++ [op]) (o.perform op).2 := by
  cases op with
  | insert key value => exact h.insert key value
  | remove key =>
      rw [Options.perform, remove_eq]
      exact h.erase key
  | get key => exact h.query (by simp) (by simp)
  | contains key => exact h.query (by simp) (by simp)
  | size => exact h.query (by simp) (by simp)
  | isEmpty => exact h.query (by simp) (by simp)

/-- **The answer of a map that agrees with its history fits the history.** -/
theorem fits (h : Recounts history o) (op : Operation) : Fits history op (o.perform op).1 := by
  cases op with
  | insert key value => exact .insert key value
  | remove key =>
      rw [Options.perform, remove_eq]
      exact .remove (h.get? key)
  | get key => exact .get (h.get? key)
  | contains key => exact .contains (contains_iff.trans h.mem_keys_iff)
  | size =>
      have hlength : o.size = o.keys.length := (List.length_map _).symm
      rw [Options.perform, hlength]
      exact .size o.nodup_keys fun key => h.mem_keys_iff
  | isEmpty =>
      refine .isEmpty ?_
      rw [Options.isEmpty, List.isEmpty_iff, ← List.map_eq_nil_iff (f := Prod.fst),
        List.eq_nil_iff_forall_not_mem]
      exact forall_congr' fun key => not_congr h.mem_keys_iff

/-! ## Sequences of operations -/

theorem performAll (h : Recounts history o) (ops : List Operation) :
    AllFit history ops (o.performAll ops).1
      ∧ Recounts (history ++ ops) (o.performAll ops).2 := by
  induction ops generalizing history o with
  | nil => exact ⟨.nil, by rwa [List.append_nil]⟩
  | cons op ops ih =>
      obtain ⟨hanswers, hstate⟩ := ih (h.perform op)
      rw [List.append_assoc] at hstate
      exact ⟨.cons (h.fits op) hanswers, hstate⟩

/-- A collected map agrees with the insertions that it was collected by. -/
theorem ofList (es : List (String × OptionValue)) :
    Recounts (insertions es) (Options.ofList es) := by
  induction es using List.reverseRecOn with
  | nil => exact nil
  | append_singleton es e ih =>
      have hlast : insertions (es ++ [e]) = insertions es ++ [.insert e.1 e.2] := by
        simp [insertions]
      rw [hlast, ofList_concat]
      exact ih.insert e.1 e.2

end Recounts

/-! ## The law -/

/-- **A map recounts its history.** After any operations on a map that was collected from any
entries, its answers fit what came before them. It lists the present keys in the order in which
they were born, each with the value of its last insertion, and is written so. A removal answers
with what was there and leaves the other entries as they are, a value that is overwritten stays
in its place, and a key that is inserted after its removal goes to the end. -/
theorem performAll_recounts_history (es : List (String × OptionValue)) (ops : List Operation) :
    let answers := ((ofList es).performAll ops).1
    let o := ((ofList es).performAll ops).2
    let history := insertions es ++ ops
    AllFit (insertions es) ops answers
      ∧ (∀ key value, o.get? key = some value ↔ Holds history key value)
      ∧ (∀ key, key ∈ o.keys ↔ ∃! n, Born history key n)
      ∧ Lists history o.toList
      ∧ o.toJson = .object (o.toList.map fun e => (e.1, e.2.toJson))
      ∧ ∀ key, (o.remove key).1 = o.get? key
        ∧ (o.remove key).2.toList = o.toList.filter (fun e => e.1 ≠ key)
        ∧ ∀ value,
          (o.insert key value).keys = (if key ∈ o.keys then o.keys else o.keys ++ [key])
            ∧ ((o.remove key).2.insert key value).keys = o.keys.filter (· ≠ key) ++ [key] := by
  intro answers o history
  obtain ⟨hanswers, hstate⟩ := (Recounts.ofList es).performAll ops
  have hlists : Lists history o.toList :=
    { nodup := o.nodup_keys
      mem_iff := fun key value => get?_eq_some_iff.symm.trans (hstate.get? key value)
      order := hstate.order }
  refine ⟨hanswers, hstate.get?, fun key => ?_, hlists, rfl, fun key => ?_⟩
  · exact hstate.mem_keys_iff.trans present_iff_existsUnique_born
  · rw [remove_eq]
    refine ⟨rfl, toList_erase o key, fun value => ⟨keys_insert o key value, ?_⟩⟩
    rw [keys_insert, if_neg (not_mem_keys_erase o key), keys_erase]

/-- A value that is overwritten stays in its place, a key that is inserted again goes to the
end. -/
example :
    ((ofList [("default", .literal "1"), ("nullable", .flag), ("default", .literal "2")]).performAll
        [.get "default", .remove "default", .insert "default" .flag, .size]).1
      = [.found (some (.literal "2")), .found (some (.literal "2")), .done, .counted 2] := by
  decide

end MigrationDraft.Options
