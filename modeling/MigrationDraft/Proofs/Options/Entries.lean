import Mathlib.Data.List.Perm.Basic
import MigrationDraft.Options
import Mathlib.Data.List.Induction

set_option autoImplicit false

/-!
# The entries of a map

A list of keys with their values in which no key stands twice is a finite map. What is found for a
key is what stands with it, so the order of the entries is of no account (`lookup_eq_of_perm`).

Options are such a list. Writing adds no entry but the one that is written, collecting a list adds
none that is not in it, and removal takes away a key with its entry and nothing else
(`toList_erase`). Collecting the entries of a map gives back the map (`ofList_toList`), and so do
its keys in order with what they hold (`ext_get?`).
-/

namespace MigrationDraft.Text

/-! ## Lists without double keys -/

variable {α β : Type} [BEq α] [LawfulBEq α]

/-- A value is found for a key exactly where the two are an entry. -/
theorem lookup_eq_some_iff_mem {es : List (α × β)} (h : (es.map Prod.fst).Nodup) {k : α} {v : β} :
    es.lookup k = some v ↔ (k, v) ∈ es := by
  induction es with
  | nil => simp
  | cons d es ih =>
      obtain ⟨j, w⟩ := d
      rw [List.map_cons, List.nodup_cons] at h
      rw [List.lookup_cons, List.mem_cons, Prod.mk.injEq]
      by_cases hk : k = j
      · subst hk
        have hmem : (k, v) ∉ es := fun hm => h.1 (List.mem_map.mpr ⟨_, hm, rfl⟩)
        simp [hmem, eq_comm]
      · have hb : (k == j) = false := by simp [hk]
        simp [hb, hk, ih h.2]

/-- The same entries in another order give the same values. -/
theorem lookup_eq_of_perm {es es' : List (α × β)} (h : (es.map Prod.fst).Nodup)
    (hperm : es'.Perm es) (k : α) : es'.lookup k = es.lookup k := by
  have h' : (es'.map Prod.fst).Nodup := (hperm.map Prod.fst).nodup_iff.mpr h
  apply Option.ext
  intro v
  rw [lookup_eq_some_iff_mem h', lookup_eq_some_iff_mem h, hperm.mem_iff]

end MigrationDraft.Text

namespace MigrationDraft.Options

/-! ## Writing -/

theorem mem_insertEntry {key : String} {value : OptionValue}
    {es : List (String × OptionValue)} {e : String × OptionValue}
    (h : e ∈ insertEntry key value es) : e = (key, value) ∨ e ∈ es := by
  induction es with
  | nil => exact Or.inl (List.mem_singleton.mp h)
  | cons d es ih =>
      obtain ⟨k, v⟩ := d
      rw [insertEntry] at h
      split at h
      · next hk =>
          rcases List.mem_cons.mp h with rfl | h
          · exact Or.inl (by rw [hk])
          · exact Or.inr (List.mem_cons_of_mem _ h)
      · rcases List.mem_cons.mp h with rfl | h
        · exact Or.inr List.mem_cons_self
        · exact (ih h).imp id (List.mem_cons_of_mem _)

/-- A key that is not there yet comes last. -/
theorem insertEntry_of_not_mem {key : String} {es : List (String × OptionValue)}
    (h : key ∉ es.map Prod.fst) (value : OptionValue) :
    insertEntry key value es = es ++ [(key, value)] := by
  induction es with
  | nil => rfl
  | cons d es ih =>
      rw [List.map_cons, List.mem_cons, not_or] at h
      rw [insertEntry, if_neg (Ne.symm h.1), ih h.2, List.cons_append]

/-! ## Collecting -/

/-- The map that `es` builds on top of a map. -/
private def collect (o : Options) (es : List (String × OptionValue)) : Options :=
  es.foldl (fun o e => o.insert e.1 e.2) o

private theorem mem_collect {es : List (String × OptionValue)} {o : Options}
    {e : String × OptionValue} (h : e ∈ (collect o es).toList) : e ∈ o.toList ∨ e ∈ es := by
  induction es generalizing o with
  | nil => exact Or.inl h
  | cons d es ih =>
      rcases ih h with h | h
      · rcases mem_insertEntry h with rfl | h
        · exact Or.inr List.mem_cons_self
        · exact Or.inl h
      · exact Or.inr (List.mem_cons_of_mem _ h)

/-- Every entry of a collected map is one of those that were collected. -/
theorem mem_of_mem_ofList {es : List (String × OptionValue)} {e : String × OptionValue}
    (h : e ∈ (ofList es).toList) : e ∈ es := by
  rcases mem_collect h with h | h
  · cases h
  · exact h

private theorem toList_collect {es : List (String × OptionValue)} {o : Options}
    (h : ((o.toList ++ es).map Prod.fst).Nodup) : (collect o es).toList = o.toList ++ es := by
  induction es generalizing o with
  | nil => exact (List.append_nil _).symm
  | cons d es ih =>
      have hkey : d.1 ∉ o.toList.map Prod.fst := by
        rw [List.map_append, List.map_cons, List.nodup_append] at h
        exact fun hm => h.2.2 _ hm _ List.mem_cons_self rfl
      have hinsert : (o.insert d.1 d.2).toList = o.toList ++ [d] :=
        insertEntry_of_not_mem hkey d.2
      have hnodup : (((o.insert d.1 d.2).toList ++ es).map Prod.fst).Nodup := by
        rw [hinsert, List.append_assoc, List.singleton_append]
        exact h
      show (collect (o.insert d.1 d.2) es).toList = _
      rw [ih hnodup, hinsert, List.append_assoc, List.singleton_append]

/-- Entries with distinct keys are kept as they are. -/
theorem toList_ofList {es : List (String × OptionValue)} (h : (es.map Prod.fst).Nodup) :
    (ofList es).toList = es :=
  toList_collect (o := empty) h

/-- Collecting the entries of a map gives back the map. -/
@[simp] theorem ofList_toList (o : Options) : ofList o.toList = o :=
  ext (toList_ofList o.nodup_keys)

theorem ofList_concat (es : List (String × OptionValue)) (e : String × OptionValue) :
    ofList (es ++ [e]) = (ofList es).insert e.1 e.2 := by
  rw [ofList, List.foldl_append]
  rfl

/-- A collected map has its keys in the order of their first entries. -/
theorem keys_ofList (es : List (String × OptionValue)) :
    (ofList es).keys = (es.map Prod.fst).eraseDups := by
  induction es using List.reverseRecOn with
  | nil => rfl
  | append_singleton es e ih =>
      rw [ofList_concat, keys_insert, ih, List.map_append, List.eraseDups_append]
      by_cases hmem : e.1 ∈ es.map Prod.fst
      · have hnone : [e.1].removeAll (es.map Prod.fst) = [] := by simp [List.removeAll, hmem]
        rw [if_pos (List.mem_eraseDups.mpr hmem), List.map_singleton, hnone, List.eraseDups_nil,
          List.append_nil]
      · have hone : [e.1].removeAll (es.map Prod.fst) = [e.1] := by simp [List.removeAll, hmem]
        rw [if_neg (mt List.mem_eraseDups.mp hmem), List.map_singleton, hone]
        rfl

/-- A collected map holds the last entry of each key. -/
theorem get?_ofList (es : List (String × OptionValue)) (k : String) :
    (ofList es).get? k = es.reverse.lookup k := by
  induction es using List.reverseRecOn with
  | nil => rfl
  | append_singleton es e ih =>
      rw [ofList_concat, get?_insert, ih, List.reverse_append, List.reverse_singleton,
        List.singleton_append, List.lookup_cons]
      by_cases hk : k = e.1
      · simp [hk]
      · rw [if_neg hk, beq_false_of_ne hk]

/-! ## Presence and removal -/

theorem contains_iff {o : Options} {key : String} : o.contains key = true ↔ key ∈ o.keys := by
  unfold contains get? keys
  rw [List.lookup_isSome_iff, List.mem_map]
  constructor
  · rintro ⟨e, he, hk⟩
    exact ⟨e, he, (beq_iff_eq.mp hk).symm⟩
  · rintro ⟨e, he, rfl⟩
    exact ⟨e, he, beq_self_eq_true _⟩

theorem mem_of_mem_erase {o : Options} {key : String} {e : String × OptionValue}
    (h : e ∈ (o.erase key).toList) : e ∈ o.toList :=
  List.mem_of_mem_eraseP h

/-- The entries that are left after a removal are those of the other keys, as they were. -/
@[simp] theorem toList_erase (o : Options) (key : String) :
    (o.erase key).toList = o.toList.filter fun e => e.1 ≠ key := by
  obtain ⟨es, hes⟩ := o
  show (es.eraseP fun e => e.1 == key) = es.filter fun e => e.1 ≠ key
  induction es with
  | nil => rfl
  | cons d es ih =>
      rw [List.map_cons, List.nodup_cons] at hes
      by_cases hk : d.1 = key
      · -- the keys are distinct, so nothing is left to be taken out
        have hrest : ∀ e ∈ es, decide (e.1 ≠ key) = true := by
          intro e he
          have hne : e.1 ≠ key := fun hek =>
            hes.1 (hk.trans hek.symm ▸ List.mem_map_of_mem he)
          exact decide_eq_true hne
        rw [List.eraseP_cons_of_pos (by simp [hk]), List.filter_cons_of_neg (by simp [hk]),
          List.filter_eq_self.mpr hrest]
      · rw [List.eraseP_cons_of_neg (by simp [hk]), List.filter_cons_of_pos (by simp [hk]),
          ih hes.2]

/-- Where the key is not, there is nothing to remove. -/
theorem erase_of_not_mem {o : Options} {key : String} (h : key ∉ o.keys) : o.erase key = o := by
  refine ext ?_
  rw [toList_erase, List.filter_eq_self]
  exact fun e he => decide_eq_true fun hk => h (hk ▸ List.mem_map_of_mem he)

@[simp] theorem keys_erase (o : Options) (key : String) :
    (o.erase key).keys = o.keys.filter (· ≠ key) := by
  rw [keys, toList_erase, keys, List.filter_map]
  rfl

/-- After a removal the key holds nothing and every other key holds what it held. -/
theorem get?_erase (o : Options) (key k : String) :
    (o.erase key).get? k = if k = key then none else o.get? k := by
  rw [get?, toList_erase, get?]
  induction o.toList with
  | nil => simp
  | cons d es ih =>
      obtain ⟨j, v⟩ := d
      by_cases hj : j = key
      · rw [List.filter_cons_of_neg (by simp [hj]), ih]
        by_cases hk : k = key
        · rw [if_pos hk, if_pos hk]
        · have hb : (k == j) = false := by simp [hj, hk]
          rw [if_neg hk, if_neg hk, List.lookup_cons, hb]
      · rw [List.filter_cons_of_pos (by simp [hj]), List.lookup_cons, List.lookup_cons, ih]
        by_cases hkj : k = j
        · simp [hkj, hj]
        · have hb : (k == j) = false := by simp [hkj]
          simp [hb]

/-- A removed key is gone. -/
theorem not_mem_keys_erase (o : Options) (key : String) : key ∉ (o.erase key).keys := by
  rw [keys_erase]
  simp

/-! ## Looking up -/

/-- An entry is there exactly when its key holds its value. -/
theorem get?_eq_some_iff {o : Options} {k : String} {v : OptionValue} :
    o.get? k = some v ↔ (k, v) ∈ o.toList :=
  Text.lookup_eq_some_iff_mem o.nodup_keys

/-- A map is determined by its keys in order and what they hold. -/
theorem ext_get? {o p : Options} (hkeys : o.keys = p.keys) (hget : ∀ k, o.get? k = p.get? k) :
    o = p := by
  have hlength : o.toList.length = p.toList.length := by
    simpa [keys] using congrArg List.length hkeys
  refine ext (List.ext_getElem hlength fun i hi hi' => ?_)
  have hkey : o.toList[i].1 = p.toList[i].1 := by
    have hi'' := List.getElem_of_eq hkeys (i := i) (by simpa [keys] using hi)
    simpa [keys] using hi''
  have ho : o.get? o.toList[i].1 = some o.toList[i].2 :=
    get?_eq_some_iff.mpr (List.getElem_mem hi)
  have hp : p.get? p.toList[i].1 = some p.toList[i].2 :=
    get?_eq_some_iff.mpr (List.getElem_mem hi')
  rw [hkey, hget, hp] at ho
  exact Prod.ext hkey (Option.some.inj ho).symm

/-! ## A key that is put in and taken out -/

@[simp] theorem mem_keys_ofList {es : List (String × OptionValue)} {key : String} :
    key ∈ (ofList es).keys ↔ key ∈ es.map Prod.fst := by
  rw [keys_ofList, List.mem_eraseDups]

theorem erase_insert_self {o : Options} {key : String} (h : key ∉ o.keys)
    (value : OptionValue) : (o.insert key value).erase key = o := by
  refine ext_get? ?_ fun k => ?_
  · rw [keys_erase, keys_insert, if_neg h, List.filter_append, ← keys_erase, erase_of_not_mem h]
    simp
  · rw [get?_erase, get?_insert]
    by_cases hk : k = key
    · have hnone : o.get? key = none := by
        rw [← contains_iff, Options.contains, Option.isSome_iff_ne_none, not_not] at h
        exact h
      rw [if_pos hk, hk, hnone]
    · rw [if_neg hk, if_neg hk]

theorem erase_insert_of_ne {key j : String} (h : j ≠ key) (o : Options) (value : OptionValue) :
    (o.insert j value).erase key = (o.erase key).insert j value := by
  refine ext_get? ?_ fun k => ?_
  · rw [keys_erase, keys_insert, keys_insert, keys_erase]
    by_cases hmem : j ∈ o.keys
    · simp [hmem, h]
    · simp [hmem, h]
  · rw [get?_erase, get?_insert, get?_insert, get?_erase]
    by_cases hk : k = key
    · simp [hk, Ne.symm h]
    · simp [hk]

/-- An entry whose key comes up once in a list is taken out of the collected map as if it had not
been in the list. -/
theorem erase_ofList_append_cons {es ds : List (String × OptionValue)} {key : String}
    (hes : key ∉ es.map Prod.fst) (hds : key ∉ ds.map Prod.fst) (value : OptionValue) :
    (ofList (es ++ (key, value) :: ds)).erase key = ofList (es ++ ds) := by
  induction ds using List.reverseRecOn with
  | nil =>
      rw [ofList_concat, List.append_nil]
      exact erase_insert_self (mt mem_keys_ofList.mp hes) value
  | append_singleton ds d ih =>
      rw [List.map_append, List.mem_append, not_or, List.map_singleton, List.mem_singleton] at hds
      rw [← List.cons_append, ← List.append_assoc, ← List.append_assoc, ofList_concat,
        ofList_concat, erase_insert_of_ne (Ne.symm hds.2), ih hds.1]

end MigrationDraft.Options
