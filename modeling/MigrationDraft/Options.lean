set_option autoImplicit false

/-!
# Column options

The modifiers of a column, such as `nullable` or `default(21)`: a finite map from names to
values that keeps its entries in the order in which their keys came in. Writing to a key that
is present replaces its value and leaves it in place; a key that was erased and comes back goes
to the end. The keys of a map are distinct by construction.
-/

namespace MigrationDraft

/-- The value of a modifier: none at all, or the text between its parentheses. -/
inductive OptionValue where
  /-- A bare modifier. -/
  | flag
  /-- A modifier with a value. -/
  | literal (text : String)
  deriving DecidableEq, Repr

/-- Modifiers in the order of their keys' arrival. -/
structure Options where
  toList : List (String × OptionValue)
  nodup_keys : (toList.map Prod.fst).Nodup
  deriving DecidableEq

namespace Options

/-- Two maps with the same entries in the same order are equal. -/
theorem ext {o p : Options} (h : o.toList = p.toList) : o = p := by
  cases o
  cases p
  cases h
  rfl

def empty : Options := ⟨[], List.nodup_nil⟩

@[simp] theorem toList_empty : empty.toList = [] := rfl

def keys (o : Options) : List String := o.toList.map Prod.fst

def get? (o : Options) (key : String) : Option OptionValue := o.toList.lookup key

def contains (o : Options) (key : String) : Bool := (o.get? key).isSome

def size (o : Options) : Nat := o.toList.length

def isEmpty (o : Options) : Bool := o.toList.isEmpty

/-! ## Insertion -/

/-- The entries with `value` at `key`: in place if the key is present, else at the end. -/
def insertEntry (key : String) (value : OptionValue) :
    List (String × OptionValue) → List (String × OptionValue)
  | [] => [(key, value)]
  | (k, v) :: es => if k = key then (k, value) :: es else (k, v) :: insertEntry key value es

/-- Insertion keeps the keys, and puts a new key last. -/
theorem map_fst_insertEntry (key : String) (value : OptionValue)
    (es : List (String × OptionValue)) :
    (insertEntry key value es).map Prod.fst
      = if key ∈ es.map Prod.fst then es.map Prod.fst else es.map Prod.fst ++ [key] := by
  induction es with
  | nil => rfl
  | cons e es ih =>
      obtain ⟨k, v⟩ := e
      by_cases h : k = key
      · simp [insertEntry, h]
      · simp only [insertEntry, h, if_false, List.map_cons, ih, List.mem_cons, Ne.symm h, false_or]
        split <;> rfl

theorem nodup_insertEntry {es : List (String × OptionValue)} (h : (es.map Prod.fst).Nodup)
    (key : String) (value : OptionValue) : ((insertEntry key value es).map Prod.fst).Nodup := by
  rw [map_fst_insertEntry]
  split
  · exact h
  · next hk =>
      refine List.nodup_append.mpr ⟨h, by simp, ?_⟩
      intro a ha b hb hab
      rw [List.mem_singleton.mp hb] at hab
      exact hk (hab ▸ ha)

def insert (o : Options) (key : String) (value : OptionValue) : Options :=
  ⟨insertEntry key value o.toList, nodup_insertEntry o.nodup_keys key value⟩

@[simp] theorem toList_insert (o : Options) (key : String) (value : OptionValue) :
    (o.insert key value).toList = insertEntry key value o.toList := rfl

/-- The map that a list of entries builds from the left, so that the last value of a key wins
and its first occurrence decides the place. -/
def ofList (es : List (String × OptionValue)) : Options :=
  es.foldl (fun o e => o.insert e.1 e.2) empty

/-! ## Removal -/

theorem nodup_eraseP {es : List (String × OptionValue)} (h : (es.map Prod.fst).Nodup)
    (p : String × OptionValue → Bool) : ((es.eraseP p).map Prod.fst).Nodup :=
  List.Sublist.nodup (List.Sublist.map _ List.eraseP_sublist) h

def erase (o : Options) (key : String) : Options :=
  ⟨o.toList.eraseP (fun e => e.1 == key), nodup_eraseP o.nodup_keys _⟩

/-- The value at `key` together with the map that is left without it. The entry is found by its
place in the map. -/
def remove (o : Options) (key : String) : Option OptionValue × Options :=
  match o.toList.findIdx? fun e => e.1 == key with
  | none => (none, o)
  | some i =>
      (o.toList[i]?.map Prod.snd,
        ⟨o.toList.eraseIdx i,
          List.Sublist.nodup ((List.eraseIdx_sublist o.toList i).map _) o.nodup_keys⟩)

/-! ## Laws -/

@[simp] theorem lookup_insertEntry (key k : String) (value : OptionValue)
    (es : List (String × OptionValue)) :
    (insertEntry key value es).lookup k = if k = key then some value else es.lookup k := by
  induction es with
  | nil =>
      by_cases h : k = key
      · simp [insertEntry, h]
      · have hb : (k == key) = false := by simp [h]
        simp [insertEntry, List.lookup_cons, h, hb]
  | cons e es ih =>
      obtain ⟨j, v⟩ := e
      by_cases hj : j = key
      · subst hj
        by_cases h : k = j
        · simp [insertEntry, h]
        · have hb : (k == j) = false := by simp [h]
          simp [insertEntry, List.lookup_cons, h, hb]
      · by_cases h : k = j
        · subst h
          simp [insertEntry, hj]
        · have hb : (k == j) = false := by simp [h]
          simp [insertEntry, hj, List.lookup_cons, hb, ih]

/-- After an insertion the key holds the new value and every other key holds what it held. -/
@[simp] theorem get?_insert (o : Options) (key k : String) (value : OptionValue) :
    (o.insert key value).get? k = if k = key then some value else o.get? k :=
  lookup_insertEntry key k value o.toList

/-- An insertion keeps the order of the keys, a new key comes last. -/
@[simp] theorem keys_insert (o : Options) (key : String) (value : OptionValue) :
    (o.insert key value).keys = if key ∈ o.keys then o.keys else o.keys ++ [key] :=
  map_fst_insertEntry key value o.toList

/-- What stands at the place of a key is what a lookup of the key finds. -/
theorem getElem?_findIdx? {key : String} {es : List (String × OptionValue)} {i : Nat}
    (h : es.findIdx? (fun e => e.1 == key) = some i) :
    es[i]?.map Prod.snd = es.lookup key := by
  induction es generalizing i with
  | nil => cases h
  | cons e es ih =>
      obtain ⟨k, v⟩ := e
      rw [List.findIdx?_cons] at h
      by_cases hk : k = key
      · rw [if_pos (by simp [hk])] at h
        cases h
        simp [hk]
      · rw [if_neg (by simp [hk])] at h
        obtain ⟨j, hj, rfl⟩ := Option.map_eq_some_iff.mp h
        have hb : (key == k) = false := by simp [Ne.symm hk]
        rw [List.getElem?_cons_succ, ih hj, List.lookup_cons, hb]

/-- A removal answers with what was there, and erases it. -/
theorem remove_eq (o : Options) (key : String) : o.remove key = (o.get? key, o.erase key) := by
  have herase : (o.erase key).toList = match o.toList.findIdx? (fun e => e.1 == key) with
      | none => o.toList
      | some i => o.toList.eraseIdx i := List.eraseP_eq_eraseIdx
  unfold remove
  split
  · next hnone =>
      rw [hnone] at herase
      have hget : o.get? key = none := by
        refine List.lookup_eq_none_iff.mpr fun e he => ?_
        have hne : e.1 ≠ key := by simpa using List.findIdx?_eq_none_iff.mp hnone e he
        exact bne_iff_ne.mpr (Ne.symm hne)
      rw [hget, ext herase]
  · next i hi =>
      rw [hi] at herase
      rw [getElem?_findIdx? hi]
      exact congrArg (Prod.mk (o.get? key)) (ext herase.symm)

end Options

end MigrationDraft
