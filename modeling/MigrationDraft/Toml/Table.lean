import MigrationDraft.Toml.Reader

set_option autoImplicit false

/-!
# Tables under construction

A document builds its tables line by line. A table comes about in one of three ways: by a header
of its own, by a header of a table inside it, or by a dotted key. Which of them it was decides
who may still add to it, so that no table is defined twice. A header may define a table that so
far only came about by headers of inner tables, and a dotted key may add to a table that came
about by dotted keys.
-/

namespace MigrationDraft.Toml

mutual

/-- An entry of a table: a value, a table, or an array of tables. -/
inductive Item where
  | value (v : Value)
  | table (t : Table)
  | tables (ts : List Table)

/-- A table. It is implicit until a header defines it, and dotted if a dotted key made it. -/
inductive Table where
  | mk (implicit dotted : Bool) (entries : List (String × Item))

end

namespace Table

/-- No header has defined the table. -/
def implicit : Table → Bool
  | mk i _ _ => i

/-- A dotted key made the table. -/
def dotted : Table → Bool
  | mk _ d _ => d

def entries : Table → List (String × Item)
  | mk _ _ es => es

/-- A table that a header has just defined. -/
def defined : Table := mk false false []

def setEntry (key : String) (item : Item) : List (String × Item) → List (String × Item)
  | [] => [(key, item)]
  | (k, i) :: es => if k = key then (k, item) :: es else (k, i) :: setEntry key item es

def set (t : Table) (key : String) (item : Item) : Table :=
  mk t.implicit t.dotted (setEntry key item t.entries)

/-- The table with a change to the table that the keys lead to, made on the way where there is
none. In an array of tables they lead to the last one. -/
def modifyAt (byDots : Bool) (change : Table → Except Fault Table) :
    List String → Table → Except Fault Table
  | [], t => change t
  | key :: keys, t =>
      match t.entries.lookup key with
      | none => do
          let u ← modifyAt byDots change keys (mk true byDots [])
          .ok (t.set key (.table u))
      | some (.value _) => .error (.notATable key)
      | some (.table u) =>
          if byDots && !u.implicit then .error (.duplicateKey key)
          else do
            let u ← modifyAt byDots change keys u
            .ok (t.set key (.table u))
      | some (.tables us) =>
          match us.getLast? with
          | none => .error (.notATable key)
          | some u => do
              let u ← modifyAt byDots change keys u
              .ok (t.set key (.tables (us.dropLast ++ [u])))

/-- The table with a value at a key that may be dotted: `parents` are its parts but the last. -/
def insertValue (parents : List String) (key : String) (v : Value) (t : Table) :
    Except Fault Table :=
  modifyAt true
    (fun u =>
      if u.dotted == parents.isEmpty then .error (.duplicateKey key)
      else if (u.entries.lookup key).isSome then .error (.duplicateKey key)
      else .ok (u.set key (.value v)))
    parents t

/-- The table after the header of an inner table. -/
def openTable (parents : List String) (key : String) (t : Table) : Except Fault Table :=
  modifyAt false
    (fun u =>
      match u.entries.lookup key with
      | none => .ok (u.set key (.table defined))
      | some (.table w) =>
          if w.implicit && !w.dotted then .ok (u.set key (.table (mk false false w.entries)))
          else .error (.duplicateKey key)
      | some _ => .error (.duplicateKey key))
    parents t

def openElement (parents : List String) (key : String) (t : Table) : Except Fault Table :=
  modifyAt false
    (fun u =>
      match u.entries.lookup key with
      | none => .ok (u.set key (.tables [defined]))
      | some (.tables ws) => .ok (u.set key (.tables (ws ++ [defined])))
      | some _ => .error (.duplicateKey key))
    parents t

end Table

mutual

def Item.toValue : Item → Value
  | .value v => v
  | .table t => .table t.toEntries
  | .tables ts => .array (valuesOfTables ts)

def Table.toEntries : Table → List (String × Value)
  | .mk _ _ es => valuesOfEntries es

def valuesOfEntries : List (String × Item) → List (String × Value)
  | [] => []
  | (key, item) :: es => (key, item.toValue) :: valuesOfEntries es

def valuesOfTables : List Table → List Value
  | [] => []
  | t :: ts => .table t.toEntries :: valuesOfTables ts

end

end MigrationDraft.Toml
