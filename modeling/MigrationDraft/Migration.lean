import MigrationDraft.Text
import MigrationDraft.Fragments
import MigrationDraft.Inflection
import MigrationDraft.Text.LetterCase

set_option autoImplicit false

/-!
# Migrations and their files

A migration has a name and a time. Together they give the name of its file; the name alone
gives the name of its class. The file's text is the migration stub with the class, the two
bodies and the table filled in, the table last so that it also reaches the slots that the
bodies left open.

A pivot table joins two tables many to many. It is named after the two, in lower case, in
alphabetical order and in the singular, so that it does not matter in which order and in which
letter case they are given.

The time is the local one and stands at the front of the file's name, `2024_01_31_120509`. Within
the years 0 to 9999 every field has a fixed width, so the texts sort in the order of time.
-/

namespace MigrationDraft

/-! ## Times -/

structure Timestamp where
  year : Int
  month : Nat
  day : Nat
  hour : Nat
  minute : Nat
  second : Nat
  deriving DecidableEq, Repr

namespace Timestamp

/-- A year with at least four digits. One that needs more, or comes before year 0, has a sign. -/
def yearText (year : Int) : List Char :=
  if year < 0 then '-' :: Text.paddedDigits 4 year.natAbs
  else if year < 10000 then Text.fixedDigits 4 year.toNat
  else '+' :: Text.paddedDigits 4 year.toNat

/-- The time with underscores between the date's fields and after them. -/
def text (t : Timestamp) : String :=
  String.ofList
    (yearText t.year ++ '_' :: Text.fixedDigits 2 t.month ++ '_' :: Text.fixedDigits 2 t.day
      ++ '_' :: Text.fixedDigits 2 t.hour ++ Text.fixedDigits 2 t.minute
      ++ Text.fixedDigits 2 t.second)

end Timestamp

/-! ## Migrations -/

structure Migration where
  name : String
  time : Timestamp
  deriving DecidableEq, Repr

namespace Migration

def className (m : Migration) : String := Inflection.pascalCase m.name

def fileName (m : Migration) : String := m.time.text ++ "_" ++ m.name ++ ".php"

def render (m : Migration) (stubs : Stubs) (fragments : Fragments) (table : String) : String :=
  let source := fill stubs.migration Slot.className m.className
  let source := fill source Slot.schemaUp fragments.up
  let source := fill source Slot.schemaDown fragments.down
  fill source Slot.table table

end Migration

/-! ## Pivot tables -/

/-- The migration that makes a pivot table: the two joined tables in order and its time. -/
structure Pivot where
  first : String
  second : String
  time : Timestamp
  first_le_second : first ≤ second
  deriving DecidableEq

namespace Pivot

def lowered (table : String) : String := String.ofList (Text.lower table.toList)

/-- The migration for two tables in any order and letter case. -/
def ofTables (one two : String) (time : Timestamp) : Pivot :=
  if h : lowered one ≤ lowered two then ⟨lowered one, lowered two, time, h⟩
  else ⟨lowered two, lowered one, time, (String.le_total _ _).resolve_left h⟩

def columnOne (p : Pivot) : String := Inflection.singularize p.first
def columnTwo (p : Pivot) : String := Inflection.singularize p.second

def tableName (p : Pivot) : String := p.columnOne ++ "_" ++ p.columnTwo

def className (p : Pivot) : String :=
  "Create" ++ Inflection.pascalCase p.columnOne ++ Inflection.pascalCase p.columnTwo
    ++ "PivotTable"

def fileName (p : Pivot) : String :=
  p.time.text ++ "_create_" ++ p.tableName ++ "_pivot_table.php"

/-- A pivot stub with the statements that add the table's own columns. -/
def fillColumns (source : String) (columns : Schema) : String :=
  fill source Slot.schemaUp (Schema.statements columns .add)

/-- A pivot stub with the names of the tables. -/
def fillNames (p : Pivot) (source : String) : String :=
  let source := fill source Slot.pivotTable p.tableName
  let source := fill source Slot.columnOne p.columnOne
  let source := fill source Slot.columnTwo p.columnTwo
  let source := fill source Slot.tableOne p.first
  fill source Slot.tableTwo p.second

/-- The text of the file, from the stub that has a place for columns if there are any to be
named. -/
def render (p : Pivot) (stubs : Stubs) : Option Schema → String
  | none => fill (p.fillNames stubs.pivot) Slot.className p.className
  | some columns =>
      fill (fillColumns (p.fillNames stubs.pivotSchema) columns) Slot.className p.className

end Pivot

end MigrationDraft
