import MigrationDraft.Template
import MigrationDraft.Files

set_option autoImplicit false

/-!
# Stubs

The texts that generated code is cut from: two wrappers for the statements on a table, and
three whole files. A set of stubs holds the source of each. The built-in ones are templates;
a user's own stubs may be any texts.

A directory may hold stubs of the user's own, a file for each. A file that is not there leaves
the built-in stub in place; one that is there and cannot be read is a failure.
-/

namespace MigrationDraft

/-! ## Slots

`schemaUp` and `schemaDown` stand for the statements of the upward and the downward method, `table`
for the name of the table and `className` for that of the migration's class. A pivot table has a
name, `pivotTable`, and joins two tables: `tableOne` and `tableTwo` stand for their names, and
`columnOne` and `columnTwo` for the names of the things in them. -/

namespace Slot

def schemaUp : String := "schema_up"
def schemaDown : String := "schema_down"
def table : String := "table"
def className : String := "class"
def pivotTable : String := "pivotTableName"
def columnOne : String := "columnOne"
def columnTwo : String := "columnTwo"
def tableOne : String := "tableOne"
def tableTwo : String := "tableTwo"

end Slot

/-- The sources of all stubs. -/
structure Stubs where
  schemaCreate : String
  schemaChange : String
  migration : String
  pivot : String
  pivotSchema : String
  deriving DecidableEq, Repr

namespace Stubs

/-! ## Wrappers -/

/-- Statements on a table, inside a call of the given method of the schema builder. -/
def wrapper (method : String) : Template :=
  [.text ("Schema::" ++ method ++ "('"), .slot Slot.table,
    .text "', function (Blueprint $table) \x7b\n            ", .slot Slot.schemaUp,
    .text "\n        \x7d);"]

def createWrapper : Template := wrapper "create"

def changeWrapper : Template := wrapper "table"

/-! ## Files

A file has three parts of its own, `fileHead`, `fileMiddle` and `fileTail`, with the body of its
upward method after the first of them and that of the downward method after the second. A pivot
table has its statements in these places, with or without a line for columns of its own. -/

/-- The beginning of every file, down to the body of its upward method. -/
def fileHead : Template :=
  [.text ("<?php\n\nuse Illuminate\\Database\\Migrations\\Migration;\n"
      ++ "use Illuminate\\Database\\Schema\\Blueprint;\n"
      ++ "use Illuminate\\Support\\Facades\\Schema;\n\nclass "),
    .slot Slot.className,
    .text (" extends Migration\n\x7b\n    /**\n     * Run the migrations.\n     *\n"
      ++ "     * @return void\n     */\n    public function up()\n    \x7b\n        ")]

def fileMiddle : Template :=
  [.text ("\n    \x7d\n\n    /**\n     * Reverse the migrations.\n     *\n"
      ++ "     * @return void\n     */\n    public function down()\n    \x7b\n        ")]

def fileTail : Template := [.text "\n    \x7d\n\x7d\n"]

def migrationFile : Template :=
  fileHead ++ [.slot Slot.schemaUp] ++ fileMiddle ++ [.slot Slot.schemaDown] ++ fileTail

/-- The key column of a pivot table for one of the two tables it joins. -/
def pivotKey (column table : String) : Template :=
  [.text "            $table->integer('", .slot column,
    .text "_id')->unsigned()->index();\n            $table->foreign('", .slot column,
    .text "_id')->references('id')->on('", .slot table, .text "')->onDelete('cascade');\n"]

/-- The statements of a pivot table down to the line of its primary key. -/
def pivotHead : Template :=
  fileHead
    ++ [.text "Schema::create('", .slot Slot.pivotTable,
      .text "', function (Blueprint $table) \x7b\n"]
    ++ pivotKey Slot.columnOne Slot.tableOne ++ pivotKey Slot.columnTwo Slot.tableTwo
    ++ [.text "            $table->primary(['", .slot Slot.columnOne, .text "_id', '",
      .slot Slot.columnTwo, .text "_id']);\n"]

/-- What follows the statements of a pivot table. -/
def pivotTail : Template :=
  [.text "        \x7d);"] ++ fileMiddle
    ++ [.text "Schema::dropIfExists('", .slot Slot.pivotTable, .text "');"] ++ fileTail

def pivotFile : Template := pivotHead ++ pivotTail

/-- The line of a pivot table's own columns. -/
def pivotColumns : Template := [.text "            ", .slot Slot.schemaUp, .text "\n"]

def pivotSchemaFile : Template := pivotHead ++ pivotColumns ++ pivotTail

def builtin : Stubs :=
  { schemaCreate := createWrapper.source
    schemaChange := changeWrapper.source
    migration := migrationFile.source
    pivot := pivotFile.source
    pivotSchema := pivotSchemaFile.source }

/-! ## Stubs from a directory

There is a file for each stub: one for the wrapper that makes a table and one for the wrapper that
changes it, one for a migration, and one each for a pivot table without and with columns of its
own. They are read in this order. -/

def schemaCreateFile : String := "schema-create.stub"
def schemaChangeFile : String := "schema-change.stub"
def migrationStubFile : String := "migration.stub"
def pivotStubFile : String := "pivot.stub"
def pivotSchemaStubFile : String := "pivot-schema.stub"

def fileNames : List String :=
  [schemaCreateFile, schemaChangeFile, migrationStubFile, pivotStubFile, pivotSchemaStubFile]

/-- The text of a file in a directory, or the given text if the file is not there. -/
def readOr (files : Files) (directory name builtin : String) : Except ReadError String :=
  match files.read (Path.join directory name) with
  | .ok text => .ok text
  | .error .notFound => .ok builtin
  | .error e => .error e

/-- The stubs of a directory. The first file that cannot be read decides the failure. -/
def load (files : Files) (directory : String) : Except ReadError Stubs := do
  let schemaCreate ← readOr files directory schemaCreateFile builtin.schemaCreate
  let schemaChange ← readOr files directory schemaChangeFile builtin.schemaChange
  let migration ← readOr files directory migrationStubFile builtin.migration
  let pivot ← readOr files directory pivotStubFile builtin.pivot
  let pivotSchema ← readOr files directory pivotSchemaStubFile builtin.pivotSchema
  .ok { schemaCreate, schemaChange, migration, pivot, pivotSchema }

end Stubs

end MigrationDraft
