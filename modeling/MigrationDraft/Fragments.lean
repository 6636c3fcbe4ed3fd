import MigrationDraft.Column
import MigrationDraft.Intent
import MigrationDraft.Shorthand
import MigrationDraft.Stubs

set_option autoImplicit false

/-!
# Statements and bodies

A column is added to a table by a call on the table's blueprint,
`$table->string('email', 100)->nullable();`, and removed by a call that takes its name. The
marker has a pair of calls of its own.

A migration does something in its upward method and undoes it in the downward one. What the
bodies hold follows from the intent: a new table is made and dropped, columns are added and
dropped, or dropped and brought back. The name of the table stays an open slot in a wrapper.
-/

namespace MigrationDraft

/-! ## Statements -/

/-- Whether a statement brings a column in or takes it out. -/
inductive Direction where
  /-- The column comes in. -/
  | add
  /-- The column goes out. -/
  | drop
  deriving DecidableEq, Repr

/-- The call that a modifier appends to a statement. -/
def optionCall : String × OptionValue → String
  | (key, .flag) => "->" ++ key ++ "()"
  | (key, .literal text) => "->" ++ key ++ "(" ++ text ++ ")"

namespace Field

/-- The arguments of the call that adds a column: its quoted name, if it has one, and the
arguments of its type. -/
def callArguments (f : Field) : List String :=
  if f.name = "" then f.arguments else ("'" ++ f.name ++ "'") :: f.arguments

end Field

namespace Column

def addStatement : Column → String
  | .timestamps => "$table->timestamps();"
  | .field f =>
      "$table->" ++ f.type ++ "(" ++ String.intercalate ", " f.callArguments ++ ")"
        ++ String.join (f.options.toList.map optionCall) ++ ";"

/-- The statement that removes the column. It names the column only. -/
def dropStatement : Column → String
  | .timestamps => "$table->dropTimestamps();"
  | .field f => "$table->dropColumn('" ++ f.name ++ "');"

def statement (c : Column) : Direction → String
  | .add => c.addStatement
  | .drop => c.dropStatement

end Column

/-- What stands between two statements inside the body of a wrapper. -/
def statementSeparator : String := "\n            "

namespace Schema

def statements (columns : Schema) (d : Direction) : String :=
  String.intercalate statementSeparator (columns.map fun c => c.statement d)

def hasColumn (columns : Schema) (name : String) : Bool := columns.any fun c => c.isNamed name

/-- The columns record when a row was made: by the marker or by one of its two columns. -/
def hasTimestamps (columns : Schema) : Bool :=
  Column.timestamps ∈ columns || hasColumn columns "created_at" || hasColumn columns "updated_at"

def idColumn : Column := .field (Field.plain "id" "increments")

/-- The schema of a new table: a key column in front and the marker at the end, unless the
schema has its own. -/
def withImplicit (columns : Schema) : Schema :=
  (if hasColumn columns "id" then [] else [idColumn]) ++ columns
    ++ (if hasTimestamps columns then [] else [.timestamps])

end Schema

/-! ## Bodies -/

/-- The bodies of the upward and the downward method. -/
structure Fragments where
  up : String
  down : String
  deriving DecidableEq, Repr

/-- The verb of the intent is not one that a body can be built for. -/
structure UnknownIntent where
  verb : String
  deriving DecidableEq, Repr

def UnknownIntent.message (_ : UnknownIntent) : String :=
  "Could not determine what you are trying to do. Sorry! Check your migration name."

namespace Fragments

/-- The wrapper's source with the statements of the columns in its place for them. -/
def wrap (wrapper : String) (columns : Schema) (d : Direction) : String :=
  fill wrapper Slot.schemaUp (Schema.statements columns d)

def dropTable (table : String) : String := "Schema::dropIfExists('" ++ table ++ "');"

def build (stubs : Stubs) (columns : Schema) (intent : Intent) :
    Except UnknownIntent Fragments :=
  match intent.action with
  | .create =>
      .ok ⟨wrap stubs.schemaCreate (Schema.withImplicit columns) .add, dropTable intent.table⟩
  | .add =>
      .ok ⟨wrap stubs.schemaChange columns .add, wrap stubs.schemaChange columns .drop⟩
  | .remove =>
      .ok ⟨wrap stubs.schemaChange columns .drop, wrap stubs.schemaChange columns .add⟩
  | .other verb => .error ⟨verb⟩

/-- The intent of a migration's name and the bodies it gets with the built-in stubs. -/
def generate (name shorthand : String) : Except UnknownIntent (Intent × Fragments) :=
  let intent := Intent.ofName name
  (build Stubs.builtin (Schema.ofShorthand shorthand) intent).map fun f => (intent, f)

end Fragments

end MigrationDraft
