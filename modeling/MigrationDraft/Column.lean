import MigrationDraft.Json
import MigrationDraft.Options

set_option autoImplicit false

/-!
# Columns

An entry of a table's schema: a column with a name, a type, arguments of the type and
modifiers, or the marker for the pair of columns `created_at` and `updated_at`. The shorthand
text of a column is the form in which a user writes it, `amount:decimal(5,2):nullable`.
-/

namespace MigrationDraft

/-- A column that stands for itself. -/
structure Field where
  name : String
  type : String
  arguments : List String
  options : Options
  deriving DecidableEq

/-- An entry of a schema. -/
inductive Column where
  /-- A column that stands for itself. -/
  | field (spec : Field)
  /-- The marker. -/
  | timestamps
  deriving DecidableEq

/-- The entries of a table in the order in which they are written. -/
abbrev Schema := List Column

namespace Field

/-- A column with neither arguments nor modifiers. -/
def plain (name type : String) : Field := ⟨name, type, [], Options.empty⟩

def withArguments (f : Field) (arguments : List String) : Field := { f with arguments }

def withOption (f : Field) (key : String) (value : OptionValue) : Field :=
  { f with options := f.options.insert key value }

@[simp] theorem options_withOption (f : Field) (key : String) (value : OptionValue) :
    (f.withOption key value).options = f.options.insert key value := rfl

end Field

/-- A modifier as it is written after a column: `:key` or `:key(text)`. -/
def optionShorthand : String × OptionValue → String
  | (key, .flag) => ":" ++ key
  | (key, .literal text) => ":" ++ key ++ "(" ++ text ++ ")"

/-- The arguments of a type as they are written after it, nothing where there are none. -/
def argumentShorthand : List String → String
  | [] => ""
  | args => "(" ++ String.intercalate "," args ++ ")"

namespace Column

/-- The name of the column, none for the marker. -/
def name? : Column → Option String
  | .field f => some f.name
  | .timestamps => none

def type : Column → String
  | .field f => f.type
  | .timestamps => "timestamps"

def isNamed (c : Column) (name : String) : Bool := c.name? == some name

def shorthand : Column → String
  | .timestamps => ":timestamps"
  | .field f =>
      f.name ++ ":" ++ f.type ++ argumentShorthand f.arguments
        ++ String.join (f.options.toList.map optionShorthand)

end Column

/-- The schema in shorthand: its columns with a comma and a space between them. -/
def Schema.shorthand (columns : Schema) : String :=
  String.intercalate ", " (columns.map Column.shorthand)

/-! ## Records

A column is a record of its name, type, arguments and modifiers, in this order. A bare modifier
is written as `true` and one with a value as a string. The marker has the record of a column
without a name. -/

/-- `true` for a bare modifier, its text for one with a value. -/
def OptionValue.toJson : OptionValue → Json
  | .flag => .bool true
  | .literal text => .string text

/-- The modifiers as an object, in their own order. -/
def Options.toJson (o : Options) : Json := .object (o.toList.map fun e => (e.1, e.2.toJson))

def columnRecord (name type : String) (arguments : List String) (options : Options) : Json :=
  .object
    [("name", .string name), ("type", .string type),
      ("arguments", .array (arguments.map Json.string)), ("options", options.toJson)]

def Column.toJson : Column → Json
  | .field f => columnRecord f.name f.type f.arguments f.options
  | .timestamps => columnRecord "" "timestamps" [] Options.empty

def Schema.toJson (columns : Schema) : Json := .array (columns.map Column.toJson)

end MigrationDraft
