import MigrationDraft.Json

set_option autoImplicit false

/-!
# What a migration is for

The name of a migration says what it does and to which table: `add_votes_to_posts_table` adds
to `posts`. A name is read from its end. After an optional last word `table` come the words of
the table's name, back to the first connecting word or to the verb, which is the first word.
Every name has a reading; a verb that is not known is kept as it is.
-/

namespace MigrationDraft

/-- The effect of a migration on its table. -/
inductive Action where
  /-- The table is made. -/
  | create
  /-- Columns are added to the table. -/
  | add
  /-- Columns are taken out of the table. -/
  | remove
  /-- The verb is not known. -/
  | other (verb : String)
  deriving DecidableEq, Repr

namespace Action

def ofVerb (verb : String) : Action :=
  if verb ∈ ["create", "make"] then .create
  else if verb ∈ ["remove", "delete", "destroy", "drop"] then .remove
  else if verb ∈ ["add", "append", "update", "insert"] then .add
  else .other verb

def text : Action → String
  | .create => "create"
  | .add => "add"
  | .remove => "remove"
  | .other verb => verb

def isOther : Action → Bool
  | .other _ => true
  | _ => false

end Action

/-- The effect of a migration and the table it concerns. -/
structure Intent where
  action : Action
  table : String
  deriving DecidableEq, Repr

namespace Intent

/-- Words that end the name of a table when a name is read backwards. -/
def connectingWords : List String := ["to", "from", "and", "with", "for", "in", "of", "on"]

def isConnecting (word : List Char) : Bool := connectingWords.any fun w => w.toList == word

/-- A list of words without a first word `table`. -/
def dropTableWord : List (List Char) → List (List Char)
  | [] => []
  | w :: ws => if w = "table".toList then ws else w :: ws

/-- The name of the table, from the words between it and the verb in backward order. -/
def tableOf (backward : List (List Char)) : List Char :=
  ['_'].intercalate (backward.takeWhile fun w => !isConnecting w).reverse

def ofName (name : String) : Intent :=
  let backward := dropTableWord (name.toList.splitOn '_').reverse
  { action := Action.ofVerb (String.ofList (backward.getLast?.getD []))
    table := String.ofList (tableOf backward.dropLast) }

end Intent

def Action.toJson (a : Action) : Json := .string a.text

def Intent.toJson (i : Intent) : Json :=
  .object [("action", i.action.toJson), ("table", .string i.table)]

end MigrationDraft
