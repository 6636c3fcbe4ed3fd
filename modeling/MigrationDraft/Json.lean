set_option autoImplicit false

/-!
# JSON

Values with ordered objects, and their two written forms: the compact one on a single line and
the pretty one, with a line for each entry and two blanks for each level. Strings are written
with the shortest escapes, and characters beyond ASCII stand for themselves.
-/

namespace MigrationDraft

/-- A JSON value, as far as this library writes them. -/
inductive Json where
  | string (text : String)
  | bool (value : Bool)
  | array (items : List Json)
  | object (entries : List (String × Json))

namespace Json

/-! ## Strings -/

def hexDigit (n : Nat) : Char := Nat.digitChar (n % 16)

/-- A character as it is written inside a string. -/
def escape (c : Char) : List Char :=
  if c = '"' then ['\\', '"']
  else if c = '\\' then ['\\', '\\']
  else if c = '\n' then ['\\', 'n']
  else if c = '\r' then ['\\', 'r']
  else if c = '\t' then ['\\', 't']
  else if c = '\x08' then ['\\', 'b']
  else if c = '\x0c' then ['\\', 'f']
  else if c.toNat < 0x20 then
    ['\\', 'u', '0', '0', hexDigit (c.toNat / 16), hexDigit c.toNat]
  else [c]

def quote (text : String) : String :=
  String.ofList ('"' :: text.toList.flatMap escape ++ ['"'])

def boolText (b : Bool) : String := if b then "true" else "false"

/-! ## Compact form -/

mutual

/-- The value on one line, without blanks. -/
def compact : Json → String
  | .string text => quote text
  | .bool b => boolText b
  | .array items => "[" ++ String.intercalate "," (compactItems items) ++ "]"
  | .object entries => "\x7b" ++ String.intercalate "," (compactEntries entries) ++ "\x7d"

def compactItems : List Json → List String
  | [] => []
  | v :: vs => v.compact :: compactItems vs

def compactEntries : List (String × Json) → List String
  | [] => []
  | (key, v) :: es => (quote key ++ ":" ++ v.compact) :: compactEntries es

end

/-! ## Pretty form -/

def indent (level : Nat) : String := String.ofList (List.replicate (2 * level) ' ')

/-- Entries between brackets, each on a line of its own; the brackets alone if there is none. -/
def block (level : Nat) (opening closing : String) : List String → String
  | [] => opening ++ closing
  | lines =>
      opening ++ "\n" ++ indent (level + 1)
        ++ String.intercalate (",\n" ++ indent (level + 1)) lines
        ++ "\n" ++ indent level ++ closing

mutual

/-- The value over several lines, its inner lines moved in by one level more than `level`. -/
def prettyAt (level : Nat) : Json → String
  | .string text => quote text
  | .bool b => boolText b
  | .array items => block level "[" "]" (prettyItems (level + 1) items)
  | .object entries => block level "\x7b" "\x7d" (prettyEntries (level + 1) entries)

def prettyItems (level : Nat) : List Json → List String
  | [] => []
  | v :: vs => prettyAt level v :: prettyItems level vs

def prettyEntries (level : Nat) : List (String × Json) → List String
  | [] => []
  | (key, v) :: es => (quote key ++ ": " ++ prettyAt level v) :: prettyEntries level es

end

def pretty (v : Json) : String := prettyAt 0 v

/-! ## Order of keys -/

/-- The entries with one more in front of the first whose key is not smaller. -/
def insertByKey (e : String × Json) : List (String × Json) → List (String × Json)
  | [] => [e]
  | d :: ds => if e.1 ≤ d.1 then e :: d :: ds else d :: insertByKey e ds

mutual

/-- The value with the keys of every object in ascending order. -/
def sortKeys : Json → Json
  | .string text => .string text
  | .bool b => .bool b
  | .array items => .array (sortItems items)
  | .object entries => .object (sortEntries entries)

def sortItems : List Json → List Json
  | [] => []
  | v :: vs => sortKeys v :: sortItems vs

def sortEntries : List (String × Json) → List (String × Json)
  | [] => []
  | (key, v) :: es => insertByKey (key, sortKeys v) (sortEntries es)

end

end Json

end MigrationDraft
