import MigrationDraft.Json
import MigrationDraft.Text

set_option autoImplicit false

/-!
# Reading JSON

A text is read in two stages. The first cuts it into tokens and drops the blanks between them. The
second puts the tokens together, with a stack of the arrays and objects that are still open. The
values are those of `Json`, so there is no number and no null, and an escape for a surrogate is
refused.
-/

namespace MigrationDraft.Json

open Text

/-! ## Tokens -/

/-- The parts of a text. -/
inductive Token where
  | string (text : String)
  | bool (value : Bool)
  | openArray
  | closeArray
  | openObject
  | closeObject
  | comma
  | colon
  deriving DecidableEq, Repr

/-- Where the first stage is in a text. -/
inductive Place where
  /-- Between two tokens. -/
  | between
  /-- In a string that starts with these characters. -/
  | string (read : List Char)
  /-- Behind a backslash in a string. -/
  | escape (read : List Char)
  /-- In the digits of an escape: their value so far, and how many come after the next one. -/
  | digits (read : List Char) (value more : Nat)
  /-- In a word, with the letters that are still to come. -/
  | word (letters : List Char) (value : Bool)

def isGap (c : Char) : Bool := c = ' ' || c = '\n' || c = '\r' || c = '\t'

def mark? (c : Char) : Option Token :=
  if c = '[' then some .openArray
  else if c = ']' then some .closeArray
  else if c = '\x7b' then some .openObject
  else if c = '\x7d' then some .closeObject
  else if c = ',' then some .comma
  else if c = ':' then some .colon
  else none

/-- The character that one behind a backslash stands for. -/
def unescape? (c : Char) : Option Char :=
  if c = '"' ∨ c = '\\' ∨ c = '/' then some c
  else if c = 'n' then some '\n'
  else if c = 'r' then some '\r'
  else if c = 't' then some '\t'
  else if c = 'b' then some '\x08'
  else if c = 'f' then some '\x0c'
  else none

/-- The place after a character, and the tokens that end with it. -/
def scan : Place → Char → Option (Place × List Token)
  | .between, c =>
      if isGap c then some (.between, [])
      else if c = '"' then some (.string [], [])
      else if c = 't' then some (.word ['r', 'u', 'e'] true, [])
      else if c = 'f' then some (.word ['a', 'l', 's', 'e'] false, [])
      else (mark? c).map fun t => (.between, [t])
  | .string read, c =>
      if c = '"' then some (.between, [.string (String.ofList read)])
      else if c = '\\' then some (.escape read, [])
      else if c.toNat < 0x20 then none
      else some (.string (read ++ [c]), [])
  | .escape read, c =>
      if c = 'u' then some (.digits read 0 3, [])
      else (unescape? c).map fun d => (.string (read ++ [d]), [])
  | .digits read value more, c =>
      (hexValue? c).bind fun d =>
        let n := 16 * value + d
        match more with
        | more + 1 => some (.digits read n more, [])
        -- the last digit; a surrogate is no character
        | 0 => if n.isValidChar then some (.string (read ++ [Char.ofNat n]), []) else none
  | .word letters value, c =>
      match letters with
      | [] => none
      | [last] => if c = last then some (.between, [.bool value]) else none
      | next :: letters => if c = next then some (.word letters value, []) else none

/-- The place after a text, and the tokens that end in it. -/
def scanAll : Place → List Char → Option (Place × List Token)
  | p, [] => some (p, [])
  | p, c :: s =>
      (scan p c).bind fun (q, ts) => (scanAll q s).map fun (q', us) => (q', ts ++ us)

def tokens? (text : String) : Option (List Token) :=
  match scanAll .between text.toList with
  | some (.between, ts) => some ts
  | _ => none

/-! ## Values -/

/-- What is open around a place among the tokens. -/
inductive Frame where
  /-- An array with its items so far. -/
  | items (read : List Json)
  /-- An object with its entries so far, in front of a key. -/
  | entries (read : List (String × Json))
  /-- An object with its entries so far, behind a key. -/
  | entry (read : List (String × Json)) (key : String)

inductive Next where
  | value
  | key
  | colon
  /-- A value has just ended. -/
  | after (v : Json)

/-- What comes next, and what is open there from the inside out. -/
structure State where
  next : Next
  stack : List Frame

/-- The state after a token. An array or an object may end in front of its first item or key. -/
def step (i : State) (t : Token) : Option State :=
  match t, i with
  | .string text, ⟨.value, stack⟩ => some ⟨.after (.string text), stack⟩
  | .string key, ⟨.key, .entries read :: stack⟩ => some ⟨.colon, .entry read key :: stack⟩
  | .bool b, ⟨.value, stack⟩ => some ⟨.after (.bool b), stack⟩
  | .openArray, ⟨.value, stack⟩ => some ⟨.value, .items [] :: stack⟩
  | .openObject, ⟨.value, stack⟩ => some ⟨.key, .entries [] :: stack⟩
  | .colon, ⟨.colon, stack⟩ => some ⟨.value, stack⟩
  | .comma, ⟨.after v, .items read :: stack⟩ => some ⟨.value, .items (read ++ [v]) :: stack⟩
  | .comma, ⟨.after v, .entry read key :: stack⟩ =>
      some ⟨.key, .entries (read ++ [(key, v)]) :: stack⟩
  | .closeArray, ⟨.value, .items [] :: stack⟩ => some ⟨.after (.array []), stack⟩
  | .closeArray, ⟨.after v, .items read :: stack⟩ => some ⟨.after (.array (read ++ [v])), stack⟩
  | .closeObject, ⟨.key, .entries [] :: stack⟩ => some ⟨.after (.object []), stack⟩
  | .closeObject, ⟨.after v, .entry read key :: stack⟩ =>
      some ⟨.after (.object (read ++ [(key, v)])), stack⟩
  | _, _ => none

def ofTokens (ts : List Token) : Option Json :=
  match ts.foldlM step ⟨.value, []⟩ with
  | some ⟨.after v, []⟩ => some v
  | _ => none

/-- The value that a text writes, with any blanks around it. -/
def read (text : String) : Option Json := (tokens? text).bind ofTokens

/-! ## Looking values up -/

/-- The value that keys of nested objects lead to, the outermost key first. -/
def find? : List String → Json → Option Json
  | [], v => some v
  | key :: keys, .object entries => (entries.lookup key).bind (find? keys)
  | _, _ => none

def findString? (keys : List String) (v : Json) : Option String :=
  match v.find? keys with
  | some (.string text) => some text
  | _ => none

end MigrationDraft.Json
