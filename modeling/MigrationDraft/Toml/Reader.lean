set_option autoImplicit false

/-!
# Reading a TOML text

The values of a TOML document and the faults that a text can have. Numbers with a fraction and
dates are kept as their texts: nothing here computes with them.

Readers, and what may stand between two things of a text: blanks, comments and line ends.
-/

namespace MigrationDraft.Toml

/-! ## Values and faults -/

inductive Value where
  | string (text : String)
  | integer (number : Int)
  /-- A number with a fraction or an exponent, or one of the special words. -/
  | float (text : String)
  | boolean (value : Bool)
  /-- A date, a time, or both. -/
  | date (text : String)
  | array (items : List Value)
  | table (entries : List (String × Value))

inductive Fault where
  /-- Something else should stand where the reader is. -/
  | expected (what : String)
  /-- The key is defined already. -/
  | duplicateKey (key : String)
  /-- An inner key is asked of something that has none. -/
  | notATable (key : String)
  /-- Values nest too deeply, or a key has too many parts. -/
  | tooDeep
  deriving DecidableEq, Repr

structure Error where
  fault : Fault
  left : Nat
  deriving DecidableEq, Repr

/-- The description of a fault. The wording is this module's own. -/
def Fault.message : Fault → String
  | .expected what => "expected " ++ what
  | .duplicateKey key => "duplicate key " ++ key
  | .notATable key => "key " ++ key ++ " is not a table"
  | .tooDeep => "nested too deeply"

/-- The description of an error in the given text, with the number of its line. -/
def Error.message (e : Error) (text : String) : String :=
  let chars := text.toList
  let line := (chars.take (chars.length - e.left)).count '\n' + 1
  "line " ++ Nat.repr line ++ ": " ++ e.fault.message

/-! ## Readers -/

/-- A reader takes a value off the front of a text. -/
abbrev Reader (α : Type) := List Char → Except Error (α × List Char)

def refuse {α : Type} (fault : Fault) (s : List Char) : Except Error (α × List Char) :=
  .error ⟨fault, s.length⟩

def exactly (text : String) : Reader Unit := fun s =>
  let rec go : List Char → List Char → Except Error (Unit × List Char)
    | [], rest => .ok ((), rest)
    | _ :: _, [] => refuse (.expected text) s
    | a :: as, c :: rest => if a = c then go as rest else refuse (.expected text) s
  go text.toList s

/-! ## Blanks, comments and line ends -/

def isBlank (c : Char) : Bool := c == ' ' || c == '\t'

def skipBlanks (s : List Char) : List Char := s.dropWhile isBlank

/-- A character that a line may hold: none of the controls but the tab. -/
def isPrintable (c : Char) : Bool := c == '\t' || (0x20 ≤ c.toNat && c.toNat ≠ 0x7F)

/-- What follows a line end at the front of a text. -/
def newline? : List Char → Option (List Char)
  | '\n' :: s => some s
  | '\r' :: '\n' :: s => some s
  | _ => none

/-- The text without a comment at its front. -/
def skipComment : List Char → List Char
  | '#' :: s => s.dropWhile isPrintable
  | s => s

/-- What follows the end of a line, before which only blanks and a comment may stand. -/
def lineEnd (s : List Char) : Except Error (List Char) :=
  match skipComment (skipBlanks s) with
  | [] => .ok []
  | c :: rest =>
      match newline? (c :: rest) with
      | some after => .ok after
      | none => .error ⟨.expected "the end of the line", rest.length + 1⟩

/-- The text after blanks, line ends and comments. A comment has to be ended by a line end. The
fuel bounds the number of lines. -/
def skipLinesFor : Nat → List Char → Except Error (List Char)
  | 0, s => .ok s
  | fuel + 1, s =>
      match skipBlanks s with
      | '#' :: rest =>
          match newline? (rest.dropWhile isPrintable) with
          | some after => skipLinesFor fuel after
          | none => .error ⟨.expected "the end of the line", rest.length⟩
      | other =>
          match newline? other with
          | some after => skipLinesFor fuel after
          | none => .ok other

/-- The text after blanks, line ends and comments. -/
def skipLines (s : List Char) : Except Error (List Char) := skipLinesFor (s.length + 1) s

end MigrationDraft.Toml
