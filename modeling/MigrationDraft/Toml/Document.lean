import MigrationDraft.Toml.Dates
import MigrationDraft.Toml.Numbers
import MigrationDraft.Toml.Strings
import MigrationDraft.Toml.Table

set_option autoImplicit false

/-!
# TOML documents

The reader of a whole document. Values nest in arrays and inline tables, and keys have parts;
both have a limit to how deep they go. Reading a value recurses on the depth that is left, and
every loop over the text is bounded by the text's length.
-/

namespace MigrationDraft.Toml

/-- How deep arrays and inline tables may nest, and how many parts a key may have. -/
def maxDepth : Nat := 79

/-! ## Keys -/

def isBareKey (c : Char) : Bool := c.isAlphanum || c == '_' || c == '-'

def keyPart (s : List Char) : Except Error (String × List Char) :=
  match s with
  | '"' :: _ => (lineString s).map fun (cs, rest) => (String.ofList cs, rest)
  | '\'' :: _ => (lineString s).map fun (cs, rest) => (String.ofList cs, rest)
  | _ =>
      match s.takeWhile isBareKey with
      | [] => refuse (.expected "a key") s
      | c :: cs => .ok (String.ofList (c :: cs), s.dropWhile isBareKey)

/-- The parts of a key with dots between them, the last one apart. The fuel bounds their
number. -/
def keyFor : Nat → Reader (List String × String)
  | 0, s => refuse .tooDeep s
  | fuel + 1, s => do
      let (part, rest) ← keyPart (skipBlanks s)
      match skipBlanks rest with
      | '.' :: rest => do
          let ((parents, last), rest) ← keyFor fuel rest
          .ok ((part :: parents, last), rest)
      | rest => .ok (([], part), rest)

def key (s : List Char) : Except Error ((List String × String) × List Char) := keyFor maxDepth s

/-! ## Values -/

def scalar (s : List Char) : Except Error (Value × List Char) :=
  match s with
  | '"' :: _ => (string s).map fun (cs, rest) => (.string (String.ofList cs), rest)
  | '\'' :: _ => (string s).map fun (cs, rest) => (.string (String.ofList cs), rest)
  | 't' :: _ => (exactly "true" s).map fun (_, rest) => (.boolean true, rest)
  | 'f' :: _ => (exactly "false" s).map fun (_, rest) => (.boolean false, rest)
  | _ =>
      match date? s <|> fractional? s <|> special? s <|> integer? s with
      | some r => .ok r
      | none => refuse (.expected "a value") s

/-- The rest of an array, read from after its bracket or a comma. A comma may end it. -/
def arrayFor (item : Reader Value) : Nat → Reader (List Value)
  | 0, s => refuse (.expected "a closing bracket") s
  | fuel + 1, s => do
      match ← skipLines s with
      | ']' :: rest => .ok ([], rest)
      | s =>
          let (v, rest) ← item s
          match ← skipLines rest with
          | ',' :: rest => do
              let (vs, rest) ← arrayFor item fuel rest
              .ok (v :: vs, rest)
          | ']' :: rest => .ok ([v], rest)
          | rest => refuse (.expected "a comma or a closing bracket") rest

/-- A key with its value on one line. -/
def pair (item : Reader Value) (s : List Char) :
    Except Error ((List String × String × Value) × List Char) := do
  let ((parents, last), rest) ← key s
  match rest with
  | '=' :: rest => do
      let (v, rest) ← item (skipBlanks rest)
      .ok ((parents, last, v), rest)
  | _ => refuse (.expected "an equals sign") rest

/-- The rest of a table on one line, added to the entries so far. No comma ends it. -/
def inlineFor (item : Reader Value) : Nat → Table → Reader Table
  | 0, _, s => refuse (.expected "a closing brace") s
  | fuel + 1, t, s => do
      let ((parents, last, v), rest) ← pair item s
      match t.insertValue parents last v with
      | .error fault => refuse fault rest
      | .ok t =>
          match skipBlanks rest with
          | ',' :: rest => inlineFor item fuel t rest
          | '\x7d' :: rest => .ok (t, rest)
          | rest => refuse (.expected "a comma or a closing brace") rest

/-- A value whose inner values, if it may have any, are read by `item`. -/
def valueWith (item : Option (Reader Value)) (s : List Char) :
    Except Error (Value × List Char) :=
  match s with
  | '[' :: rest =>
      match item with
      | none => refuse .tooDeep s
      | some item => (arrayFor item s.length rest).map fun (vs, rest) => (.array vs, rest)
  | '\x7b' :: rest =>
      match item with
      | none => refuse .tooDeep s
      | some item =>
          match skipBlanks rest with
          | '\x7d' :: rest => .ok (.table [], rest)
          | rest =>
              (inlineFor item s.length Table.defined rest).map fun (t, rest) =>
                (.table t.toEntries, rest)
  | _ => scalar s

def value : Nat → Reader Value
  | 0 => valueWith none
  | depth + 1 => valueWith (some (value depth))

/-! ## Lines -/

/-- A document as far as it is read: its tables, and the place that entries go to. -/
structure Progress where
  root : Table
  place : List String

/-- The progress after a change to the root, an error if the change fails. -/
def Progress.after (place : List String) (left : List Char) :
    Except Fault Table → Except Error Progress
  | .ok root => .ok ⟨root, place⟩
  | .error fault => .error ⟨fault, left.length⟩

/-- What follows the closing brackets of a header and its line. -/
def headerEnd (closing : String) (s : List Char) : Except Error (List Char) := do
  let (_, rest) ← exactly closing s
  lineEnd rest

/-- The document from the rest of its text. The fuel bounds the number of lines. -/
def linesFor : Nat → Progress → List Char → Except Error Progress
  | 0, p, _ => .ok p
  | fuel + 1, p, s => do
      match skipBlanks s with
      | [] => .ok p
      | '#' :: rest => do
          let rest ← lineEnd ('#' :: rest)
          linesFor fuel p rest
      | '[' :: '[' :: rest => do
          let ((parents, last), rest) ← key rest
          let rest ← headerEnd "]]" rest
          let p ← Progress.after (parents ++ [last]) rest (p.root.openElement parents last)
          linesFor fuel p rest
      | '[' :: rest => do
          let ((parents, last), rest) ← key rest
          let rest ← headerEnd "]" rest
          let p ← Progress.after (parents ++ [last]) rest (p.root.openTable parents last)
          linesFor fuel p rest
      | s =>
          match newline? s with
          | some rest => linesFor fuel p rest
          | none => do
              let ((parents, last, v), rest) ← pair (value maxDepth) s
              let rest ← lineEnd rest
              let root := Table.modifyAt false (Table.insertValue parents last v) p.place p.root
              let p ← Progress.after p.place rest root
              linesFor fuel p rest

def dropMark : List Char → List Char
  | '\uFEFF' :: s => s
  | s => s

/-- The entries of the document that a text writes. -/
def read (text : String) : Except Error (List (String × Value)) :=
  let s := dropMark text.toList
  (linesFor (s.length + 1) ⟨Table.defined, []⟩ s).map fun p => p.root.toEntries

end MigrationDraft.Toml
