import MigrationDraft.Text
import MigrationDraft.Toml.Reader

set_option autoImplicit false

/-!
# Strings of a TOML text

There are four forms of string. A basic string stands between double quotes and knows escapes, a
literal string stands between single quotes and knows none. Each has a form over several lines
between three quotes, where up to two quotes in a row belong to the string, also in front of the
closing three. A line end directly after the opening quotes is no part of the string.
-/

namespace MigrationDraft.Toml

open Text

/-- The number that exactly `n` hexadecimal digits write, continuing from a number. -/
def hexNumber? : Nat → Nat → List Char → Option (Nat × List Char)
  | 0, acc, s => some (acc, s)
  | _ + 1, _, [] => none
  | n + 1, acc, c :: s => (hexValue? c).bind fun d => hexNumber? n (16 * acc + d) s

def codePoint? (digits : Nat) (s : List Char) : Option (Char × List Char) :=
  (hexNumber? digits 0 s).bind fun (n, rest) =>
    if h : n.isValidChar then some (Char.ofNatAux n h, rest) else none

/-- The character that an escape stands for, read from after its backslash. -/
def escaped? : List Char → Option (Char × List Char)
  | 'b' :: s => some ('\x08', s)
  | 't' :: s => some ('\t', s)
  | 'n' :: s => some ('\n', s)
  | 'f' :: s => some ('\x0c', s)
  | 'r' :: s => some ('\r', s)
  | '"' :: s => some ('"', s)
  | '\\' :: s => some ('\\', s)
  | 'u' :: s => codePoint? 4 s
  | 'U' :: s => codePoint? 8 s
  | _ => none

def skipBlankLines : List Char → List Char
  | ' ' :: s => skipBlankLines s
  | '\t' :: s => skipBlankLines s
  | '\n' :: s => skipBlankLines s
  | '\r' :: '\n' :: s => skipBlankLines s
  | s => s

/-- The rest of a line-ending escape, read from after its backslash: blanks, a line end, and all
blanks and line ends after it. -/
def continuation? (s : List Char) : Option (List Char) :=
  (newline? (skipBlanks s)).map skipBlankLines

/-- The rest of a basic string and its opening quote is behind. The fuel bounds its length. -/
def basicFor : Nat → Reader (List Char)
  | 0, s => refuse (.expected "a closing quote") s
  | _ + 1, [] => refuse (.expected "a closing quote") []
  | _ + 1, '"' :: s => .ok ([], s)
  | fuel + 1, '\\' :: s =>
      match escaped? s with
      | some (c, rest) => (basicFor fuel rest).map fun (cs, t) => (c :: cs, t)
      | none => refuse (.expected "an escape") s
  | fuel + 1, c :: s =>
      if isPrintable c then (basicFor fuel s).map fun (cs, t) => (c :: cs, t)
      else refuse (.expected "a printable character") (c :: s)

def literal (s : List Char) : Except Error (List Char × List Char) :=
  match s.dropWhile fun c => isPrintable c && c != '\'' with
  | '\'' :: rest => .ok (s.takeWhile fun c => isPrintable c && c != '\'', rest)
  | other => refuse (.expected "a closing quote") other

/-- The quotes of a run that belong to a string over several lines, if the run closes it: all
but three, and at most two. -/
def closingRun? (quote : Char) (s : List Char) : Option (List Char × List Char) :=
  match s with
  | a :: b :: c :: rest =>
      if a = quote ∧ b = quote ∧ c = quote then
        match rest with
        | d :: e :: rest' =>
            if d = quote ∧ e = quote then some ([quote, quote], rest')
            else if d = quote then some ([quote], e :: rest')
            else some ([], d :: e :: rest')
        | [d] => if d = quote then some ([quote], []) else some ([], [d])
        | [] => some ([], [])
      else none
  | _ => none

/-- The rest of a string over several lines, with or without escapes, its opening quotes are
behind. The fuel bounds its length. -/
def multilineFor (quote : Char) (escapes : Bool) : Nat → Reader (List Char)
  | 0, s => refuse (.expected "closing quotes") s
  | _ + 1, [] => refuse (.expected "closing quotes") []
  | fuel + 1, c :: s =>
      let put (d : Char) (rest : List Char) : Except Error (List Char × List Char) :=
        (multilineFor quote escapes fuel rest).map fun (cs, t) => (d :: cs, t)
      match newline? (c :: s) with
      | some rest => put '\n' rest
      | none =>
          if c = quote then
            match closingRun? quote (c :: s) with
            | some r => .ok r
            | none => put c s
          else if escapes && c == '\\' then
            match continuation? s with
            | some rest => multilineFor quote escapes fuel rest
            | none =>
                match escaped? s with
                | some (d, rest) => put d rest
                | none => refuse (.expected "an escape") s
          else if isPrintable c then put c s
          else refuse (.expected "a printable character") (c :: s)

/-- The rest of a string over several lines, a line end at its start left out. -/
def multiline (quote : Char) (escapes : Bool) (s : List Char) :
    Except Error (List Char × List Char) :=
  let body := (newline? s).getD s
  multilineFor quote escapes (body.length + 1) body

/-- A string on one line, as it may also stand for a key. -/
def lineString : Reader (List Char)
  | '"' :: s => basicFor (s.length + 1) s
  | '\'' :: s => literal s
  | s => refuse (.expected "a string") s

def string : Reader (List Char)
  | '"' :: '"' :: '"' :: s => multiline '"' true s
  | '\'' :: '\'' :: '\'' :: s => multiline '\'' false s
  | s => lineString s

end MigrationDraft.Toml
