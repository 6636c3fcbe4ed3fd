import MigrationDraft.Text

set_option autoImplicit false

/-!
# Paths and files

Paths are texts with slashes between their steps. Two operations look inside them: a name is put
behind a directory, and a path is taken apart into the steps that tell it from other paths.

What a run sees of the file system is which paths are regular files, and the text that each path
reads as. A path that cannot be read has a cause. Only one cause means that there is nothing
at the path; all others say that what is there is not a readable text.
-/

namespace MigrationDraft

namespace Path

/-! ## Paths -/

/-- The path of a name inside a directory. An absolute name is a path of its own, and the empty
directory is the working directory. -/
def join (directory name : String) : String :=
  if Text.startsWith ['/'] name.toList then name
  else if directory = "" ∨ Text.endsWith ['/'] directory.toList = true then directory ++ name
  else directory ++ "/" ++ name

/-- The steps of a path in order. The root is the step `/`. A step to the same directory counts
only at the very front, and slashes that follow each other count once. -/
def components (path : String) : List String :=
  let names := (path.toList.splitOn '/').map String.ofList
  let steps := names.filter fun n => n ≠ "" && n ≠ "."
  if Text.startsWith ['/'] path.toList then "/" :: steps
  else if names.head? = some "." then "." :: steps
  else steps

end Path

/-! ## Files -/

/-- Why a path cannot be read as a text. -/
inductive ReadError where
  /-- There is nothing at the path. -/
  | notFound
  /-- A step of the path leads on from something that is no directory. -/
  | notDirectory
  /-- A directory is at the path. -/
  | isDirectory
  /-- The path or a name in it is too long. -/
  | nameTooLong
  /-- The bytes of the file are not the encoding of a text. -/
  | invalidText
  /-- The path holds a character with which the system would end it. -/
  | zeroInName
  /-- The system gives another cause. -/
  | other (description : String)
  deriving DecidableEq, Repr

def ReadError.message : ReadError → String
  | .notFound => "No such file or directory (os error 2)"
  | .notDirectory => "Not a directory (os error 20)"
  | .isDirectory => "Is a directory (os error 21)"
  | .nameTooLong => "File name too long (os error 36)"
  | .invalidText => "stream did not contain valid UTF-8"
  | .zeroInName => "file name contained an unexpected NUL byte"
  | .other description => description

def textOfBytes (bytes : ByteArray) : Except ReadError String :=
  match String.fromUTF8? bytes with
  | some text => .ok text
  | none => .error .invalidText

/-- The bytes of a text give it back. -/
theorem textOfBytes_toUTF8 (text : String) : textOfBytes text.toUTF8 = .ok text := by
  have h : String.fromUTF8? text.toUTF8 = some text := by
    rw [String.fromUTF8?, dif_pos (show text.toUTF8.IsValidUTF8 from text.isValidUTF8)]
    rfl
  rw [textOfBytes, h]

/-- The paths that a run can see. -/
structure Files where
  isFile : String → Bool
  read : String → Except ReadError String

end MigrationDraft
