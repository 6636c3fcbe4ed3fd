import MigrationDraft.Files
import MigrationDraft.Text

set_option autoImplicit false

/-!
# File trees

A file system as a tree of directories and files, read from a working directory. A path is
walked step by step. Every step but the last has to lead to a directory, a step up from the
root stays there, and a name or a path may be too long.
-/

namespace MigrationDraft

/-- A file with its bytes or a directory with its named entries. -/
inductive FileTree where
  | file (bytes : ByteArray)
  | directory (entries : List (String × FileTree))

namespace FileTree

def child? : FileTree → String → Option FileTree
  | .directory entries, name => entries.lookup name
  | .file _, _ => none

@[simp] theorem child?_directory (entries : List (String × FileTree)) (name : String) :
    (directory entries).child? name = entries.lookup name := rfl

@[simp] theorem child?_file (bytes : ByteArray) (name : String) :
    (file bytes).child? name = none := rfl

/-- The entries with a tree at a name, in place if the name is taken. -/
def setEntry (name : String) (t : FileTree) :
    List (String × FileTree) → List (String × FileTree)
  | [] => [(name, t)]
  | (n, u) :: es => if n = name then (n, t) :: es else (n, u) :: setEntry name t es

/-- The tree with another at the place that the names lead to. Missing directories are made,
and a file on the way gives way to one. A directory that is to be made stays if it is there. -/
def insert (new : FileTree) : List String → FileTree → FileTree
  | [], old =>
      match new, old with
      | .directory [], .directory entries => .directory entries
      | _, _ => new
  | name :: names, .directory entries =>
      .directory (setEntry name (insert new names ((entries.lookup name).getD (.directory [])))
        entries)
  | name :: names, .file _ => .directory [(name, insert new names (.directory []))]

/-- The tree at the place that the names lead to. -/
def get? (t : FileTree) : List String → Option FileTree
  | [] => some t
  | name :: names => (t.child? name).bind fun u => u.get? names

@[simp] theorem get?_nil (t : FileTree) : t.get? [] = some t := rfl

@[simp] theorem get?_cons (t : FileTree) (name : String) (names : List String) :
    t.get? (name :: names) = (t.child? name).bind fun u => u.get? names := rfl

/-! ## Paths

A name may have `maxNameSize` bytes, and a path has to have fewer than `pathSizeLimit`. -/

def maxNameSize : Nat := 255
def pathSizeLimit : Nat := 4096

/-- The place that the steps of a path lead to from a place in the tree. -/
def walk (t : FileTree) : List String → List String → Except ReadError (List String)
  | place, [] => .ok place
  | place, step :: steps =>
      match t.get? place with
      | none => .error .notFound
      | some (.file _) => .error .notDirectory
      | some (.directory entries) =>
          if step = "" ∨ step = "." then walk t place steps
          else if step = ".." then walk t place.dropLast steps
          else if maxNameSize < step.utf8ByteSize then .error .nameTooLong
          else if (entries.lookup step).isNone then .error .notFound
          else walk t (place ++ [step]) steps

/-- What a path leads to from a working directory. -/
def resolve (t : FileTree) (working : List String) (path : String) :
    Except ReadError FileTree :=
  if path.toList.contains '\x00' then .error .zeroInName
  else if path = "" then .error .notFound
  else if pathSizeLimit ≤ path.utf8ByteSize then .error .nameTooLong
  else
    let start := if Text.startsWith ['/'] path.toList then [] else working
    match t.walk start ((path.toList.splitOn '/').map String.ofList) with
    | .error e => .error e
    | .ok place =>
        match t.get? place with
        | some u => .ok u
        | none => .error .notFound

def read (t : FileTree) (working : List String) (path : String) : Except ReadError String :=
  match t.resolve working path with
  | .error e => .error e
  | .ok (.directory _) => .error .isDirectory
  | .ok (.file bytes) => textOfBytes bytes

def isFile (t : FileTree) (working : List String) (path : String) : Bool :=
  match t.resolve working path with
  | .ok (.file _) => true
  | _ => false

/-- The tree as it is seen from a working directory. -/
def files (t : FileTree) (working : List String) : Files :=
  ⟨t.isFile working, t.read working⟩

end FileTree

end MigrationDraft
