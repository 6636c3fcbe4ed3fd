import MigrationDraft.Text

set_option autoImplicit false

/-!
# Templates

A template is a text with slots. In its source a slot is written as a token, its name between
double braces. A source is completed one name at a time by `fill`, a textual replacement that
knows nothing of slots, so a token inside a value that was filled in earlier is filled as well.
Beside it stands `substitute`, which fills all slots of a template at once.
-/

namespace MigrationDraft

/-- A stretch of text or a named slot. -/
inductive Piece where
  /-- Text that stays. -/
  | text (source : String)
  /-- A place for a text. -/
  | slot (name : String)
  deriving DecidableEq, Repr

abbrev Template := List Piece

namespace Template

/-- The token of a slot in a source. -/
def token (name : String) : String := "\x7b\x7b" ++ name ++ "\x7d\x7d"

def pieceSource : Piece → String
  | .text source => source
  | .slot name => token name

def source (t : Template) : String := String.join (t.map pieceSource)

theorem toList_token (name : String) :
    (token name).toList = '\x7b' :: '\x7b' :: (name.toList ++ ['\x7d', '\x7d']) := by
  simp [token]

@[simp] theorem source_nil : source [] = "" := rfl

@[simp] theorem source_append (t u : Template) : source (t ++ u) = source t ++ source u := by
  simp [source, String.join_append]

@[simp] theorem source_cons_text (s : String) (t : Template) :
    source (.text s :: t) = s ++ source t := by
  simp [source, pieceSource]

@[simp] theorem source_cons_slot (name : String) (t : Template) :
    source (.slot name :: t) = token name ++ source t := by
  simp [source, pieceSource]

/-- The template with a text for each slot to which `values` gives one. -/
def substitute (values : String → Option String) (t : Template) : Template :=
  t.map fun
    | .text source => .text source
    | .slot name =>
        match values name with
        | some value => .text value
        | none => .slot name

section

variable (values : String → Option String)

@[simp] theorem substitute_nil : substitute values [] = [] := rfl

@[simp] theorem substitute_append (t u : Template) :
    substitute values (t ++ u) = substitute values t ++ substitute values u :=
  List.map_append

@[simp] theorem substitute_cons_text (s : String) (t : Template) :
    substitute values (.text s :: t) = .text s :: substitute values t := rfl

@[simp] theorem substitute_cons_slot (name : String) (t : Template) :
    substitute values (.slot name :: t)
      = ((values name).map Piece.text).getD (.slot name) :: substitute values t := by
  cases h : values name <;> simp [substitute, h]

@[simp] theorem substitute_none (t : Template) : substitute (fun _ => none) t = t := by
  induction t with
  | nil => rfl
  | cons p t ih => cases p <;> simp [ih]

end

end Template

/-- The source with every token of a name replaced by a value. -/
def fill (source name value : String) : String :=
  String.ofList (Text.replace (Template.token name).toList value.toList source.toList)

theorem toList_fill (source name value : String) :
    (fill source name value).toList
      = Text.replace (Template.token name).toList value.toList source.toList :=
  String.toList_ofList

end MigrationDraft
