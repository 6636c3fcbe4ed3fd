import MigrationDraft.Column
import MigrationDraft.Inflection
import MigrationDraft.Text

set_option autoImplicit false

/-!
# Reading the column shorthand

    email:string(100):unique:default('a@b.c'), user_id:integer:foreign

A text holds columns between its outer commas, those that do not stand inside parentheses. The
depth of parentheses saturates: a closing parenthesis too many leaves it at zero, so that a
stray one does not hide the commas after it. The pieces between the outer commas are kept as
they are. Joined with commas again they give back the text.

A column's segments stand between colons: its name, its type with arguments, and any number of
modifiers. A type may carry arguments, `decimal(5,2)`, and a modifier a value, `default(21)`. Both
are a head, a non-empty inside without a closing parenthesis, and that parenthesis; what follows
it is ignored. They differ in the head: for a type it is all that comes before the first opening
parenthesis, for a modifier it is one or more ASCII letters.

Reading never fails. A missing type is the empty type, a modifier that fits no form is left out,
and a blank column is no column.

Two forms stand for something else. A column without a name whose type is `timestamps` is the
marker. The modifier `foreign` asks for a foreign key: it gives way to a companion column that
refers to the table the column is named after.
-/

namespace MigrationDraft.Shorthand

/-! ## Groups in parentheses -/

/-- The inside of a group, read from just after its opening parenthesis. There is none when it
would be empty or when the group is not closed. -/
def inside? (s : List Char) : Option (List Char) :=
  match s.takeWhile (· ≠ ')'), s.dropWhile (· ≠ ')') with
  | c :: inner, _ :: _ => some (c :: inner)
  | _, _ => none

/-- The head of a type and the inside of the group after it. -/
def typeGroup? (s : List Char) : Option (List Char × List Char) :=
  match s.dropWhile (· ≠ '(') with
  | [] => none
  | _ :: rest => (inside? rest).map fun inner => (s.takeWhile (· ≠ '('), inner)

/-- The key of a modifier and the value in the group after it. -/
def optionGroup? (s : List Char) : Option (List Char × List Char) :=
  match s.takeWhile Char.isAlpha, s.dropWhile Char.isAlpha with
  | c :: key, '(' :: rest => (inside? rest).map fun value => (c :: key, value)
  | _, _ => none

/-- The inside of a group is what stands before the first closing parenthesis. -/
theorem inside?_eq_some_iff {s inner : List Char} :
    inside? s = some inner ↔ inner ≠ [] ∧ ')' ∉ inner ∧ ∃ rest, s = inner ++ ')' :: rest := by
  constructor
  · intro h
    unfold inside? at h
    split at h
    · next c inner' d rest htake hdrop =>
        cases h
        obtain ⟨hs, hall, hd⟩ := Text.eq_append_of_dropWhile_eq_cons hdrop
        have hclose : d = ')' := by simpa using hd
        rw [htake] at hs hall
        refine ⟨by simp, fun hm => ?_, rest, by rw [hs, hclose]⟩
        simpa using hall _ hm
    · cases h
  · rintro ⟨hne, hmem, rest, rfl⟩
    have hall := Text.decide_ne_of_not_mem hmem
    unfold inside?
    rw [Text.takeWhile_append_cons hall (by simp), Text.dropWhile_append_cons hall (by simp)]
    cases inner with
    | nil => exact absurd rfl hne
    | cons c inner => rfl

/-! ## Outer commas -/

def nextDepth (depth : Nat) (c : Char) : Nat :=
  if c = '(' then depth + 1 else if c = ')' then depth - 1 else depth

/-- The depth at the end of a text that starts at the given depth. -/
def depthAfter (depth : Nat) (s : List Char) : Nat := s.foldl nextDepth depth

section

variable (depth : Nat) (c : Char) (a b : List Char)

@[simp] theorem depthAfter_nil : depthAfter depth [] = depth := rfl

@[simp] theorem depthAfter_cons :
    depthAfter depth (c :: a) = depthAfter (nextDepth depth c) a := rfl

@[simp] theorem depthAfter_append :
    depthAfter depth (a ++ b) = depthAfter (depthAfter depth a) b :=
  List.foldl_append

end

/-- The pieces of a text that starts at the given depth, cut at the commas of depth zero. -/
def piecesFrom : Nat → List Char → List (List Char)
  | _, [] => [[]]
  | depth, c :: s =>
      if c = ',' ∧ depth = 0 then [] :: piecesFrom 0 s
      else (piecesFrom (nextDepth depth c) s).modifyHead (c :: ·)

def pieces (s : List Char) : List (List Char) := piecesFrom 0 s

/-- There is always a piece. -/
theorem piecesFrom_ne_nil (depth : Nat) (s : List Char) : piecesFrom depth s ≠ [] := by
  induction s generalizing depth with
  | nil => simp [piecesFrom]
  | cons c s ih =>
      rw [piecesFrom]
      split
      · simp
      · cases h : piecesFrom (nextDepth depth c) s with
        | nil => exact absurd h (ih _)
        | cons p ps => simp

/-- A character put in front of the first of some lists comes first when they are joined. -/
theorem intercalate_modifyHead_cons (sep : List Char) (c : Char) {ls : List (List Char)}
    (h : ls ≠ []) : sep.intercalate (ls.modifyHead (c :: ·)) = c :: sep.intercalate ls := by
  match ls with
  | [] => exact absurd rfl h
  | [l] => simp [List.intercalate]
  | l :: m :: ls => simp [List.intercalate]

/-- Nothing is lost: the pieces joined with commas are the text. -/
theorem intercalate_piecesFrom (depth : Nat) (s : List Char) :
    [','].intercalate (piecesFrom depth s) = s := by
  induction s generalizing depth with
  | nil => rfl
  | cons c s ih =>
      rw [piecesFrom]
      split
      · next h =>
          cases hp : piecesFrom 0 s with
          | nil => exact absurd hp (piecesFrom_ne_nil _ _)
          | cons p ps =>
              have := ih 0
              rw [hp] at this
              rw [h.1, ← this]
              simp [List.intercalate]
      · rw [intercalate_modifyHead_cons _ _ (piecesFrom_ne_nil _ _), ih]

/-! ## Columns -/

/-- A modifier with the value in its group, or a bare one that has no opening parenthesis. -/
def option? (token : List Char) : Option (String × OptionValue) :=
  if '(' ∈ token then
    (optionGroup? token).map fun (key, value) =>
      (String.ofList key, .literal (String.ofList value))
  else if token.isEmpty then none
  else some (String.ofList token, .flag)

def typeOf (segment : List Char) : String × List String :=
  match typeGroup? segment with
  | some (head, inner) =>
      (String.ofList head, (inner.splitOn ',').map fun a => String.ofList (Text.trim a))
  | none => (String.ofList segment, [])

/-- The modifiers that the tokens of a column give, those that fit no form left out. -/
def optionsOf (tokens : List (List Char)) : Options :=
  Options.ofList (tokens.filterMap fun t => option? (Text.trim t))

def fieldOfSegments : List (List Char) → Field
  | [] => ⟨"", "", [], Options.empty⟩
  | [name] => ⟨String.ofList (Text.trim name), "", [], Options.empty⟩
  | name :: type :: tokens =>
      let (head, arguments) := typeOf (Text.trim type)
      ⟨String.ofList (Text.trim name), head, arguments, optionsOf tokens⟩

/-- A column as it is written, its modifier `foreign` included. -/
def field (text : List Char) : Field := fieldOfSegments (text.splitOn ':')

/-- The name of the thing that a key column points to, which is the column's own name without
the ending `_id`. -/
def referencedName (column : String) : String :=
  match Text.dropSuffix? "_id".toList column.toList with
  | some stem => String.ofList stem
  | none => column

def quoted (text : String) : String := "'" ++ text ++ "'"

@[simp] theorem toList_quoted (text : String) :
    (quoted text).toList = '\'' :: (text.toList ++ ['\'']) := by
  simp [quoted]

@[simp] theorem quoted_ne_empty (text : String) : quoted text ≠ "" := by
  simp [quoted]

def foreignKey (column : String) : Field :=
  ((Field.plain column "foreign").withOption "references" (.literal (quoted "id"))).withOption
    "on" (.literal (quoted (Inflection.pluralize (referencedName column))))

section

variable (column : String)

@[simp] theorem name_foreignKey : (foreignKey column).name = column := rfl

@[simp] theorem type_foreignKey : (foreignKey column).type = "foreign" := rfl

@[simp] theorem arguments_foreignKey : (foreignKey column).arguments = [] := rfl

/-- The modifiers of a companion: the column it refers to, and that column's table. -/
@[simp] theorem options_foreignKey :
    (foreignKey column).options.toList
      = [("references", .literal (quoted "id")),
        ("on", .literal (quoted (Inflection.pluralize (referencedName column))))] := by
  simp [foreignKey, Field.plain, Options.insertEntry]

@[simp] theorem keys_foreignKey : (foreignKey column).options.keys = ["references", "on"] := by
  simp [Options.keys]

end

/-- The entries of a schema that a written column stands for. -/
def expand (f : Field) : List Column :=
  if f.name = "" ∧ f.type = "timestamps" then [.timestamps]
  else if f.options.contains "foreign" then
    [.field { f with options := f.options.erase "foreign" }, .field (foreignKey f.name)]
  else [.field f]

/-- The entries that a piece of a shorthand text gives: none if it is blank. -/
def columnsOfPiece (piece : List Char) : List Column :=
  match Text.trim piece with
  | [] => []
  | c :: text => expand (field (c :: text))

end MigrationDraft.Shorthand

namespace MigrationDraft

def Schema.ofShorthand (text : String) : Schema :=
  (Shorthand.pieces text.toList).flatMap Shorthand.columnsOfPiece

end MigrationDraft
