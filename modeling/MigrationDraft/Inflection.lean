import MigrationDraft.Text
import MigrationDraft.Text.LetterCase

set_option autoImplicit false

/-!
# English nouns in table names

The plural and the singular of a noun, by tables of exceptions and rules on endings. A name may
consist of several words joined by underscores: only its last word is inflected, so the plural
of `blog_post` is `blog_posts`. The rules of each direction form a cascade, and the first that
applies decides.
-/

namespace MigrationDraft.Inflection

/-! ## Exceptions -/

/-- Nouns whose plural follows no rule, singular before plural. -/
def irregularNouns : List (String × String) :=
  [("person", "people"), ("child", "children"), ("man", "men"), ("woman", "women"),
    ("mouse", "mice"), ("goose", "geese"), ("tooth", "teeth"), ("foot", "feet"),
    ("knife", "knives"), ("wife", "wives"), ("life", "lives"), ("quiz", "quizzes"),
    ("menu", "menus")]

/-- Nouns that have one form for both numbers. -/
def uncountableNouns : List String :=
  ["sheep", "fish", "series", "species", "news", "equipment", "information"]

/-- Singulars that end in `ie`, and so do not change it for a `y`. -/
def ieNouns : List String :=
  ["movie", "cookie", "pie", "tie", "lie", "zombie", "calorie", "rookie", "selfie"]

/-- Singulars that end in `che`, and so keep its `e`. -/
def cheNouns : List String :=
  ["cache", "niche", "headache", "avalanche", "moustache", "cliche"]

def isIn (words : List String) (w : List Char) : Bool := words.any fun s => s.toList == w

/-- The empty word and the uncountable nouns are their own plural and singular. -/
def isInvariable (w : List Char) : Bool := w.isEmpty || isIn uncountableNouns w

def endsInVowel (w : List Char) : Bool :=
  match w.getLast? with
  | some c => c ∈ ['a', 'e', 'i', 'o', 'u']
  | none => false

def endsInAny (endings : List String) (w : List Char) : Bool :=
  endings.any fun e => Text.endsWith e.toList w

@[simp] theorem endsInAny_nil (w : List Char) : endsInAny [] w = false := rfl

@[simp] theorem endsInAny_cons (e : String) (es : List String) (w : List Char) :
    endsInAny (e :: es) w = (Text.endsWith e.toList w || endsInAny es w) := rfl

/-! ## Plural -/

def irregularPlural? (w : List Char) : Option (List Char) :=
  (irregularNouns.find? fun e => e.1.toList == w).map fun e => e.2.toList

/-- A `y` after a consonant becomes `ies`. -/
def pluralInIes? (w : List Char) : Option (List Char) :=
  (Text.dropSuffix? "y".toList w).bind fun stem =>
    if !stem.isEmpty && !endsInVowel stem then some (stem ++ "ies".toList) else none

/-- A word with a hissing ending takes `es`, any other takes `s`. -/
def regularPlural (w : List Char) : List Char :=
  if endsInAny ["s", "x", "z", "ch", "sh"] w then w ++ "es".toList else w ++ "s".toList

def pluralWord (w : List Char) : List Char :=
  if isInvariable w then w
  else (irregularPlural? w <|> pluralInIes? w).getD (regularPlural w)

/-! ## Singular -/

def irregularSingular? (w : List Char) : Option (List Char) :=
  (irregularNouns.find? fun e => e.2.toList == w).map fun e => e.1.toList

/-- A word in `ss` or `us` is a singular already. -/
def singularInSsOrUs? (w : List Char) : Option (List Char) :=
  if endsInAny ["ss", "us"] w then some w else none

/-- A plural in `ies` comes from a noun in `ie` if there is such a noun, else from one in `y`. -/
def singularOfIes? (w : List Char) : Option (List Char) :=
  (Text.dropSuffix? "ies".toList w).bind fun stem =>
    if isIn ieNouns (stem ++ "ie".toList) then some (stem ++ "ie".toList)
    else if !stem.isEmpty then some (stem ++ "y".toList)
    else none

/-- A stem in `us` before the ending `es` is a noun of its own when a consonant comes before
the `us`, as in `buses` and `statuses`; `houses` and `causes` keep their `e`. -/
def isUsStem (stem : List Char) : Bool :=
  match Text.dropSuffix? "us".toList stem with
  | some head => !head.isEmpty && !endsInVowel head
  | none => false

/-- A plural in `es` loses both letters after a hissing ending, except for the nouns in `che`. -/
def singularOfEs? (w : List Char) : Option (List Char) :=
  (Text.dropSuffix? "es".toList w).bind fun stem =>
    if endsInAny ["ss", "x", "zz", "ch", "sh"] stem && !isIn cheNouns (stem ++ "e".toList) then
      some stem
    else if isUsStem stem then some stem
    else none

/-- A plural in `s` loses it, unless nothing would be left. -/
def singularOfS? (w : List Char) : Option (List Char) :=
  (Text.dropSuffix? "s".toList w).bind fun stem => if stem.isEmpty then none else some stem

def singularWord (w : List Char) : List Char :=
  if isInvariable w then w
  else
    (irregularSingular? w <|> singularInSsOrUs? w <|> singularOfIes? w <|> singularOfEs? w
      <|> singularOfS? w).getD w

/-! ## Names of several words -/

def modifyLast {α : Type} (f : α → α) : List α → List α
  | [] => []
  | [a] => [f a]
  | a :: b :: l => a :: modifyLast f (b :: l)

/-- The name with `f` applied to what follows its last underscore. -/
def onLastWord (f : List Char → List Char) (w : List Char) : List Char :=
  ['_'].intercalate (modifyLast f (w.splitOn '_'))

def pluralize (name : String) : String := String.ofList (onLastWord pluralWord name.toList)

def singularize (name : String) : String := String.ofList (onLastWord singularWord name.toList)

/-- The characters at which a name falls into words when it becomes a class name. -/
def isWordBreak (c : Char) : Bool := c == '_' || c == '-' || c == ' '

/-- The words of a name run together, each with a capital letter: `create_posts_table` becomes
`CreatePostsTable`. -/
def pascalCase (name : String) : String :=
  String.ofList ((name.toList.splitOnP isWordBreak).flatMap Text.capitalize)

end MigrationDraft.Inflection
