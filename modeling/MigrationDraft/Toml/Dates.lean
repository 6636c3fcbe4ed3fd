import MigrationDraft.Toml.Reader

set_option autoImplicit false

/-!
# Dates and times of a TOML text

A date, a time of day, or both with or without an offset from universal time. Months have their
own number of days, the twenty-ninth of February belongs to leap years only, and the second 60
is there for leap seconds.
-/

namespace MigrationDraft.Toml

/-- The number that exactly `n` decimal digits write, continuing from a number. -/
def fixedNumber? : Nat → Nat → List Char → Option (Nat × List Char)
  | 0, acc, s => some (acc, s)
  | _ + 1, _, [] => none
  | n + 1, acc, c :: s =>
      if c.isDigit then fixedNumber? n (10 * acc + (c.toNat - '0'.toNat)) s else none

/-- Two digits that write a number between two bounds. -/
def between? (low high : Nat) (s : List Char) : Option (Nat × List Char) :=
  (fixedNumber? 2 0 s).bind fun (n, rest) => if low ≤ n ∧ n ≤ high then some (n, rest) else none

/-- What follows a given character. -/
def after? (c : Char) : List Char → Option (List Char)
  | d :: s => if d = c then some s else none
  | [] => none

def isLeapYear (year : Nat) : Bool := year % 4 = 0 && (year % 100 ≠ 0 || year % 400 = 0)

def daysOfMonth (year month : Nat) : Nat :=
  if month = 2 then (if isLeapYear year then 29 else 28)
  else if month ∈ [4, 6, 9, 11] then 30
  else 31

def afterDate? (s : List Char) : Option (List Char) := do
  let (year, s) ← fixedNumber? 4 0 s
  let s ← after? '-' s
  let (month, s) ← between? 1 12 s
  let s ← after? '-' s
  let (_, s) ← between? 1 (daysOfMonth year month) s
  some s

def afterTime? (s : List Char) : Option (List Char) := do
  let (_, s) ← between? 0 23 s
  let s ← after? ':' s
  let (_, s) ← between? 0 59 s
  let s ← after? ':' s
  let (_, s) ← between? 0 60 s
  match s with
  | '.' :: c :: rest => if c.isDigit then some (rest.dropWhile Char.isDigit) else some s
  | _ => some s

def afterOffset? : List Char → Option (List Char)
  | 'Z' :: s => some s
  | 'z' :: s => some s
  | c :: s => do
      let _ ← if c = '+' ∨ c = '-' then some () else none
      let (_, s) ← between? 0 23 s
      let s ← after? ':' s
      let (_, s) ← between? 0 59 s
      some s
  | [] => none

/-- What follows a time of day that a separator ties to a date, its offset included. -/
def afterTimeOfDate? : List Char → Option (List Char)
  | c :: s =>
      if c = 'T' ∨ c = 't' ∨ c = ' ' then
        (afterTime? s).map fun rest => (afterOffset? rest).getD rest
      else none
  | [] => none

def date? (s : List Char) : Option (Value × List Char) :=
  let rest? :=
    match afterDate? s with
    | some rest => some ((afterTimeOfDate? rest).getD rest)
    | none => afterTime? s
  rest?.map fun rest => (.date (String.ofList (s.take (s.length - rest.length))), rest)

end MigrationDraft.Toml
