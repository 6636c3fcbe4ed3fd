import MigrationDraft.Toml.Reader

set_option autoImplicit false

/-!
# Numbers of a TOML text

Integers fit into 64 bits with a sign. They are decimal, or have a base prefix and no sign. A
number with a fraction or an exponent must not exceed what a double-precision number holds.
Underscores may stand between two digits, and a decimal number has no leading zero.
-/

namespace MigrationDraft.Toml

/-- A run of one or more digits, single underscores between them left out. -/
def digits? (isDigit : Char → Bool) : List Char → Option (List Char × List Char)
  | c :: '_' :: s =>
      if isDigit c then (digits? isDigit s).map fun (ds, rest) => (c :: ds, rest) else none
  | c :: s =>
      if isDigit c then
        match digits? isDigit s with
        | some (ds, rest) => some (c :: ds, rest)
        | none => some ([c], s)
      else none
  | [] => none

/-- A sign at the front of a text, true for minus, and what follows it. -/
def sign : List Char → Bool × List Char
  | '+' :: s => (false, s)
  | '-' :: s => (true, s)
  | s => (false, s)

/-- A decimal run of digits without a leading zero. -/
def decimal? : List Char → Option (List Char × List Char)
  | '0' :: s => some (['0'], s)
  | s => digits? Char.isDigit s

def digitValue (c : Char) : Nat :=
  if c.isDigit then c.toNat - '0'.toNat
  else if c.isUpper then c.toNat - 'A'.toNat + 10
  else c.toNat - 'a'.toNat + 10

def numberOf (base : Nat) (digits : List Char) : Nat :=
  digits.foldl (fun n c => base * n + digitValue c) 0

/-- The least number that is too great for 64 bits with a sign. -/
def integerBound : Int := 0x8000000000000000

def fitting? (n : Int) : Option Int :=
  if -integerBound ≤ n ∧ n < integerBound then some n else none

def isDigitOf (base : Nat) (c : Char) : Bool :=
  (c.isDigit || ('a' ≤ c && c ≤ 'f') || ('A' ≤ c && c ≤ 'F')) && digitValue c < base

/-- An integer with a base prefix, read from after the prefix. -/
def based? (base : Nat) (s : List Char) : Option (Value × List Char) :=
  (digits? (isDigitOf base) s).bind fun (ds, rest) =>
    (fitting? (numberOf base ds)).map fun n => (.integer n, rest)

def integer? (s : List Char) : Option (Value × List Char) :=
  match s with
  | '0' :: 'x' :: rest => based? 16 rest
  | '0' :: 'o' :: rest => based? 8 rest
  | '0' :: 'b' :: rest => based? 2 rest
  | _ =>
      let (negative, body) := sign s
      (decimal? body).bind fun (ds, rest) =>
        let n : Int := numberOf 10 ds
        (fitting? (if negative then -n else n)).map fun n => (.integer n, rest)

/-! ## Fractions and exponents -/

/-- The fraction of a number, with its point. -/
def fraction? : List Char → Option (List Char × List Char)
  | '.' :: s => digits? Char.isDigit s
  | _ => none

/-- The exponent of a number, with its letter. -/
def exponent? (s : List Char) : Option (Int × List Char) :=
  let read (rest : List Char) : Option (Int × List Char) :=
    let (negative, body) := sign rest
    (digits? Char.isDigit body).map fun (ds, t) =>
      let n : Int := numberOf 10 ds
      (if negative then -n else n, t)
  match s with
  | 'e' :: rest => read rest
  | 'E' :: rest => read rest
  | _ => none

/-- The least number that rounds to infinity: half a step above the greatest double. -/
def overflowBound : Nat := Nat.pow 2 1024 - Nat.pow 2 970

/-- The number `mantissa * 10 ^ exponent` rounds to infinity. Numbers far away from the bound
are told by their length. -/
def overflows (mantissa : Nat) (exponent : Int) : Bool :=
  let length : Int := (Nat.toDigits 10 mantissa).length
  if mantissa = 0 then false
  else if length + exponent < 300 then false
  else if 400 < length + exponent then true
  else if 0 ≤ exponent then decide (overflowBound ≤ mantissa * Nat.pow 10 exponent.toNat)
  else decide (overflowBound * Nat.pow 10 (-exponent).toNat ≤ mantissa)

/-- A number with a fraction, an exponent or both. Only a positive one may be too great. -/
def fractional? (s : List Char) : Option (Value × List Char) :=
  let (negative, body) := sign s
  (decimal? body).bind fun (whole, afterWhole) =>
    let part := fraction? afterWhole
    let (fractionDigits, afterFraction) := part.getD ([], afterWhole)
    let power := exponent? afterFraction
    let (exponent, rest) := power.getD (0, afterFraction)
    let mantissa := numberOf 10 (whole ++ fractionDigits)
    if part.isNone && power.isNone then none
    else if !negative && overflows mantissa (exponent - fractionDigits.length) then none
    else some (.float (String.ofList (s.take (s.length - rest.length))), rest)

/-- One of the words for infinity and for no number, with or without a sign. -/
def special? (s : List Char) : Option (Value × List Char) :=
  match (sign s).2 with
  | 'i' :: 'n' :: 'f' :: rest =>
      some (.float (String.ofList (s.take (s.length - rest.length))), rest)
  | 'n' :: 'a' :: 'n' :: rest =>
      some (.float (String.ofList (s.take (s.length - rest.length))), rest)
  | _ => none

end MigrationDraft.Toml
