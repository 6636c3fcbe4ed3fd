import MigrationDraft.Text.LetterCase.Tables

set_option autoImplicit false

/-!
# Letter case

Full case conversion as the Unicode standard defines it, without any language's own rules. One
character may become several: a sharp s in upper case is two letters S. The only mapping that
looks at its surroundings is that of the capital sigma, which has a form of its own at the end
of a word.
-/

namespace MigrationDraft.Text

namespace LetterCase

/-- The mapping that a table of ascending runs gives for a code point, the code point itself
where no run holds it. -/
def follow : List Run → Nat → Nat
  | [], n => n
  | r :: rs, n =>
      if n < r.first then n
      else if n ≤ r.last then
        if (n - r.first) % r.step = 0 then ((n : Int) + r.offset).toNat else n
      else follow rs n

/-- The full mapping of a character: its expansion if it has one, else what the runs say. -/
def convert (expansions : List (Nat × List Nat)) (runs : List Run) (c : Char) : List Char :=
  match expansions.lookup c.toNat with
  | some ns => ns.map Char.ofNat
  | none => [Char.ofNat (follow runs c.toNat)]

def inRanges (ranges : List (Nat × Nat)) (c : Char) : Bool :=
  ranges.any fun (first, last) => first ≤ c.toNat && c.toNat ≤ last

/-- The first character that is not case-ignorable has a case. -/
def casedAhead (s : List Char) : Bool :=
  match s.dropWhile (inRanges caseIgnorableRanges) with
  | [] => false
  | c :: _ => inRanges casedRanges c

end LetterCase

open LetterCase

def upperChar (c : Char) : List Char := convert uppercaseExpansions uppercaseRuns c

/-- The lower case of a character, away from the end of a word. -/
def lowerChar (c : Char) : List Char := convert lowercaseExpansions lowercaseRuns c

/-- The lower case of the text `s` that stands after the characters `before`, listed backwards.
A capital sigma after a letter and before none is final. -/
def lowerFrom (before : List Char) : List Char → List Char
  | [] => []
  | c :: s =>
      let lowered :=
        if c = 'Σ' then (if casedAhead before && !casedAhead s then ['ς'] else ['σ'])
        else lowerChar c
      lowered ++ lowerFrom (c :: before) s

def lower (s : List Char) : List Char := lowerFrom [] s

/-- The text with its first character in upper case. -/
def capitalize : List Char → List Char
  | [] => []
  | c :: s => upperChar c ++ s

end MigrationDraft.Text
