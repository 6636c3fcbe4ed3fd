set_option autoImplicit false

/-!
# Texts

What the reading and the writing of texts come down to, on lists of characters.

* A text is cut at the first character of a kind.
* A known beginning or ending is taken off. This succeeds exactly when the text has it.
* Every occurrence of a pattern gives way to a value. Occurrences are found from left to right and
  do not overlap, and the inserted value is not searched again.
* Blanks are taken off the two ends. A trimmed text neither starts nor ends with a blank, and every
  text is its trimmed form between two runs of blanks.
* Numbers are written with a given number of decimal digits, zeros in front. For numbers that fit
  their width, the order of the texts is the order of the numbers.
-/

namespace MigrationDraft.Text

/-! ## Cutting at the first character of a kind -/

section

variable {p : Char → Bool} {a b : List Char} {c : Char}

theorem takeWhile_append_cons (ha : ∀ x ∈ a, p x = true) (hc : p c = false) :
    (a ++ c :: b).takeWhile p = a := by
  rw [List.takeWhile_append_of_pos ha, List.takeWhile_cons_of_neg (by simp [hc]),
    List.append_nil]

theorem dropWhile_append_cons (ha : ∀ x ∈ a, p x = true) (hc : p c = false) :
    (a ++ c :: b).dropWhile p = c :: b := by
  rw [List.dropWhile_append_of_pos ha, List.dropWhile_cons_of_neg (by simp [hc])]

/-- What `takeWhile` and `dropWhile` make of a text: a run of the kind, and a first character
that is not of it. -/
theorem eq_append_of_dropWhile_eq_cons {s : List Char} (h : s.dropWhile p = c :: b) :
    s = s.takeWhile p ++ c :: b ∧ (∀ x ∈ s.takeWhile p, p x = true) ∧ p c = false := by
  refine ⟨?_, fun x hx => List.all_eq_true.mp List.all_takeWhile x hx, ?_⟩
  · rw [← h, List.takeWhile_append_dropWhile]
  · have hhead := List.head?_dropWhile_not p s
    rw [h] at hhead
    exact hhead

theorem decide_ne_of_not_mem (h : c ∉ a) : ∀ x ∈ a, decide (x ≠ c) = true := by
  intro x hx
  have hne : x ≠ c := fun he => h (he ▸ hx)
  simpa using hne

end

/-! ## Beginnings and endings -/

/-- What follows `p` in a text that begins with `p`. -/
def dropPrefix? : List Char → List Char → Option (List Char)
  | [], s => some s
  | _ :: _, [] => none
  | a :: p, c :: s => if a = c then dropPrefix? p s else none

theorem dropPrefix?_eq_some_iff {p s r : List Char} :
    dropPrefix? p s = some r ↔ s = p ++ r := by
  induction p generalizing s with
  | nil => simp [dropPrefix?]
  | cons a p ih =>
      cases s with
      | nil => simp [dropPrefix?]
      | cons c s =>
          by_cases h : a = c
          · subst h
            simp [dropPrefix?, ih]
          · simp [dropPrefix?, h, Ne.symm h]

/-- What stands before `q` in a text that ends with `q`. -/
def dropSuffix? (q s : List Char) : Option (List Char) :=
  (dropPrefix? q.reverse s.reverse).map List.reverse

theorem dropSuffix?_eq_some_iff {q s r : List Char} :
    dropSuffix? q s = some r ↔ s = r ++ q := by
  simp only [dropSuffix?, Option.map_eq_some_iff, dropPrefix?_eq_some_iff]
  constructor
  · rintro ⟨t, ht, rfl⟩
    have h := congrArg List.reverse ht
    simpa using h
  · rintro rfl
    exact ⟨r.reverse, by simp, by simp⟩

/-- An ending is compared from its last character on. -/
theorem dropSuffix?_concat (q s : List Char) (a c : Char) :
    dropSuffix? (q ++ [a]) (s ++ [c]) = if a = c then dropSuffix? q s else none := by
  simp only [dropSuffix?, List.reverse_append, List.reverse_singleton, List.singleton_append,
    dropPrefix?]
  split <;> rfl

def startsWith (p s : List Char) : Bool := (dropPrefix? p s).isSome

def endsWith (q s : List Char) : Bool := (dropSuffix? q s).isSome

theorem endsWith_iff {q s : List Char} : endsWith q s = true ↔ ∃ r, s = r ++ q := by
  simp [endsWith, Option.isSome_iff_exists, dropSuffix?_eq_some_iff]

/-- An ending of one character is compared with the last one. -/
@[simp] theorem endsWith_singleton (a : Char) (w : List Char) :
    endsWith [a] w = decide (w.getLast? = some a) := by
  rw [Bool.eq_iff_iff, endsWith_iff, decide_eq_true_eq, List.getLast?_eq_some_iff]

/-- An ending of two characters is compared with the last two. -/
@[simp] theorem endsWith_pair (b a c : Char) (w : List Char) :
    endsWith [b, a] (w ++ [c]) = (decide (a = c) && endsWith [b] w) := by
  rw [endsWith, ← List.singleton_append, dropSuffix?_concat]
  by_cases h : a = c
  · rw [if_pos h, decide_eq_true h]
    rfl
  · rw [if_neg h, decide_eq_false h]
    rfl

theorem startsWith_iff {p s : List Char} : startsWith p s = true ↔ ∃ r, s = p ++ r := by
  simp [startsWith, Option.isSome_iff_exists, dropPrefix?_eq_some_iff]

@[simp] theorem startsWith_singleton (a : Char) (s : List Char) :
    startsWith [a] s = decide (s.head? = some a) := by
  rw [Bool.eq_iff_iff, startsWith_iff, decide_eq_true_eq, List.head?_eq_some_iff]
  rfl

/-! ## Replacing a pattern -/

/-- `replaceFrom pattern value n s` first passes over `n` characters of `s`, those that the
match before still covers, and replaces in the rest. -/
def replaceFrom (pattern value : List Char) : Nat → List Char → List Char
  | _, [] => []
  | n + 1, _ :: s => replaceFrom pattern value n s
  | 0, c :: s =>
      if startsWith pattern (c :: s) then
        value ++ replaceFrom pattern value (pattern.length - 1) s
      else
        c :: replaceFrom pattern value 0 s

/-- The text with every occurrence of the pattern replaced by the value. The pattern is not
empty. -/
def replace (pattern value s : List Char) : List Char := replaceFrom pattern value 0 s

theorem replaceFrom_eq_drop (pattern value : List Char) (n : Nat) (s : List Char) :
    replaceFrom pattern value n s = replace pattern value (s.drop n) := by
  induction s generalizing n with
  | nil => cases n <;> rfl
  | cons c s ih =>
      cases n with
      | zero => rfl
      | succ n => exact ih n

@[simp] theorem replace_nil (pattern value : List Char) : replace pattern value [] = [] := rfl

/-- An occurrence at the front gives way to the value. -/
theorem replace_append {pattern : List Char} (h : pattern ≠ []) (value s : List Char) :
    replace pattern value (pattern ++ s) = value ++ replace pattern value s := by
  cases pattern with
  | nil => exact absurd rfl h
  | cons a p =>
      have hp : startsWith (a :: p) (a :: (p ++ s)) = true :=
        startsWith_iff.mpr ⟨s, rfl⟩
      have step : replace (a :: p) value (a :: (p ++ s))
          = value ++ replaceFrom (a :: p) value p.length (p ++ s) := by
        simp [replace, replaceFrom, hp]
      rw [List.cons_append, step, replaceFrom_eq_drop, List.drop_left]

/-- A character at which the pattern does not start stays. -/
theorem replace_cons_of_not {pattern : List Char} {c : Char} {s : List Char}
    (h : startsWith pattern (c :: s) = false) (value : List Char) :
    replace pattern value (c :: s) = c :: replace pattern value s := by
  simp [replace, replaceFrom, h]

/-! ## Blank characters -/

/-- The code points with the property White_Space, as closed ranges. -/
def blankRanges : List (Nat × Nat) :=
  [(0x09, 0x0D), (0x20, 0x20), (0x85, 0x85), (0xA0, 0xA0), (0x1680, 0x1680), (0x2000, 0x200A),
    (0x2028, 0x2029), (0x202F, 0x202F), (0x205F, 0x205F), (0x3000, 0x3000)]

def isBlank (c : Char) : Bool :=
  blankRanges.any fun (first, last) => first ≤ c.toNat && c.toNat ≤ last

def trimStart (s : List Char) : List Char := s.dropWhile isBlank

def trimEnd (s : List Char) : List Char := (s.reverse.dropWhile isBlank).reverse

def trim (s : List Char) : List Char := trimEnd (trimStart s)

/-- A text is trimmed when it neither starts nor ends with a blank. -/
def Trimmed (s : List Char) : Prop :=
  (∀ c ∈ s.head?, isBlank c = false) ∧ (∀ c ∈ s.getLast?, isBlank c = false)

/-- A text is its trimmed end followed by blanks. -/
theorem trimEnd_append (s : List Char) :
    trimEnd s ++ (s.reverse.takeWhile isBlank).reverse = s := by
  rw [trimEnd, ← List.reverse_append, List.takeWhile_append_dropWhile, List.reverse_reverse]

/-- A text is blanks followed by its trimmed start. -/
theorem append_trimStart (s : List Char) : s.takeWhile isBlank ++ trimStart s = s :=
  List.takeWhile_append_dropWhile

/-! ## Digits -/

/-- The last `width` decimal digits of a number. -/
def fixedDigits : Nat → Nat → List Char
  | 0, _ => []
  | width + 1, n => fixedDigits width (n / 10) ++ [Nat.digitChar (n % 10)]

@[simp] theorem length_fixedDigits (width n : Nat) : (fixedDigits width n).length = width := by
  induction width generalizing n with
  | zero => rfl
  | succ width ih => simp [fixedDigits, ih]

theorem isDigit_of_mem_fixedDigits {width n : Nat} {c : Char} (h : c ∈ fixedDigits width n) :
    c.isDigit = true := by
  induction width generalizing n with
  | zero => cases h
  | succ width ih =>
      rcases List.mem_append.mp h with h | h
      · exact ih h
      · have hdigit : n % 10 < 10 := Nat.mod_lt n (by decide)
        rw [List.mem_singleton.mp h, Char.isDigit_iff_toNat, Nat.toNat_digitChar_of_lt_ten hdigit]
        show 48 ≤ 48 + n % 10 ∧ 48 + n % 10 ≤ 57
        omega

/-- At least `width` digits: zeros in front of a short number, all digits of a long one. -/
def paddedDigits (width n : Nat) : List Char :=
  if n < Nat.pow 10 width then fixedDigits width n else Nat.toDigits 10 n

theorem isDigit_of_mem_paddedDigits {width n : Nat} {c : Char} (h : c ∈ paddedDigits width n) :
    c.isDigit = true := by
  unfold paddedDigits at h
  split at h
  · exact isDigit_of_mem_fixedDigits h
  · exact Nat.isDigit_of_mem_toDigits (by decide) (by decide) h

def hexValue? (c : Char) : Option Nat :=
  if c.isDigit then some (c.toNat - '0'.toNat)
  else if 'a' ≤ c ∧ c ≤ 'f' then some (c.toNat - 'a'.toNat + 10)
  else if 'A' ≤ c ∧ c ≤ 'F' then some (c.toNat - 'A'.toNat + 10)
  else none

end MigrationDraft.Text
