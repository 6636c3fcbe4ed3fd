import Mathlib.Data.String.Basic
import MigrationDraft.Text

set_option autoImplicit false

/-!
# The order of texts and of digits

Texts are ordered by their first difference, and a text comes before its extensions. So the
extensions of a text lie side by side: what lies between two of them is one too
(`exists_append_of_between`). And a difference between two fronts of one length decides, whatever
follows them (`append_lt_append_of_lt`).

The last digits of a number in a base are such fronts. Where digits are in the order of their
values, so are digit sequences of one length, for numbers that have the same in front of
them (`lastDigits_lt_lastDigits`). Decimal digits are characters, as in a time
(`fixedDigits_lt_fixedDigits`); the digits to the base 64 are bytes, as in an encoded character.
-/

namespace MigrationDraft.Text

/-! ## Texts -/

/-- What is neither before one extension of a text nor after another has the text in front. -/
theorem prefix_of_not_lt {m a b z : List Char} (ha : ¬ z < m ++ a) (hb : ¬ m ++ b < z) :
    m <+: z := by
  induction m generalizing z with
  | nil => exact List.nil_prefix
  | cons c m ih =>
      cases z with
      | nil => exact absurd (List.nil_lt_cons c (m ++ a)) ha
      | cons d z =>
          rw [List.cons_append, List.cons_lt_cons_iff, not_or, not_and] at ha hb
          have hcd : c = d := le_antisymm (not_lt.mp ha.1) (not_lt.mp hb.1)
          exact List.cons_prefix_cons.mpr ⟨hcd, ih (ha.2 hcd.symm) (hb.2 hcd)⟩

theorem append_lt_append_of_lt {α : Type} [LT α] {a b : List α} (h : a < b)
    (hlength : a.length = b.length) (x y : List α) : a ++ x < b ++ y := by
  induction h with
  | nil => simp at hlength
  | rel hab => exact .rel hab
  | cons h ih => exact .cons (ih (by simpa using hlength))

theorem append_lt_append_iff {m a b : String} : m ++ a < m ++ b ↔ a < b := by
  rw [String.lt_iff_toList_lt, String.lt_iff_toList_lt, String.toList_append, String.toList_append]
  induction m.toList with
  | nil => exact Iff.rfl
  | cons c l ih => rw [List.cons_append, List.cons_append, List.cons_lt_cons_self, ih]

theorem lt_append (a : String) {b : String} (hb : b ≠ "") : a < a ++ b := by
  have hempty : "" < b := by
    rw [String.lt_iff_toList_lt]
    obtain ⟨c, l, hl⟩ := List.exists_cons_of_ne_nil (mt String.toList_eq_nil_iff.mp hb)
    rw [hl]
    exact List.nil_lt_cons c l
  have happend : a ++ "" < a ++ b := append_lt_append_iff.mpr hempty
  rwa [String.append_empty] at happend

theorem le_append (a b : String) : a ≤ a ++ b := by
  by_cases hb : b = ""
  · rw [hb, String.append_empty]
  · exact (lt_append a hb).le

/-- What lies between two extensions of a text extends it too. -/
theorem exists_append_of_between {m a b z : String} (ha : m ++ a ≤ z) (hb : z ≤ m ++ b) :
    ∃ r, z = m ++ r := by
  rw [← not_lt, String.lt_iff_toList_lt, String.toList_append] at ha hb
  obtain ⟨r, hr⟩ := prefix_of_not_lt ha hb
  exact ⟨String.ofList r, by
    apply String.toList_inj.mp
    rw [← hr, String.toList_append, String.toList_ofList]⟩

/-- Of two beginnings of a text one extends the other. -/
theorem append_eq_append_cases {a b c d : String} (h : a ++ b = c ++ d) :
    (∃ r, c = a ++ r) ∨ ∃ r, a = c ++ r := by
  have hlists := congrArg String.toList h
  rw [String.toList_append, String.toList_append] at hlists
  have hstring : ∀ {s t : String} {l : List Char}, s.toList = t.toList ++ l →
      ∃ r, s = t ++ r := by
    intro s t l hl
    refine ⟨String.ofList l, String.toList_inj.mp ?_⟩
    rw [hl, String.toList_append, String.toList_ofList]
  rcases List.append_eq_append_iff.mp hlists with ⟨l, hl, -⟩ | ⟨l, hl, -⟩
  · exact Or.inl (hstring hl)
  · exact Or.inr (hstring hl)

/-! ## Digits -/

section

variable {α : Type} (base : Nat) (digit : Nat → α)

/-- The last `width` digits of a number. -/
def lastDigits : Nat → Nat → List α
  | 0, _ => []
  | width + 1, n => lastDigits width (n / base) ++ [digit (n % base)]

@[simp] theorem length_lastDigits (width n : Nat) :
    (lastDigits base digit width n).length = width := by
  induction width generalizing n with
  | zero => rfl
  | succ width ih => simp [lastDigits, ih]

variable {base digit}

theorem lastDigits_lt_lastDigits [LT α] (hbase : 0 < base)
    (hdigit : ∀ a b, a < b → b < base → digit a < digit b) {width m n : Nat} (hmn : m < n)
    (hfront : m / base ^ width = n / base ^ width) :
    lastDigits base digit width m < lastDigits base digit width n := by
  induction width generalizing m n with
  | zero =>
      rw [Nat.pow_zero, Nat.div_one, Nat.div_one] at hfront
      omega
  | succ width ih =>
      rw [Nat.pow_succ', ← Nat.div_div_eq_div_mul, ← Nat.div_div_eq_div_mul] at hfront
      rw [lastDigits, lastDigits]
      by_cases hquotient : m / base = n / base
      · -- the last digits decide
        have hlast : m % base < n % base := by
          have hm := Nat.div_add_mod m base
          have hn := Nat.div_add_mod n base
          rw [hquotient] at hm
          omega
        rw [hquotient]
        exact List.Lex.append_left _ (.rel (hdigit _ _ hlast (Nat.mod_lt n hbase))) _
      · -- the digits in front decide
        have hlt : m / base < n / base := by
          have hle : m / base ≤ n / base := Nat.div_le_div_right hmn.le
          omega
        have hlength : (lastDigits base digit width (m / base)).length
            = (lastDigits base digit width (n / base)).length := by
          rw [length_lastDigits, length_lastDigits]
        exact append_lt_append_of_lt (ih hlt hfront) hlength _ _

end

/-! ## Decimal digits -/

theorem digitChar_lt_digitChar (a b : Nat) (hab : a < b) (hb : b < 10) :
    Nat.digitChar a < Nat.digitChar b := by
  show (Nat.digitChar a).toNat < (Nat.digitChar b).toNat
  rw [Nat.toNat_digitChar_of_lt_ten (hab.trans hb), Nat.toNat_digitChar_of_lt_ten hb]
  omega

theorem fixedDigits_eq_lastDigits (width n : Nat) :
    fixedDigits width n = lastDigits 10 Nat.digitChar width n := by
  induction width generalizing n with
  | zero => rfl
  | succ width ih => rw [fixedDigits, lastDigits, ih]

/-- Numbers that fit a width are in the order of their texts. -/
theorem fixedDigits_lt_fixedDigits {width m n : Nat} (hmn : m < n) (hn : n < 10 ^ width) :
    fixedDigits width m < fixedDigits width n := by
  rw [fixedDigits_eq_lastDigits, fixedDigits_eq_lastDigits]
  refine lastDigits_lt_lastDigits (by decide) digitChar_lt_digitChar hmn ?_
  rw [Nat.div_eq_of_lt hn, Nat.div_eq_of_lt (hmn.trans hn)]

/-- A number decides the order of two texts that begin with it, or leaves it to what follows. -/
theorem fixedDigits_append_lt {width m n : Nat} (hn : n < 10 ^ width) {x y : List Char}
    (h : m < n ∨ m = n ∧ x < y) : fixedDigits width m ++ x < fixedDigits width n ++ y := by
  rcases h with hmn | ⟨rfl, hxy⟩
  · have hlength : (fixedDigits width m).length = (fixedDigits width n).length := by
      rw [length_fixedDigits, length_fixedDigits]
    exact append_lt_append_of_lt (fixedDigits_lt_fixedDigits hmn hn) hlength x y
  · exact List.Lex.append_left _ hxy _

end MigrationDraft.Text
