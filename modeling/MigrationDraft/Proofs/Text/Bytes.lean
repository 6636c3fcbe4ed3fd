import MigrationDraft.Proofs.Text.Order

set_option autoImplicit false

/-!
# Texts as bytes

A text is stored as the bytes of its UTF-8 encoding, and programs that compare files or sort names
compare bytes. That is the order of characters as well (`bytes_lt_bytes_iff`): the first byte of a
character tells how many follow, and the more there are the greater it is; those that follow are
the digits of the character's code to the base 64.

A part of a text is named by its bounds in bytes. They have to be boundaries of characters
(`slice?`), and they are when the text is taken apart between characters (`Spans.slice?_eq`).
-/

namespace MigrationDraft.Text

def bytes (text : String) : List UInt8 := text.toUTF8.data.toList

theorem bytes_eq_flatMap (text : String) :
    bytes text = text.toList.flatMap String.utf8EncodeChar := by
  rw [bytes, String.toUTF8, ← String.ofList_toList (s := text), String.toList_ofList]
  exact List.toList_data_toByteArray

/-! ## One character -/

/-- A byte of a character after the first, with the value of six bits. -/
def laterByte (n : Nat) : UInt8 := UInt8.ofNat (n + 0x80)

theorem laterByte_lt_laterByte (a b : Nat) (hab : a < b) (hb : b < 64) :
    laterByte a < laterByte b := by
  have hsize : b + 0x80 < UInt8.size := by
    rw [UInt8.size]
    omega
  exact (UInt8.ofNat_lt_iff_lt (by omega) hsize).mpr (by omega)

/-- The character with the code `n` has `later` bytes after the first, which is marked by
`mark`. -/
inductive Encoded (n : Nat) : (later mark : Nat) → Prop where
  | one (hn : n < 0x80) : Encoded n 0 0
  | two (hn : 0x80 ≤ n ∧ n < 0x800) : Encoded n 1 0xc0
  | three (hn : 0x800 ≤ n ∧ n < 0x10000) : Encoded n 2 0xe0
  | four (hn : 0x10000 ≤ n ∧ n < 0x110000) : Encoded n 3 0xf0

theorem toNat_lt (c : Char) : c.toNat < 0x110000 := by
  have hvalid := c.valid
  unfold UInt32.isValidChar Nat.isValidChar at hvalid
  unfold Char.toNat
  omega

theorem exists_encoded (c : Char) : ∃ later mark, Encoded c.toNat later mark
    ∧ String.utf8EncodeChar c
      = UInt8.ofNat (c.toNat / 64 ^ later + mark) :: lastDigits 64 laterByte later c.toNat := by
  have hc := toNat_lt c
  unfold Char.toNat at hc ⊢
  unfold String.utf8EncodeChar
  dsimp only
  -- the cases of the encoding, from one byte to four
  split
  · exact ⟨0, 0, .one (by omega), by simp [lastDigits]⟩
  · split
    · refine ⟨1, 0xc0, .two (by omega), ?_⟩
      rw [Nat.mod_eq_of_lt (by omega : c.val.toNat / 64 < 32)]
      rfl
    · split
      · refine ⟨2, 0xe0, .three (by omega), ?_⟩
        rw [Nat.mod_eq_of_lt (by omega : c.val.toNat / 4096 < 16)]
        rfl
      · have hdiv : c.val.toNat / 4096 = c.val.toNat / 64 / 64 :=
          (Nat.div_div_eq_div_mul _ 64 64).symm
        refine ⟨3, 0xf0, .four (by omega), ?_⟩
        rw [Nat.mod_eq_of_lt (by omega : c.val.toNat / 262144 < 8), hdiv]
        rfl

theorem Encoded.first_lt {n later mark : Nat} (h : Encoded n later mark) :
    n / 64 ^ later + mark < 256 := by
  cases h <;> omega

/-- The first bytes of two characters are in their order, or they are the same. -/
theorem Encoded.first_lt_or_eq {m n later later' mark mark' : Nat} (hm : Encoded m later mark)
    (hn : Encoded n later' mark') (hmn : m < n) :
    m / 64 ^ later + mark < n / 64 ^ later' + mark'
      ∨ later = later' ∧ mark = mark' ∧ m / 64 ^ later = n / 64 ^ later := by
  cases hm <;> cases hn <;> omega

/-- The bytes of two characters differ before either of them ends. -/
theorem utf8EncodeChar_append_lt {c d : Char} (h : c < d) (x y : List UInt8) :
    String.utf8EncodeChar c ++ x < String.utf8EncodeChar d ++ y := by
  obtain ⟨later, mark, hc, hbytes⟩ := exists_encoded c
  obtain ⟨later', mark', hd, hbytes'⟩ := exists_encoded d
  rw [hbytes, hbytes', List.cons_append, List.cons_append]
  rcases hc.first_lt_or_eq hd h with hfirst | ⟨rfl, rfl, hfront⟩
  · exact .rel ((UInt8.ofNat_lt_iff_lt (hfirst.trans hd.first_lt) hd.first_lt).mpr hfirst)
  · have hlength : (lastDigits 64 laterByte later c.toNat).length
        = (lastDigits 64 laterByte later d.toNat).length := by
      rw [length_lastDigits, length_lastDigits]
    rw [hfront]
    exact .cons (append_lt_append_of_lt
      (lastDigits_lt_lastDigits (by decide) laterByte_lt_laterByte h hfront) hlength x y)

/-! ## Texts -/

theorem bytes_lt_bytes_of_lt {s t : String} (h : s < t) : bytes s < bytes t := by
  rw [String.lt_iff_toList_lt] at h
  rw [bytes_eq_flatMap, bytes_eq_flatMap]
  generalize s.toList = l at h ⊢
  generalize t.toList = m at h ⊢
  -- by induction on the order: the first character that differs decides, by its bytes
  induction h with
  | @nil c m =>
      obtain ⟨later, mark, -, hbytes⟩ := exists_encoded c
      rw [List.flatMap_cons, hbytes]
      exact .nil
  | rel hcd =>
      rw [List.flatMap_cons, List.flatMap_cons]
      exact utf8EncodeChar_append_lt hcd _ _
  | cons h ih =>
      rw [List.flatMap_cons, List.flatMap_cons]
      exact List.Lex.append_left _ ih _

/-- The order of texts is the order of their bytes. -/
theorem bytes_lt_bytes_iff {s t : String} : bytes s < bytes t ↔ s < t := by
  constructor
  · intro h
    rcases lt_trichotomy s t with hst | rfl | hts
    · exact hst
    · exact absurd h (List.lt_irrefl _)
    · exact absurd h (List.lt_asymm (bytes_lt_bytes_of_lt hts))
  · exact bytes_lt_bytes_of_lt

/-! ## Slices -/

def byteSize (s : List Char) : Nat := (String.ofList s).utf8ByteSize

@[simp] theorem byteSize_append (s t : List Char) :
    byteSize (s ++ t) = byteSize s + byteSize t := by
  rw [byteSize, String.ofList_append, String.utf8ByteSize_append]
  rfl

@[simp] theorem byteSize_singleton (c : Char) : byteSize [c] = c.utf8Size := by
  rw [byteSize, ← String.singleton_eq_ofList, String.utf8ByteSize_singleton]

@[simp] theorem byteSize_toList (text : String) : byteSize text.toList = text.utf8ByteSize := by
  rw [byteSize, String.ofList_toList]

/-- The byte is the first one of a character, or it is the end of the text. -/
def IsBoundary (text : String) (offset : Nat) : Prop := (⟨offset⟩ : String.Pos.Raw).IsValid text

instance (text : String) (offset : Nat) : Decidable (IsBoundary text offset) :=
  inferInstanceAs (Decidable (String.Pos.Raw.IsValid text ⟨offset⟩))

/-- The part of a text from one byte up to another. There is none unless these are boundaries of
characters, in this order. -/
def slice? (text : String) (bounds : Nat × Nat) : Option String :=
  if h : bounds.1 ≤ bounds.2 ∧ IsBoundary text bounds.1 ∧ IsBoundary text bounds.2 then
    some (String.extract (⟨⟨bounds.1⟩, h.2.1⟩ : text.Pos) ⟨⟨bounds.2⟩, h.2.2⟩)
  else none

theorem isBoundary_of_append {text : String} {a b : List Char} (h : text.toList = a ++ b) :
    IsBoundary text (byteSize a) := by
  refine String.Pos.Raw.isValid_iff_exists_append.mpr ⟨String.ofList a, String.ofList b, ?_, rfl⟩
  rw [← String.ofList_append, ← h, String.ofList_toList]

/-- The part stands in the text from the first byte up to the second. -/
def Spans (text : List Char) (bounds : Nat × Nat) (part : List Char) : Prop :=
  ∃ before after, text = before ++ part ++ after
    ∧ bounds = (byteSize before, byteSize (before ++ part))

namespace Spans

variable {s part : List Char} {bounds : Nat × Nat}

theorem append (h : Spans s bounds part) (t : List Char) : Spans (s ++ t) bounds part := by
  obtain ⟨before, after, rfl, rfl⟩ := h
  exact ⟨before, after ++ t, by rw [List.append_assoc], rfl⟩

theorem stop_le (h : Spans s bounds part) : bounds.2 ≤ byteSize s := by
  obtain ⟨before, after, rfl, rfl⟩ := h
  rw [byteSize_append (before ++ part)]
  exact Nat.le_add_right _ _

theorem slice?_eq {text : String} (h : Spans text.toList bounds part) :
    slice? text bounds = some (String.ofList part) := by
  obtain ⟨before, after, htext, rfl⟩ := h
  have hbounds : byteSize before ≤ byteSize (before ++ part) ∧ IsBoundary text (byteSize before)
      ∧ IsBoundary text (byteSize (before ++ part)) := by
    refine ⟨?_, isBoundary_of_append (htext.trans (List.append_assoc _ _ _)),
      isBoundary_of_append htext⟩
    rw [byteSize_append]
    exact Nat.le_add_right _ _
  rw [slice?, dif_pos hbounds, Option.some.injEq, ← String.toByteArray_inj,
    String.toByteArray_extract]
  have hbytes : text.toByteArray = (String.ofList before).toByteArray
      ++ ((String.ofList part).toByteArray ++ (String.ofList after).toByteArray) := by
    rw [← String.ofList_toList (s := text), htext, String.ofList_append, String.ofList_append,
      String.toByteArray_append, String.toByteArray_append, ByteArray.append_assoc]
  show text.toByteArray.extract (byteSize before) (byteSize (before ++ part)) = _
  rw [hbytes, byteSize_append]
  calc _ = ((String.ofList part).toByteArray ++ (String.ofList after).toByteArray).extract 0
          (byteSize part) := ByteArray.extract_append_size_add
    _ = (String.ofList part).toByteArray := ByteArray.extract_append_eq_left rfl

end Spans

end MigrationDraft.Text
