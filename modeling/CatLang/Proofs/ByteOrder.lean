import Mathlib
import CatLang.Proofs.Utf8

/-! Texts in the order of their characters are in the order of their bytes too: the bytes of a
character come before those of any later character, whatever follows either
(`encoded_append_lt`). -/
namespace CatLang.Text

/-- The bytes of a text in UTF-8. -/
def bytes (text : String) : List UInt8 := text.toByteArray.data.toList

theorem bytes_eq (text : String) : bytes text = text.toList.flatMap String.utf8EncodeChar := by
  rw [bytes, ← String.utf8Encode_toList, List.utf8Encode, List.data_toByteArray]

namespace Utf8

theorem cons_lt_cons_iff_toNat {byte byte' : UInt8} {rest rest' : List UInt8} :
    byte :: rest < byte' :: rest' ↔
      byte.toNat < byte'.toNat ∨ byte.toNat = byte'.toNat ∧ rest < rest' := by
  rw [List.cons_lt_cons_iff, UInt8.lt_iff_toNat_lt, UInt8.toNat_inj]

theorem append_lt_append (front : List UInt8) {rest rest' : List UInt8} (h : rest < rest') :
    front ++ rest < front ++ rest' := by
  induction front with
  | nil => exact h
  | cons byte front ih => exact cons_lt_cons_iff_toNat.2 (.inr ⟨rfl, ih⟩)

/-- How many tail bytes a code point has. -/
def tailCount (code : Nat) : Nat :=
  if code ≤ 127 then 0 else if code ≤ 2047 then 1 else if code ≤ 65535 then 2 else 3

/-- The least first byte that announces so many tail bytes; the rest of it is its share of the code
point. -/
def announcement : Nat → Nat
  | 0 => 0
  | 1 => 192
  | 2 => 224
  | 3 => 240
  | _ => 248

theorem tailCount_mono {code code' : Nat} (h : code ≤ code') :
    tailCount code ≤ tailCount code' := by
  unfold tailCount
  grind

theorem announcement_mono {n m : Nat} (h : n ≤ m) : announcement n ≤ announcement m := by
  unfold announcement
  grind

theorem first_lt {code : Nat} (h : code < 1114112) :
    announcement (tailCount code) + code / 64 ^ tailCount code <
      announcement (tailCount code + 1) := by
  unfold tailCount
  split
  · simp only [announcement, Nat.pow_zero, Nat.div_one]
    omega
  split
  · simp only [announcement, Nat.reducePow]
    omega
  split
  · simp only [announcement, Nat.reducePow]
    omega
  · simp only [announcement, Nat.reducePow]
    omega

/-- The last digits of a code point to the base 64, as tail bytes. -/
def tailBytes (code : Nat) : Nat → List UInt8
  | 0 => []
  | n + 1 => tailByte (code / 64 ^ n) :: tailBytes code n

theorem encoded_eq {code : Nat} (h : code < 1114112) :
    encoded code = .ofNat (announcement (tailCount code) + code / 64 ^ tailCount code) ::
      tailBytes code (tailCount code) := by
  unfold encoded tailCount
  split
  · simp only [announcement, tailBytes, Nat.pow_zero, Nat.div_one, Nat.zero_add]
  split
  · rw [Nat.mod_eq_of_lt (by omega), Nat.add_comm]
    simp only [announcement, tailBytes, Nat.reducePow, Nat.div_one]
  split
  · rw [Nat.mod_eq_of_lt (by omega), Nat.add_comm]
    simp only [announcement, tailBytes, Nat.reducePow, Nat.div_one]
  · rw [Nat.mod_eq_of_lt (by omega), Nat.add_comm]
    simp only [announcement, tailBytes, Nat.reducePow, Nat.div_one]

theorem tailBytes_append_lt {code code' : Nat} (h : code < code') (rest rest' : List UInt8) :
    ∀ n, code / 64 ^ n = code' / 64 ^ n →
      tailBytes code n ++ rest < tailBytes code' n ++ rest' := by
  intro n
  induction n with
  | zero =>
    intro heq
    rw [Nat.pow_zero, Nat.div_one, Nat.div_one] at heq
    omega
  | succ n ih =>
    intro heq
    have hle : code / 64 ^ n ≤ code' / 64 ^ n := Nat.div_le_div_right (Nat.le_of_lt h)
    rw [Nat.pow_succ, ← Nat.div_div_eq_div_mul, ← Nat.div_div_eq_div_mul] at heq
    simp only [tailBytes, List.cons_append, cons_lt_cons_iff_toNat, toNat_tailByte]
    rcases Nat.lt_or_eq_of_le hle with hlt | hdigits
    · exact .inl (by omega)
    · exact .inr ⟨by rw [hdigits], ih hdigits⟩

/-- More tail bytes are announced by a greater first byte, and among as many the code point is told
by its digits, the highest first. -/
theorem encoded_append_lt {code code' : Nat} (h : code < code') (hvalid : code' < 1114112)
    (rest rest' : List UInt8) : encoded code ++ rest < encoded code' ++ rest' := by
  have hfirst := first_lt (Nat.lt_trans h hvalid)
  have hfirst' := first_lt hvalid
  have hlast : ∀ n, announcement n ≤ 248 := fun n => by
    unfold announcement
    grind
  rw [encoded_eq (Nat.lt_trans h hvalid), encoded_eq hvalid, List.cons_append, List.cons_append,
    cons_lt_cons_iff_toNat, toNat_ofNat_of_lt (by have := hlast (tailCount code + 1); omega),
    toNat_ofNat_of_lt (by have := hlast (tailCount code' + 1); omega)]
  rcases Nat.lt_or_eq_of_le (tailCount_mono (Nat.le_of_lt h)) with hcount | hcount
  · have hle : announcement (tailCount code + 1) ≤ announcement (tailCount code') :=
      announcement_mono hcount
    exact .inl (Nat.lt_of_lt_of_le hfirst (Nat.le_trans hle (Nat.le_add_right _ _)))
  · rw [hcount]
    have hle : code / 64 ^ tailCount code' ≤ code' / 64 ^ tailCount code' :=
      Nat.div_le_div_right (Nat.le_of_lt h)
    rcases Nat.lt_or_eq_of_le hle with hlt | hdigits
    · exact .inl (Nat.add_lt_add_left hlt _)
    · exact .inr ⟨by rw [hdigits], tailBytes_append_lt h rest rest' _ hdigits⟩

end Utf8

theorem encode_append_lt {c d : Char} (h : c < d) (rest rest' : List UInt8) :
    String.utf8EncodeChar c ++ rest < String.utf8EncodeChar d ++ rest' := by
  have hvalid : d.toNat < 1114112 := by
    have := d.valid
    simp only [UInt32.isValidChar, Nat.isValidChar] at this
    rw [Char.toNat]
    omega
  rw [Utf8.utf8EncodeChar_eq, Utf8.utf8EncodeChar_eq]
  exact Utf8.encoded_append_lt h hvalid rest rest'

theorem flatMap_encode_lt {text text' : List Char} (h : text < text') :
    text.flatMap String.utf8EncodeChar < text'.flatMap String.utf8EncodeChar := by
  induction h with
  | @nil d text' =>
    obtain ⟨byte, rest, hd⟩ := List.exists_cons_of_ne_nil (String.utf8EncodeChar_ne_nil (c := d))
    rw [List.flatMap_nil, List.flatMap_cons, hd]
    exact .nil
  | rel hlt => exact encode_append_lt hlt _ _
  | cons _ ih => exact Utf8.append_lt_append _ ih

/-- The order of texts is that of their bytes. -/
theorem bytes_lt {text text' : String} (h : text < text') : bytes text < bytes text' := by
  rw [bytes_eq, bytes_eq]
  exact flatMap_encode_lt (String.lt_iff.1 h)

end CatLang.Text
