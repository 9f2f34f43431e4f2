import CrossRef.Text.Percent
import Mathlib.Tactic.Common

namespace CrossRef.Text

theorem eq_of_bytes_eq {a b : String} (h : bytes a.toList = bytes b.toList) : a = b := by
  apply String.toByteArray_inj.1
  rw [← String.utf8Encode_toList, ← String.utf8Encode_toList]
  exact congrArg List.toByteArray h

namespace Percent

/-- Letters, digits and `-._~` of ASCII, and triples of `%` and two upper-case digits. -/
inductive Coded : List Char → Prop
  | nil : Coded []
  | unreserved {c : Char} {cs : List Char} : c.isAlphanum ∨ c ∈ ['-', '.', '_', '~'] → Coded cs →
      Coded (c :: cs)
  | triple {a b : Char} {cs : List Char} : a ∈ "0123456789ABCDEF".toList →
      b ∈ "0123456789ABCDEF".toList → Coded cs → Coded ('%' :: a :: b :: cs)

theorem hexDigit_mem : ∀ n < 16, hexDigit n ∈ "0123456789ABCDEF".toList := by decide

theorem hexValue?_hexDigit : ∀ n < 16, Decimal.hexValue? (hexDigit n) = some n := by decide

theorem of_isUnreserved {b : UInt8} (h : isUnreserved b = true) :
    b.toNat < 128 ∧
      ((Char.ofNat b.toNat).isAlphanum ∨ Char.ofNat b.toNat ∈ ['-', '.', '_', '~']) := by
  simp only [isUnreserved, decide_eq_true_eq] at h
  exact ⟨UInt8.lt_iff_toNat_lt.1 h.1, by simpa using h.2⟩

theorem utf8EncodeChar_ofNat {b : UInt8} (h : b.toNat < 128) :
    String.utf8EncodeChar (Char.ofNat b.toNat) = [b] := by
  have hvalid : b.toNat.isValidChar := .inl (by omega)
  have hval : (Char.ofNat b.toNat).val.toNat = b.toNat := by
    rw [Char.ofNat, dif_pos hvalid]
    rfl
  simp [String.utf8EncodeChar, hval, show b.toNat ≤ 127 by omega]

theorem coded_encodeByte (b : UInt8) {cs : List Char} (h : Coded cs) :
    Coded (encodeByte b ++ cs) := by
  have hb := b.toNat_lt
  rw [encodeByte]
  split
  case isTrue hplain => exact .unreserved (of_isUnreserved hplain).2 h
  case isFalse => exact .triple (hexDigit_mem _ (by omega)) (hexDigit_mem _ (by omega)) h

theorem decode_cons_of_ne {c : Char} (h : c ≠ '%') (cs : List Char) :
    decode (c :: cs) = String.utf8EncodeChar c ++ decode cs := by
  rw [decode]
  intro a b rest hc
  exact absurd hc h

theorem decode_encodeByte (b : UInt8) (cs : List Char) :
    decode (encodeByte b ++ cs) = b :: decode cs := by
  have hb := b.toNat_lt
  rw [encodeByte]
  split
  case isTrue hplain =>
    obtain ⟨hascii, hchar⟩ := of_isUnreserved hplain
    have hne : Char.ofNat b.toNat ≠ '%' := by
      intro he
      rw [he] at hchar
      exact absurd hchar (by decide)
    rw [List.singleton_append, decode_cons_of_ne hne, utf8EncodeChar_ofNat hascii,
      List.singleton_append]
  case isFalse =>
    have hvalue : UInt8.ofNat (16 * (b.toNat / 16) + b.toNat % 16) = b := by
      rw [Nat.div_add_mod, UInt8.ofNat_toNat]
    rw [List.cons_append, List.cons_append, List.cons_append, List.nil_append, decode,
      hexValue?_hexDigit _ (by omega), hexValue?_hexDigit _ (by omega)]
    simp only [hvalue]

theorem toList_encode (text : String) :
    (encode text).toList = (bytes text.toList).flatMap encodeByte := by
  rw [encode, String.toList_ofList]

theorem coded_encode (text : String) : Coded (encode text).toList := by
  rw [toList_encode]
  induction bytes text.toList with
  | nil => exact .nil
  | cons b bs ih => exact coded_encodeByte b ih

theorem decode_encode (text : String) : decode (encode text).toList = bytes text.toList := by
  rw [toList_encode]
  induction bytes text.toList with
  | nil => rfl
  | cons b bs ih => rw [List.flatMap_cons, decode_encodeByte, ih]

/-- No reserved character but `%` stands in a coded text. -/
theorem Coded.notin {cs : List Char} (h : Coded cs) {c : Char} (hc : c.isAlphanum = false)
    (hmark : c ∉ ['%', '-', '.', '_', '~']) : c ∉ cs := by
  have hdigit : ∀ a ∈ "0123456789ABCDEF".toList, c ≠ a := by
    rintro a ha rfl
    have hall : "0123456789ABCDEF".toList.all Char.isAlphanum = true := by decide
    simp [List.all_eq_true.1 hall c ha] at hc
  rw [List.mem_cons, not_or] at hmark
  induction h with
  | nil => simp
  | @unreserved d _ hd _ ih =>
    have hne : c ≠ d := by
      rintro rfl
      rcases hd with hd | hd
      · simp [hd] at hc
      · exact hmark.2 hd
    simp [hne, ih]
  | triple ha hb _ ih => simp [hmark.1, hdigit _ ha, hdigit _ hb, ih]

end Percent

end CrossRef.Text
