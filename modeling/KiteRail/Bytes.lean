import Mathlib

/-! Byte strings: decimal and hexadecimal text, zero padding, and length-prefixed
fields. Every encoding here is proved injective, so equality of the encoded text
is equality of what was written. -/
namespace KiteRail

/-- A string or a byte slice. Nothing is assumed about its encoding. -/
abbrev Bytes := List UInt8

instance : LawfulBEq Bytes := inferInstanceAs (LawfulBEq (List UInt8))

namespace Bytes

def byteOf (c : Char) : UInt8 := c.toNat.toUInt8

/-- The bytes of an ASCII literal. -/
def lit (s : String) : Bytes := s.toList.map byteOf

/-! Decimal text. -/

def decimalNat (n : ℕ) : Bytes := (Nat.toDigits 10 n).map byteOf

def decimal : ℤ → Bytes
  | .ofNat n => decimalNat n
  | .negSucc n => 45 :: decimalNat (n + 1)

/-- Decimal text with leading zeros up to `width` digits. -/
def padded (width n : ℕ) : Bytes :=
  List.replicate (width - (decimalNat n).length) 48 ++ decimalNat n

def digitsValue (bs : Bytes) : ℕ := bs.foldl (fun acc b => 10 * acc + (b.toNat - 48)) 0

lemma byteOf_toNat {c : Char} (hc : c.isDigit) : (byteOf c).toNat = c.toNat := by
  have h : c.toNat ≤ 57 := by
    simp only [Char.isDigit, ge_iff_le, Bool.and_eq_true, decide_eq_true_eq] at hc
    exact_mod_cast hc.2
  simp only [byteOf, UInt8.toNat_ofNat']
  omega

lemma isDigit_of_mem {c : Char} {n : ℕ} (hc : c ∈ Nat.toDigits 10 n) : c.isDigit :=
  Nat.isDigit_of_mem_toDigits (by omega) (by omega) hc

lemma foldl_byteOf {cs : List Char} (h : ∀ c ∈ cs, c.isDigit) (acc : ℕ) :
    (cs.map byteOf).foldl (fun acc b => 10 * acc + (b.toNat - 48)) acc =
      Nat.ofDigitChars 10 cs acc := by
  induction cs generalizing acc with
  | nil => simp
  | cons c cs ih =>
    rw [List.map_cons, List.foldl_cons, Nat.ofDigitChars_cons, byteOf_toNat (h c (by simp))]
    exact ih (fun d hd => h d (by simp [hd])) _

@[simp] lemma digitsValue_decimalNat (n : ℕ) : digitsValue (decimalNat n) = n := by
  rw [digitsValue, decimalNat, foldl_byteOf (fun c hc => isDigit_of_mem hc),
    Nat.ofDigitChars_ten_toDigits]

lemma foldl_zeros (k : ℕ) (bs : Bytes) :
    (List.replicate k (48 : UInt8) ++ bs).foldl (fun acc b => 10 * acc + (b.toNat - 48)) 0 =
      bs.foldl (fun acc b => 10 * acc + (b.toNat - 48)) 0 := by
  induction k with
  | zero => simp
  | succ k ih => simpa [List.replicate_succ] using ih

@[simp] lemma digitsValue_padded (width n : ℕ) : digitsValue (padded width n) = n := by
  rw [digitsValue, padded, foldl_zeros]
  exact digitsValue_decimalNat n

lemma decimalNat_injective : Function.Injective decimalNat := by
  intro m n h
  simpa using congrArg digitsValue h

lemma padded_injective (width : ℕ) : Function.Injective (padded width) := by
  intro m n h
  simpa using congrArg digitsValue h

lemma decimalNat_digits {n : ℕ} {b : UInt8} (hb : b ∈ decimalNat n) :
    48 ≤ b.toNat ∧ b.toNat ≤ 57 := by
  obtain ⟨c, hc, rfl⟩ := List.mem_map.mp hb
  have hd := isDigit_of_mem hc
  rw [byteOf_toNat hd]
  simp only [Char.isDigit, ge_iff_le, Bool.and_eq_true, decide_eq_true_eq] at hd
  exact ⟨by exact_mod_cast hd.1, by exact_mod_cast hd.2⟩

lemma decimalNat_length_le {n k : ℕ} (hk : 0 < k) (h : n < 10 ^ k) :
    (decimalNat n).length ≤ k := by
  simpa [decimalNat] using (Nat.length_toDigits_le_iff (by omega) hk).mpr h

lemma padded_length {width n : ℕ} (hw : 0 < width) (h : n < 10 ^ width) :
    (padded width n).length = width := by
  have := decimalNat_length_le hw h
  simp only [padded, List.length_append, List.length_replicate]
  omega

lemma decimal_injective : Function.Injective decimal := by
  intro a b h
  have hminus : ∀ m n : ℕ, decimalNat m ≠ 45 :: decimalNat n := by
    intro m n he
    have := (decimalNat_digits (n := m) (b := 45) (by simp [he])).1
    simp at this
  cases a with
  | ofNat m =>
    cases b with
    | ofNat n => exact congrArg Int.ofNat (decimalNat_injective h)
    | negSucc n => exact absurd h (hminus m (n + 1))
  | negSucc m =>
    cases b with
    | ofNat n => exact absurd h.symm (hminus n (m + 1))
    | negSucc n =>
      have := decimalNat_injective (List.cons.inj h).2
      omega

/-! Hexadecimal text. -/

def hexDigit (n : ℕ) : UInt8 := if n < 10 then (48 + n).toUInt8 else (87 + n).toUInt8

def hexEncode (bs : Bytes) : Bytes :=
  bs.flatMap fun b => [hexDigit (b.toNat / 16), hexDigit (b.toNat % 16)]

lemma hexDigit_inj {m n : ℕ} (hm : m < 16) (hn : n < 16) (h : hexDigit m = hexDigit n) :
    m = n := by
  have hh := congrArg UInt8.toNat h
  unfold hexDigit at hh
  split_ifs at hh <;> simp only [UInt8.toNat_ofNat'] at hh <;> omega

lemma hexEncode_length (bs : Bytes) : (hexEncode bs).length = 2 * bs.length := by
  simp [hexEncode, List.length_flatMap, mul_comm]

lemma hexEncode_injective : Function.Injective hexEncode := by
  intro xs
  induction xs with
  | nil =>
    intro ys h
    have := congrArg List.length h
    rw [hexEncode_length, hexEncode_length] at this
    exact (List.length_eq_zero_iff.mp (by simpa using this.symm)).symm
  | cons x xs ih =>
    intro ys h
    cases ys with
    | nil =>
      have := congrArg List.length h
      rw [hexEncode_length, hexEncode_length] at this
      simp at this
    | cons y ys =>
      simp only [hexEncode, List.flatMap_cons, List.cons_append, List.nil_append,
        List.cons.injEq] at h
      obtain ⟨h₁, h₂, h₃⟩ := h
      have hx := x.toNat_lt
      have hy := y.toNat_lt
      have e₁ := hexDigit_inj (by omega) (by omega) h₁
      have e₂ := hexDigit_inj (by omega) (by omega) h₂
      have he : x = y := UInt8.toNat_inj.mp (by omega)
      rw [he, ih h₃]

/-! Length-prefixed fields: the decimal length, a colon, the bytes, a semicolon. -/

def field (f : Bytes) : Bytes := decimalNat f.length ++ 58 :: (f ++ [59])

def fields (fs : List Bytes) : Bytes := fs.flatMap field

/-- A decimal number ends at the first byte that is no digit. -/
lemma decimalNat_colon_inj {m n : ℕ} {x y : Bytes}
    (h : decimalNat m ++ 58 :: x = decimalNat n ++ 58 :: y) : m = n ∧ x = y := by
  have hd : ∀ k : ℕ, ∀ b ∈ decimalNat k, (b != 58) = true := by
    intro k b hb
    have := (decimalNat_digits hb).2
    rw [bne_iff_ne]
    rintro rfl
    simp at this
  have ht : ∀ (k : ℕ) (z : Bytes),
      (decimalNat k ++ 58 :: z).takeWhile (· != 58) = decimalNat k := by
    intro k z
    rw [List.takeWhile_append_of_pos (hd k)]
    simp
  have hm : m = n := decimalNat_injective (by
    rw [← ht m x, ← ht n y, h])
  subst hm
  exact ⟨rfl, (List.cons.inj (List.append_cancel_left h)).2⟩

lemma field_append_inj {f g x y : Bytes} (h : field f ++ x = field g ++ y) : f = g ∧ x = y := by
  simp only [field, List.append_assoc, List.cons_append, List.nil_append] at h
  obtain ⟨hl, he⟩ := decimalNat_colon_inj h
  obtain ⟨hf, ht⟩ := List.append_inj he hl
  exact ⟨hf, (List.cons.inj ht).2⟩

theorem fields_injective : Function.Injective fields := by
  intro fs
  induction fs with
  | nil =>
    intro gs h
    cases gs with
    | nil => rfl
    | cons g gs => simp [fields, field] at h
  | cons f fs ih =>
    intro gs h
    cases gs with
    | nil => simp [fields, field] at h
    | cons g gs =>
      obtain ⟨hf, hr⟩ := field_append_inj (show field f ++ fields fs = field g ++ fields gs from h)
      rw [hf, ih hr]

end Bytes
end KiteRail
