import KiteRail.Bytes

namespace KiteRail.GoStrconv
open Bytes

def isDigit (b : UInt8) : Bool := 48 ≤ b && b ≤ 57

def parseDigits (s : Bytes) : Option ℕ :=
  if s ≠ [] ∧ s.all isDigit = true then some (digitsValue s) else none

def maxInt64 : ℤ := 2 ^ 63 - 1

def fits (n : ℤ) : Option ℤ := if -maxInt64 - 1 ≤ n ∧ n ≤ maxInt64 then some n else none

/-- `strconv.ParseInt(s, 10, 64)`, which is also `strconv.Atoi`; none for any error. -/
def parseInt : Bytes → Option ℤ
  | 43 :: s => (parseDigits s).bind fun n => fits n
  | 45 :: s => (parseDigits s).bind fun n => fits (-n)
  | s => (parseDigits s).bind fun n => fits n

lemma isDigit_iff {b : UInt8} : isDigit b = true ↔ 48 ≤ b.toNat ∧ b.toNat ≤ 57 := by
  simp [isDigit, UInt8.le_iff_toNat_le]

lemma decimalNat_ne_nil (n : ℕ) : decimalNat n ≠ [] := by
  simp [decimalNat, Nat.toDigits_ne_nil]

lemma parseDigits_decimalNat (n : ℕ) : parseDigits (decimalNat n) = some n := by
  have hall : (decimalNat n).all isDigit = true :=
    List.all_eq_true.mpr fun b hb => isDigit_iff.mpr (decimalNat_digits hb)
  rw [parseDigits, if_pos ⟨decimalNat_ne_nil n, hall⟩, digitsValue_decimalNat]

lemma parseInt_of_digit {b : UInt8} {s : Bytes} (hb : isDigit b = true) :
    parseInt (b :: s) = (parseDigits (b :: s)).bind fun n => fits n := by
  have hdigit := isDigit_iff.mp hb
  unfold parseInt
  split
  · simp_all
  · simp_all
  · rfl

lemma fits_eq_some {n k : ℤ} (h : fits n = some k) : -maxInt64 - 1 ≤ k ∧ k ≤ maxInt64 := by
  rw [fits] at h
  split at h
  · cases h
    assumption
  · cases h

lemma parseInt_bounds {s : Bytes} {k : ℤ} (h : parseInt s = some k) :
    -maxInt64 - 1 ≤ k ∧ k ≤ maxInt64 := by
  unfold parseInt at h
  split at h <;>
  · obtain ⟨n, -, hfits⟩ := Option.bind_eq_some_iff.mp h
    exact fits_eq_some hfits

lemma parseInt_decimal {n : ℕ} (h : (n : ℤ) ≤ maxInt64) :
    parseInt (decimal n) = some (n : ℤ) := by
  have htext : decimal n = decimalNat n := rfl
  obtain ⟨b, s, hs⟩ := List.exists_cons_of_ne_nil (decimalNat_ne_nil n)
  have hb : isDigit b = true := isDigit_iff.mpr (decimalNat_digits (n := n) (by simp [hs]))
  have hlow : -maxInt64 - 1 ≤ (n : ℤ) := by
    have hmax : maxInt64 = 2 ^ 63 - 1 := rfl
    omega
  rw [htext, hs, parseInt_of_digit hb, ← hs, parseDigits_decimalNat, Option.bind_some, fits,
    if_pos ⟨hlow, h⟩]

end KiteRail.GoStrconv
