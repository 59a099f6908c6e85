import KiteRail.Bytes

/-! Standard Base64 with padding, decoded strictly: unused bits must be zero. Line
breaks are skipped, as the decoder does. -/
namespace KiteRail.Base64
open Bytes

def alphabet : Bytes :=
  lit "ABCDEFGHIJKLMNOPQRSTUVWXYZabcdefghijklmnopqrstuvwxyz0123456789+/"

def digit (n : ℕ) : UInt8 := alphabet.getD n 0

def digitValue (b : UInt8) : Option ℕ := alphabet.findIdx? (· == b)

def encode : Bytes → Bytes
  | [] => []
  | [a] => [digit (a.toNat / 4), digit (a.toNat % 4 * 16), 61, 61]
  | [a, b] =>
    [digit (a.toNat / 4), digit (a.toNat % 4 * 16 + b.toNat / 16), digit (b.toNat % 16 * 4), 61]
  | a :: b :: c :: rest =>
    digit (a.toNat / 4) :: digit (a.toNat % 4 * 16 + b.toNat / 16) ::
      digit (b.toNat % 16 * 4 + c.toNat / 64) :: digit (c.toNat % 64) :: encode rest

def decodeQuads : Bytes → Option Bytes
  | [] => some []
  | [a, b, c, d] => do
    let a ← digitValue a
    let b ← digitValue b
    if c == 61 && d == 61 then
      if b % 16 = 0 then some [(a * 4 + b / 16).toUInt8] else none
    else
      let c ← digitValue c
      if d == 61 then
        if c % 4 = 0 then some [(a * 4 + b / 16).toUInt8, (b % 16 * 16 + c / 4).toUInt8] else none
      else
        let d ← digitValue d
        some [(a * 4 + b / 16).toUInt8, (b % 16 * 16 + c / 4).toUInt8, (c % 4 * 64 + d).toUInt8]
  | a :: b :: c :: d :: rest => do
    let a ← digitValue a
    let b ← digitValue b
    let c ← digitValue c
    let d ← digitValue d
    let after ← decodeQuads rest
    return (a * 4 + b / 16).toUInt8 :: (b % 16 * 16 + c / 4).toUInt8 ::
      (c % 4 * 64 + d).toUInt8 :: after
  | _ => none

def decode (bs : Bytes) : Option Bytes := decodeQuads (bs.filter fun b => b != 10 && b != 13)

example : encode (lit "light w") = lit "bGlnaHQgdw==" ∧
    decode (lit "bGlnaHQgdw==") = some (lit "light w") := by decide +kernel

/-- Every digit is read back, and digits are neither padding nor line breaks and stand in a header
as they are. -/
lemma digit_cases {n : ℕ} (h : n < 64) : digitValue (digit n) = some n ∧
    digit n ≠ 61 ∧ digit n ≠ 10 ∧ digit n ≠ 13 ∧ 0x20 < digit n ∧ digit n ≤ 0x7E := by
  have hall : ∀ k : Fin 64, digitValue (digit k) = some k.val ∧
      digit k ≠ 61 ∧ digit k ≠ 10 ∧ digit k ≠ 13 ∧ 0x20 < digit k ∧ digit k ≤ 0x7E := by
    decide +kernel
  exact hall ⟨n, h⟩

lemma digitValue_digit {n : ℕ} (h : n < 64) : digitValue (digit n) = some n := (digit_cases h).1

lemma digit_plain {n : ℕ} (h : n < 64) :
    digit n ≠ 61 ∧ digit n ≠ 10 ∧ digit n ≠ 13 ∧ 0x20 < digit n ∧ digit n ≤ 0x7E :=
  (digit_cases h).2

lemma encode_plain (bs : Bytes) : ∀ b ∈ encode bs, b ≠ 10 ∧ b ≠ 13 ∧ 0x20 < b ∧ b ≤ 0x7E := by
  have hdigit : ∀ n, n < 64 → digit n ≠ 10 ∧ digit n ≠ 13 ∧ 0x20 < digit n ∧ digit n ≤ 0x7E :=
    fun n hn => (digit_plain hn).2
  fun_induction encode bs with
  | case1 => simp
  | case2 a =>
    have ha := a.toNat_lt
    simp only [List.forall_mem_cons]
    exact ⟨hdigit _ (by omega), hdigit _ (by omega), by decide, by decide, by simp⟩
  | case3 a b =>
    have ha := a.toNat_lt
    have hb := b.toNat_lt
    simp only [List.forall_mem_cons]
    exact ⟨hdigit _ (by omega), hdigit _ (by omega), hdigit _ (by omega), by decide, by simp⟩
  | case4 a b c rest ih =>
    have ha := a.toNat_lt
    have hb := b.toNat_lt
    have hc := c.toNat_lt
    simp only [List.forall_mem_cons]
    exact ⟨hdigit _ (by omega), hdigit _ (by omega), hdigit _ (by omega), hdigit _ (by omega), ih⟩

lemma toUInt8_eq {a : UInt8} {n : ℕ} (h : n = a.toNat) : n.toUInt8 = a := by
  rw [h]
  simp

lemma decodeQuads_cons {i j k l : ℕ} (hi : i < 64) (hj : j < 64) (hk : k < 64) (hl : l < 64)
    (rest : Bytes) : decodeQuads (digit i :: digit j :: digit k :: digit l :: rest) =
      (decodeQuads rest).map fun after => (i * 4 + j / 16).toUInt8 ::
        (j % 16 * 16 + k / 4).toUInt8 :: (k % 4 * 64 + l).toUInt8 :: after := by
  cases rest with
  | nil => simp [decodeQuads, digitValue_digit, hi, hj, hk, hl, digit_plain]
  | cons r rest =>
    simp only [decodeQuads, digitValue_digit hi, digitValue_digit hj, digitValue_digit hk,
      digitValue_digit hl]
    cases decodeQuads (r :: rest) <;> rfl

theorem decode_encode (bs : Bytes) : decode (encode bs) = some bs := by
  have hfilter : (encode bs).filter (fun b => b != 10 && b != 13) = encode bs := by
    rw [List.filter_eq_self]
    intro b hb
    have h := encode_plain bs b hb
    simp [h.1, h.2.1]
  rw [decode, hfilter]
  clear hfilter
  fun_induction encode bs with
  | case1 => rfl
  | case2 a =>
    have ha := a.toNat_lt
    have hbits : a.toNat % 4 * 16 % 16 = 0 := by omega
    have hbyte : (a.toNat / 4 * 4 + a.toNat % 4 * 16 / 16).toUInt8 = a := toUInt8_eq (by omega)
    simp only [decodeQuads, digitValue_digit (show a.toNat / 4 < 64 by omega),
      digitValue_digit (show a.toNat % 4 * 16 < 64 by omega)]
    simp only [Option.bind_eq_bind, Option.bind_some, hbits, hbyte]
    rfl
  | case3 a b =>
    have ha := a.toNat_lt
    have hb := b.toNat_lt
    have hpad : (digit (b.toNat % 16 * 4) == 61) = false :=
      beq_false_of_ne (digit_plain (by omega)).1
    have hbits : b.toNat % 16 * 4 % 4 = 0 := by omega
    have hbyte₁ : (a.toNat / 4 * 4 + (a.toNat % 4 * 16 + b.toNat / 16) / 16).toUInt8 = a :=
      toUInt8_eq (by omega)
    have hbyte₂ : ((a.toNat % 4 * 16 + b.toNat / 16) % 16 * 16 + b.toNat % 16 * 4 / 4).toUInt8 =
        b := toUInt8_eq (by omega)
    simp only [decodeQuads, digitValue_digit (show a.toNat / 4 < 64 by omega),
      digitValue_digit (show a.toNat % 4 * 16 + b.toNat / 16 < 64 by omega),
      digitValue_digit (show b.toNat % 16 * 4 < 64 by omega), hpad]
    simp only [Option.bind_eq_bind, Option.bind_some, hbits, hbyte₁, hbyte₂]
    rfl
  | case4 a b c rest ih =>
    have ha := a.toNat_lt
    have hb := b.toNat_lt
    have hc := c.toNat_lt
    have hbyte₁ : (a.toNat / 4 * 4 + (a.toNat % 4 * 16 + b.toNat / 16) / 16).toUInt8 = a :=
      toUInt8_eq (by omega)
    have hbyte₂ : ((a.toNat % 4 * 16 + b.toNat / 16) % 16 * 16 +
        (b.toNat % 16 * 4 + c.toNat / 64) / 4).toUInt8 = b := toUInt8_eq (by omega)
    have hbyte₃ : ((b.toNat % 16 * 4 + c.toNat / 64) % 4 * 64 + c.toNat % 64).toUInt8 = c :=
      toUInt8_eq (by omega)
    rw [decodeQuads_cons (by omega) (by omega) (by omega) (by omega), ih, hbyte₁, hbyte₂, hbyte₃,
      Option.map_some]

end KiteRail.Base64
