import KiteRail.Bytes

/-! UTF-8: decoding byte strings that need not be valid, validity, and encoding.
A byte that starts no valid sequence stands for one replacement character. -/
namespace KiteRail.Utf8

def runeError : ℕ := 0xFFFD

def tail (b : UInt8) : Bool := 0x80 ≤ b && b ≤ 0xBF

/-- The code point of one byte, if it is one. -/
def one (b : UInt8) : Option ℕ := if b < 0x80 then some b.toNat else none

def two (b c : UInt8) : Option ℕ :=
  if 0xC2 ≤ b && b ≤ 0xDF && tail c then some ((b.toNat - 0xC0) * 64 + (c.toNat - 0x80)) else none

def three (b c d : UInt8) : Option ℕ :=
  if ((b == 0xE0 && 0xA0 ≤ c && c ≤ 0xBF) || (0xE1 ≤ b && b ≤ 0xEC && tail c) ||
      (b == 0xED && 0x80 ≤ c && c ≤ 0x9F) || (0xEE ≤ b && b ≤ 0xEF && tail c)) && tail d then
    some ((b.toNat - 0xE0) * 4096 + (c.toNat - 0x80) * 64 + (d.toNat - 0x80))
  else none

def four (b c d e : UInt8) : Option ℕ :=
  if ((b == 0xF0 && 0x90 ≤ c && c ≤ 0xBF) || (0xF1 ≤ b && b ≤ 0xF3 && tail c) ||
      (b == 0xF4 && 0x80 ≤ c && c ≤ 0x8F)) && tail d && tail e then
    some ((b.toNat - 0xF0) * 262144 + (c.toNat - 0x80) * 4096 + (d.toNat - 0x80) * 64 +
      (e.toNat - 0x80))
  else none

/-- The code points of a byte string; `none` is a byte that is no part of one. -/
def decode : Bytes → List (Option ℕ)
  | [] => []
  | [b] => [one b]
  | [b, c] =>
    match two b c with
    | some r => [some r]
    | none => one b :: decode [c]
  | [b, c, d] =>
    match three b c d, two b c with
    | some r, _ => [some r]
    | none, some r => some r :: decode [d]
    | none, none => one b :: decode [c, d]
  | b :: c :: d :: e :: rest =>
    match four b c d e, three b c d, two b c with
    | some r, _, _ => some r :: decode rest
    | none, some r, _ => some r :: decode (e :: rest)
    | none, none, some r => some r :: decode (d :: e :: rest)
    | none, none, none => one b :: decode (c :: d :: e :: rest)

/-- The runes a loop over the string sees. -/
def runes (bs : Bytes) : List ℕ := (decode bs).map fun r => r.getD runeError

def valid (bs : Bytes) : Bool := (decode bs).all Option.isSome

def encodeRune (r : ℕ) : Bytes :=
  if r < 0x80 then [r.toUInt8]
  else if r < 0x800 then [(0xC0 + r / 64).toUInt8, (0x80 + r % 64).toUInt8]
  else if 0xD800 ≤ r ∧ r < 0xE000 ∨ 0x10FFFF < r then [0xEF, 0xBF, 0xBD]
  else if r < 0x10000 then
    [(0xE0 + r / 4096).toUInt8, (0x80 + r / 64 % 64).toUInt8, (0x80 + r % 64).toUInt8]
  else
    [(0xF0 + r / 262144).toUInt8, (0x80 + r / 4096 % 64).toUInt8, (0x80 + r / 64 % 64).toUInt8,
      (0x80 + r % 64).toUInt8]

/-- The string with every invalid byte replaced. -/
def sanitize (bs : Bytes) : Bytes := (runes bs).flatMap encodeRune

def Ascii (bs : Bytes) : Prop := ∀ b ∈ bs, b < 0x80

def Scalar (r : ℕ) : Prop := r < 0xD800 ∨ 0xE000 ≤ r ∧ r ≤ 0x10FFFF

lemma one_of_lt {b : UInt8} (h : b < 0x80) : one b = some b.toNat := by simp [one, h]

lemma not_le_of_ascii {b x : UInt8} (h : b < 0x80) (hx : 0x80 ≤ x) : ¬ x ≤ b := by
  simp only [UInt8.lt_iff_toNat_lt, UInt8.le_iff_toNat_le] at h hx ⊢
  omega

lemma ne_of_ascii {b x : UInt8} (h : b < 0x80) (hx : 0x80 ≤ x) : b ≠ x := by
  rintro rfl
  exact not_le_of_ascii h hx (UInt8.le_refl _)

lemma two_none_of_lt {b : UInt8} (h : b < 0x80) (c : UInt8) : two b c = none := by
  simp [two, not_le_of_ascii h (show 0x80 ≤ 0xC2 by decide)]

lemma three_none_of_lt {b : UInt8} (h : b < 0x80) (c d : UInt8) : three b c d = none := by
  simp [three, ne_of_ascii h (show 0x80 ≤ 0xE0 by decide),
    ne_of_ascii h (show 0x80 ≤ 0xED by decide), not_le_of_ascii h (show 0x80 ≤ 0xE1 by decide),
    not_le_of_ascii h (show 0x80 ≤ 0xEE by decide)]

lemma four_none_of_lt {b : UInt8} (h : b < 0x80) (c d e : UInt8) : four b c d e = none := by
  simp [four, ne_of_ascii h (show 0x80 ≤ 0xF0 by decide),
    ne_of_ascii h (show 0x80 ≤ 0xF4 by decide), not_le_of_ascii h (show 0x80 ≤ 0xF1 by decide)]

lemma decode_cons_of_lt {b : UInt8} (h : b < 0x80) (rest : Bytes) :
    decode (b :: rest) = some b.toNat :: decode rest := by
  match rest with
  | [] => simp [decode, one_of_lt h]
  | [c] => simp [decode, one_of_lt h, two_none_of_lt h]
  | [c, d] => simp [decode, one_of_lt h, two_none_of_lt h, three_none_of_lt h]
  | c :: d :: e :: rest =>
    simp [decode, one_of_lt h, two_none_of_lt h, three_none_of_lt h, four_none_of_lt h]

lemma sanitize_of_ascii {bs : Bytes} (h : Ascii bs) : sanitize bs = bs := by
  induction bs with
  | nil => rfl
  | cons b bs ih =>
    have hb : b < 0x80 := h b (by simp)
    have hnat : b.toNat < 128 := hb
    have hrest := ih fun c hc => h c (by simp [hc])
    simp only [sanitize, runes] at hrest ⊢
    rw [decode_cons_of_lt hb, List.map_cons, List.flatMap_cons, hrest]
    simp [encodeRune, hnat]

lemma encodeRune_one {b : UInt8} {r : ℕ} (h : one b = some r) :
    Scalar r ∧ encodeRune r = [b] := by
  simp only [one, Option.ite_none_right_eq_some, Option.some.injEq] at h
  obtain ⟨hlt, rfl⟩ := h
  have hnat : b.toNat < 0x80 := hlt
  refine ⟨.inl (by omega), ?_⟩
  simp [encodeRune, hnat]

lemma encodeRune_two {b c : UInt8} {r : ℕ} (h : two b c = some r) :
    Scalar r ∧ encodeRune r = [b, c] := by
  simp only [two, tail, Bool.and_eq_true, decide_eq_true_eq, UInt8.le_iff_toNat_le,
    UInt8.reduceToNat, Option.ite_none_right_eq_some, Option.some.injEq] at h
  have hge : ¬ r < 0x80 := by omega
  have hlt : r < 0x800 := by omega
  have hb : 0xC0 + r / 64 = b.toNat := by omega
  have hc : 0x80 + r % 64 = c.toNat := by omega
  refine ⟨.inl (by omega), ?_⟩
  simp only [encodeRune, if_neg hge, if_pos hlt, hb, hc]
  simp

lemma encodeRune_three {b c d : UInt8} {r : ℕ} (h : three b c d = some r) :
    Scalar r ∧ encodeRune r = [b, c, d] := by
  simp only [three, tail, Bool.and_eq_true, Bool.or_eq_true, beq_iff_eq, decide_eq_true_eq,
    UInt8.le_iff_toNat_le, ← UInt8.toNat_inj, UInt8.reduceToNat, Option.ite_none_right_eq_some,
    Option.some.injEq] at h
  have hge : ¬ r < 0x800 := by omega
  have hge' : ¬ r < 0x80 := by omega
  have hscalar : ¬ (0xD800 ≤ r ∧ r < 0xE000 ∨ 0x10FFFF < r) := by omega
  have hlt : r < 0x10000 := by omega
  have hb : 0xE0 + r / 4096 = b.toNat := by omega
  have hc : 0x80 + r / 64 % 64 = c.toNat := by omega
  have hd : 0x80 + r % 64 = d.toNat := by omega
  refine ⟨by rw [Scalar]; omega, ?_⟩
  simp only [encodeRune, if_neg hge', if_neg hge, if_neg hscalar, if_pos hlt, hb, hc, hd]
  simp

lemma encodeRune_four {b c d e : UInt8} {r : ℕ} (h : four b c d e = some r) :
    Scalar r ∧ encodeRune r = [b, c, d, e] := by
  simp only [four, tail, Bool.and_eq_true, Bool.or_eq_true, beq_iff_eq, decide_eq_true_eq,
    UInt8.le_iff_toNat_le, ← UInt8.toNat_inj, UInt8.reduceToNat, Option.ite_none_right_eq_some,
    Option.some.injEq] at h
  have hge : ¬ r < 0x10000 := by omega
  have hge' : ¬ r < 0x800 := by omega
  have hge'' : ¬ r < 0x80 := by omega
  have hscalar : ¬ (0xD800 ≤ r ∧ r < 0xE000 ∨ 0x10FFFF < r) := by omega
  have hb : 0xF0 + r / 262144 = b.toNat := by omega
  have hc : 0x80 + r / 4096 % 64 = c.toNat := by omega
  have hd : 0x80 + r / 64 % 64 = d.toNat := by omega
  have he : 0x80 + r % 64 = e.toNat := by omega
  refine ⟨by rw [Scalar]; omega, ?_⟩
  simp only [encodeRune, if_neg hge'', if_neg hge', if_neg hscalar, if_neg hge, hb, hc, hd, he]
  simp

/-- Decoding takes off the encoding of a rune, or one byte. -/
lemma decode_cons (b : UInt8) (bs : Bytes) : ∃ chunk rest, b :: bs = chunk ++ rest ∧
    chunk ≠ [] ∧
    ((∃ r, decode (b :: bs) = some r :: decode rest ∧ Scalar r ∧ encodeRune r = chunk) ∨
      (decode (b :: bs) = none :: decode rest ∧ chunk = [b])) := by
  have hone : ∀ rest, decode (b :: bs) = one b :: decode rest → bs = rest →
      ∃ chunk rest, b :: bs = chunk ++ rest ∧ chunk ≠ [] ∧
        ((∃ r, decode (b :: bs) = some r :: decode rest ∧ Scalar r ∧ encodeRune r = chunk) ∨
          (decode (b :: bs) = none :: decode rest ∧ chunk = [b])) := by
    rintro rest hdec rfl
    refine ⟨[b], bs, rfl, by simp, ?_⟩
    cases h : one b with
    | none => exact .inr ⟨by rw [hdec, h], rfl⟩
    | some r => exact .inl ⟨r, by rw [hdec, h], encodeRune_one h⟩
  match bs with
  | [] => exact hone [] rfl rfl
  | [c] =>
    cases h2 : two b c with
    | some r => exact ⟨[b, c], [], rfl, by simp, .inl ⟨r, by simp [decode, h2], encodeRune_two h2⟩⟩
    | none => exact hone [c] (by simp [decode, h2]) rfl
  | [c, d] =>
    cases h3 : three b c d with
    | some r =>
      exact ⟨[b, c, d], [], rfl, by simp, .inl ⟨r, by simp [decode, h3], encodeRune_three h3⟩⟩
    | none =>
      cases h2 : two b c with
      | some r =>
        exact ⟨[b, c], [d], rfl, by simp, .inl ⟨r, by simp [decode, h3, h2], encodeRune_two h2⟩⟩
      | none => exact hone [c, d] (by simp [decode, h3, h2]) rfl
  | c :: d :: e :: rest =>
    cases h4 : four b c d e with
    | some r =>
      exact ⟨[b, c, d, e], rest, rfl, by simp, .inl ⟨r, by simp [decode, h4], encodeRune_four h4⟩⟩
    | none =>
      cases h3 : three b c d with
      | some r =>
        exact ⟨[b, c, d], e :: rest, rfl, by simp,
          .inl ⟨r, by simp [decode, h4, h3], encodeRune_three h3⟩⟩
      | none =>
        cases h2 : two b c with
        | some r =>
          exact ⟨[b, c], d :: e :: rest, rfl, by simp,
            .inl ⟨r, by simp [decode, h4, h3, h2], encodeRune_two h2⟩⟩
        | none => exact hone (c :: d :: e :: rest) (by simp [decode, h4, h3, h2]) rfl

/-- Text that is valid is left alone; any other text grows. -/
lemma sanitize_valid_or_longer (bs : Bytes) : (valid bs = true ∧ sanitize bs = bs) ∨
    (valid bs = false ∧ bs.length < (sanitize bs).length) := by
  induction hn : bs.length using Nat.strong_induction_on generalizing bs with
  | _ n ih =>
    match bs with
    | [] => exact .inl ⟨rfl, rfl⟩
    | b :: bs =>
      obtain ⟨chunk, rest, heq, hne, hdec⟩ := decode_cons b bs
      have hpos := List.length_pos_of_ne_nil hne
      have hlen : (b :: bs).length = chunk.length + rest.length := by
        rw [heq, List.length_append]
      have hrest := ih rest.length (by omega) rest rfl
      rcases hdec with ⟨r, hdec, -, hchunk⟩ | ⟨hdec, hchunk⟩
      · have hvalid : valid (b :: bs) = valid rest := by simp [valid, hdec]
        have hsan : sanitize (b :: bs) = chunk ++ sanitize rest := by
          simp [sanitize, runes, hdec, hchunk]
        rw [hvalid, hsan]
        rcases hrest with ⟨hv, hs⟩ | ⟨hv, hs⟩
        · exact .inl ⟨hv, by rw [hs, heq]⟩
        · refine .inr ⟨hv, ?_⟩
          rw [List.length_append]
          omega
      · have hsan : sanitize (b :: bs) = encodeRune runeError ++ sanitize rest := by
          simp [sanitize, runes, hdec]
        have hthree : (encodeRune runeError).length = 3 := by decide
        have hge : rest.length ≤ (sanitize rest).length := by
          rcases hrest with ⟨-, hs⟩ | ⟨-, hs⟩
          · rw [hs]
          · exact hs.le
        refine .inr ⟨by simp [valid, hdec], ?_⟩
        rw [hchunk, List.length_singleton] at hlen
        rw [hsan, List.length_append]
        omega

lemma sanitize_eq_self_iff (bs : Bytes) : sanitize bs = bs ↔ valid bs = true := by
  rcases sanitize_valid_or_longer bs with ⟨hv, hs⟩ | ⟨hv, hs⟩
  · simp [hv, hs]
  · refine ⟨fun h => absurd hs (by rw [h]; exact lt_irrefl _), fun h => absurd h (by simp [hv])⟩

/-- A string that starts beyond ASCII starts with a rune beyond ASCII. -/
lemma runes_cons_of_ge {b : UInt8} (h : ¬ b < 0x80) (bs : Bytes) :
    ∃ r ∈ runes (b :: bs), 0x80 ≤ r := by
  obtain ⟨chunk, rest, heq, -, ⟨r, hdec, -, hchunk⟩ | ⟨hdec, -⟩⟩ := decode_cons b bs
  · refine ⟨r, by simp [runes, hdec], ?_⟩
    by_contra hlt
    have hsmall : r < 0x80 := not_le.mp hlt
    have hb : b = r.toUInt8 := by
      rw [← hchunk, encodeRune, if_pos hsmall] at heq
      exact (List.cons.inj heq).1
    apply h
    rw [hb, UInt8.lt_iff_toNat_lt]
    have hnat : r.toUInt8.toNat = r % 256 := rfl
    have hbound : (0x80 : UInt8).toNat = 128 := rfl
    omega
  · exact ⟨runeError, by simp [runes, hdec], by decide⟩

lemma ascii_of_runes {bs : Bytes} (h : ∀ r ∈ runes bs, r < 0x80) : Ascii bs := by
  induction bs with
  | nil => simp [Ascii]
  | cons b bs ih =>
    by_cases hb : b < 0x80
    · rw [runes, decode_cons_of_lt hb] at h
      have hrest := ih fun r hr => h r (List.mem_cons_of_mem _ hr)
      intro c hc
      rcases List.mem_cons.mp hc with rfl | hc
      · exact hb
      · exact hrest c hc
    · obtain ⟨r, hr, hge⟩ := runes_cons_of_ge hb bs
      exact absurd (h r hr) (not_lt.mpr hge)

end KiteRail.Utf8
