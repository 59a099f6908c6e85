import KiteRail.Utf8

namespace KiteRail.Utf8

def encode (rs : List ℕ) : Bytes := rs.flatMap encodeRune

lemma encode_cons (r : ℕ) (rs : List ℕ) : encode (r :: rs) = encodeRune r ++ encode rs := rfl

lemma encode_append (rs rs' : List ℕ) : encode (rs ++ rs') = encode rs ++ encode rs' :=
  List.flatMap_append

lemma toNat_toUInt8 {n : ℕ} (h : n < 256) : n.toUInt8.toNat = n := by
  have hmod : n.toUInt8.toNat = n % 256 := rfl
  omega

lemma two_encode {r : ℕ} (hge : 0x80 ≤ r) (hlt : r < 0x800) :
    two (0xC0 + r / 64).toUInt8 (0x80 + r % 64).toUInt8 = some r := by
  have hb := toNat_toUInt8 (show 0xC0 + r / 64 < 256 by omega)
  have hc := toNat_toUInt8 (show 0x80 + r % 64 < 256 by omega)
  simp only [two, tail, Bool.and_eq_true, decide_eq_true_eq, UInt8.le_iff_toNat_le,
    UInt8.reduceToNat, hb, hc]
  rw [if_pos (by omega)]
  exact congrArg some (by omega)

lemma three_encode {r : ℕ} (hge : 0x800 ≤ r) (hlt : r < 0x10000)
    (hscalar : ¬ (0xD800 ≤ r ∧ r < 0xE000)) :
    three (0xE0 + r / 4096).toUInt8 (0x80 + r / 64 % 64).toUInt8 (0x80 + r % 64).toUInt8 =
      some r := by
  have hb := toNat_toUInt8 (show 0xE0 + r / 4096 < 256 by omega)
  have hc := toNat_toUInt8 (show 0x80 + r / 64 % 64 < 256 by omega)
  have hd := toNat_toUInt8 (show 0x80 + r % 64 < 256 by omega)
  simp only [three, tail, Bool.and_eq_true, Bool.or_eq_true, beq_iff_eq, decide_eq_true_eq,
    UInt8.le_iff_toNat_le, ← UInt8.toNat_inj, UInt8.reduceToNat, hb, hc, hd]
  rw [if_pos (by omega)]
  exact congrArg some (by omega)

lemma four_encode {r : ℕ} (hge : 0x10000 ≤ r) (hle : r ≤ 0x10FFFF) :
    four (0xF0 + r / 262144).toUInt8 (0x80 + r / 4096 % 64).toUInt8 (0x80 + r / 64 % 64).toUInt8
      (0x80 + r % 64).toUInt8 = some r := by
  have hb := toNat_toUInt8 (show 0xF0 + r / 262144 < 256 by omega)
  have hc := toNat_toUInt8 (show 0x80 + r / 4096 % 64 < 256 by omega)
  have hd := toNat_toUInt8 (show 0x80 + r / 64 % 64 < 256 by omega)
  have he := toNat_toUInt8 (show 0x80 + r % 64 < 256 by omega)
  simp only [four, tail, Bool.and_eq_true, Bool.or_eq_true, beq_iff_eq, decide_eq_true_eq,
    UInt8.le_iff_toNat_le, ← UInt8.toNat_inj, UInt8.reduceToNat, hb, hc, hd, he]
  rw [if_pos (by omega)]
  exact congrArg some (by omega)

/-- A lead byte tells the length of its sequence. -/
lemma three_of_two {b c : UInt8} {r : ℕ} (h : two b c = some r) (d e : UInt8) :
    three b c d = none ∧ four b c d e = none := by
  simp only [two, tail, Bool.and_eq_true, decide_eq_true_eq, UInt8.le_iff_toNat_le,
    UInt8.reduceToNat, Option.ite_none_right_eq_some, Option.some.injEq] at h
  simp only [three, four, tail, Bool.and_eq_true, Bool.or_eq_true, beq_iff_eq, decide_eq_true_eq,
    UInt8.le_iff_toNat_le, ← UInt8.toNat_inj, UInt8.reduceToNat]
  exact ⟨if_neg (by omega), if_neg (by omega)⟩

lemma four_of_three {b c d : UInt8} {r : ℕ} (h : three b c d = some r) (e : UInt8) :
    four b c d e = none := by
  simp only [three, tail, Bool.and_eq_true, Bool.or_eq_true, beq_iff_eq, decide_eq_true_eq,
    UInt8.le_iff_toNat_le, ← UInt8.toNat_inj, UInt8.reduceToNat, Option.ite_none_right_eq_some,
    Option.some.injEq] at h
  simp only [four, tail, Bool.and_eq_true, Bool.or_eq_true, beq_iff_eq, decide_eq_true_eq,
    UInt8.le_iff_toNat_le, ← UInt8.toNat_inj, UInt8.reduceToNat]
  exact if_neg (by omega)

lemma decode_two {b c : UInt8} {r : ℕ} (h : two b c = some r) (rest : Bytes) :
    decode (b :: c :: rest) = some r :: decode rest := by
  rcases rest with _ | ⟨d, _ | ⟨e, rest⟩⟩
  · simp [decode, h]
  · simp [decode, h, (three_of_two h d d).1]
  · simp [decode, h, three_of_two h d e]

lemma decode_three {b c d : UInt8} {r : ℕ} (h : three b c d = some r) (rest : Bytes) :
    decode (b :: c :: d :: rest) = some r :: decode rest := by
  cases rest with
  | nil => simp [decode, h]
  | cons e rest => simp [decode, h, four_of_three h e]

lemma decode_four {b c d e : UInt8} {r : ℕ} (h : four b c d e = some r) (rest : Bytes) :
    decode (b :: c :: d :: e :: rest) = some r :: decode rest := by
  simp [decode, h]

lemma decode_encodeRune {r : ℕ} (h : Scalar r) (rest : Bytes) :
    decode (encodeRune r ++ rest) = some r :: decode rest := by
  have hsurrogate : ¬ (0xD800 ≤ r ∧ r < 0xE000) := by
    rcases h with h | h <;> omega
  have hle : r ≤ 0x10FFFF := by
    rcases h with h | h <;> omega
  rw [encodeRune]
  split
  · rename_i hlt
    have hnat := toNat_toUInt8 (show r < 256 by omega)
    rw [List.singleton_append, decode_cons_of_lt, hnat]
    rw [UInt8.lt_iff_toNat_lt, hnat]
    exact hlt
  split
  · exact decode_two (two_encode (by omega) (by omega)) rest
  split
  · omega
  split
  · exact decode_three (three_encode (by omega) (by omega) hsurrogate) rest
  · exact decode_four (four_encode (by omega) hle) rest

lemma decode_encode {rs : List ℕ} (h : ∀ r ∈ rs, Scalar r) (rest : Bytes) :
    decode (encode rs ++ rest) = rs.map some ++ decode rest := by
  induction rs with
  | nil => rfl
  | cons r rs ih =>
    rw [List.forall_mem_cons] at h
    rw [encode_cons, List.append_assoc, decode_encodeRune h.1, List.map_cons, List.cons_append,
      ih h.2]

@[simp] lemma runes_encode {rs : List ℕ} (h : ∀ r ∈ rs, Scalar r) : runes (encode rs) = rs := by
  have hdec := decode_encode h []
  rw [List.append_nil] at hdec
  simp [runes, hdec, decode]

lemma valid_encode {rs : List ℕ} (h : ∀ r ∈ rs, Scalar r) : valid (encode rs) = true := by
  have hdec := decode_encode h []
  rw [List.append_nil] at hdec
  simp [valid, hdec, decode]

lemma scalar_of_decode {bs : Bytes} {r : ℕ} (h : some r ∈ decode bs) : Scalar r := by
  induction hn : bs.length using Nat.strong_induction_on generalizing bs with
  | _ n ih =>
    cases bs with
    | nil => simp [decode] at h
    | cons b bs =>
      obtain ⟨chunk, rest, heq, hne, hdec⟩ := decode_cons b bs
      have hpos := List.length_pos_of_ne_nil hne
      have hlen : (b :: bs).length = chunk.length + rest.length := by
        rw [heq, List.length_append]
      have hrest : some r ∈ decode rest → Scalar r := fun hr => ih rest.length (by omega) hr rfl
      rcases hdec with ⟨r', hdec, hscalar, -⟩ | ⟨hdec, -⟩
      · rw [hdec] at h
        rcases List.mem_cons.mp h with heq | h
        · exact Option.some.inj heq ▸ hscalar
        · exact hrest h
      · rw [hdec] at h
        rcases List.mem_cons.mp h with heq | h
        · simp at heq
        · exact hrest h

lemma encode_runes {bs : Bytes} (h : valid bs = true) :
    encode (runes bs) = bs ∧ ∀ r ∈ runes bs, Scalar r := by
  refine ⟨(sanitize_eq_self_iff bs).mpr h, fun r hr => ?_⟩
  simp only [runes, List.mem_map] at hr
  obtain ⟨o, ho, rfl⟩ := hr
  obtain ⟨r, rfl⟩ := Option.isSome_iff_exists.mp (List.all_eq_true.mp h o ho)
  exact scalar_of_decode ho

lemma valid_append {x y : Bytes} (hx : valid x = true) (hy : valid y = true) :
    valid (x ++ y) = true := by
  obtain ⟨hx', hxs⟩ := encode_runes hx
  have hdec := decode_encode hxs y
  rw [hx'] at hdec
  simp only [valid, hdec, List.all_append, Bool.and_eq_true]
  exact ⟨by simp, hy⟩

lemma decode_append {x y : Bytes} (hx : valid x = true) :
    decode (x ++ y) = decode x ++ decode y := by
  obtain ⟨hx', hxs⟩ := encode_runes hx
  have hdec := decode_encode hxs []
  rw [List.append_nil, hx'] at hdec
  rw [hdec, ← hx', decode_encode hxs y, hx', List.append_assoc]
  rfl

lemma valid_of_ascii {bs : Bytes} (h : Ascii bs) : valid bs = true :=
  (sanitize_eq_self_iff bs).mp (sanitize_of_ascii h)

/-- A sequence of several bytes has none of ASCII. -/
lemma encodeRune_beyond {r : ℕ} (hr : 0x80 ≤ r) : ∀ b ∈ encodeRune r, 0x80 ≤ b.toNat := by
  intro b hb
  have hbyte : ∀ n, 0x80 ≤ n → n < 256 → 0x80 ≤ n.toUInt8.toNat := fun n hge hlt => by
    rwa [toNat_toUInt8 hlt]
  rw [encodeRune, if_neg (not_lt.mpr hr)] at hb
  split at hb
  · simp only [List.mem_cons, List.not_mem_nil, or_false] at hb
    rcases hb with rfl | rfl <;> exact hbyte _ (by omega) (by omega)
  split at hb
  · simp only [List.mem_cons, List.not_mem_nil, or_false] at hb
    rcases hb with rfl | rfl | rfl <;> decide
  split at hb
  · simp only [List.mem_cons, List.not_mem_nil, or_false] at hb
    rcases hb with rfl | rfl | rfl <;> exact hbyte _ (by omega) (by omega)
  · simp only [List.mem_cons, List.not_mem_nil, or_false] at hb
    rcases hb with rfl | rfl | rfl | rfl <;> exact hbyte _ (by omega) (by omega)

/-- A byte of ASCII stands at the start of a sequence. -/
lemma encode_split {rs : List ℕ} {x y : Bytes} (hy : ∀ b ∈ y.head?, b.toNat < 0x80)
    (h : encode rs = x ++ y) : ∃ rs₁ rs₂, rs = rs₁ ++ rs₂ ∧ x = encode rs₁ ∧ y = encode rs₂ := by
  induction rs generalizing x with
  | nil =>
    obtain ⟨rfl, rfl⟩ := List.append_eq_nil_iff.mp h.symm
    exact ⟨[], [], rfl, rfl, rfl⟩
  | cons r rs ih =>
    rw [encode_cons] at h
    rcases List.append_eq_append_iff.mp h with ⟨a, rfl, hrest⟩ | ⟨c, hc, rfl⟩
    · obtain ⟨rs₁, rs₂, rfl, rfl, hy₂⟩ := ih hrest
      exact ⟨r :: rs₁, rs₂, rfl, rfl, hy₂⟩
    · cases c with
      | nil =>
        rw [List.append_nil] at hc
        exact ⟨[r], rs, rfl, by rw [← hc, encode, List.flatMap_singleton], rfl⟩
      | cons d c =>
        have hd : d.toNat < 0x80 := hy d rfl
        have hr : r < 0x80 := by
          by_contra hge
          have hmem : d ∈ encodeRune r := by simp [hc]
          have := encodeRune_beyond (not_lt.mp hge) d hmem
          omega
        rw [encodeRune, if_pos hr] at hc
        cases x with
        | nil =>
          obtain ⟨rfl, rfl⟩ := List.cons.inj hc
          refine ⟨[], r :: rs, rfl, rfl, ?_⟩
          rw [encode_cons, encodeRune, if_pos hr]
        | cons b x => simp at hc

lemma valid_split {x y : Bytes} (hy : ∀ b ∈ y.head?, b.toNat < 0x80)
    (h : valid (x ++ y) = true) : valid x = true ∧ valid y = true := by
  obtain ⟨henc, hscalar⟩ := encode_runes h
  obtain ⟨rs₁, rs₂, heq, rfl, rfl⟩ := encode_split hy henc
  rw [heq, List.forall_mem_append] at hscalar
  exact ⟨valid_encode hscalar.1, valid_encode hscalar.2⟩

lemma valid_cons_ascii {b : UInt8} {bs : Bytes} (hb : b.toNat < 0x80)
    (h : valid (b :: bs) = true) : valid bs = true := by
  have hlt : b < 0x80 := hb
  rwa [valid, decode_cons_of_lt hlt, List.all_cons, Option.isSome_some, Bool.true_and] at h

lemma valid_encodeRune (r : ℕ) : valid (encodeRune r) = true := by
  by_cases h : Scalar r
  · have hv : valid (encode [r]) = true := valid_encode (by simpa using h)
    rwa [encode, List.flatMap_singleton] at hv
  · have hr : encodeRune r = encodeRune runeError := by
      rw [Scalar] at h
      rw [encodeRune, if_neg (by omega), if_neg (by omega), if_pos (by omega)]
      decide
    rw [hr]
    decide

end KiteRail.Utf8
