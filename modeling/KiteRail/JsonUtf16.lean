import KiteRail.JsonStrings

/-! The UTF-16 code units that a string literal denotes, as RFC 8259 has it, and what is
left of them when the literal is unquoted: a surrogate without its partner becomes a
replacement character, and that is the only loss. -/
namespace KiteRail.Json
open Utf8

def High (u : ℕ) : Prop := 0xD800 ≤ u ∧ u < 0xDC00

def Low (u : ℕ) : Prop := 0xDC00 ≤ u ∧ u < 0xE000

instance (u : ℕ) : Decidable (High u) := inferInstanceAs (Decidable (_ ∧ _))

instance (u : ℕ) : Decidable (Low u) := inferInstanceAs (Decidable (_ ∧ _))

def unitsOfRune (r : ℕ) : List ℕ :=
  if r < 0x10000 then [r] else [0xD800 + (r - 0x10000) / 1024, 0xDC00 + (r - 0x10000) % 1024]

def pairRune (u v : ℕ) : ℕ := 0x10000 + (u - 0xD800) * 1024 + (v - 0xDC00)

/-- The code points of code units, with replacement characters for unpaired surrogates. -/
def runesOfUnits : List ℕ → List ℕ
  | [] => []
  | [u] => [if High u ∨ Low u then runeError else u]
  | u :: v :: rest =>
    if High u ∧ Low v then pairRune u v :: runesOfUnits rest
    else (if High u ∨ Low u then runeError else u) :: runesOfUnits (v :: rest)

/-- Whether a surrogate stands without its partner. -/
def unpaired : List ℕ → Bool
  | [] => false
  | [u] => High u ∨ Low u
  | u :: v :: rest =>
    if High u ∧ Low v then unpaired rest else decide (High u ∨ Low u) || unpaired (v :: rest)

/-- The units of the text `pending` and the items after it. -/
def unitsFrom (pending : Bytes) : List StrItem → List ℕ
  | [] => (runes pending).flatMap unitsOfRune
  | .char b :: rest => unitsFrom (pending ++ [b]) rest
  | .escape b :: rest => (runes pending).flatMap unitsOfRune ++ b.toNat :: unitsFrom [] rest
  | .unicode u :: rest => (runes pending).flatMap unitsOfRune ++ u :: unitsFrom [] rest

def units (items : List StrItem) : List ℕ := unitsFrom [] items

section Units
variable {r : ℕ} {us vs : List ℕ}

lemma pairRune_eq (u v : ℕ) :
    pairRune u v = 0x10000 + (u - 0xD800) * 1024 + (v - 0xDC00) := rfl

lemma runesOfUnits_cons {u : ℕ} (h : ¬ High u ∨ ∀ v ∈ us.head?, ¬ Low v) :
    runesOfUnits (u :: us) = (if High u ∨ Low u then runeError else u) :: runesOfUnits us := by
  cases us with
  | nil => rfl
  | cons v us =>
    rw [runesOfUnits, if_neg]
    rintro ⟨hhigh, hlow⟩
    rcases h with h | h
    · exact h hhigh
    · exact h v rfl hlow

/-- A code point is read back, whatever follows it. -/
lemma runesOfUnits_rune (h : Scalar r) : runesOfUnits (unitsOfRune r ++ us) =
    r :: runesOfUnits us := by
  rw [unitsOfRune]
  split
  · have hnot : ¬ High r ∧ ¬ Low r := by
      rw [Scalar] at h
      rw [High, Low]
      omega
    rw [List.singleton_append, runesOfUnits_cons (.inl hnot.1), if_neg (by tauto)]
  · have hpair : High (0xD800 + (r - 0x10000) / 1024) ∧ Low (0xDC00 + (r - 0x10000) % 1024) := by
      rw [Scalar] at h
      rw [High, Low]
      omega
    have hrune : pairRune (0xD800 + (r - 0x10000) / 1024) (0xDC00 + (r - 0x10000) % 1024) = r := by
      have heq := pairRune_eq (0xD800 + (r - 0x10000) / 1024) (0xDC00 + (r - 0x10000) % 1024)
      omega
    rw [List.cons_append, List.singleton_append, runesOfUnits, if_pos hpair, hrune]

lemma runesOfUnits_runes {rs : List ℕ} (h : ∀ r ∈ rs, Scalar r) :
    runesOfUnits (rs.flatMap unitsOfRune ++ us) = rs ++ runesOfUnits us := by
  induction rs with
  | nil => rfl
  | cons r rs ih =>
    rw [List.forall_mem_cons] at h
    rw [List.flatMap_cons, List.append_assoc, runesOfUnits_rune h.1, ih h.2, List.cons_append]

lemma pairRune_bounds {u v : ℕ} (hu : High u) (hv : Low v) :
    0x10000 ≤ pairRune u v ∧ pairRune u v ≤ 0x10FFFF := by
  have heq := pairRune_eq u v
  simp only [High, Low] at hu hv
  omega

lemma unitsOfRune_pairRune {u v : ℕ} (hu : High u) (hv : Low v) :
    unitsOfRune (pairRune u v) = [u, v] := by
  have hge := (pairRune_bounds hu hv).1
  have heq := pairRune_eq u v
  simp only [High, Low] at hu hv
  have hfirst : 0xD800 + (pairRune u v - 0x10000) / 1024 = u := by omega
  have hsecond : 0xDC00 + (pairRune u v - 0x10000) % 1024 = v := by omega
  rw [unitsOfRune, if_neg (not_lt.mpr hge), hfirst, hsecond]

lemma scalar_runesOfUnits (h : ∀ u ∈ us, u < 0x10000) : ∀ r ∈ runesOfUnits us, Scalar r := by
  have hone : ∀ u, u < 0x10000 → Scalar (if High u ∨ Low u then runeError else u) := by
    intro u hu
    split
    · exact .inr (by decide)
    · rename_i hnot
      rw [High, Low] at hnot
      rw [Scalar]
      omega
  fun_induction runesOfUnits us with
  | case1 => simp
  | case2 u => simpa using hone u (h u (by simp))
  | case3 u v rest hpair ih =>
    rw [List.forall_mem_cons]
    have hbounds := pairRune_bounds hpair.1 hpair.2
    exact ⟨.inr (by omega), ih fun w hw => h w (by simp [hw])⟩
  | case4 u v rest hpair ih =>
    rw [List.forall_mem_cons]
    exact ⟨hone u (h u (by simp)), ih fun w hw => h w (List.mem_cons_of_mem _ hw)⟩

/-- Units without an unpaired surrogate are those of their code points. -/
lemma units_runesOfUnits (h : ∀ u ∈ us, u < 0x10000) (hpaired : unpaired us = false) :
    (runesOfUnits us).flatMap unitsOfRune = us := by
  have hone : ∀ u, u < 0x10000 → ¬ (High u ∨ Low u) → unitsOfRune u = [u] := fun u hu _ =>
    if_pos hu
  fun_induction runesOfUnits us with
  | case1 => rfl
  | case2 u =>
    have hnot : ¬ (High u ∨ Low u) := by simpa [unpaired] using hpaired
    rw [if_neg hnot, List.flatMap_singleton, hone u (h u (by simp)) hnot]
  | case3 u v rest hpair ih =>
    rw [unpaired, if_pos hpair] at hpaired
    rw [List.flatMap_cons, unitsOfRune_pairRune hpair.1 hpair.2,
      ih (fun w hw => h w (by simp [hw])) hpaired]
    rfl
  | case4 u v rest hpair ih =>
    rw [unpaired, if_neg hpair, Bool.or_eq_false_iff, decide_eq_false_iff_not] at hpaired
    rw [if_neg hpaired.1, List.flatMap_cons, hone u (h u (by simp)) hpaired.1,
      ih (fun w hw => h w (List.mem_cons_of_mem _ hw)) hpaired.2]
    rfl

/-- A replacement character stands for itself or for an unpaired surrogate. -/
lemma runeError_mem : runeError ∈ runesOfUnits us ↔ runeError ∈ us ∨ unpaired us = true := by
  have hplain : ¬ (High runeError ∨ Low runeError) := by decide
  have hone : ∀ u, runeError = (if High u ∨ Low u then runeError else u) ↔
      runeError = u ∨ High u ∨ Low u := by
    intro u
    split
    · rename_i hsurrogate
      simp [hsurrogate]
    · rename_i hnot
      simp [hnot]
  fun_induction runesOfUnits us with
  | case1 => simp [unpaired]
  | case2 u => simpa [unpaired] using hone u
  | case3 u v rest hpair ih =>
    have hrune : runeError ≠ pairRune u v := by
      have hbounds := (pairRune_bounds hpair.1 hpair.2).1
      rw [runeError]
      omega
    have hu : runeError ≠ u := fun h => hplain (.inl (h ▸ hpair.1))
    have hv : runeError ≠ v := fun h => hplain (.inr (h ▸ hpair.2))
    simp only [unpaired, if_pos hpair, List.mem_cons, ih, hrune, hu, hv, false_or]
  | case4 u v rest hpair ih =>
    rw [List.mem_cons, hone, iff_iff_eq.mp ih, unpaired, if_neg hpair, Bool.or_eq_true,
      decide_eq_true_iff, List.mem_cons (a := runeError) (b := u)]
    tauto

/-- Unless a string has a replacement character or an unpaired surrogate, its code points
tell it from every other. -/
theorem eq_of_runesOfUnits_eq (hus : ∀ u ∈ us, u < 0x10000) (hvs : ∀ u ∈ vs, u < 0x10000)
    (hplain : ¬ (runeError ∈ us ∨ unpaired us = true)) (h : runesOfUnits us = runesOfUnits vs) :
    us = vs := by
  have hnot : ¬ (runeError ∈ vs ∨ unpaired vs = true) := by
    rwa [← runeError_mem, ← h, runeError_mem]
  rw [not_or, Bool.not_eq_true] at hplain hnot
  rw [← units_runesOfUnits hus hplain.2, h, units_runesOfUnits hvs hnot.2]

end Units

section Spelling
variable {rs : List ℕ}

lemma head_unitsOfRune {r : ℕ} (h : Scalar r) (us : List ℕ) :
    ∀ v ∈ (unitsOfRune r ++ us).head?, ¬ Low v := by
  simp only [Scalar] at h
  intro v hv
  rw [unitsOfRune] at hv
  split at hv
  · obtain rfl : r = v := by simpa using hv
    simp only [Low]
    omega
  · obtain rfl : 0xD800 + (r - 0x10000) / 1024 = v := by simpa using hv
    simp only [Low]
    omega

/-- The code points with a lone surrogate for every replacement character. -/
def loneUnits (r : ℕ) : List ℕ := if r = runeError then [0xD800] else unitsOfRune r

lemma head_loneUnits {r : ℕ} (h : Scalar r) (us : List ℕ) :
    ∀ v ∈ (loneUnits r ++ us).head?, ¬ Low v := by
  rw [loneUnits]
  split
  · simp [Low]
  · exact head_unitsOfRune h us

lemma runesOfUnits_lone (h : ∀ r ∈ rs, Scalar r) : runesOfUnits (rs.flatMap loneUnits) = rs := by
  induction rs with
  | nil => rfl
  | cons r rs ih =>
    rw [List.forall_mem_cons] at h
    rw [List.flatMap_cons, loneUnits]
    split
    · rename_i hr
      have hnext : ∀ v ∈ (rs.flatMap loneUnits).head?, ¬ Low v := by
        cases rs with
        | nil => simp
        | cons r' rs =>
          rw [List.flatMap_cons]
          exact head_loneUnits (h.2 r' List.mem_cons_self) _
      rw [List.singleton_append, runesOfUnits_cons (.inr hnext), ih h.2, if_pos (by decide), hr]
    · rw [runesOfUnits_rune h.1, ih h.2]

lemma unitsOfRune_lt {r : ℕ} (h : Scalar r) : ∀ u ∈ unitsOfRune r, u < 0x10000 := by
  simp only [Scalar] at h
  rw [unitsOfRune]
  split
  · simpa
  · simp only [List.mem_cons, List.not_mem_nil, or_false]
    intro u hu
    omega

lemma loneUnits_lt {r : ℕ} (h : Scalar r) : ∀ u ∈ loneUnits r, u < 0x10000 := by
  rw [loneUnits]
  split
  · simp
  · exact unitsOfRune_lt h

lemma runeError_notMem_lone (h : ∀ r ∈ rs, Scalar r) : runeError ∉ rs.flatMap loneUnits := by
  intro hmem
  obtain ⟨r, hr, hin⟩ := List.mem_flatMap.mp hmem
  have hscalar := h r hr
  simp only [Scalar] at hscalar
  rw [loneUnits] at hin
  split at hin
  · simp [runeError] at hin
  · rename_i hne
    rw [unitsOfRune] at hin
    split at hin
    · exact hne (List.mem_singleton.mp hin).symm
    · simp only [runeError, List.mem_cons, List.not_mem_nil, or_false] at hin
      omega

lemma unpaired_units (h : ∀ r ∈ rs, Scalar r) : unpaired (rs.flatMap unitsOfRune) = false := by
  induction rs with
  | nil => rfl
  | cons r rs ih =>
    rw [List.forall_mem_cons] at h
    have hscalar := h.1
    simp only [Scalar] at hscalar
    rw [List.flatMap_cons, unitsOfRune]
    split
    · have hnot : ¬ High r ∧ ¬ Low r := by
        simp only [High, Low]
        omega
      rw [List.singleton_append]
      cases hus : rs.flatMap unitsOfRune with
      | nil => simp [unpaired, hnot]
      | cons v us =>
        rw [unpaired, if_neg (by tauto), ← hus, ih h.2]
        simp [hnot]
    · have hpair : High (0xD800 + (r - 0x10000) / 1024) ∧
          Low (0xDC00 + (r - 0x10000) % 1024) := by
        simp only [High, Low]
        omega
      rw [List.cons_append, List.singleton_append, unpaired, if_pos hpair, ih h.2]

end Spelling

section Literals
variable {items : List StrItem} {text x : Bytes}

lemma head_utf16 {x : Bytes} (hx : valid x = true) (hne : x ≠ []) (us : List ℕ) :
    ∀ v ∈ ((runes x).flatMap unitsOfRune ++ us).head?, ¬ Low v := by
  obtain ⟨heq, hscalar⟩ := encode_runes hx
  cases hrs : runes x with
  | nil =>
    rw [hrs] at heq
    exact absurd heq.symm hne
  | cons r rs =>
    rw [hrs, List.forall_mem_cons] at hscalar
    rw [List.flatMap_cons, List.append_assoc]
    exact head_unitsOfRune hscalar.1 _

/-- Text before an escape ends in a whole code point. -/
lemma head_unitsFrom (h : Chars items text) (hv : valid (x ++ text) = true) (hne : x ≠ []) :
    ∀ v ∈ (unitsFrom x items).head?, ¬ Low v := by
  fun_induction unitsFrom x items generalizing text with
  | case1 x =>
    cases h with
    | nil =>
      rw [List.append_nil] at hv
      simpa using head_utf16 hv hne []
  | case2 x b rest ih =>
    cases h with
    | cons ht hs =>
      cases ht with
      | char => exact ih hs (by simpa using hv) (by simp)
  | case3 x b rest ih => exact head_utf16 (h.after (by simp) hv).1 hne _
  | case4 x u rest ih => exact head_utf16 (h.after (by simp) hv).1 hne _

lemma encode_runesOfUnits (hx : valid x = true) (us : List ℕ) :
    encode (runesOfUnits ((runes x).flatMap unitsOfRune ++ us)) =
      x ++ encode (runesOfUnits us) := by
  obtain ⟨heq, hscalar⟩ := encode_runes hx
  rw [runesOfUnits_runes hscalar, encode_append, heq]

lemma encodeRune_unit (u : ℕ) :
    encodeRune (if High u ∨ Low u then runeError else u) = encodeRune u := by
  split
  · rename_i hsurrogate
    have hrange : 0xD800 ≤ u ∧ u < 0xE000 := by
      simp only [High, Low] at hsurrogate
      omega
    rw [encodeRune, encodeRune, if_neg (by decide), if_neg (by decide), if_neg (by decide),
      if_pos (by decide), if_neg (by omega), if_neg (by omega), if_pos (.inl hrange)]
    rfl
  · rfl

/-- Unquoting a literal leaves the code points of its units. -/
theorem unquote_eq (h : Chars items text) (hv : valid (x ++ text) = true) :
    x ++ unquote items = encode (runesOfUnits (unitsFrom x items)) := by
  fun_induction unquote items generalizing text x with
  | case1 =>
    cases h with
    | nil =>
      rw [List.append_nil] at hv
      have heq := encode_runesOfUnits hv []
      rw [List.append_nil] at heq
      exact heq.symm
  | case2 b rest ih =>
    cases h with
    | cons ht hs =>
      cases ht with
      | char =>
        rw [← List.append_assoc] at hv
        rw [unitsFrom, ← ih hs hv, List.append_assoc, List.singleton_append]
  | case3 b rest ih =>
    obtain ⟨hx, text', hs, hv'⟩ := h.after (by simp) hv
    have hb : b.toNat < 0x80 := by
      cases h with
      | cons ht _ =>
        cases ht with
        | escape he => exact (escaped_ascii he).2
    have hnot : ¬ High b.toNat ∧ ¬ Low b.toNat := by
      simp only [High, Low]
      omega
    have hrune : encodeRune b.toNat = [b] := by
      rw [encodeRune, if_pos hb]
      simp
    have hrest := ih (x := []) hs hv'
    rw [unitsFrom, encode_runesOfUnits hx, runesOfUnits_cons (.inl hnot.1), encode_cons,
      encodeRune_unit, hrune, ← hrest, List.nil_append, List.singleton_append]
  | case4 u v rest hpair ih =>
    obtain ⟨hx, text₁, hs₁, hv₁⟩ := h.after (by simp) hv
    obtain ⟨-, text₂, hs₂, hv₂⟩ := hs₁.after (x := []) (by simp) hv₁
    have hrest := ih (x := []) hs₂ hv₂
    have hboth : High u ∧ Low v := ⟨⟨hpair.1, hpair.2.1⟩, hpair.2.2⟩
    have hunits : unitsFrom [] (.unicode v :: rest) = v :: unitsFrom [] rest := rfl
    have hcode : encode (runesOfUnits (unitsFrom x (.unicode u :: .unicode v :: rest))) =
        x ++ (encodeRune (pairRune u v) ++ unquote rest) := by
      rw [unitsFrom, encode_runesOfUnits hx, hunits, runesOfUnits, if_pos hboth, encode_cons,
        ← hrest, List.nil_append]
    exact hcode.symm
  | case5 u v rest hpair ih =>
    obtain ⟨hx, text', hs, hv'⟩ := h.after (by simp) hv
    have hrest := ih (x := []) hs hv'
    have hnot : ¬ High u ∨ ∀ w ∈ (unitsFrom [] (.unicode v :: rest)).head?, ¬ Low w := by
      rw [or_iff_not_imp_left, not_not]
      intro hu w hw hlow
      obtain rfl : v = w := by simpa [unitsFrom, runes, decode] using hw
      exact hpair ⟨hu.1, hu.2, hlow⟩
    rw [unitsFrom, encode_runesOfUnits hx, runesOfUnits_cons hnot, encode_cons, encodeRune_unit,
      ← hrest, List.nil_append]
  | case6 u rest hnext ih =>
    obtain ⟨hx, text', hs, hv'⟩ := h.after (by simp) hv
    have hrest := ih (x := []) hs hv'
    have hnot : ∀ w ∈ (unitsFrom [] rest).head?, ¬ Low w := by
      cases hs with
      | nil => simp [unitsFrom, runes, decode]
      | cons ht hs' =>
        cases ht with
        | char => exact head_unitsFrom (x := [_]) hs' (by simpa using hv') (by simp)
        | @escape e c he =>
          intro w hw hlow
          have hw' : c.toNat = w := by simpa [unitsFrom, runes, decode] using hw
          have hascii := (escaped_ascii he).2
          rw [hw'] at hascii
          exact absurd hlow.1 (by omega)
        | unicode _ => exact absurd rfl (hnext _ _)
    rw [unitsFrom, encode_runesOfUnits hx, runesOfUnits_cons (.inr hnot), encode_cons,
      encodeRune_unit, ← hrest, List.nil_append]

lemma hexValue_lt {b : UInt8} {n : ℕ} (h : hexValue b = some n) : n < 16 := by
  simp only [hexValue, Bool.and_eq_true, decide_eq_true_eq, UInt8.le_iff_toNat_le,
    UInt8.reduceToNat] at h
  split at h
  · obtain rfl := Option.some.inj h
    omega
  split at h
  · obtain rfl := Option.some.inj h
    omega
  split at h
  · obtain rfl := Option.some.inj h
    omega
  · simp at h

lemma hex4_lt {a b c d : UInt8} {u : ℕ} (h : hex4 a b c d = some u) : u < 0x10000 := by
  simp only [hex4, Option.bind_eq_bind, Option.bind_eq_some_iff, Option.pure_def,
    Option.some.injEq] at h
  obtain ⟨i, hi, j, hj, k, hk, l, hl, heq⟩ := h
  have hi' := hexValue_lt hi
  have hj' := hexValue_lt hj
  have hk' := hexValue_lt hk
  have hl' := hexValue_lt hl
  omega

lemma utf16_lt (hx : valid x = true) : ∀ u ∈ (runes x).flatMap unitsOfRune, u < 0x10000 := by
  intro u hu
  obtain ⟨r, hr, hin⟩ := List.mem_flatMap.mp hu
  exact unitsOfRune_lt ((encode_runes hx).2 r hr) u hin

lemma unitsFrom_lt (h : Chars items text) (hv : valid (x ++ text) = true) :
    ∀ u ∈ unitsFrom x items, u < 0x10000 := by
  fun_induction unitsFrom x items generalizing text with
  | case1 x =>
    cases h with
    | nil =>
      rw [List.append_nil] at hv
      exact utf16_lt hv
  | case2 x b rest ih =>
    cases h with
    | cons ht hs =>
      cases ht with
      | char => exact ih hs (by simpa using hv)
  | case3 x b rest ih =>
    obtain ⟨hx, text', hs, hv'⟩ := h.after (by simp) hv
    have hb := b.toNat_lt
    rw [List.forall_mem_append, List.forall_mem_cons]
    exact ⟨utf16_lt hx, by omega, ih hs hv'⟩
  | case4 x u rest ih =>
    obtain ⟨hx, text', hs, hv'⟩ := h.after (by simp) hv
    have hu : u < 0x10000 := by
      cases h with
      | cons ht _ =>
        cases ht with
        | unicode hex => exact hex4_lt hex
    rw [List.forall_mem_append, List.forall_mem_cons]
    exact ⟨utf16_lt hx, hu, ih hs hv'⟩

/-- A literal in text that is valid UTF-8. -/
def Literal (items : List StrItem) : Prop := ∃ text, Chars items text ∧ valid text = true

/-- A string that another can be mistaken for: it has a replacement character, or a
surrogate that unquoting replaces by one. -/
def Ambiguous (items : List StrItem) : Prop :=
  runeError ∈ units items ∨ unpaired (units items) = true

instance (items : List StrItem) : Decidable (Ambiguous items) :=
  inferInstanceAs (Decidable (_ ∨ _))

lemma Literal.units_lt (h : Literal items) : ∀ u ∈ units items, u < 0x10000 := by
  obtain ⟨text, hc, hv⟩ := h
  exact unitsFrom_lt (x := []) hc hv

lemma Literal.unquote_eq (h : Literal items) :
    unquote items = encode (runesOfUnits (units items)) := by
  obtain ⟨text, hc, hv⟩ := h
  exact Json.unquote_eq (x := []) hc hv

/-- The units of a literal that is not ambiguous can be told from what it stands for. -/
theorem units_eq_of_unquote_eq {items' : List StrItem} (h : Literal items) (h' : Literal items')
    (hplain : ¬ Ambiguous items) (heq : unquote items = unquote items') :
    units items = units items' := by
  rw [h.unquote_eq, h'.unquote_eq] at heq
  have hrunes := congrArg runes heq
  rw [runes_encode (scalar_runesOfUnits h.units_lt),
    runes_encode (scalar_runesOfUnits h'.units_lt)] at hrunes
  exact eq_of_runesOfUnits_eq h.units_lt h'.units_lt hplain hrunes

end Literals

section Wide

/-- The units as bytes, the high byte of each first. -/
def wideBytes (us : List ℕ) : Bytes := us.flatMap fun u => [(u / 256).toUInt8, (u % 256).toUInt8]

def wide (items : List StrItem) : Bytes := wideBytes (units items)

lemma wideBytes_inj {us vs : List ℕ} (hus : ∀ u ∈ us, u < 0x10000)
    (hvs : ∀ v ∈ vs, v < 0x10000) (h : wideBytes us = wideBytes vs) : us = vs := by
  induction us generalizing vs with
  | nil =>
    cases vs with
    | nil => rfl
    | cons v vs => simp [wideBytes] at h
  | cons u us ih =>
    cases vs with
    | nil => simp [wideBytes] at h
    | cons v vs =>
      rw [List.forall_mem_cons] at hus hvs
      simp only [wideBytes, List.flatMap_cons, List.cons_append, List.nil_append,
        List.cons.injEq] at h
      obtain ⟨hhigh, hlow, hrest⟩ := h
      have hhigh' := congrArg UInt8.toNat hhigh
      have hlow' := congrArg UInt8.toNat hlow
      rw [toNat_toUInt8 (by omega), toNat_toUInt8 (by omega)] at hhigh' hlow'
      obtain rfl : u = v := by omega
      rw [ih hus.2 hvs.2 hrest]

end Wide

end KiteRail.Json
