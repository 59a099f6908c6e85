import KiteRail.HttpHeader
import KiteRail.Utf8Append

/-! Go strings: lower case by the tables of package `unicode`, trimming by a predicate on
code points, and the order in which a range visits a map. -/
namespace KiteRail
open Utf8

/-- What is used of the case tables: they extend those of ASCII, map code points to code
points, and a lower case has itself for lower case. -/
structure CaseTable where
  lower : ℕ → ℕ
  ascii : ∀ r, r < 0x80 → lower r = if 65 ≤ r ∧ r ≤ 90 then r + 32 else r
  scalar : ∀ r, Scalar r → Scalar (lower r)
  idem : ∀ r, lower (lower r) = lower r

/-- `unicode.IsSpace`. -/
def GoUnicode.isSpace (r : ℕ) : Bool :=
  (9 ≤ r && r ≤ 13) || (0x2000 ≤ r && r ≤ 0x200A) ||
    [0x20, 0x85, 0xA0, 0x1680, 0x2028, 0x2029, 0x202F, 0x205F, 0x3000].contains r

namespace GoStrings
variable (table : CaseTable)

/-- `strings.ToLower`. -/
def toLower (s : Bytes) : Bytes :=
  if s.all (· < 0x80) then Header.lowerAscii s
  else (runes s).flatMap fun r => encodeRune (table.lower r)

section Lower
variable {table} {s : Bytes}

lemma runes_of_ascii (h : Ascii s) : runes s = s.map UInt8.toNat := by
  induction s with
  | nil => rfl
  | cons b s ih =>
    obtain ⟨hb, hs⟩ := List.forall_mem_cons.mp h
    rw [runes, decode_cons_of_lt hb, List.map_cons, List.map_cons, ← ih hs]
    rfl

lemma scalar_runes (s : Bytes) : ∀ r ∈ runes s, Scalar r := by
  intro r hr
  obtain ⟨o, ho, rfl⟩ := List.mem_map.mp hr
  cases o with
  | none => exact .inr (by decide)
  | some r => exact scalar_of_decode ho

lemma encodeRune_lower {b : UInt8} (hb : b < 0x80) :
    encodeRune (table.lower b.toNat) = [Header.lower b] := by
  have hlt : b.toNat < 0x80 := UInt8.lt_iff_toNat_lt.mp hb
  rw [table.ascii _ hlt, Header.lower]
  simp only [Bool.and_eq_true, decide_eq_true_eq, UInt8.le_iff_toNat_le, UInt8.reduceToNat]
  split
  · rw [encodeRune, if_pos (by omega)]
    have hsum : (b.toNat + 32).toUInt8 = b + 32 := by
      apply UInt8.toNat_inj.mp
      rw [toNat_toUInt8 (by omega), UInt8.toNat_add]
      exact (Nat.mod_eq_of_lt (show b.toNat + 32 < 2 ^ 8 by omega)).symm
    rw [hsum]
  · rw [encodeRune, if_pos hlt]
    simp

/-- Both branches encode the lower cases of the code points. -/
lemma toLower_eq (s : Bytes) : toLower table s = encode ((runes s).map table.lower) := by
  rw [toLower]
  split
  · rename_i hall
    have hascii : Ascii s := fun b hb => of_decide_eq_true (List.all_eq_true.mp hall b hb)
    rw [runes_of_ascii hascii, Header.lowerAscii, List.map_map]
    clear hall
    induction s with
    | nil => rfl
    | cons b s ih =>
      obtain ⟨hb, hs⟩ := List.forall_mem_cons.mp hascii
      rw [List.map_cons, List.map_cons, encode_cons, Function.comp_apply, encodeRune_lower hb,
        ← ih hs, List.singleton_append]
  · rw [encode, List.flatMap_map]

lemma runes_toLower (s : Bytes) : runes (toLower table s) = (runes s).map table.lower := by
  rw [toLower_eq, runes_encode]
  rw [List.forall_mem_map]
  exact fun r hr => table.scalar r (scalar_runes s r hr)

lemma toLower_toLower (s : Bytes) : toLower table (toLower table s) = toLower table s := by
  rw [toLower_eq (toLower table s), runes_toLower, List.map_map, toLower_eq s]
  exact congrArg encode (List.map_congr_left fun r _ => table.idem r)

lemma runes_ne_nil (h : s ≠ []) : runes s ≠ [] := by
  obtain ⟨b, s, rfl⟩ := List.exists_cons_of_ne_nil h
  obtain ⟨chunk, rest, -, -, hdec⟩ := decode_cons b s
  rcases hdec with ⟨r, hdec, -⟩ | ⟨hdec, -⟩ <;> simp [runes, hdec]

lemma toLower_ne_nil (h : s ≠ []) : toLower table s ≠ [] := by
  intro hnil
  have hrunes : runes (toLower table s) = (runes s).map table.lower := runes_toLower s
  rw [hnil] at hrunes
  exact runes_ne_nil h (List.map_eq_nil_iff.mp hrunes.symm)

end Lower

section Trim
variable (p : ℕ → Bool)

def isRune (chunk : Bytes) : Bool := (decode chunk).length == 1 && (decode chunk).all (·.any p)

def trimLeft : ℕ → Bytes → Bytes
  | 0, s => s
  | n + 1, s =>
    match [1, 2, 3, 4].find? fun k => isRune p (s.take k) with
    | some k => trimLeft n (s.drop k)
    | none => s

def trimRight : ℕ → Bytes → Bytes
  | 0, s => s
  | n + 1, s =>
    match [1, 2, 3, 4].find? fun k => isRune p (s.drop (s.length - k)) with
    | some k => trimRight n (s.take (s.length - k))
    | none => s

/-- `strings.TrimFunc`, for a property that the replacement character does not have. -/
def trimFunc (s : Bytes) : Bytes := trimRight p s.length (trimLeft p s.length s)

/-- `strings.TrimSpace`. -/
def trimSpace (s : Bytes) : Bytes := trimFunc GoUnicode.isSpace s

variable {p} {b : UInt8}

lemma notMem_of_isRune {chunk : Bytes} (h : isRune p chunk = true) (hb : b.toNat < 0x80)
    (hp : p b.toNat = false) : b ∉ chunk := by
  rw [isRune, Bool.and_eq_true, beq_iff_eq, List.length_eq_one_iff] at h
  obtain ⟨⟨o, ho⟩, hall⟩ := h
  rw [ho, List.all_cons, List.all_nil, Bool.and_true] at hall
  cases o with
  | none => simp at hall
  | some r =>
    have hvalid : valid chunk = true := by simp [valid, ho]
    obtain ⟨hchunk, -⟩ := encode_runes hvalid
    have hrunes : runes chunk = [r] := by simp [runes, ho]
    rw [hrunes, encode, List.flatMap_singleton] at hchunk
    intro hmem
    rw [← hchunk] at hmem
    by_cases hr : r < 0x80
    · rw [encodeRune, if_pos hr, List.mem_singleton] at hmem
      have heq := congrArg UInt8.toNat hmem
      rw [toNat_toUInt8 (by omega)] at heq
      have htrue : p r = true := hall
      rw [← heq, hp] at htrue
      exact Bool.false_ne_true htrue
    · have hge := encodeRune_beyond (not_lt.mp hr) b hmem
      omega

lemma mem_trimLeft (hb : b.toNat < 0x80) (hp : p b.toNat = false) (n : ℕ) {s : Bytes}
    (h : b ∈ s) : b ∈ trimLeft p n s := by
  induction n generalizing s with
  | zero => exact h
  | succ n ih =>
    rw [trimLeft]
    split
    · rename_i k hk
      have hrune : isRune p (s.take k) = true := by
        simpa using List.find?_some hk
      have hnot := notMem_of_isRune hrune hb hp
      rw [← List.take_append_drop k s, List.mem_append] at h
      exact ih (h.resolve_left hnot)
    · exact h

lemma mem_trimRight (hb : b.toNat < 0x80) (hp : p b.toNat = false) (n : ℕ) {s : Bytes}
    (h : b ∈ s) : b ∈ trimRight p n s := by
  induction n generalizing s with
  | zero => exact h
  | succ n ih =>
    rw [trimRight]
    split
    · rename_i k hk
      have hrune : isRune p (s.drop (s.length - k)) = true := by
        simpa using List.find?_some hk
      have hnot := notMem_of_isRune hrune hb hp
      rw [← List.take_append_drop (s.length - k) s, List.mem_append] at h
      exact ih (h.resolve_right hnot)
    · exact h

lemma mem_trimFunc (hb : b.toNat < 0x80) (hp : p b.toNat = false) {s : Bytes} (h : b ∈ s) :
    b ∈ trimFunc p s :=
  mem_trimRight hb hp _ (mem_trimLeft hb hp _ h)

def allRunes (p : ℕ → Bool) (s : Bytes) : Bool := (decode s).all (·.any p)

lemma valid_of_allRunes {s : Bytes} (h : allRunes p s = true) : valid s = true := by
  refine List.all_eq_true.mpr fun o ho => ?_
  have hany := List.all_eq_true.mp h o ho
  cases o with
  | none => simp at hany
  | some r => rfl

lemma allRunes_append {x y : Bytes} (hx : allRunes p x = true) :
    allRunes p (x ++ y) = allRunes p y := by
  rw [allRunes, decode_append (valid_of_allRunes hx), List.all_append]
  simp only [allRunes] at hx ⊢
  rw [hx, Bool.true_and]

lemma allRunes_of_isRune {chunk : Bytes} (h : isRune p chunk = true) :
    allRunes p chunk = true := by
  rw [isRune, Bool.and_eq_true] at h
  exact h.2

lemma trimLeft_split (n : ℕ) (s : Bytes) :
    ∃ u, s = u ++ trimLeft p n s ∧ allRunes p u = true := by
  induction n generalizing s with
  | zero => exact ⟨[], rfl, rfl⟩
  | succ n ih =>
    rw [trimLeft]
    split
    · rename_i k hk
      have hrune : isRune p (s.take k) = true := by simpa using List.find?_some hk
      obtain ⟨u, hu, hall⟩ := ih (s.drop k)
      refine ⟨s.take k ++ u, ?_, (allRunes_append (allRunes_of_isRune hrune)).trans hall⟩
      rw [List.append_assoc, ← hu, List.take_append_drop]
    · exact ⟨[], rfl, rfl⟩

lemma trimRight_split (n : ℕ) (s : Bytes) :
    ∃ u, s = trimRight p n s ++ u ∧ allRunes p u = true := by
  induction n generalizing s with
  | zero => exact ⟨[], (List.append_nil _).symm, rfl⟩
  | succ n ih =>
    rw [trimRight]
    split
    · rename_i k hk
      have hrune : isRune p (s.drop (s.length - k)) = true := by simpa using List.find?_some hk
      obtain ⟨u, hu, hall⟩ := ih (s.take (s.length - k))
      refine ⟨u ++ s.drop (s.length - k), ?_, (allRunes_append hall).trans
        (allRunes_of_isRune hrune)⟩
      rw [← List.append_assoc, ← hu, List.take_append_drop]
    · exact ⟨[], (List.append_nil _).symm, rfl⟩

lemma encodeRune_length (r : ℕ) : (encodeRune r).length ∈ [1, 2, 3, 4] := by
  rw [encodeRune]
  repeat' split
  all_goals simp

lemma trimLeft_nil (n : ℕ) : trimLeft p n [] = [] := by
  induction n with
  | zero => rfl
  | succ n ih =>
    rw [trimLeft]
    split
    · simpa using ih
    · rfl

lemma trimLeft_eq_nil {n : ℕ} {s : Bytes} (hn : s.length ≤ n) (h : allRunes p s = true) :
    trimLeft p n s = [] := by
  induction n generalizing s with
  | zero => exact List.length_eq_zero_iff.mp (Nat.le_zero.mp hn)
  | succ n ih =>
    cases s with
    | nil => exact trimLeft_nil _
    | cons b s =>
      rw [trimLeft]
      split
      · rename_i k hk
        have hrune : isRune p ((b :: s).take k) = true := by simpa using List.find?_some hk
        have hpos : k ≠ 0 := by
          rintro rfl
          simp [isRune, decode] at hrune
        refine ih ?_ ?_
        · have hlen : ((b :: s).drop k).length = (b :: s).length - k := List.length_drop
          omega
        · rwa [← allRunes_append (allRunes_of_isRune hrune), List.take_append_drop]
      · rename_i hnone
        obtain ⟨chunk, rest, heq, -, hdec⟩ := decode_cons b s
        rcases hdec with ⟨r, hdec, hscalar, rfl⟩ | ⟨hdec, -⟩
        · have hmiss := List.find?_eq_none.mp hnone _ (encodeRune_length r)
          rw [heq, List.take_left] at hmiss
          have hchunk := decode_encodeRune hscalar []
          rw [List.append_nil] at hchunk
          have hr : p r = true := by
            rw [allRunes, hdec, List.all_cons, Bool.and_eq_true] at h
            exact h.1
          simp [isRune, hchunk, decode, hr] at hmiss
        · simp [allRunes, hdec] at h

/-- Nothing is left exactly of what consists of code points with the property. -/
lemma trimFunc_eq_nil_iff {s : Bytes} : trimFunc p s = [] ↔ allRunes p s = true := by
  constructor
  · intro h
    obtain ⟨u, hu, hall⟩ := trimLeft_split (p := p) s.length s
    obtain ⟨v, hv, hall'⟩ := trimRight_split (p := p) s.length (trimLeft p s.length s)
    have hnil : trimRight p s.length (trimLeft p s.length s) = [] := h
    rw [hnil, List.nil_append] at hv
    rw [hu, hv, allRunes_append hall, hall']
  · intro h
    rw [trimFunc, trimLeft_eq_nil le_rfl h]
    obtain ⟨v, hv, -⟩ := trimRight_split (p := p) s.length []
    exact (List.append_eq_nil_iff.mp hv.symm).1

end Trim

end GoStrings

/-- The order of a range over a map, at each place of the code that has one. -/
structure MapOrder where
  visit : ℕ → {α : Type} → List α → List α
  perm : ∀ (place : ℕ) {α : Type} (entries : List α), (visit place entries).Perm entries

@[simp] lemma MapOrder.mem_visit (order : MapOrder) {place : ℕ} {α : Type} {entries : List α}
    {e : α} : e ∈ order.visit place entries ↔ e ∈ entries :=
  (order.perm place entries).mem_iff

end KiteRail
