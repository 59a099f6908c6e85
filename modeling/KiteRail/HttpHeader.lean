import KiteRail.Utf8

/-! HTTP header maps. Names are compared as the canonicalising map functions do,
or ignoring case; a name that `net/http` delivers is a canonical token, and such
names are determined by their lower case. -/
namespace KiteRail
open Bytes

/-- A map from header names to their values, with an order of iteration. -/
abbrev Header := AList fun _ : Bytes => List Bytes

namespace Header

def lower (b : UInt8) : UInt8 := if 65 ≤ b && b ≤ 90 then b + 32 else b

def upper (b : UInt8) : UInt8 := if 97 ≤ b && b ≤ 122 then b - 32 else b

def lowerAscii (name : Bytes) : Bytes := name.map lower

/-- `unicode.ToLower` as far as a comparison with ASCII text can tell: beyond ASCII,
two runes have an ASCII lower case, and the others stand for themselves. -/
def lowerRune (r : ℕ) : ℕ :=
  if 65 ≤ r ∧ r ≤ 90 then r + 32 else if r = 0x130 then 105 else if r = 0x212A then 107 else r

/-- `strings.ToLower`. -/
def toLower (name : Bytes) : Bytes :=
  if name.all (· < 0x80) then lowerAscii name
  else (Utf8.runes name).flatMap fun r => Utf8.encodeRune (lowerRune r)

def isToken (b : UInt8) : Bool :=
  (97 ≤ b && b ≤ 122) || (65 ≤ b && b ≤ 90) || (48 ≤ b && b ≤ 57) ||
    (lit "!#$%&'*+-.^_`|~").contains b

def canonFrom : Bool → Bytes → Bytes
  | _, [] => []
  | up, b :: rest => (if up then upper b else lower b) :: canonFrom (b == 45) rest

/-- `CanonicalMIMEHeaderKey`: a name that is no token is left alone. -/
def canonicalKey (name : Bytes) : Bytes := if name.all isToken then canonFrom true name else name

def foldRune (r : ℕ) : ℕ :=
  if 65 ≤ r ∧ r ≤ 90 then r + 32 else if r = 0x17F then 115 else if r = 0x212A then 107 else r

/-- `strings.EqualFold` against an ASCII name. -/
def equalFold (name expected : Bytes) : Bool :=
  (Utf8.runes name).map foldRune == (Utf8.runes expected).map foldRune

def add (h : Header) (name value : Bytes) : Header :=
  h.insert (canonicalKey name) ((h.lookup (canonicalKey name)).getD [] ++ [value])

def set (h : Header) (name value : Bytes) : Header := h.insert (canonicalKey name) [value]

def get (h : Header) (name : Bytes) : Bytes :=
  ((h.lookup (canonicalKey name)).bind List.head?).getD []

lemma get_set_self (h : Header) (name value : Bytes) : (h.set name value).get name = value := by
  simp [get, set]

lemma get_set_of_ne (h : Header) {name other : Bytes} (value : Bytes)
    (hne : canonicalKey other ≠ canonicalKey name) :
    (h.set name value).get other = h.get other := by
  simp [get, set, AList.lookup_insert_ne hne]

def without (drop : Bytes → Bool) (h : Header) : Header :=
  h.entries.foldl (fun g e => if drop e.1 then g else g.insert e.1 e.2) ∅

lemma lookup_foldl_without (drop : Bytes → Bool) {es : List (Sigma fun _ : Bytes => List Bytes)}
    (hnd : (es.map Sigma.fst).Nodup) (g : Header) (name : Bytes) :
    (es.foldl (fun g e => if drop e.1 then g else g.insert e.1 e.2) g).lookup name =
      match es.dlookup name with
      | some vs => if drop name then g.lookup name else some vs
      | none => g.lookup name := by
  induction es generalizing g with
  | nil => simp
  | cons e es ih =>
    obtain ⟨hnotin, hnd⟩ := List.nodup_cons.mp hnd
    rw [List.foldl_cons, ih hnd]
    by_cases hk : name = e.1
    · subst hk
      have hrest : es.dlookup e.1 = none :=
        List.dlookup_eq_none.mpr (by simpa [List.keys] using hnotin)
      rw [hrest, List.dlookup_cons_eq]
      by_cases hd : drop e.1 = true
      · simp [hd]
      · simp [hd]
    · have hg : (if drop e.1 then g else g.insert e.1 e.2).lookup name = g.lookup name := by
        split_ifs
        · rfl
        · exact AList.lookup_insert_ne hk
      rw [List.dlookup_cons_ne _ _ hk, hg]

lemma lookup_without (drop : Bytes → Bool) (h : Header) (name : Bytes) :
    (h.without drop).lookup name = if drop name then none else h.lookup name := by
  rw [without, lookup_foldl_without drop h.nodupKeys]
  change (match h.lookup name with | some vs => _ | none => _) = _
  cases h.lookup name with
  | none => simp
  | some vs => rfl

/-- A name as `net/http` delivers it. -/
def CanonicalName (name : Bytes) : Prop := name.all isToken = true ∧ canonicalKey name = name

def Canonical (h : Header) : Prop := ∀ name ∈ h, CanonicalName name

lemma byte_cases (b : UInt8) : (isToken b = true → b < 0x80) ∧ lower (lower b) = lower b ∧
    upper (lower b) = upper b ∧ (lower b == 45) = (b == 45) ∧ lower (upper b) = lower b ∧
    (b < 0x80 → (lower b < 0x80 ∧ upper b < 0x80) ∧ foldRune b.toNat = (lower b).toNat) := by
  have hall : ∀ b : Fin 256, (isToken (UInt8.ofFin b) = true → UInt8.ofFin b < 0x80) ∧
      lower (lower (UInt8.ofFin b)) = lower (UInt8.ofFin b) ∧
      upper (lower (UInt8.ofFin b)) = upper (UInt8.ofFin b) ∧
      (lower (UInt8.ofFin b) == 45) = (UInt8.ofFin b == 45) ∧
      lower (upper (UInt8.ofFin b)) = lower (UInt8.ofFin b) ∧
      (UInt8.ofFin b < 0x80 → (lower (UInt8.ofFin b) < 0x80 ∧ upper (UInt8.ofFin b) < 0x80) ∧
        foldRune (UInt8.ofFin b).toNat = (lower (UInt8.ofFin b)).toNat) := by decide +kernel
  exact hall b.toFin

lemma isToken_lt {b : UInt8} (h : isToken b = true) : b < 0x80 := (byte_cases b).1 h

lemma ascii_of_token {name : Bytes} (h : name.all isToken = true) : Utf8.Ascii name :=
  fun b hb => isToken_lt (List.all_eq_true.mp h b hb)

lemma lower_lower (b : UInt8) : lower (lower b) = lower b := (byte_cases b).2.1

lemma upper_lower (b : UInt8) : upper (lower b) = upper b := (byte_cases b).2.2.1

lemma lower_beq_dash (b : UInt8) : (lower b == 45) = (b == 45) := (byte_cases b).2.2.2.1

/-- Canonical capitals depend only on the lower-case name. -/
lemma canonFrom_lowerAscii (up : Bool) (name : Bytes) :
    canonFrom up (lowerAscii name) = canonFrom up name := by
  induction name generalizing up with
  | nil => rfl
  | cons b rest ih =>
    simp only [lowerAscii, List.map_cons, canonFrom, lower_lower, upper_lower, lower_beq_dash]
    rw [← ih (b == 45), lowerAscii]

lemma lower_upper (b : UInt8) : lower (upper b) = lower b := (byte_cases b).2.2.2.2.1

lemma lower_lt {b : UInt8} (h : b < 0x80) : lower b < 0x80 ∧ upper b < 0x80 :=
  ((byte_cases b).2.2.2.2.2 h).1

lemma lowerAscii_canonFrom (up : Bool) (name : Bytes) :
    lowerAscii (canonFrom up name) = lowerAscii name := by
  induction name generalizing up with
  | nil => rfl
  | cons b rest ih =>
    have hb : lower (if up then upper b else lower b) = lower b := by
      cases up
      · exact lower_lower b
      · exact lower_upper b
    have hrest := ih (b == 45)
    simp only [lowerAscii] at hrest
    simp only [canonFrom, lowerAscii, List.map_cons, hb, hrest]

lemma ascii_canonFrom (up : Bool) {name : Bytes} (h : Utf8.Ascii name) :
    Utf8.Ascii (canonFrom up name) := by
  induction name generalizing up with
  | nil => exact h
  | cons b rest ih =>
    have hb := lower_lt (h b (by simp))
    have hrest := ih (b == 45) fun c hc => h c (by simp [hc])
    intro c hc
    rcases List.mem_cons.mp hc with rfl | hc
    · cases up
      · exact hb.1
      · exact hb.2
    · exact hrest c hc

lemma toLower_of_ascii {name : Bytes} (h : Utf8.Ascii name) : toLower name = lowerAscii name :=
  if_pos (List.all_eq_true.mpr fun b hb => decide_eq_true (h b hb))

lemma toLower_canonicalKey (name : Bytes) : toLower (canonicalKey name) = toLower name := by
  unfold canonicalKey
  split_ifs with htoken
  · have hascii := ascii_of_token htoken
    rw [toLower_of_ascii (ascii_canonFrom true hascii), toLower_of_ascii hascii,
      lowerAscii_canonFrom]
  · rfl

lemma CanonicalName.ext {a b : Bytes} (ha : CanonicalName a) (hb : CanonicalName b)
    (h : lowerAscii a = lowerAscii b) : a = b := by
  have hcanon : ∀ n, CanonicalName n → canonFrom true n = n := by
    intro n hn
    simpa [canonicalKey, hn.1] using hn.2
  rw [← hcanon a ha, ← hcanon b hb, ← canonFrom_lowerAscii, h, canonFrom_lowerAscii]

lemma foldRune_lower (b : UInt8) (h : b < 0x80) : foldRune b.toNat = (lower b).toNat :=
  ((byte_cases b).2.2.2.2.2 h).2

lemma runes_fold_of_ascii {name : Bytes} (h : Utf8.Ascii name) :
    (Utf8.runes name).map foldRune = (lowerAscii name).map UInt8.toNat := by
  induction name with
  | nil => rfl
  | cons b rest ih =>
    have hb : b < 0x80 := h b (by simp)
    have hrest := ih fun c hc => h c (by simp [hc])
    simp only [Utf8.runes, lowerAscii] at hrest ⊢
    rw [Utf8.decode_cons_of_lt hb]
    simp only [List.map_cons, Option.getD_some, foldRune_lower b hb, hrest]

lemma equalFold_iff {a b : Bytes} (ha : Utf8.Ascii a) (hb : Utf8.Ascii b) :
    equalFold a b = true ↔ lowerAscii a = lowerAscii b := by
  rw [equalFold, beq_iff_eq, runes_fold_of_ascii ha, runes_fold_of_ascii hb]
  exact ⟨fun h => List.map_injective_iff.mpr (fun _ _ => UInt8.toNat_inj.mp) h, fun h => by rw [h]⟩

end Header
end KiteRail
