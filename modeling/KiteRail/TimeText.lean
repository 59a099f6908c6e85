import KiteRail.JsonEncode
import KiteRail.Time

/-! The text of an instant in JSON: RFC 3339 with as many digits of the second as are needed,
and its strict reading. An instant of a year from 0 to 9999, in a zone of whole minutes less than
a day from UTC, is read back from its text. -/
namespace KiteRail

namespace CivilDate

def isLeap (year : ℤ) : Bool :=
  decide (year % 4 = 0) && (decide (year % 100 ≠ 0) || decide (year % 400 = 0))

def daysIn (month year : ℤ) : ℤ :=
  if month = 2 then if isLeap year then 29 else 28
  else if month = 4 ∨ month = 6 ∨ month = 9 ∨ month = 11 then 30
  else 31

lemma isLeap_of_parts (era : ℤ) {century quad : ℤ} (hq : 0 ≤ quad ∧ quad ≤ 24)
    (h : quad = 24 → century = 3) :
    isLeap (400 * era + 100 * century + 4 * quad + 3 + 1) = true := by
  simp only [isLeap, Bool.and_eq_true, Bool.or_eq_true, decide_eq_true_eq]
  omega

/-- The day within a year that begins in March is not beyond the end of its month. -/
lemma day_le_daysIn {day year : ℤ} (h₀ : 0 ≤ day) (h₁ : day ≤ 365)
    (hleap : day = 365 → isLeap (year + 1) = true) :
    let month := (5 * day + 2) / 153
    day - (153 * month + 2) / 5 + 1 ≤ daysIn (if month < 10 then month + 3 else month - 9)
      (year + if month < 10 then 0 else 1) := by
  intro month
  have hlo : 0 ≤ month := by omega
  have hhi : month ≤ 11 := by omega
  have hdef : month = (5 * day + 2) / 153 := rfl
  clear_value month
  by_cases hfeb : month = 11
  · subst hfeb
    have hday : isLeap (year + 1) = false → day ≠ 365 := by
      intro hl h
      rw [hleap h] at hl
      exact Bool.noConfusion hl
    norm_num [daysIn]
    split_ifs with hl
    · omega
    · have := hday (Bool.eq_false_iff.mpr hl)
      omega
  · simp only [daysIn]
    split_ifs <;> omega

/-- No date is beyond the end of its month. -/
lemma ofEraDay_day_le (era : ℤ) {doe : ℤ} (h₀ : 0 ≤ doe) (h₁ : doe < 146097) :
    (ofEraDay era doe).day ≤ daysIn (ofEraDay era doe).month (ofEraDay era doe).year := by
  simp only [ofEraDay]
  set century := min 3 (doe / 36524) with hc
  set quad := (doe - 36524 * century) / 1461 with hq
  set year := min 3 ((doe - 36524 * century - 1461 * quad) / 365) with hy
  refine day_le_daysIn (by omega) (by omega) fun hlast => ?_
  have hyear : year = 3 := by omega
  rw [hyear]
  exact isLeap_of_parts era (by omega) (by omega)

lemma ofDays_day_le (days : ℤ) :
    (ofDays days).day ≤ daysIn (ofDays days).month (ofDays days).year :=
  ofEraDay_day_le _ (by omega) (by omega)

end CivilDate

namespace Time
open Bytes Json

section Format

def formatHMS (tod : ℕ) : Bytes :=
  padded 2 (tod / 3600) ++ 58 :: (padded 2 (tod / 60 % 60) ++ 58 :: padded 2 (tod % 60))

/-- The fraction of a second without trailing zeros. -/
def formatFraction (nsec : ℕ) : Bytes :=
  if nsec = 0 then [] else 46 :: (padded 9 nsec).rdropWhile (· == 48)

def wallDate (t : Time) : CivilDate := CivilDate.ofDays (t.wallNano / 1000000000 / 86400)

/-- The layout `RFC3339Nano`. -/
def formatRFC3339Nano (t : Time) : Bytes :=
  formatYear t.wallDate.year ++ 45 :: (formatMonthDay t.wallDate ++ 84 ::
    (formatHMS (t.wallNano / 1000000000 % 86400).toNat ++
      (formatFraction (t.wallNano % 1000000000).toNat ++ formatZone t.offset)))

/-- What RFC 3339 can say: four digits for the year, hours of the zone below 24. -/
structure Strict (t : Time) : Prop where
  year_nonneg : 0 ≤ t.wallDate.year
  year_le : t.wallDate.year ≤ 9999
  zone : t.offset.natAbs / 3600 < 24

instance (t : Time) : Decidable t.Strict :=
  decidable_of_iff (0 ≤ t.wallDate.year ∧ t.wallDate.year ≤ 9999 ∧ t.offset.natAbs / 3600 < 24)
    ⟨fun h => ⟨h.1, h.2.1, h.2.2⟩, fun h => ⟨h.year_nonneg, h.year_le, h.zone⟩⟩

/-- `MarshalJSON`, without the quotes. -/
def marshalText (t : Time) : Except Bytes Bytes :=
  if t.wallDate.year < 0 ∨ 9999 < t.wallDate.year then
    .error (lit "year outside of range [0,9999]")
  else if 24 ≤ t.offset.natAbs / 3600 then .error (lit "timezone hour outside of range [0,23]")
  else .ok t.formatRFC3339Nano

lemma marshalText_of_strict {t : Time} (h : t.Strict) :
    t.marshalText = .ok t.formatRFC3339Nano := by
  have hy : ¬ (t.wallDate.year < 0 ∨ 9999 < t.wallDate.year) := by
    have h₀ := h.year_nonneg
    have h₁ := h.year_le
    omega
  rw [marshalText, if_neg hy, if_neg (not_le.mpr h.zone)]

/-- What `MarshalJSON` writes is the layout of an instant RFC 3339 can say. -/
lemma marshalText_eq_ok {t : Time} {text : Bytes} (h : t.marshalText = .ok text) :
    t.Strict ∧ text = t.formatRFC3339Nano := by
  rw [marshalText] at h
  split_ifs at h with hyear hzone
  rw [not_or, not_lt, not_lt] at hyear
  exact ⟨⟨hyear.1, hyear.2, not_le.mp hzone⟩, (Except.ok.inj h).symm⟩

lemma formatFraction_length {nsec : ℕ} (h : nsec < 1000000000) :
    (formatFraction nsec).length ≤ 10 := by
  rw [formatFraction]
  split_ifs
  · simp
  · have hle := (List.rdropWhile_prefix (· == 48) (padded 9 nsec)).length_le
    rw [padded_length (by decide) h] at hle
    rw [List.length_cons]
    omega

lemma formatZone_length {offset : ℤ} (h : offset.natAbs / 3600 < 24) :
    (formatZone offset).length ≤ 6 := by
  have h₁ := @padded_length 2 (offset.natAbs / 60 / 60) (by omega) (by omega)
  have h₂ := @padded_length 2 (offset.natAbs / 60 % 60) (by omega) (by omega)
  simp only [formatZone]
  split_ifs
  · simp
  all_goals simp only [List.cons_append, List.length_cons, List.length_append, h₁, h₂, le_refl]

lemma formatRFC3339Nano_length {t : Time} (h : t.Strict) : t.formatRFC3339Nano.length ≤ 35 := by
  have hyear : (formatYear t.wallDate.year).length = 4 := by
    have hpos := h.year_nonneg
    have hle := h.year_le
    rw [formatYear, if_neg (by omega), padded_length (by decide) (by omega)]
  have hmonth := formatMonthDay_length (t.wallNano / 1000000000 / 86400)
  have hfraction := @formatFraction_length (t.wallNano % 1000000000).toNat (by omega)
  have hzone := formatZone_length h.zone
  set tod := (t.wallNano / 1000000000 % 86400).toNat with htod
  have h₁ := @padded_length 2 (tod / 3600) (by omega) (by omega)
  have h₂ := @padded_length 2 (tod / 60 % 60) (by omega) (by omega)
  have h₃ := @padded_length 2 (tod % 60) (by omega) (by omega)
  rw [← wallDate] at hmonth
  simp only [formatRFC3339Nano, formatHMS, ← htod, List.length_append, List.length_cons, hyear,
    hmonth, h₁, h₂, h₃]
  omega

end Format

section Parse

/-- A field of `width` digits with its bounds, and what follows it. -/
def readUint (width lo hi : ℕ) (s : Bytes) : Option (ℕ × Bytes) :=
  let n := digitsValue (s.take width)
  if (s.take width).length = width ∧ (s.take width).all isDigit ∧ lo ≤ n ∧ n ≤ hi then
    some (n, s.drop width)
  else none

def readByte (b : UInt8) : Bytes → Option Bytes
  | [] => none
  | c :: s => if c = b then some s else none

/-- The fraction, if there is one, in nanoseconds. Digits beyond the ninth are ignored. -/
def readFraction : Bytes → ℕ × Bytes
  | 46 :: s =>
    let ds := s.takeWhile isDigit
    if ds = [] then (0, 46 :: s)
    else (digitsValue (ds.take 9) * 10 ^ (9 - ds.length), s.dropWhile isDigit)
  | s => (0, s)

def readOffset : Bytes → Option ℤ
  | [] => none
  | sign :: s => do
    let (hr, s) ← readUint 2 0 23 s
    let s ← readByte 58 s
    let (mm, s) ← readUint 2 0 59 s
    if s ≠ [] then none
    else if sign = 45 then some (-((hr * 60 + mm) * 60 : ℕ))
    else if sign = 43 then some ((hr * 60 + mm) * 60 : ℕ)
    else none

def readZone (s : Bytes) : Option ℤ := if s = [90] then some 0 else readOffset s

/-- `parseRFC3339`. -/
def parseRFC3339 (s : Bytes) : Option Time := do
  let (year, s) ← readUint 4 0 9999 s
  let s ← readByte 45 s
  let (month, s) ← readUint 2 1 12 s
  let s ← readByte 45 s
  let (day, s) ← readUint 2 1 (CivilDate.daysIn month year).toNat s
  let s ← readByte 84 s
  let (hour, s) ← readUint 2 0 23 s
  let s ← readByte 58 s
  let (min, s) ← readUint 2 0 59 s
  let s ← readByte 58 s
  let (sec, s) ← readUint 2 0 59 s
  let (nsec, s) := readFraction s
  let offset ← readZone s
  let days := CivilDate.toDays ⟨year, month, day⟩
  return ⟨(days * 86400 + (hour * 3600 + min * 60 + sec : ℕ) - offset) * 1000000000 + nsec, offset⟩

end Parse

section RoundTrip
variable {width n lo hi : ℕ} {rest : Bytes}

lemma padded_all_digit (width n : ℕ) : (padded width n).all isDigit = true := by
  refine List.all_eq_true.mpr fun b hb => ?_
  rcases List.mem_append.mp hb with hz | hd
  · rw [(List.mem_replicate.mp hz).2]
    rfl
  · have h := decimalNat_digits hd
    simp only [isDigit, Bool.and_eq_true, decide_eq_true_eq, UInt8.le_iff_toNat_le]
    exact h

lemma readUint_padded (hw : 0 < width) (hn : n < 10 ^ width) (hlo : lo ≤ n) (hhi : n ≤ hi) :
    readUint width lo hi (padded width n ++ rest) = some (n, rest) := by
  have hlen := padded_length hw hn
  have htake : (padded width n ++ rest).take width = padded width n := by
    rw [List.take_append_of_le_length hlen.ge, List.take_of_length_le hlen.le]
  have hdrop : (padded width n ++ rest).drop width = rest := by
    rw [List.drop_append_of_le_length hlen.ge, List.drop_of_length_le hlen.le, List.nil_append]
  simp only [readUint, htake, hdrop, hlen, padded_all_digit, digitsValue_padded]
  exact if_pos ⟨trivial, trivial, hlo, hhi⟩

@[simp] lemma readByte_cons (b : UInt8) (s : Bytes) : readByte b (b :: s) = some s := by
  simp [readByte]

lemma foldl_digits_zeros (bs : Bytes) (k acc : ℕ) :
    (bs ++ List.replicate k (48 : UInt8)).foldl (fun acc b => 10 * acc + (b.toNat - 48)) acc =
      bs.foldl (fun acc b => 10 * acc + (b.toNat - 48)) acc * 10 ^ k := by
  induction k with
  | zero => simp
  | succ k ih =>
    rw [List.replicate_succ', ← List.append_assoc, List.foldl_append, ih]
    simp [pow_succ]
    ring

lemma digitsValue_append_zeros (bs : Bytes) (k : ℕ) :
    digitsValue (bs ++ List.replicate k 48) = digitsValue bs * 10 ^ k :=
  foldl_digits_zeros bs k 0

lemma rdropWhile_zeros (bs : Bytes) :
    ∃ k, bs = bs.rdropWhile (· == 48) ++ List.replicate k 48 := by
  refine ⟨(bs.rtakeWhile (· == 48)).length, ?_⟩
  have hz : bs.rtakeWhile (· == 48) = List.replicate (bs.rtakeWhile (· == 48)).length 48 :=
    List.eq_replicate_iff.mpr ⟨rfl, fun b hb => by simpa using List.mem_rtakeWhile_imp hb⟩
  rw [← hz]
  exact (List.rdropWhile_append_rtakeWhile).symm

lemma readFraction_format (hn : n < 1000000000) (hrest : ∀ b ∈ rest.head?, isDigit b = false)
    (hdot : 46 ∉ rest.head?) : readFraction (formatFraction n ++ rest) = (n, rest) := by
  by_cases hz : n = 0
  · subst hz
    cases rest with
    | nil => rfl
    | cons b rest =>
      have hb : b ≠ 46 := by simpa [eq_comm] using hdot
      simp [formatFraction, readFraction, hb]
  · obtain ⟨k, hk⟩ := rdropWhile_zeros (padded 9 n)
    set ds := (padded 9 n).rdropWhile (· == 48) with hds
    have hlen : ds.length + k = 9 := by
      have h := congrArg List.length hk
      rw [padded_length (by decide) hn, List.length_append, List.length_replicate] at h
      exact h.symm
    have hvalue : digitsValue ds * 10 ^ k = n := by
      rw [← digitsValue_append_zeros, ← hk, digitsValue_padded]
    have hne : ds ≠ [] := by
      rintro hnil
      rw [hnil] at hvalue
      exact hz (by simpa [digitsValue] using hvalue.symm)
    have hdigit : ∀ b ∈ ds, isDigit b = true := by
      intro b hb
      have hall := List.all_eq_true.mp (padded_all_digit 9 n)
      exact hall b (by rw [hk]; exact List.mem_append_left _ hb)
    have htake : (ds ++ rest).takeWhile isDigit = ds := by
      rw [List.takeWhile_append_of_pos hdigit]
      cases rest with
      | nil => simp
      | cons b rest => simp [hrest b rfl]
    have hdrop : (ds ++ rest).dropWhile isDigit = rest := by
      rw [List.dropWhile_append_of_pos hdigit]
      cases rest with
      | nil => rfl
      | cons b rest => simp [hrest b rfl]
    rw [formatFraction, if_neg hz, List.cons_append, ← hds, readFraction]
    simp only [htake, hdrop, if_neg hne]
    have h9 : ds.take 9 = ds := List.take_of_length_le (by omega)
    have hk' : 9 - ds.length = k := by omega
    rw [h9, hk', hvalue]

/-- Zones that RFC 3339 can say exactly. -/
def WholeMinutes (offset : ℤ) : Prop := offset % 60 = 0

lemma readOffset_format {minutes : ℕ} (h : minutes / 60 < 24) {sign : UInt8}
    (hsign : sign = 45 ∨ sign = 43) :
    readOffset (sign :: padded 2 (minutes / 60) ++ 58 :: padded 2 (minutes % 60)) =
      some (if sign = 45 then -((minutes * 60 : ℕ) : ℤ) else ((minutes * 60 : ℕ) : ℤ)) := by
  have hhr := @readUint_padded 2 (minutes / 60) 0 23 (58 :: padded 2 (minutes % 60)) (by decide)
    (by omega) (by omega) (by omega)
  have hmm := @readUint_padded 2 (minutes % 60) 0 59 [] (by decide) (by omega) (by omega)
    (by omega)
  rw [List.append_nil] at hmm
  have hsum : minutes / 60 * 60 + minutes % 60 = minutes := Nat.div_add_mod' minutes 60
  simp only [readOffset, List.cons_append, hhr, hmm, readByte_cons, Option.bind_eq_bind,
    Option.bind_some, hsum, ne_eq, not_true_eq_false, if_false]
  rcases hsign with rfl | rfl <;> rfl

lemma readZone_format {offset : ℤ} (hm : WholeMinutes offset) (hh : offset.natAbs / 3600 < 24) :
    readZone (formatZone offset) = some offset := by
  simp only [WholeMinutes] at hm
  simp only [formatZone]
  by_cases hz : offset = 0
  · simp [hz, readZone]
  · rw [if_neg hz]
    by_cases hneg : offset ≤ -60
    · rw [if_pos hneg, readZone, if_neg (by simp), readOffset_format (by omega) (.inl rfl)]
      simp only [if_true, Option.some.injEq]
      omega
    · rw [if_neg hneg, readZone, if_neg (by simp), readOffset_format (by omega) (.inr rfl)]
      simp only [Option.some.injEq]
      rw [if_neg (by decide)]
      omega

lemma formatZone_head (offset : ℤ) :
    (∀ b ∈ (formatZone offset).head?, isDigit b = false) ∧ 46 ∉ (formatZone offset).head? := by
  rw [formatZone]
  split_ifs <;> simp [isDigit]

lemma formatYear_nonneg {y : ℤ} (h : 0 ≤ y) : formatYear y = padded 4 y.toNat := by
  have habs : y.natAbs = y.toNat := by omega
  rw [formatYear, if_neg (not_lt.mpr h), habs]

/-- An instant is read back from its text. -/
theorem parseRFC3339_format {t : Time} (hs : t.Strict) (hm : WholeMinutes t.offset) :
    parseRFC3339 t.formatRFC3339Nano = some t := by
  obtain ⟨hy₀, hy₁, hzone⟩ := hs
  have hbounds := CivilDate.ofDays_bounds (t.wallNano / 1000000000 / 86400)
  have hlast := CivilDate.ofDays_day_le (t.wallNano / 1000000000 / 86400)
  have hdays := CivilDate.toDays_ofDays (t.wallNano / 1000000000 / 86400)
  rw [← wallDate] at hbounds hlast hdays
  obtain ⟨hm₀, hm₁, hd₀, hd₁⟩ := hbounds
  set c := t.wallDate with hc
  have hY : ((c.year.toNat : ℕ) : ℤ) = c.year := Int.toNat_of_nonneg hy₀
  have hM : ((c.month.toNat : ℕ) : ℤ) = c.month := Int.toNat_of_nonneg (by omega)
  have hD : ((c.day.toNat : ℕ) : ℤ) = c.day := Int.toNat_of_nonneg (by omega)
  obtain ⟨hdigit, hdot⟩ := formatZone_head t.offset
  rw [formatRFC3339Nano, ← hc, formatYear_nonneg hy₀, formatMonthDay, formatHMS, parseRFC3339]
  simp only [List.append_assoc, List.cons_append]
  rw [readUint_padded (by decide) (by omega) (by omega) (by omega)]
  simp only [Option.bind_eq_bind, Option.bind_some, readByte_cons]
  rw [readUint_padded (by decide) (by omega) (by omega) (by omega)]
  simp only [Option.bind_some, readByte_cons, hY, hM]
  rw [readUint_padded (by decide) (by omega) (by omega) (by omega)]
  simp only [Option.bind_some, readByte_cons, hD]
  rw [readUint_padded (by decide) (by omega) (by omega) (by omega)]
  simp only [Option.bind_some, readByte_cons]
  rw [readUint_padded (by decide) (by omega) (by omega) (by omega)]
  simp only [Option.bind_some, readByte_cons]
  rw [readUint_padded (by decide) (by omega) (by omega) (by omega)]
  simp only [Option.bind_some]
  rw [readFraction_format (by omega) hdigit hdot, readZone_format hm hzone]
  simp only [Option.bind_some, Option.pure_def, Option.some.injEq, hdays]
  obtain ⟨nano, offset⟩ := t
  simp only [wallNano, Time.mk.injEq, and_true] at *
  omega

end RoundTrip

section Decode

def plainChar : StrItem → Option UInt8
  | .char b => some b
  | _ => none

/-- `UnmarshalJSON`, which reads the literal as it is written. What only the lenient
`time.Parse` reads is an error here. -/
def decodeTime : Decoder Time
  | old, .null => (old, true)
  | old, .str items =>
    match (items.mapM plainChar).bind parseRFC3339 with
    | some t => (t, true)
    | none => (old, false)
  | old, _ => (old, false)

def Plain (bs : Bytes) : Prop := ∀ b ∈ bs, isDigit b = true ∨ b ∈ [43, 45, 46, 58, 84, 90]

lemma plain_append {x y : Bytes} : Plain (x ++ y) ↔ Plain x ∧ Plain y := List.forall_mem_append

lemma plain_cons {b : UInt8} {x : Bytes} :
    Plain (b :: x) ↔ (isDigit b = true ∨ b ∈ [43, 45, 46, 58, 84, 90]) ∧ Plain x :=
  List.forall_mem_cons

lemma padded_plain (width n : ℕ) : Plain (padded width n) := fun b hb =>
  .inl (List.all_eq_true.mp (padded_all_digit width n) b hb)

lemma formatZone_plain (offset : ℤ) : Plain (formatZone offset) := by
  simp only [formatZone]
  split_ifs
  · simp [Plain]
  all_goals
    rw [List.cons_append, plain_cons, plain_append, plain_cons]
    exact ⟨.inr (by decide), padded_plain _ _, .inr (by decide), padded_plain _ _⟩

lemma formatFraction_plain (n : ℕ) : Plain (formatFraction n) := by
  rw [formatFraction]
  split_ifs
  · simp [Plain]
  · refine plain_cons.mpr ⟨.inr (by decide), fun b hb => ?_⟩
    exact padded_plain 9 n b ((List.rdropWhile_prefix _ _).subset hb)

lemma formatYear_plain (y : ℤ) : Plain (formatYear y) := by
  rw [formatYear]
  split_ifs
  · exact plain_cons.mpr ⟨.inr (by decide), padded_plain _ _⟩
  · exact padded_plain _ _

lemma formatRFC3339Nano_plain (t : Time) : Plain t.formatRFC3339Nano := by
  have hsep : ∀ b ∈ ([45, 58, 84] : Bytes), isDigit b = true ∨ b ∈ [43, 45, 46, 58, 84, 90] := by
    simp
  simp only [formatRFC3339Nano, formatMonthDay, formatHMS, plain_append, plain_cons]
  exact ⟨formatYear_plain _, hsep 45 (by decide), ⟨padded_plain _ _, hsep 45 (by decide),
    padded_plain _ _⟩, hsep 84 (by decide), ⟨padded_plain _ _, hsep 58 (by decide),
    padded_plain _ _, hsep 58 (by decide), padded_plain _ _⟩, formatFraction_plain _,
    formatZone_plain _⟩

lemma Plain.safe {bs : Bytes} (h : Plain bs) : ∀ b ∈ bs, b < 0x80 ∧ htmlSafe b.toNat = true := by
  intro b hb
  rcases h b hb with hd | hs
  · simp only [isDigit, Bool.and_eq_true, decide_eq_true_eq, UInt8.le_iff_toNat_le] at hd
    have h₁ : 48 ≤ b.toNat := hd.1
    have h₂ : b.toNat ≤ 57 := hd.2
    simp only [UInt8.lt_iff_toNat_lt, htmlSafe, Bool.and_eq_true, decide_eq_true_eq, bne_iff_ne]
    refine ⟨?_, ?_⟩
    · exact lt_of_le_of_lt h₂ (by decide)
    · omega
  · simp only [List.mem_cons, List.not_mem_nil, or_false] at hs
    rcases hs with rfl | rfl | rfl | rfl | rfl | rfl <;> decide

/-- An instant is decoded from what was written for it. -/
lemma decodeTime_format {t old : Time} (hs : t.Strict) (hm : WholeMinutes t.offset) :
    decodeTime old (spell (.str t.formatRFC3339Nano)) = (t, true) := by
  have hitems := quoteItems_of_safe (formatRFC3339Nano_plain t).safe
  have hplain : ∀ bs : Bytes, (bs.map StrItem.char).mapM plainChar = some bs := by
    intro bs
    induction bs with
    | nil => rfl
    | cons b bs ih => simp [ih, plainChar]
  simp only [spell, hitems, decodeTime, hplain, Option.bind_some, parseRFC3339_format hs hm]

end Decode

end Time
end KiteRail
