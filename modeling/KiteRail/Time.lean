import KiteRail.Bytes

/-! Instants with a zone offset, the proleptic Gregorian calendar, and the text
`2006-01-02T15:04:05.000000Z07:00` of an instant. The calendar counts from the
first of March of year zero, so that a leap day is the last day of its year; the
text of an instant determines it up to its microsecond. -/
namespace KiteRail

/-- Nanoseconds since the Unix epoch, and the zone's seconds east of UTC. -/
structure Time where
  unixNano : ℤ
  offset : ℤ
  deriving DecidableEq, Repr

@[ext]
structure CivilDate where
  year : ℤ
  month : ℤ
  day : ℤ
  deriving DecidableEq, Repr

namespace CivilDate

/-- Centuries, quadrennia, years and days within an era of 400 years: the last
century and the last year of a quadrennium are one day longer. -/
def ofEraDay (era doe : ℤ) : CivilDate :=
  let century := min 3 (doe / 36524)
  let inCentury := doe - 36524 * century
  let quad := inCentury / 1461
  let inQuad := inCentury - 1461 * quad
  let yearOfQuad := min 3 (inQuad / 365)
  let dayOfYear := inQuad - 365 * yearOfQuad
  let marchMonth := (5 * dayOfYear + 2) / 153
  { year := 400 * era + 100 * century + 4 * quad + yearOfQuad + (if marchMonth < 10 then 0 else 1)
    month := if marchMonth < 10 then marchMonth + 3 else marchMonth - 9
    day := dayOfYear - (153 * marchMonth + 2) / 5 + 1 }

/-- The date of a day number counted from the Unix epoch. -/
def ofDays (days : ℤ) : CivilDate :=
  ofEraDay ((days + 719468) / 146097) ((days + 719468) % 146097)

/-- The day number of a date. -/
def toDays (c : CivilDate) : ℤ :=
  let marchYear := if c.month < 3 then c.year - 1 else c.year
  let marchMonth := if c.month < 3 then c.month + 9 else c.month - 3
  let yearOfEra := marchYear % 400
  146097 * (marchYear / 400) + 36524 * (yearOfEra / 100) + 1461 * (yearOfEra % 100 / 4) +
    365 * (yearOfEra % 4) + (153 * marchMonth + 2) / 5 + c.day - 1 - 719468

lemma ofEraDay_bounds (era : ℤ) {doe : ℤ} (_ : 0 ≤ doe) (_ : doe < 146097) :
    1 ≤ (ofEraDay era doe).month ∧ (ofEraDay era doe).month ≤ 12 ∧
      1 ≤ (ofEraDay era doe).day ∧ (ofEraDay era doe).day ≤ 31 := by
  simp only [ofEraDay]
  split_ifs <;> omega

lemma toDays_parts (era : ℤ) {century quad year month : ℤ} (day : ℤ)
    (hc : 0 ≤ century ∧ century ≤ 3) (hq : 0 ≤ quad ∧ quad ≤ 24) (hy : 0 ≤ year ∧ year ≤ 3)
    (hm : 0 ≤ month ∧ month ≤ 11) :
    toDays ⟨400 * era + 100 * century + 4 * quad + year + (if month < 10 then 0 else 1),
        if month < 10 then month + 3 else month - 9, day⟩ =
      146097 * era + 36524 * century + 1461 * quad + 365 * year + (153 * month + 2) / 5 +
        day - 1 - 719468 := by
  simp only [toDays]
  split_ifs <;> omega

lemma toDays_ofEraDay (era : ℤ) {doe : ℤ} (_ : 0 ≤ doe) (_ : doe < 146097) :
    (ofEraDay era doe).toDays = 146097 * era + doe - 719468 := by
  simp only [ofEraDay]
  rw [toDays_parts] <;> omega

lemma toDays_ofDays (days : ℤ) : (ofDays days).toDays = days := by
  rw [ofDays, toDays_ofEraDay _ (by omega) (by omega)]
  omega

lemma ofDays_injective : Function.Injective ofDays := by
  intro a b h
  simpa [toDays_ofDays] using congrArg toDays h

lemma ofDays_bounds (days : ℤ) :
    1 ≤ (ofDays days).month ∧ (ofDays days).month ≤ 12 ∧
      1 ≤ (ofDays days).day ∧ (ofDays days).day ≤ 31 :=
  ofEraDay_bounds _ (by omega) (by omega)

end CivilDate

namespace Time
open Bytes

/-- The zero instant: the first of January of year one, UTC. -/
def isZero (t : Time) : Bool := t.unixNano == -62135596800000000000

def utc (t : Time) : Time := ⟨t.unixNano, 0⟩

def truncateMicros (t : Time) : Time := ⟨1000 * (t.unixNano / 1000), t.offset⟩

def unixMicro (t : Time) : ℤ := t.unixNano / 1000

/-- The wall clock of the instant's own zone, as nanoseconds. -/
def wallNano (t : Time) : ℤ := t.unixNano + t.offset * 1000000000

def formatYear (y : ℤ) : Bytes :=
  if y < 0 then 45 :: padded 4 y.natAbs else padded 4 y.natAbs

/-- `Z` for UTC, else the sign, hours and minutes of the offset. -/
def formatZone (offset : ℤ) : Bytes :=
  let minutes := offset.natAbs / 60
  if offset = 0 then [90]
  else (if offset ≤ -60 then 45 else 43) :: padded 2 (minutes / 60) ++ 58 :: padded 2 (minutes % 60)

def formatClock (tod frac : ℕ) : Bytes :=
  padded 2 (tod / 3600) ++ 58 :: (padded 2 (tod / 60 % 60) ++ 58 :: (padded 2 (tod % 60) ++
    46 :: padded 6 frac))

def formatMonthDay (c : CivilDate) : Bytes :=
  padded 2 c.month.toNat ++ 45 :: padded 2 c.day.toNat

/-- The layout `2006-01-02T15:04:05.000000Z07:00`. -/
def formatMicros (t : Time) : Bytes :=
  let secs := t.wallNano / 1000000000
  let date := CivilDate.ofDays (secs / 86400)
  formatYear date.year ++ (45 :: formatMonthDay date ++ (84 ::
    formatClock (secs % 86400).toNat (t.wallNano % 1000000000 / 1000).toNat ++
    formatZone t.offset))

lemma padded_append_inj {w m n : ℕ} {x y : Bytes} (hw : 0 < w) (hm : m < 10 ^ w) (hn : n < 10 ^ w)
    (h : padded w m ++ x = padded w n ++ y) : m = n ∧ x = y := by
  obtain ⟨he, ht⟩ := List.append_inj h (by rw [padded_length hw hm, padded_length hw hn])
  exact ⟨padded_injective w he, ht⟩

lemma formatYear_injective : Function.Injective formatYear := by
  have hsign : ∀ m n : ℕ, padded 4 m ≠ 45 :: padded 4 n := by
    intro m n h
    have hmem : (45 : UInt8) ∈ padded 4 m := by simp [h]
    rcases List.mem_append.mp hmem with hz | hd
    · simp [List.mem_replicate] at hz
    · simpa using (decimalNat_digits hd).1
  intro a b h
  unfold formatYear at h
  split_ifs at h with ha hb hb
  · have := padded_injective 4 (List.cons.inj h).2
    omega
  · exact absurd h.symm (hsign _ _)
  · exact absurd h (hsign _ _)
  · have := padded_injective 4 h
    omega

lemma formatClock_length {tod frac : ℕ} (ht : tod < 86400) (hf : frac < 1000000) :
    (formatClock tod frac).length = 15 := by
  have h₁ := @padded_length 2 (tod / 3600) (by omega) (by omega)
  have h₂ := @padded_length 2 (tod / 60 % 60) (by omega) (by omega)
  have h₃ := @padded_length 2 (tod % 60) (by omega) (by omega)
  have h₄ := @padded_length 6 (frac) (by omega) (by omega)
  simp only [formatClock, List.length_append, List.length_cons, h₁, h₂, h₃, h₄]

lemma formatClock_inj {tod tod' frac frac' : ℕ} (ht : tod < 86400) (ht' : tod' < 86400)
    (h : formatClock tod frac = formatClock tod' frac') : tod = tod' ∧ frac = frac' := by
  obtain ⟨hh, h⟩ := padded_append_inj (by omega) (by omega) (by omega) h
  obtain ⟨hm, h⟩ := padded_append_inj (by omega) (by omega) (by omega) (List.cons.inj h).2
  obtain ⟨hs, h⟩ := padded_append_inj (by omega) (by omega) (by omega) (List.cons.inj h).2
  have := padded_injective 6 (List.cons.inj h).2
  omega

lemma formatMonthDay_length (days : ℤ) :
    (formatMonthDay (CivilDate.ofDays days)).length = 5 := by
  have := CivilDate.ofDays_bounds days
  have h₁ := @padded_length 2 ((CivilDate.ofDays days).month.toNat)
    (by omega) (by omega)
  have h₂ := @padded_length 2 ((CivilDate.ofDays days).day.toNat)
    (by omega) (by omega)
  simp only [formatMonthDay, List.length_append, List.length_cons, h₁, h₂]

lemma formatMonthDay_inj {a b : ℤ}
    (h : formatMonthDay (CivilDate.ofDays a) = formatMonthDay (CivilDate.ofDays b)) :
    (CivilDate.ofDays a).month = (CivilDate.ofDays b).month ∧
      (CivilDate.ofDays a).day = (CivilDate.ofDays b).day := by
  have ha := CivilDate.ofDays_bounds a
  have hb := CivilDate.ofDays_bounds b
  obtain ⟨hm, h⟩ := padded_append_inj (by omega) (by omega) (by omega) h
  have hd := padded_injective 2 (List.cons.inj h).2
  omega

/-- In UTC, equal texts are equal microseconds. -/
theorem formatMicros_inj {t u : Time} (ht : t.offset = 0) (hu : u.offset = 0)
    (h : formatMicros t = formatMicros u) : t.unixMicro = u.unixMicro := by
  simp only [formatMicros, wallNano, ht, hu, zero_mul, add_zero] at h
  have hlen : ∀ v : Time, (formatClock (v.unixNano / 1000000000 % 86400).toNat
      (v.unixNano % 1000000000 / 1000).toNat).length = 15 :=
    fun v => formatClock_length (by omega) (by omega)
  obtain ⟨hy, h⟩ := List.append_inj' h (by
    simp only [List.length_append, List.length_cons, formatMonthDay_length, hlen])
  obtain ⟨hd, h⟩ := List.append_inj h (by
    simp only [List.length_cons, formatMonthDay_length])
  obtain ⟨hc, -⟩ := List.append_inj' h rfl
  have hyear := formatYear_injective hy
  obtain ⟨hmonth, hday⟩ := formatMonthDay_inj (List.cons.inj hd).2
  have hdays := CivilDate.ofDays_injective (CivilDate.ext hyear hmonth hday)
  obtain ⟨htod, hfrac⟩ := formatClock_inj (by omega) (by omega) (List.cons.inj hc).2
  simp only [unixMicro]
  omega

example : formatMicros ⟨1700000000123456789, 0⟩ = lit "2023-11-14T22:13:20.123456Z" := by decide

end Time
end KiteRail
