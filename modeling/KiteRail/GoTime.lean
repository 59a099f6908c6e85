import KiteRail.GoStrconv

/-! Instants as package `time` computes with them: 64-bit seconds that wrap around or saturate.
An age is exact whenever it is short, however extreme the instant it is taken from. -/
namespace KiteRail.GoTime
open GoStrconv

/-- The sum of 64-bit integers, from the exact one. -/
def wrap64 (n : ℤ) : ℤ := (n + 2 ^ 63) % 2 ^ 64 - 2 ^ 63

/-- Seconds since the first year, and nanoseconds within the second. -/
structure Instant where
  sec : ℤ
  nsec : ℤ
  deriving DecidableEq

def unixToInternal : ℤ := 62135596800

/-- `time.Unix(sec, 0)`. -/
def unix (sec : ℤ) : Instant := ⟨wrap64 (sec + unixToInternal), 0⟩

/-- The instant some nanoseconds after the Unix epoch, as the clock gives it. -/
def ofNanos (n : ℕ) : Instant := ⟨n / 1000000000 + unixToInternal, n % 1000000000⟩

/-- `addSec`: a sum that overflows is replaced by the extreme one. -/
def addSec (sec d : ℤ) : ℤ :=
  let sum := wrap64 (sec + d)
  if (sum > sec) ↔ (d > 0) then sum else if d > 0 then maxInt64 else -maxInt64

def Instant.add (t : Instant) (d : ℤ) : Instant :=
  let dsec := d.tdiv 1000000000
  let nsec := t.nsec + d.tmod 1000000000
  if 1000000000 ≤ nsec then ⟨addSec t.sec (dsec + 1), nsec - 1000000000⟩
  else if nsec < 0 then ⟨addSec t.sec (dsec - 1), nsec + 1000000000⟩
  else ⟨addSec t.sec dsec, nsec⟩

def Instant.before (t u : Instant) : Bool := t.sec < u.sec || t.sec = u.sec && t.nsec < u.nsec

def minDuration : ℤ := -maxInt64 - 1

def maxDuration : ℤ := maxInt64

/-- `Time.Sub`, when not both instants have a monotonic reading. -/
def Instant.sub (t u : Instant) : ℤ :=
  let d := wrap64 (wrap64 (wrap64 (t.sec - u.sec) * 1000000000) + (t.nsec - u.nsec))
  if u.add d = t then d else if t.before u then minDuration else maxDuration

def Instant.nanos (t : Instant) : ℤ := t.sec * 1000000000 + t.nsec

section Exact
variable {t u : Instant} {d n : ℤ}

lemma maxInt64_eq : maxInt64 = 9223372036854775807 := rfl

lemma wrap64_of_fits (h : -maxInt64 - 1 ≤ n) (h' : n ≤ maxInt64) : wrap64 n = n := by
  rw [maxInt64_eq] at h h'
  rw [wrap64]
  omega

lemma wrap64_bounds (n : ℤ) : -maxInt64 - 1 ≤ wrap64 n ∧ wrap64 n ≤ maxInt64 := by
  rw [maxInt64_eq, wrap64]
  omega

/-- Intermediate wrapping does not matter. -/
lemma wrap64_mul_add (x y : ℤ) :
    wrap64 (wrap64 (wrap64 x * 1000000000) + y) = wrap64 (x * 1000000000 + y) := by
  simp only [wrap64]
  omega

lemma addSec_eq_iff {sec v : ℤ} (hsec : -maxInt64 - 1 ≤ sec ∧ sec ≤ maxInt64)
    (hd : -(2 ^ 40) ≤ d ∧ d ≤ 2 ^ 40) (hv : -maxInt64 < v ∧ v < maxInt64) :
    addSec sec d = v ↔ sec + d = v := by
  rw [maxInt64_eq] at hsec hv
  simp only [addSec, wrap64, maxInt64_eq]
  split_ifs <;> omega

lemma Instant.add_eq_iff (hu : -maxInt64 - 1 ≤ u.sec ∧ u.sec ≤ maxInt64)
    (hun : 0 ≤ u.nsec ∧ u.nsec < 1000000000) (hd : -maxInt64 - 1 ≤ d ∧ d ≤ maxInt64)
    (ht : -maxInt64 < t.sec ∧ t.sec < maxInt64) (htn : 0 ≤ t.nsec ∧ t.nsec < 1000000000) :
    u.add d = t ↔ u.nanos + d = t.nanos := by
  obtain ⟨usec, unsec⟩ := u
  obtain ⟨tsec, tnsec⟩ := t
  simp only at hu hun ht htn
  have hsplit := Int.mul_tdiv_add_tmod d 1000000000
  have hlow := Int.lt_tmod_of_pos d (b := 1000000000) (by norm_num)
  have hhigh := Int.tmod_lt_of_pos d (b := 1000000000) (by norm_num)
  rw [maxInt64_eq] at hd
  simp only [Instant.add, Instant.nanos]
  generalize d.tdiv 1000000000 = q at *
  generalize d.tmod 1000000000 = m at *
  split_ifs
  · rw [Instant.mk.injEq, addSec_eq_iff hu (by omega) ht]
    omega
  · rw [Instant.mk.injEq, addSec_eq_iff hu (by omega) ht]
    omega
  · rw [Instant.mk.injEq, addSec_eq_iff hu (by omega) ht]
    omega

/-- Whether an instant lies within a short time of the clock is decided exactly for every
64-bit number of seconds. -/
theorem sub_unix_within {clock : ℕ} {sec within : ℤ} (hclock : clock < 2 ^ 62 * 1000000000)
    (hsec : -maxInt64 - 1 ≤ sec ∧ sec ≤ maxInt64) (hwithin : 0 ≤ within ∧ within < 2 ^ 60) :
    (-within ≤ (ofNanos clock).sub (unix sec) ∧ (ofNanos clock).sub (unix sec) ≤ within) ↔
      -within ≤ clock - sec * 1000000000 ∧ clock - sec * 1000000000 ≤ within := by
  have hmax := maxInt64_eq
  have hconst : unixToInternal = 62135596800 := rfl
  have hu := wrap64_bounds (sec + unixToInternal)
  rw [Instant.sub, wrap64_mul_add]
  have hd := wrap64_bounds (((ofNanos clock).sec - (unix sec).sec) * 1000000000 +
    ((ofNanos clock).nsec - (unix sec).nsec))
  have hiff := Instant.add_eq_iff (t := ofNanos clock) (u := unix sec) hu (by simp [unix]) hd
    (by simp only [ofNanos]; omega) (by simp only [ofNanos]; omega)
  simp only [hiff]
  simp only [Instant.nanos, ofNanos, unix, wrap64, minDuration, maxDuration] at *
  split_ifs <;> omega

end Exact

end KiteRail.GoTime
