import KiteRail.GoStrconv

/-! The order in which `Migrate` runs its files: by the number a name starts with, then by
name. Numbers that do not fit an `int` all count as the largest one, so among them the names
decide. -/
namespace KiteRail.Migrations
open Bytes GoStrconv

/-- The part of a name before its first character that is no digit. -/
def digits (name : Bytes) : Bytes := name.takeWhile isDigit

def migrationNumber (name : Bytes) : ℤ :=
  -- Unnumbered files run last.
  (parseInt (digits name)).getD maxInt64

/-- The comparison of `sortMigrations`. -/
def less (a b : Bytes) : Bool :=
  if migrationNumber a ≠ migrationNumber b then migrationNumber a < migrationNumber b else a < b

def sortMigrations (names : List Bytes) : List Bytes :=
  names.insertionSort fun a b => less b a = false

def number (name : Bytes) : Option ℕ := parseDigits (digits name)

/-- The numbered names of a list come with their numbers in order. -/
def InOrder (names : List Bytes) : Prop :=
  names.Pairwise fun a b => ∀ m n, number a = some m → number b = some n → m ≤ n

/-- Names whose numbers do not lie below the largest `int` are ordered as their numbers are. -/
def AgreeAbove (names : List Bytes) : Prop :=
  ∀ a ∈ names, ∀ b ∈ names, ∀ m n : ℕ, number a = some m → number b = some n →
    maxInt64 ≤ m → maxInt64 ≤ n → a < b → m ≤ n

section Order
variable {a b c : Bytes} {xs ys : List Bytes}

def UpTo (a b : Bytes) : Prop :=
  migrationNumber a < migrationNumber b ∨ migrationNumber a = migrationNumber b ∧ a ≤ b

lemma less_eq_false : less b a = false ↔ UpTo a b := by
  rw [less, UpTo]
  by_cases h : migrationNumber b = migrationNumber a
  · simp [h]
  · simp [h, Ne.symm h, le_iff_lt_or_eq]

lemma UpTo.total (a b : Bytes) : UpTo a b ∨ UpTo b a := by
  rcases lt_trichotomy (migrationNumber a) (migrationNumber b) with h | h | h
  · exact .inl (.inl h)
  · exact (List.le_total a b).imp (fun hle => .inr ⟨h, hle⟩) fun hle => .inr ⟨h.symm, hle⟩
  · exact .inr (.inl h)

lemma UpTo.trans (h : UpTo a b) (g : UpTo b c) : UpTo a c := by
  rcases h with h | ⟨h, hle⟩
  · rcases g with g | ⟨g, -⟩
    · exact .inl (h.trans g)
    · exact .inl (g ▸ h)
  · rcases g with g | ⟨g, gle⟩
    · exact .inl (h ▸ g)
    · exact .inr ⟨h.trans g, List.le_trans hle gle⟩

lemma UpTo.antisymm (h : UpTo a b) (g : UpTo b a) : a = b := by
  rcases h with h | ⟨h, hle⟩
  · rcases g with g | ⟨g, -⟩ <;> omega
  · rcases g with g | ⟨-, gle⟩
    · omega
    · exact List.le_antisymm hle gle

lemma upTo_of_less (h : less a b = true) : UpTo a b := by
  rcases UpTo.total a b with hab | hba
  · exact hab
  · simp [less_eq_false.mpr hba] at h

instance : Std.Total fun a b => less b a = false :=
  ⟨fun a b => by simpa only [less_eq_false] using UpTo.total a b⟩

instance : IsTrans Bytes fun a b => less b a = false :=
  ⟨fun _ _ _ hab hbc => less_eq_false.mpr ((less_eq_false.mp hab).trans (less_eq_false.mp hbc))⟩

lemma sortMigrations_perm (xs : List Bytes) : (sortMigrations xs).Perm xs :=
  List.perm_insertionSort _ xs

lemma mem_sortMigrations : a ∈ sortMigrations xs ↔ a ∈ xs := (sortMigrations_perm xs).mem_iff

lemma sortMigrations_pairwise (xs : List Bytes) :
    (sortMigrations xs).Pairwise UpTo :=
  (List.pairwise_insertionSort _ xs).imp less_eq_false.mp

lemma sortMigrations_eq (hperm : xs.Perm ys) (h : ys.Pairwise UpTo) :
    sortMigrations xs = ys := by
  refine List.Perm.eq_of_pairwise ?_ (sortMigrations_pairwise xs) h
    ((sortMigrations_perm xs).trans hperm)
  intro a b _ _ hab hba
  exact hab.antisymm hba

lemma sortMigrations_congr (h : xs.Perm ys) : sortMigrations xs = sortMigrations ys :=
  sortMigrations_eq (h.trans (sortMigrations_perm ys).symm) (sortMigrations_pairwise ys)

lemma sortMigrations_append (h : ∀ a ∈ xs, ∀ b ∈ ys, less a b = true) :
    sortMigrations (xs ++ ys) = sortMigrations xs ++ sortMigrations ys := by
  apply sortMigrations_eq
  · exact ((sortMigrations_perm xs).append (sortMigrations_perm ys)).symm
  · refine List.pairwise_append.mpr
      ⟨sortMigrations_pairwise xs, sortMigrations_pairwise ys, fun a ha b hb => ?_⟩
    exact upTo_of_less (h a (mem_sortMigrations.mp ha) b (mem_sortMigrations.mp hb))

end Order

section Numbers
variable {a b : Bytes} {names : List Bytes} {m n : ℕ}

/-- A number counts as itself or as the largest `int`. -/
lemma migrationNumber_eq (h : number a = some n) : migrationNumber a = min (n : ℤ) maxInt64 := by
  have hmax : maxInt64 = 2 ^ 63 - 1 := rfl
  have hne : digits a ≠ [] ∧ (digits a).all isDigit = true := by
    by_contra hc
    rw [number, parseDigits, if_neg hc] at h
    cases h
  obtain ⟨d, ds, hds⟩ := List.exists_cons_of_ne_nil hne.1
  have hd : isDigit d = true := List.all_eq_true.mp hne.2 d (by simp [hds])
  have hparse : parseInt (digits a) = fits n := by
    rw [number] at h
    rw [hds, parseInt_of_digit hd, ← hds, h, Option.bind_some]
  rw [migrationNumber, hparse, fits]
  split
  · rename_i hfits
    rw [Option.getD_some, min_eq_left hfits.2]
  · rename_i hfits
    rw [Option.getD_none, min_eq_right (by omega)]

/-- Two names that may stand in this order have their numbers in order, unless both are
too large and the names disagree. -/
lemma number_le (hab : UpTo a b) (ha : number a = some m) (hb : number b = some n)
    (h : maxInt64 ≤ m → maxInt64 ≤ n → a < b → m ≤ n) : m ≤ n := by
  rw [UpTo, migrationNumber_eq ha, migrationNumber_eq hb] at hab
  rcases hab with hlt | ⟨heq, hle⟩
  · omega
  · by_cases hm : maxInt64 ≤ m
    · by_cases hlt : a < b
      · exact h hm (by omega) hlt
      · obtain rfl := List.le_antisymm hle (List.not_lt.mp hlt)
        rw [ha] at hb
        exact (Option.some.inj hb).le
    · omega

lemma inOrder_iff (names : List Bytes) :
    InOrder (sortMigrations names) ↔ AgreeAbove names := by
  constructor
  · intro hin a ha b hb m n hm hn hmax hmax' hlt
    have hnot : ¬ UpTo b a := by
      rw [UpTo, migrationNumber_eq hm, migrationNumber_eq hn, min_eq_right hmax,
        min_eq_right hmax']
      rintro (h | ⟨-, hle⟩)
      · exact absurd h (lt_irrefl _)
      · exact List.not_lt.mpr hle hlt
    obtain ⟨i, hi, rfl⟩ := List.getElem_of_mem (mem_sortMigrations.mpr ha)
    obtain ⟨j, hj, rfl⟩ := List.getElem_of_mem (mem_sortMigrations.mpr hb)
    rcases lt_trichotomy i j with hij | rfl | hij
    · exact List.pairwise_iff_getElem.mp hin i j hi hj hij m n hm hn
    · exact absurd hlt (List.lt_irrefl _)
    · have hsorted := List.pairwise_iff_getElem.mp (sortMigrations_pairwise names)
      exact absurd (hsorted j i hj hi hij) hnot
  · intro hagree
    refine (sortMigrations_pairwise names).imp_of_mem fun {a b} ha hb hab m n hm hn => ?_
    exact number_le hab hm hn
      (hagree a (mem_sortMigrations.mp ha) b (mem_sortMigrations.mp hb) m n hm hn)

end Numbers

/-- Two numbers of 20 and 21 digits: the larger one runs first. -/
def longNames : List Bytes := [lit "99999999999999999999_a.sql", lit "100000000000000000000_b.sql"]

example : sortMigrations [lit "0010_c.sql", lit "004_b.sql", lit "0005_a.sql"] =
    [lit "004_b.sql", lit "0005_a.sql", lit "0010_c.sql"] := by decide +kernel

theorem long_numbers_swapped : sortMigrations longNames = longNames.reverse ∧
    ¬ InOrder (sortMigrations longNames) := by
  have hsort : sortMigrations longNames = longNames.reverse := by decide +kernel
  refine ⟨hsort, fun hin => ?_⟩
  rw [hsort] at hin
  have hpair := (List.pairwise_cons.mp hin).1 (lit "99999999999999999999_a.sql") (by simp)
    (10 ^ 20) (10 ^ 20 - 1) (by decide +kernel) (by decide +kernel)
  omega

end KiteRail.Migrations
