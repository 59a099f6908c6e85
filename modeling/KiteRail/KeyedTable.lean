import Mathlib

/-! Tables with a primary key: lookup, insertion under an unused key, and the guarded
update that `UPDATE ... SET ... WHERE ...` makes of every row at once. -/
namespace KiteRail

/-- Rows in the order of their insertion, no two under the same key. -/
structure Table {ρ κ : Type} (key : ρ → κ) where
  rows : List ρ
  nodup : (rows.map key).Nodup

namespace Table
variable {ρ κ β : Type} {key : ρ → κ} [DecidableEq κ]

def empty : Table key := ⟨[], .nil⟩

def find (T : Table key) (k : κ) : Option ρ := T.rows.find? fun r => key r = k

def hits (T : Table key) (guard : ρ → Bool) : List ρ := T.rows.filter guard

def update (T : Table key) (guard : ρ → Bool) (set : ρ → ρ) (hset : ∀ r, key (set r) = key r) :
    Table key where
  rows := T.rows.map fun r => if guard r then set r else r
  nodup := by
    have hkey : (key ∘ fun r => if guard r then set r else r) = key := by
      funext r
      by_cases hg : guard r <;> simp [hg, hset]
    simpa [List.map_map, hkey] using T.nodup

lemma find_eq_none_iff {T : Table key} {k : κ} : T.find k = none ↔ ∀ r ∈ T.rows, key r ≠ k := by
  simp [find]

lemma find_eq_some_iff {T : Table key} {k : κ} {r : ρ} :
    T.find k = some r ↔ r ∈ T.rows ∧ key r = k := by
  have hfound : ∀ {k r}, T.find k = some r → r ∈ T.rows ∧ key r = k := fun h =>
    ⟨List.mem_of_find?_eq_some h, by simpa using List.find?_some h⟩
  refine ⟨hfound, fun ⟨hr, hk⟩ => ?_⟩
  cases hf : T.find k with
  | none => exact absurd hk (find_eq_none_iff.mp hf r hr)
  | some r' =>
    obtain ⟨hr', hk'⟩ := hfound hf
    rw [List.inj_on_of_nodup_map T.nodup hr' hr (hk'.trans hk.symm)]

def insert (T : Table key) (r : ρ) (h : T.find (key r) = none) : Table key where
  rows := T.rows ++ [r]
  nodup := by
    rw [List.map_append, List.nodup_append]
    refine ⟨T.nodup, List.nodup_singleton _, ?_⟩
    rintro a ha b hb rfl
    obtain ⟨r', hr', rfl⟩ := List.mem_map.mp ha
    exact find_eq_none_iff.mp h r' hr' (by simpa using hb)

/-- `DELETE ... WHERE ...`. -/
def delete (T : Table key) (guard : ρ → Bool) : Table key where
  rows := T.rows.filter fun r => !guard r
  nodup := T.nodup.sublist (List.filter_sublist.map key)

lemma find_delete {T : Table key} {guard : ρ → Bool} {k : κ} {r : ρ} :
    (T.delete guard).find k = some r ↔ T.find k = some r ∧ guard r = false := by
  simp only [find_eq_some_iff, delete, List.mem_filter, Bool.not_eq_true']
  tauto

@[simp] lemma find_empty (k : κ) : (empty : Table key).find k = none := rfl

lemma find_key {T : Table key} {k : κ} {r : ρ} (h : T.find k = some r) : key r = k :=
  (find_eq_some_iff.mp h).2

@[simp] lemma find_update (T : Table key) (guard : ρ → Bool) (set : ρ → ρ)
    (hset : ∀ r, key (set r) = key r) (k : κ) :
    (T.update guard set hset).find k = (T.find k).map fun r => if guard r then set r else r := by
  have hkey : ((fun r => decide (key r = k)) ∘ fun r => if guard r then set r else r) =
      fun r => decide (key r = k) := by
    funext r
    by_cases hg : guard r <;> simp [hg, hset]
  simp only [find, update, List.find?_map, hkey]

lemma find_insert (T : Table key) (r : ρ) (h : T.find (key r) = none) (k : κ) :
    (T.insert r h).find k = if k = key r then some r else T.find k := by
  by_cases hk : k = key r
  · subst hk
    rw [if_pos rfl]
    exact find_eq_some_iff.mpr ⟨by simp [insert], rfl⟩
  · simp [find, insert, List.find?_append, hk, Ne.symm hk]

/-- What an update does under one key, whatever it does to the other rows. -/
lemma hits_filterMap (T : Table key) (guard : ρ → Bool) {k : κ} {f : ρ → Option β}
    (hf : ∀ r, key r ≠ k → f r = none) :
    (T.hits guard).filterMap f = (((T.find k).filter guard).bind f).toList := by
  obtain ⟨rows, hnd⟩ := T
  simp only [hits, find]
  induction rows with
  | nil => rfl
  | cons r rows ih =>
    obtain ⟨hnotin, hnd⟩ := List.nodup_cons.mp hnd
    by_cases hk : key r = k
    · have hnone : (rows.filter guard).filterMap f = [] := by
        rw [List.filterMap_eq_nil_iff]
        intro r' hr'
        refine hf r' fun hk' => hnotin ?_
        exact List.mem_map.mpr ⟨r', (List.mem_filter.mp hr').1, hk'.trans hk.symm⟩
      by_cases hg : guard r
      · cases hfr : f r <;> simp [hk, hg, hnone, hfr, Option.filter_some]
      · simp [hk, hg, hnone]
    · have hrest := ih hnd
      by_cases hg : guard r <;> simp [hk, hg, hf r hk, hrest]

lemma hits_of_key (T : Table key) {guard : ρ → Bool} {k : κ}
    (hguard : ∀ r, guard r = true → key r = k) :
    T.hits guard = ((T.find k).filter guard).toList := by
  have hall : ∀ r ∈ T.hits guard, (if key r = k then some r else none) = some r := fun r hr =>
    if_pos (hguard r (List.mem_filter.mp hr).2)
  have hself : (T.hits guard).filterMap (fun r => if key r = k then some r else none) =
      T.hits guard := by
    rw [List.filterMap_congr hall, List.filterMap_some]
  rw [← hself, hits_filterMap T guard (k := k) fun r hr => if_neg hr]
  cases hf : T.find k with
  | none => rfl
  | some r => cases hg : guard r <;> simp [Option.filter_some, hg, find_key hf]

lemma mem_hits {T : Table key} {guard : ρ → Bool} {r : ρ} :
    r ∈ T.hits guard ↔ T.find (key r) = some r ∧ guard r = true := by
  rw [hits, List.mem_filter, find_eq_some_iff]
  simp

section Sum
omit [DecidableEq κ]
variable (T : Table key) {guard : ρ → Bool} {set : ρ → ρ} (hset : ∀ r, key (set r) = key r)
  {weight : ρ → ℕ} (hle : ∀ r ∈ T.hits guard, weight (set r) ≤ weight r)

include hle in
lemma weight_update_le {r : ρ} (hr : r ∈ T.rows) :
    weight (if guard r then set r else r) ≤ weight r := by
  split_ifs with hg
  · exact hle r (List.mem_filter.mpr ⟨hr, hg⟩)
  · exact le_rfl

include hle in
lemma sum_update_le :
    ((T.update guard set hset).rows.map weight).sum ≤ (T.rows.map weight).sum := by
  rw [update, List.map_map]
  exact List.sum_le_sum fun r hr => T.weight_update_le hle hr

include hle in
lemma sum_update_lt (hlt : ∃ r ∈ T.hits guard, weight (set r) < weight r) :
    ((T.update guard set hset).rows.map weight).sum < (T.rows.map weight).sum := by
  rw [update, List.map_map]
  refine List.sum_lt_sum _ _ (fun r hr => T.weight_update_le hle hr) ?_
  obtain ⟨r, hr, hlt⟩ := hlt
  obtain ⟨hmem, hg⟩ := List.mem_filter.mp hr
  exact ⟨r, hmem, by simpa [hg] using hlt⟩

end Sum

end Table
end KiteRail
