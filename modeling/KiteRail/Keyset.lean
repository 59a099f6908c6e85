import Mathlib

namespace KiteRail.Keyset
variable {α : Type*} (key : α → ℤ)

def Descending (xs : List α) : Prop := xs.Pairwise fun a b => key b < key a

def below (before : ℤ) (xs : List α) : List α := xs.filter fun a => key a < before

variable {key} {xs ys : List α} {e : α} {before : ℤ}

lemma Descending.below (h : Descending key xs) : Descending key (below key before xs) :=
  List.Pairwise.filter _ h

lemma Descending.right (h : Descending key (xs ++ ys)) : Descending key ys :=
  (List.pairwise_append.mp h).2.1

lemma below_key (h : Descending key (xs ++ e :: ys)) :
    below key (key e) (xs ++ e :: ys) = ys := by
  obtain ⟨-, hcons, hcross⟩ := List.pairwise_append.mp h
  obtain ⟨hhead, -⟩ := List.pairwise_cons.mp hcons
  have hxs : xs.filter (fun a => decide (key a < key e)) = [] := by
    refine List.filter_eq_nil_iff.mpr fun a ha => ?_
    have hlt := hcross a ha e List.mem_cons_self
    simp only [decide_eq_true_eq]
    omega
  have hys : ys.filter (fun a => decide (key a < key e)) = ys :=
    List.filter_eq_self.mpr fun a ha => decide_eq_true (hhead a ha)
  rw [below, List.filter_append, hxs, List.filter_cons_of_neg (by simp), hys]
  rfl

lemma insertionSort_eq (hperm : xs.Perm ys) (h : Descending key ys) :
    xs.insertionSort (fun a b => key b ≤ key a) = ys := by
  have hsorted := List.pairwise_insertionSort (fun a b => key b ≤ key a) xs
  have hp := (List.perm_insertionSort (fun a b => key b ≤ key a) xs).trans hperm
  have hnodup : (ys.map key).Nodup := by
    rw [List.Nodup, List.pairwise_map]
    exact h.imp fun hab => (ne_of_lt hab).symm
  refine List.Perm.eq_of_pairwise (fun a b ha hb hab hba => ?_) hsorted (h.imp le_of_lt) hp
  exact List.inj_on_of_nodup_map hnodup (hp.mem_iff.mp ha) hb (le_antisymm hba hab)

end KiteRail.Keyset
