import Mathlib

/-! Hash-linked lists. An entry names the hash of the entry before it and stores
its own digest, so the stored hash of the last entry commits to the whole list.
Collisions are excluded only between the entries of the two lists compared. -/
namespace KiteRail.HashChain
variable {E H : Type*}

/-- How entries of type `E` carry hashes of type `H`. -/
structure Scheme (E H : Type*) where
  prev : E → H
  stored : E → H
  digest : E → H

variable (K : Scheme E H)

/-- Every entry links to the hash before it, the first one to `root`, and stores
its own digest. -/
def Linked : H → List E → Prop
  | _, [] => True
  | root, e :: es => K.prev e = root ∧ K.stored e = K.digest e ∧ Linked (K.stored e) es

def tip (root : H) : List E → H
  | [] => root
  | e :: es => tip (K.stored e) es

@[simp] lemma tip_concat (root : H) (es : List E) (e : E) :
    tip K root (es ++ [e]) = K.stored e := by
  induction es generalizing root with
  | nil => rfl
  | cons _ _ ih => exact ih _

lemma linked_append (root : H) (es fs : List E) :
    Linked K root (es ++ fs) ↔ Linked K root es ∧ Linked K (tip K root es) fs := by
  induction es generalizing root with
  | nil => simp [Linked, tip]
  | cons e es ih => simp only [List.cons_append, Linked, tip, ih, and_assoc]

lemma linked_concat (root : H) (es : List E) (e : E) :
    Linked K root (es ++ [e]) ↔
      Linked K root es ∧ K.prev e = tip K root es ∧ K.stored e = K.digest e := by
  simp [linked_append, Linked]

variable {K}

lemma Linked.stored_eq {root : H} {es : List E} (h : Linked K root es) {e : E} (he : e ∈ es) :
    K.stored e = K.digest e := by
  induction es generalizing root with
  | nil => simp at he
  | cons x es ih =>
    rcases List.mem_cons.mp he with rfl | he
    · exact h.2.1
    · exact ih h.2.2 he

/-- Two lists linked to one root, no digest of which is the root, agree entry by
entry as soon as their tips agree. The induction removes the last entries: equal
tips are equal digests, hence equal predecessors, hence equal tips before them. -/
theorem Linked.unique {root : H} {same : E → E → Prop} {xs ys : List E}
    (hx : Linked K root xs) (hy : Linked K root ys)
    (hroot : ∀ e, K.digest e ≠ root)
    (hinj : ∀ x ∈ xs, ∀ y ∈ ys, K.digest x = K.digest y → same x y ∧ K.prev x = K.prev y)
    (htip : tip K root xs = tip K root ys) : List.Forall₂ same xs ys := by
  induction xs using List.reverseRecOn generalizing ys with
  | nil =>
    rcases List.eq_nil_or_concat' ys with rfl | ⟨ys, y, rfl⟩
    · exact .nil
    · rw [tip_concat, ((linked_concat K _ _ _).mp hy).2.2] at htip
      exact absurd htip.symm (hroot y)
  | append_singleton xs x ih =>
    obtain ⟨hxs, hpx, hsx⟩ := (linked_concat K _ _ _).mp hx
    rcases List.eq_nil_or_concat' ys with rfl | ⟨ys, y, rfl⟩
    · rw [tip_concat, hsx] at htip
      exact absurd htip (hroot x)
    · obtain ⟨hys, hpy, hsy⟩ := (linked_concat K _ _ _).mp hy
      rw [tip_concat, tip_concat, hsx, hsy] at htip
      obtain ⟨hsame, hprev⟩ := hinj x (by simp) y (by simp) htip
      have hrest := ih hxs hys (fun a ha b hb => hinj a (by simp [ha]) b (by simp [hb]))
        (by rw [← hpx, ← hpy, hprev])
      exact List.rel_append hrest (.cons hsame .nil)

end KiteRail.HashChain
