import Mathlib

/-! Histories, newest event first, in which every event is grounded in those before it. -/
namespace KiteRail
variable {ε κ : Type} {ok : List ε → ε → Prop} {history : List ε} {e : ε}

def Grounded (ok : List ε → ε → Prop) : List ε → Prop
  | [] => True
  | e :: past => ok past e ∧ Grounded ok past

namespace Grounded

/-- The moment of an event, and its ground. -/
lemma split (h : Grounded ok history) (he : e ∈ history) :
    ∃ later earlier, history = later ++ e :: earlier ∧ ok earlier e ∧ Grounded ok earlier := by
  induction history with
  | nil => simp at he
  | cons e' past ih =>
    rcases List.mem_cons.mp he with rfl | he
    · exact ⟨[], past, rfl, h⟩
    · obtain ⟨later, earlier, rfl, hok⟩ := ih h.2 he
      exact ⟨e' :: later, earlier, rfl, hok⟩

lemma append {new : List ε} (h : Grounded ok history) (hnew : ∀ e ∈ new, ∀ past, ok past e) :
    Grounded ok (new ++ history) := by
  induction new with
  | nil => exact h
  | cons e new ih =>
    obtain ⟨he, hrest⟩ := List.forall_mem_cons.mp hnew
    exact ⟨he _, ih hrest⟩

lemma and {ok' : List ε → ε → Prop} (h : Grounded ok history) (h' : Grounded ok' history) :
    Grounded (fun past e => ok past e ∧ ok' past e) history := by
  induction history with
  | nil => trivial
  | cons e past ih => exact ⟨⟨h.1, h'.1⟩, ih h.2 h'.2⟩

/-- Of what no event may repeat there is one event. -/
lemma unique (f : ε → Option κ)
    (hfresh : ∀ past e k, ok past e → f e = some k → ∀ e' ∈ past, f e' ≠ some k)
    (h : Grounded ok history) {e' : ε} {k : κ} (he : e ∈ history) (he' : e' ∈ history)
    (hk : f e = some k) (hk' : f e' = some k) : e = e' := by
  induction history with
  | nil => simp at he
  | cons newest past ih =>
    rcases List.mem_cons.mp he with rfl | hpast
    · rcases List.mem_cons.mp he' with rfl | hpast'
      · rfl
      · exact absurd hk' (hfresh past _ k h.1 hk _ hpast')
    · rcases List.mem_cons.mp he' with rfl | hpast'
      · exact absurd hk (hfresh past _ k h.1 hk' _ hpast)
      · exact ih h.2 hpast hpast'

lemma nodup (f : ε → Option κ)
    (hfresh : ∀ past e k, ok past e → f e = some k → k ∉ past.filterMap f)
    (h : Grounded ok history) : (history.filterMap f).Nodup := by
  induction history with
  | nil => exact .nil
  | cons e past ih =>
    cases hf : f e with
    | none => simpa [hf] using ih h.2
    | some k => simpa [hf] using ⟨by simpa using hfresh past e k h.1 hf, ih h.2⟩

end Grounded
end KiteRail
