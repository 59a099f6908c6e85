import KiteRail.ProgInterleave

/-! What one thread has done when it returns. The rest of the pool is summed up by a
preorder of interference, and the steps of the thread by a relation on the shared
state, so a segment of a run is one program with interference before each of its
operations. -/
namespace KiteRail
open Prog
variable {Op : Type} {Res : Op → Type} {S α β : Type}

def Label.thread : Label Op Res → Option ℕ
  | .start _ => none
  | .act t _ _ => some t
  | .lose t => some t
  | .env => none

namespace Prog
variable (calm : S → S → Prop) (takes : (op : Op) → S → Res op → S → Prop)

/-- Whatever interferes and whatever is answered, if the program returns then it does
so as `Q` says. -/
def Ensures : Prog Op Res α → (α → S → Prop) → S → Prop
  | .ret a, Q, s => Q a s
  | .call op k, Q, s => ∀ s₁ r s₂, calm s s₁ → takes op s₁ r s₂ → (k r).Ensures Q s₂

variable {calm takes} {A B : S → Prop} {Q R : α → S → Prop}

lemma Ensures.mono {p : Prog Op Res α} {s : S} (h : p.Ensures calm takes Q s)
    (hQ : ∀ a s, Q a s → R a s) : p.Ensures calm takes R s := by
  induction p generalizing s with
  | ret a => exact hQ a s h
  | call op k ih => exact fun s₁ r s₂ hc ht => ih r (h s₁ r s₂ hc ht)

lemma Ensures.bind {p : Prog Op Res β} {f : β → Prog Op Res α} {s : S}
    (h : p.Ensures calm takes (fun b => (f b).Ensures calm takes Q) s) :
    (p >>= f).Ensures calm takes Q s := by
  induction p generalizing s with
  | ret b => exact h
  | call op k ih => exact fun s₁ r s₂ hc ht => ih r (h s₁ r s₂ hc ht)

lemma ensures_bind {p : Prog Op Res β} {f : β → Prog Op Res α} {C : β → S → Prop}
    (hp : ∀ s, A s → p.Ensures calm takes C s)
    (hf : ∀ b s, C b s → (f b).Ensures calm takes Q s) :
    ∀ s, A s → (p >>= f).Ensures calm takes Q s :=
  fun s hA => ((hp s hA).mono hf).bind

lemma ensures_call {op : Op} {k : Res op → Prog Op Res α} {C : Res op → S → Prop}
    (hst : ∀ s s', A s → calm s s' → A s')
    (hop : ∀ s r s', A s → takes op s r s' → C r s')
    (hk : ∀ r s, C r s → (k r).Ensures calm takes Q s) :
    ∀ s, A s → (Prog.call op k).Ensures calm takes Q s :=
  fun s hA s₁ r s₂ hc ht => hk r s₂ (hop s₁ r s₂ (hst s s₁ hA hc) ht)

end Prog

section Run
variable {M : Semantics Op Res S} {entry : Prog Op Res α → Prop} {c d e : Pool Op Res S α}
  {calm : S → S → Prop} {takes : (op : Op) → S → Res op → S → Prop} {Q : α → S → Prop} {t : ℕ}
  {ls : List (Label Op Res)}

/-- What the steps of a pool mean to thread `t`, as long as `I` holds. -/
structure Segment (M : Semantics Op Res S) (entry : Prog Op Res α → Prop) (t : ℕ)
    (calm : S → S → Prop) (takes : (op : Op) → S → Res op → S → Prop)
    (I : Pool Op Res S α → Prop) : Prop where
  refl : ∀ s, calm s s
  trans : ∀ a b c, calm a b → calm b c → calm a c
  keep : ∀ c l d, I c → Step M entry c l d → I d
  named : ∀ c, I c → t < c.next
  others : ∀ c l d, I c → Step M entry c l d → l.thread ≠ some t → calm c.shared d.shared
  own : ∀ c op r s, I c → M.exec t op c.shared r s → takes op c.shared r s

variable {I : Pool Op Res S α → Prop}

lemma Step.thread_of_others {l : Label Op Res} (hs : Step M entry c l d) (ht : t < c.next)
    (hl : l.thread ≠ some t) : d.thread t = c.thread t := by
  cases hs with
  | start hp => exact Function.update_of_ne ht.ne _ _
  | act hu hx => exact Function.update_of_ne (fun he => hl (congrArg some he.symm)) _ _
  | lose hu => exact Function.update_of_ne (fun he => hl (congrArg some he.symm)) _ _
  | env he => rfl

/-- Along a run, what remains of the program still ensures the outcome. -/
theorem Run.ensures (hseg : Segment M entry t calm takes I) (hr : Run M entry c ls d)
    (hc : I c) {p : Prog Op Res α} (hp : c.thread t = some p)
    (h : p.Ensures calm takes Q c.shared) :
    I d ∧ ∀ q, d.thread t = some q → ∃ s, calm s d.shared ∧ q.Ensures calm takes Q s := by
  induction hr with
  | nil =>
    refine ⟨hc, fun q hq => ⟨c.shared, hseg.refl _, ?_⟩⟩
    obtain rfl := Option.some.inj (hp.symm.trans hq)
    exact h
  | @snoc d e ls l _ hs ih =>
    obtain ⟨hd, hq⟩ := ih
    refine ⟨hseg.keep _ _ _ hd hs, fun q hq' => ?_⟩
    by_cases hl : l.thread = some t
    · cases hs with
      | @act u op k r s ht hx =>
        obtain rfl : u = t := Option.some.inj hl
        obtain ⟨s₀, hcalm, hk⟩ := hq _ ht
        obtain rfl : k r = q := by simpa using hq'
        exact ⟨s, hseg.refl _, hk _ r s hcalm (hseg.own d op r s hd hx)⟩
      | @lose u op k ht =>
        obtain rfl : u = t := Option.some.inj hl
        simp at hq'
      | start hp => exact absurd hl (by simp [Label.thread])
      | env he => exact absurd hl (by simp [Label.thread])
    · rw [hs.thread_of_others (hseg.named _ hd) hl] at hq'
      obtain ⟨s₀, hcalm, hk⟩ := hq q hq'
      exact ⟨s₀, hseg.trans _ _ _ hcalm (hseg.others _ _ _ hd hs hl), hk⟩

/-- The step with which the thread returns. -/
theorem Run.returns (hseg : Segment M entry t calm takes I) (hr : Run M entry c ls e)
    (hc : I c) {p : Prog Op Res α} (hp : c.thread t = some p)
    (h : p.Ensures calm takes Q c.shared) {op : Op} {r : Res op}
    (hs : Step M entry e (.act t op r) d) {a : α} (hd : d.thread t = some (.ret a)) :
    I d ∧ Q a d.shared := by
  obtain ⟨he, hq⟩ := hr.ensures hseg hc hp h
  refine ⟨hseg.keep _ _ _ he hs, ?_⟩
  cases hs with
  | @act _ _ k _ s ht hx =>
    obtain ⟨s₀, hcalm, hk⟩ := hq _ ht
    have hret : k r = .ret a := by simpa using hd
    have hend := hk _ r s hcalm (hseg.own _ op r s he hx)
    rw [hret] at hend
    exact hend

end Run
end KiteRail
