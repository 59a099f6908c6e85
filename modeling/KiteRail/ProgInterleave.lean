import KiteRail.Prog

/-! Pools of threads over a shared state, and rely/guarantee reasoning for them.
A thread performs one operation per step, atomically; between its steps the
other threads, the environment and the loss of other threads interfere. A thread
may be lost at any of its operations. The rule proved here is used once per
system: an invariant, a guarantee for every operation and a weakest precondition
for every program that may be started give facts about every reachable pool. -/
namespace KiteRail
open Prog
variable {Op : Type} {Res : Op → Type} {S α β : Type}

/-- What the shared state does: atomic operations of a thread, spontaneous
changes, and what remains when a thread is lost. -/
structure Semantics (Op : Type) (Res : Op → Type) (S : Type) where
  exec : ℕ → (op : Op) → S → Res op → S → Prop
  env : S → S → Prop
  lose : ℕ → S → S

/-- The same with only those operations that meet a condition. -/
def Semantics.given (M : Semantics Op Res S) (ok : ℕ → (op : Op) → S → Res op → S → Prop) :
    Semantics Op Res S where
  exec t op s r s' := M.exec t op s r s' ∧ ok t op s r s'
  env := M.env
  lose := M.lose

/-- A pool: the shared state, the threads, and the first unused thread name. -/
structure Pool (Op : Type) (Res : Op → Type) (S α : Type) where
  shared : S
  thread : ℕ → Option (Prog Op Res α)
  next : ℕ

inductive Label (Op : Type) (Res : Op → Type)
  | start (t : ℕ)
  | act (t : ℕ) (op : Op) (r : Res op)
  | lose (t : ℕ)
  | env

/-- One step of a pool whose new threads run programs with `entry`. -/
inductive Step (M : Semantics Op Res S) (entry : Prog Op Res α → Prop) :
    Pool Op Res S α → Label Op Res → Pool Op Res S α → Prop
  | start {c : Pool Op Res S α} {p : Prog Op Res α} (hp : entry p) :
      Step M entry c (.start c.next)
        ⟨c.shared, Function.update c.thread c.next (some p), c.next + 1⟩
  | act {c : Pool Op Res S α} {t : ℕ} {op : Op} {k : Res op → Prog Op Res α} {r : Res op} {s : S}
      (ht : c.thread t = some (.call op k)) (hx : M.exec t op c.shared r s) :
      Step M entry c (.act t op r) ⟨s, Function.update c.thread t (some (k r)), c.next⟩
  | lose {c : Pool Op Res S α} {t : ℕ} {op : Op} {k : Res op → Prog Op Res α}
      (ht : c.thread t = some (.call op k)) :
      Step M entry c (.lose t) ⟨M.lose t c.shared, Function.update c.thread t none, c.next⟩
  | env {c : Pool Op Res S α} {s : S} (he : M.env c.shared s) :
      Step M entry c .env ⟨s, c.thread, c.next⟩

/-- Finite runs, extended at the end. -/
inductive Run (M : Semantics Op Res S) (entry : Prog Op Res α → Prop) :
    Pool Op Res S α → List (Label Op Res) → Pool Op Res S α → Prop
  | nil (c : Pool Op Res S α) : Run M entry c [] c
  | snoc {c d e : Pool Op Res S α} {ls : List (Label Op Res)} {l : Label Op Res} :
      Run M entry c ls d → Step M entry d l e → Run M entry c (ls ++ [l]) e

def Pool.initial (s : S) : Pool Op Res S α := ⟨s, fun _ => none, 0⟩

lemma Run.trans {M : Semantics Op Res S} {entry : Prog Op Res α → Prop}
    {c d e : Pool Op Res S α} {ls ms : List (Label Op Res)}
    (h : Run M entry c ls d) (g : Run M entry d ms e) : Run M entry c (ls ++ ms) e := by
  induction g with
  | nil => simpa using h
  | snoc _ hs ih =>
    rw [← List.append_assoc]
    exact .snoc ih hs

/-- A thread that runs to its end while nobody else moves. -/
inductive Alone (M : Semantics Op Res S) (t : ℕ) : Prog Op Res α → S → α → S → Prop
  | ret (a : α) (s : S) : Alone M t (.ret a) s a s
  | call {op : Op} {k : Res op → Prog Op Res α} {r : Res op} {s s' s'' : S} {a : α}
      (hx : M.exec t op s r s') (h : Alone M t (k r) s' a s'') : Alone M t (.call op k) s a s''

lemma Alone.bind {M : Semantics Op Res S} {t : ℕ} {p : Prog Op Res β} {f : β → Prog Op Res α}
    {s s' s'' : S} {b : β} {a : α} (h : Alone M t p s b s') (g : Alone M t (f b) s' a s'') :
    Alone M t (p >>= f) s a s'' := by
  induction h with
  | ret => exact g
  | call hx _ ih => exact .call hx (ih g)

/-- What a thread does alone is part of some run. -/
lemma Alone.run {M : Semantics Op Res S} {entry : Prog Op Res α → Prop} {t : ℕ}
    {p : Prog Op Res α} {s s' : S} {a : α} (h : Alone M t p s a s') {c : Pool Op Res S α}
    (hs : c.shared = s) (ht : c.thread t = some p) :
    ∃ ls d, Run M entry c ls d ∧ d.shared = s' ∧ d.thread t = some (.ret a) := by
  induction h generalizing c with
  | ret => exact ⟨[], c, .nil c, hs, ht⟩
  | @call op k r s s' _ _ hx _ ih =>
    subst hs
    obtain ⟨ls, d, hr, hd⟩ := @ih ⟨s', Function.update c.thread t (some (k r)), c.next⟩ rfl
      (Function.update_self ..)
    exact ⟨_, d, (Run.snoc (.nil c) (.act ht hx)).trans hr, hd⟩

/-- An executable shared state: a choice decides how an operation ends, and a
fault is a spontaneous change. -/
structure Machine (Op : Type) (Res : Op → Type) (S Choice Fault : Type) where
  answer : Choice → ℕ → (op : Op) → S → Option (Res op × S)
  fault : Fault → S → Option S
  lose : ℕ → S → S

namespace Machine
variable {Choice Fault : Type} (m : Machine Op Res S Choice Fault)

def semantics : Semantics Op Res S where
  exec t op s r s' := ∃ ch, m.answer ch t op s = some (r, s')
  env s s' := ∃ f, m.fault f s = some s'
  lose := m.lose

/-- The machine with only those operations that `ok` admits. -/
def only (ok : ℕ → (op : Op) → S → Res op → S → Bool) : Machine Op Res S Choice Fault where
  answer ch t op s := (m.answer ch t op s).filter fun a => ok t op s a.1 a.2
  fault := m.fault
  lose := m.lose

lemma only_exec {ok : ℕ → (op : Op) → S → Res op → S → Bool} {t : ℕ} {op : Op} {s s' : S}
    {r : Res op} : (m.only ok).semantics.exec t op s r s' ↔
      m.semantics.exec t op s r s' ∧ ok t op s r s' = true := by
  simp [semantics, only, Option.filter_eq_some_iff]

/-- The machine with only those operations whose effect `ok` admits. -/
def restrict (ok : S → S → Bool) : Machine Op Res S Choice Fault where
  answer ch t op s := (m.answer ch t op s).filter fun a => ok s a.2
  fault := m.fault
  lose := m.lose

lemma restrict_exec {ok : S → S → Bool} {t : ℕ} {op : Op} {s s' : S} {r : Res op} :
    (m.restrict ok).semantics.exec t op s r s' ↔
      m.semantics.exec t op s r s' ∧ ok s s' = true := by
  simp [semantics, restrict, Option.filter_eq_some_iff]

inductive Move (Op : Type) (Res : Op → Type) (α Choice Fault : Type)
  | start (p : Prog Op Res α)
  | act (t : ℕ) (ch : Choice)
  | lose (t : ℕ)
  | env (f : Fault)

def move : Move Op Res α Choice Fault → Pool Op Res S α → Option (Pool Op Res S α)
  | .start p, c => some ⟨c.shared, Function.update c.thread c.next (some p), c.next + 1⟩
  | .act t ch, c =>
    match c.thread t with
    | some (.call op k) => (m.answer ch t op c.shared).map fun a =>
        ⟨a.2, Function.update c.thread t (some (k a.1)), c.next⟩
    | _ => none
  | .lose t, c =>
    match c.thread t with
    | some (.call _ _) => some ⟨m.lose t c.shared, Function.update c.thread t none, c.next⟩
    | _ => none
  | .env f, c => (m.fault f c.shared).map fun s => ⟨s, c.thread, c.next⟩

def play : List (Move Op Res α Choice Fault) → Pool Op Res S α → Option (Pool Op Res S α)
  | [], c => some c
  | mv :: mvs, c => (m.move mv c).bind (play mvs)

def starts : List (Move Op Res α Choice Fault) → List (Prog Op Res α) :=
  List.filterMap fun
    | .start p => some p
    | _ => none

lemma starts_append (xs ys : List (Move Op Res α Choice Fault)) :
    starts (xs ++ ys) = starts xs ++ starts ys := List.filterMap_append

variable {m} {entry : Prog Op Res α → Prop} {c d : Pool Op Res S α}

lemma move_act {t : ℕ} {ch : Choice} (h : m.move (.act t ch) c = some d) :
    ∃ op r, Step m.semantics entry c (.act t op r) d := by
  simp only [move] at h
  split at h
  · rename_i op k ht
    obtain ⟨⟨r, s⟩, ha, rfl⟩ := Option.map_eq_some_iff.mp h
    exact ⟨op, r, .act ht ⟨ch, ha⟩⟩
  · simp at h

lemma move_step {mv : Move Op Res α Choice Fault} (hp : ∀ p, mv = .start p → entry p)
    (h : m.move mv c = some d) :
    ∃ l, Step m.semantics entry c l d ∧ ∀ t, l = .lose t → mv = .lose t := by
  cases mv with
  | start p =>
    simp only [move, Option.some.injEq] at h
    subst h
    exact ⟨_, .start (hp p rfl), by simp⟩
  | act t ch =>
    obtain ⟨op, r, hs⟩ := move_act h
    exact ⟨_, hs, by simp⟩
  | lose t =>
    simp only [move] at h
    split at h
    · rename_i op k ht
      simp only [Option.some.injEq] at h
      subst h
      exact ⟨_, .lose (M := m.semantics) ht, by simp⟩
    · simp at h
  | env f =>
    obtain ⟨s, hf, rfl⟩ := Option.map_eq_some_iff.mp h
    exact ⟨_, .env ⟨f, hf⟩, by simp⟩

/-- A script that plays to its end is a run, in which threads are lost only where the
script says so. -/
theorem play_run_labels {mvs : List (Move Op Res α Choice Fault)}
    (hp : ∀ p ∈ starts mvs, entry p) (h : m.play mvs c = some d) :
    ∃ ls, Run m.semantics entry c ls d ∧ ∀ t, Label.lose t ∈ ls → Move.lose t ∈ mvs := by
  induction mvs using List.reverseRecOn generalizing d with
  | nil =>
    simp only [play, Option.some.injEq] at h
    subst h
    exact ⟨[], .nil _, by simp⟩
  | append_singleton mvs mv ih =>
    have happ : ∀ (xs : List (Move Op Res α Choice Fault)) (c : Pool Op Res S α),
        m.play (xs ++ [mv]) c = (m.play xs c).bind (m.move mv) := by
      intro xs
      induction xs with
      | nil => intro c; simp [play]
      | cons x xs ih => intro c; simp [play, ih, Option.bind_assoc]
    rw [happ] at h
    obtain ⟨e, he, hm⟩ := Option.bind_eq_some_iff.mp h
    rw [starts_append, List.forall_mem_append] at hp
    obtain ⟨ls, hr, hls⟩ := ih hp.1 he
    obtain ⟨l, hs, hl⟩ := move_step (fun p hq => hp.2 p (by simp [starts, hq])) hm
    refine ⟨_, .snoc hr hs, fun t ht => ?_⟩
    rcases List.mem_append.mp ht with ht | ht
    · exact List.mem_append_left _ (hls t ht)
    · exact List.mem_append_right _ (by simp [hl t (List.mem_singleton.mp ht).symm])

theorem play_run {mvs : List (Move Op Res α Choice Fault)}
    (hp : ∀ p ∈ starts mvs, entry p) (h : m.play mvs c = some d) :
    ∃ ls, Run m.semantics entry c ls d :=
  (play_run_labels hp h).imp fun _ => And.left

end Machine

section Only
variable {Choice Fault : Type} {m : Machine Op Res S Choice Fault}
  {ok : ℕ → (op : Op) → S → Res op → S → Bool} {entry : Prog Op Res α → Prop}
  {c d : Pool Op Res S α} {l : Label Op Res} {ls : List (Label Op Res)}

lemma Step.of_only (h : Step (m.only ok).semantics entry c l d) :
    Step m.semantics entry c l d := by
  cases h with
  | start hp => exact .start hp
  | act ht hx => exact .act ht (m.only_exec.mp hx).1
  | lose ht => exact .lose (M := m.semantics) ht
  | env he => exact .env he

lemma Run.of_only (h : Run (m.only ok).semantics entry c ls d) : Run m.semantics entry c ls d := by
  induction h with
  | nil => exact .nil _
  | snoc _ hs ih => exact .snoc ih hs.of_only

lemma Step.given {P : ℕ → (op : Op) → S → Res op → S → Prop}
    (hok : ∀ t op s r s', ok t op s r s' = true → P t op s r s')
    (h : Step (m.only ok).semantics entry c l d) : Step (m.semantics.given P) entry c l d := by
  cases h with
  | start hp => exact .start hp
  | act ht hx =>
    obtain ⟨hx, hadmitted⟩ := m.only_exec.mp hx
    exact .act ht ⟨hx, hok _ _ _ _ _ hadmitted⟩
  | lose ht => exact .lose (M := m.semantics.given P) ht
  | env he => exact .env he

/-- A run whose operations pass a test is one in which they meet what the test implies. -/
lemma Run.given {P : ℕ → (op : Op) → S → Res op → S → Prop}
    (hok : ∀ t op s r s', ok t op s r s' = true → P t op s r s')
    (h : Run (m.only ok).semantics entry c ls d) : Run (m.semantics.given P) entry c ls d := by
  induction h with
  | nil => exact .nil _
  | snoc _ hs ih => exact .snoc ih (hs.given hok)

lemma Run.of_restrict {ok : S → S → Bool} (h : Run (m.restrict ok).semantics entry c ls d) :
    Run m.semantics entry c ls d := by
  have hr : Run (m.only fun _ _ s _ s' => ok s s').semantics entry c ls d := h
  exact hr.of_only

end Only

/-- A rely/guarantee discipline: an invariant of the shared state, what an
operation of thread `t` promises, and what thread `t` may assume of all others.
`fresh t` is what is known of a thread that has not been started. -/
structure Discipline (M : Semantics Op Res S) where
  inv : S → Prop
  fresh : ℕ → S → Prop
  guar : ℕ → (op : Op) → S → Res op → S → Prop
  rely : ℕ → S → S → Prop
  rely_refl : ∀ t s, rely t s s
  rely_trans : ∀ t a b c, rely t a b → rely t b c → rely t a c
  rely_guar : ∀ t u op s r s', t ≠ u → inv s → guar t op s r s' → rely u s s'
  rely_env : ∀ u s s', inv s → M.env s s' → rely u s s'
  rely_lose : ∀ t u s, t ≠ u → inv s → rely u s (M.lose t s)
  fresh_rely : ∀ t s s', fresh t s → rely t s s' → fresh t s'
  inv_env : ∀ s s', inv s → M.env s s' → inv s'
  inv_lose : ∀ t s, inv s → inv (M.lose t s)

namespace Discipline
variable {M : Semantics Op Res S} (D : Discipline M)

/-- Weakest precondition of thread `t` under interference: whatever the others do
first, each operation keeps the invariant and its guarantee, and the result is
described by `Q` for as long as only the others run. -/
def wp (t : ℕ) : Prog Op Res α → (α → S → Prop) → S → Prop
  | .ret a, Q, s => ∀ s', D.rely t s s' → D.inv s' → Q a s'
  | .call op k, Q, s => ∀ s₁, D.rely t s s₁ → D.inv s₁ → ∀ r s₂, M.exec t op s₁ r s₂ →
      D.inv s₂ ∧ D.guar t op s₁ r s₂ ∧ wp t (k r) Q s₂

variable {D} {t : ℕ} {Q : α → S → Prop} {s : S}

lemma wp_rely {p : Prog Op Res α} {s' : S} (h : D.wp t p Q s) (hr : D.rely t s s') :
    D.wp t p Q s' := by
  cases p with
  | ret a => exact fun s₁ h₁ hi => h s₁ (D.rely_trans _ _ _ _ hr h₁) hi
  | call op k => exact fun s₁ h₁ hi => h s₁ (D.rely_trans _ _ _ _ hr h₁) hi

/-- `A` describes the shared state for as long as only the others run. -/
def Stable (D : Discipline M) (t : ℕ) (A : S → Prop) : Prop :=
  ∀ s s', A s → D.rely t s s' → A s'

lemma wp_ret {a : α} {A : S → Prop} (hA : A s) (hst : D.Stable t A)
    (h : ∀ s', A s' → D.inv s' → Q a s') : D.wp t (.ret a) Q s :=
  fun s' hr hi => h s' (hst s s' hA hr) hi

lemma wp_call {op : Op} {k : Res op → Prog Op Res α} {A : S → Prop} (hA : A s)
    (hst : D.Stable t A)
    (h : ∀ s₁ r s₂, A s₁ → D.inv s₁ → M.exec t op s₁ r s₂ →
      D.inv s₂ ∧ D.guar t op s₁ r s₂ ∧ D.wp t (k r) Q s₂) :
    D.wp t (.call op k) Q s :=
  fun s₁ hr hi r s₂ hx => h s₁ r s₂ (hst s s₁ hA hr) hi hx

lemma wp_bind {p : Prog Op Res β} {f : β → Prog Op Res α} (hi : D.inv s)
    (h : D.wp t p (fun b s' => D.wp t (f b) Q s') s) : D.wp t (p >>= f) Q s := by
  induction p generalizing s with
  | ret b => exact h s (D.rely_refl t s) hi
  | call op k ih =>
    intro s₁ hr hi₁ r s₂ hx
    obtain ⟨hi₂, hg, hk⟩ := h s₁ hr hi₁ r s₂ hx
    exact ⟨hi₂, hg, ih r hi₂ hk⟩

lemma wp_mono {p : Prog Op Res α} {Q' : α → S → Prop} (h : D.wp t p Q s)
    (hQ : ∀ a s', D.inv s' → Q a s' → Q' a s') : D.wp t p Q' s := by
  induction p generalizing s with
  | ret a => exact fun s' hr hi => hQ a s' hi (h s' hr hi)
  | call op k ih =>
    intro s₁ hr hi₁ r s₂ hx
    obtain ⟨hi₂, hg, hk⟩ := h s₁ hr hi₁ r s₂ hx
    exact ⟨hi₂, hg, ih r hk⟩

/-- Triples under interference: from the invariant and `A` on, the program runs to a
result that `B` describes. -/
def Holds (D : Discipline M) (t : ℕ) (A : S → Prop) (p : Prog Op Res α) (B : α → S → Prop) : Prop :=
  ∀ s, D.inv s → A s → D.wp t p B s

variable {A A' : S → Prop} {B B' : α → S → Prop}

lemma holds_ret {a : α} (hst : D.Stable t A) (h : ∀ s, D.inv s → A s → B a s) :
    D.Holds t A (.ret a) B :=
  fun _ _ hA => wp_ret hA hst fun s' hA' hi => h s' hi hA'

lemma holds_bind {p : Prog Op Res β} {f : β → Prog Op Res α} {C : β → S → Prop}
    (hp : D.Holds t A p C) (hf : ∀ b, D.Holds t (C b) (f b) B) : D.Holds t A (p >>= f) B :=
  fun s hi hA => wp_bind hi (wp_mono (hp s hi hA) fun b s' hi' hC => hf b s' hi' hC)

lemma holds_call {op : Op} {k : Res op → Prog Op Res α} {C : Res op → S → Prop}
    (hst : D.Stable t A)
    (hop : ∀ s r s', D.inv s → A s → M.exec t op s r s' →
      D.inv s' ∧ D.guar t op s r s' ∧ C r s')
    (hk : ∀ r, D.Holds t (C r) (k r) B) : D.Holds t A (.call op k) B := by
  intro s _ hA
  refine wp_call hA hst fun s₁ r s₂ hA₁ hi₁ hx => ?_
  obtain ⟨hi₂, hg, hC⟩ := hop s₁ r s₂ hi₁ hA₁ hx
  exact ⟨hi₂, hg, hk r s₂ hi₂ hC⟩

lemma holds_mono {p : Prog Op Res α} (h : D.Holds t A p B) (hA : ∀ s, D.inv s → A' s → A s)
    (hB : ∀ a s, D.inv s → B a s → B' a s) : D.Holds t A' p B' :=
  fun s hi hA' => wp_mono (h s hi (hA s hi hA')) hB

lemma Stable.and (hA : D.Stable t A) (hA' : D.Stable t A') : D.Stable t fun s => A s ∧ A' s :=
  fun s s' h hr => ⟨hA s s' h.1 hr, hA' s s' h.2 hr⟩

lemma Stable.pure (P : Prop) : D.Stable t fun _ => P := fun _ _ h _ => h

/-- What holds of every reachable pool: the invariant, a weakest precondition for
every thread, and freshness of every unused name. -/
structure Sound (D : Discipline M) (Q : ℕ → α → S → Prop) (c : Pool Op Res S α) : Prop where
  inv : D.inv c.shared
  threads : ∀ t p, c.thread t = some p → t < c.next ∧ D.wp t p (Q t) c.shared
  fresh : ∀ t, c.next ≤ t → D.fresh t c.shared

variable {entry : Prog Op Res α → Prop} {Q : ℕ → α → S → Prop} {c d : Pool Op Res S α}
  {l : Label Op Res}

/-- An operation of a sound pool keeps its guarantee. -/
lemma Sound.act (h : Sound D Q c) {op : Op} {k : Res op → Prog Op Res α} {r : Res op} {s' : S}
    (ht : c.thread t = some (.call op k)) (hx : M.exec t op c.shared r s') :
    D.inv s' ∧ D.guar t op c.shared r s' ∧ D.wp t (k r) (Q t) s' :=
  (h.threads t _ ht).2 _ (D.rely_refl _ _) h.inv r s' hx

/-- Interference by one thread, or by none, keeps the others sound. -/
lemma Sound.interfere (h : Sound D Q c) {s' : S} {th : ℕ → Option (Prog Op Res α)}
    (hi : D.inv s') (t : ℕ) (ht : t < c.next) (hr : ∀ u, t ≠ u → D.rely u c.shared s')
    (hown : ∀ p, th t = some p → D.wp t p (Q t) s')
    (hth : ∀ u, t ≠ u → th u = c.thread u) : Sound D Q ⟨s', th, c.next⟩ := by
  refine ⟨hi, ?_, ?_⟩
  · intro u p hp
    by_cases hu : t = u
    · subst hu
      exact ⟨ht, hown p hp⟩
    · have hc : c.thread u = some p := (hth u hu).symm.trans hp
      exact ⟨(h.threads u p hc).1, wp_rely (h.threads u p hc).2 (hr u hu)⟩
  · intro u hu
    have hn : t ≠ u := by
      intro he
      subst he
      exact absurd ht (not_lt.mpr hu)
    exact D.fresh_rely _ _ _ (h.fresh u hu) (hr u hn)

/-- Every step keeps a pool sound when every startable program has its weakest
precondition on fresh names. -/
theorem Sound.step (hentry : ∀ p t s, entry p → D.inv s → D.fresh t s → D.wp t p (Q t) s)
    (h : Sound D Q c) (hs : Step M entry c l d) : Sound D Q d := by
  cases hs with
  | @start p hp =>
    refine ⟨h.inv, ?_, fun u hu => h.fresh u (Nat.le_of_succ_le hu)⟩
    intro u q hq
    by_cases hu : u = c.next
    · subst hu
      have he : p = q := by simpa using hq
      subst he
      exact ⟨Nat.lt_succ_self _, hentry _ _ _ hp h.inv (h.fresh _ le_rfl)⟩
    · have hc : c.thread u = some q := by simpa [Function.update_of_ne hu] using hq
      exact ⟨(h.threads u q hc).1.trans (Nat.lt_succ_self _), (h.threads u q hc).2⟩
  | @act t op k r s' ht hx =>
    obtain ⟨hi, hg, hk⟩ := h.act ht hx
    refine h.interfere hi t (h.threads t _ ht).1 ?_ ?_ ?_
    · exact fun u hu => D.rely_guar t u op _ r _ hu h.inv hg
    · intro p hp
      have he : k r = p := by simpa using hp
      exact he ▸ hk
    · exact fun u hu => Function.update_of_ne (Ne.symm hu) _ _
  | @lose t op k ht =>
    refine h.interfere (D.inv_lose t _ h.inv) t (h.threads t _ ht).1 ?_ ?_ ?_
    · exact fun u hu => D.rely_lose t u _ hu h.inv
    · intro p hp
      simp at hp
    · exact fun u hu => Function.update_of_ne (Ne.symm hu) _ _
  | @env s' he =>
    refine ⟨D.inv_env _ _ h.inv he, ?_, ?_⟩
    · intro u p hp
      exact ⟨(h.threads u p hp).1, wp_rely (h.threads u p hp).2 (D.rely_env u _ _ h.inv he)⟩
    · exact fun u hu => D.fresh_rely _ _ _ (h.fresh u hu) (D.rely_env u _ _ h.inv he)

theorem Sound.run (hentry : ∀ p t s, entry p → D.inv s → D.fresh t s → D.wp t p (Q t) s)
    (h : Sound D Q c) {ls : List (Label Op Res)} (hr : Run M entry c ls d) : Sound D Q d := by
  induction hr with
  | nil => exact h
  | snoc _ hs ih => exact ih.step hentry hs

lemma Sound.initial (hi : D.inv s) (hf : ∀ t, D.fresh t s) :
    Sound D Q (Pool.initial s) :=
  ⟨hi, fun t p hp => by simp [Pool.initial] at hp, fun t _ => hf t⟩

end Discipline
end KiteRail
