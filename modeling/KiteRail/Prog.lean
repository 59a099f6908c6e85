import Mathlib

/-! Effectful programs as trees of operations. A program sees the outside world
only through the answers it receives, so one text serves every reading: the
traces it can produce, a run against a deterministic world, and the atomic steps
of a thread in a pool. -/
namespace KiteRail

/-- A program whose next move is either a result or an operation together with
the continuation for every possible answer. -/
inductive Prog (Op : Type) (Res : Op → Type) (α : Type) : Type
  | ret (a : α)
  | call (op : Op) (k : Res op → Prog Op Res α)

namespace Prog
variable {Op : Type} {Res : Op → Type} {α β γ : Type}

def bind : Prog Op Res α → (α → Prog Op Res β) → Prog Op Res β
  | ret a, f => f a
  | call op k, f => call op fun r => (k r).bind f

instance : Monad (Prog Op Res) where
  pure := ret
  bind := bind

def perform (op : Op) : Prog Op Res (Res op) := call op ret

@[simp] lemma pure_eq (a : α) : (pure a : Prog Op Res α) = ret a := rfl

@[simp] lemma ret_bind (a : α) (f : α → Prog Op Res β) : (ret a >>= f) = f a := rfl

@[simp] lemma call_bind (op : Op) (k : Res op → Prog Op Res α) (f : α → Prog Op Res β) :
    (call op k >>= f) = call op fun r => k r >>= f := rfl

@[simp] lemma perform_bind (op : Op) (f : Res op → Prog Op Res β) :
    (perform op >>= f) = call op f := rfl

@[simp] lemma bind_bind (p : Prog Op Res α) (f : α → Prog Op Res β) (g : β → Prog Op Res γ) :
    (p >>= f) >>= g = p >>= fun a => f a >>= g := by
  induction p with
  | ret a => rfl
  | call op k ih =>
    simp only [call_bind]
    exact congrArg (call op) (funext ih)

def result : Prog Op Res α → Option α
  | ret a => some a
  | call _ _ => none

lemma result_eq_some {p : Prog Op Res α} {a : α} (h : p.result = some a) : p = ret a := by
  cases p with
  | ret b => exact congrArg ret (Option.some.inj h)
  | call op k => simp [result] at h

/-- Every operation that the program may perform, whatever it is answered, is one of `P`. -/
def Performs (P : Op → Prop) : Prog Op Res α → Prop
  | ret _ => True
  | call op k => P op ∧ ∀ r, Performs P (k r)

lemma performs_bind {P : Op → Prop} {p : Prog Op Res α} {f : α → Prog Op Res β}
    (hp : p.Performs P) (hf : ∀ a, (f a).Performs P) : (p >>= f).Performs P := by
  induction p with
  | ret a => exact hf a
  | call op k ih => exact ⟨hp.1, fun r => ih r (hp.2 r)⟩

lemma performs_perform {P : Op → Prop} {op : Op} (h : P op) :
    (perform op : Prog Op Res (Res op)).Performs P := ⟨h, fun _ => trivial⟩

lemma performs_of_forall {P : Op → Prop} (h : ∀ op, P op) (p : Prog Op Res α) : p.Performs P := by
  induction p with
  | ret a => trivial
  | call op k ih => exact ⟨h op, ih⟩

/-- One operation of a trace with the answer it received. -/
abbrev Answered (Op : Type) (Res : Op → Type) := (op : Op) × Res op

/-- `Runs p tr a`: answered as in `tr`, the program `p` finishes with `a`. -/
inductive Runs : Prog Op Res α → List (Answered Op Res) → α → Prop
  | ret (a : α) : Runs (ret a) [] a
  | call {op : Op} {k : Res op → Prog Op Res α} {r : Res op} {tr : List (Answered Op Res)} {a : α} :
      Runs (k r) tr a → Runs (call op k) (⟨op, r⟩ :: tr) a

lemma runs_ret_iff {a b : α} {tr : List (Answered Op Res)} :
    Runs (ret a) tr b ↔ tr = [] ∧ b = a := by
  constructor
  · rintro ⟨⟩
    exact ⟨rfl, rfl⟩
  · rintro ⟨rfl, rfl⟩
    exact .ret _

lemma runs_call_iff {op : Op} {k : Res op → Prog Op Res α} {tr : List (Answered Op Res)} {a : α} :
    Runs (call op k) tr a ↔ ∃ r rest, tr = ⟨op, r⟩ :: rest ∧ Runs (k r) rest a := by
  constructor
  · rintro ⟨⟩
    exact ⟨_, _, rfl, by assumption⟩
  · rintro ⟨r, rest, rfl, h⟩
    exact .call h

lemma runs_bind_iff {p : Prog Op Res α} {f : α → Prog Op Res β} {tr : List (Answered Op Res)}
    {b : β} : Runs (p >>= f) tr b ↔ ∃ t₁ t₂ a, tr = t₁ ++ t₂ ∧ Runs p t₁ a ∧ Runs (f a) t₂ b := by
  induction p generalizing tr with
  | ret a =>
    simp only [ret_bind, runs_ret_iff]
    constructor
    · exact fun h => ⟨[], tr, a, rfl, ⟨rfl, rfl⟩, h⟩
    · rintro ⟨_, t₂, _, rfl, ⟨rfl, rfl⟩, h⟩
      exact h
  | call op k ih =>
    simp only [call_bind, runs_call_iff, ih]
    constructor
    · rintro ⟨r, _, rfl, t₁, t₂, a, rfl, h₁, h₂⟩
      exact ⟨⟨op, r⟩ :: t₁, t₂, a, rfl, ⟨r, t₁, rfl, h₁⟩, h₂⟩
    · rintro ⟨_, t₂, a, rfl, ⟨r, t₁, rfl, h₁⟩, h₂⟩
      exact ⟨r, t₁ ++ t₂, rfl, t₁, t₂, a, rfl, h₁, h₂⟩

/-- The trace and result when every operation is answered by a fixed function. -/
def replay (answer : (op : Op) → Res op) : Prog Op Res α → List (Answered Op Res) × α
  | ret a => ([], a)
  | call op k =>
    (⟨op, answer op⟩ :: ((k (answer op)).replay answer).1, ((k (answer op)).replay answer).2)

lemma runs_replay (answer : (op : Op) → Res op) (p : Prog Op Res α) :
    Runs p (p.replay answer).1 (p.replay answer).2 := by
  induction p with
  | ret a => exact .ret a
  | call op k ih => exact .call (ih _)

/-- Run a program against a deterministic world with state `σ`. -/
def interp {σ : Type} (answer : (op : Op) → σ → Res op × σ) : Prog Op Res α → σ → α × σ
  | ret a, s => (a, s)
  | call op k, s => (k (answer op s).1).interp answer (answer op s).2

/-- Run a program alone against a world that need not answer. -/
def exec {σ : Type} (answer : (op : Op) → σ → Option (Res op × σ)) :
    Prog Op Res α → σ → Option (α × σ)
  | ret a, s => some (a, s)
  | call op k, s => (answer op s).bind fun p => (k p.1).exec answer p.2

lemma exec_bind {σ : Type} {answer : (op : Op) → σ → Option (Res op × σ)} (p : Prog Op Res α)
    (f : α → Prog Op Res β) (s : σ) :
    (p >>= f).exec answer s = (p.exec answer s).bind fun q => (f q.1).exec answer q.2 := by
  induction p generalizing s with
  | ret a => rfl
  | call op k ih =>
    simp only [call_bind, exec, Option.bind_assoc, ih]

lemma exec_perform_bind {σ : Type} {answer : (op : Op) → σ → Option (Res op × σ)} {op : Op}
    {r : Res op} {s s' : σ} (h : answer op s = some (r, s')) (f : Res op → Prog Op Res β) :
    (perform op >>= f).exec answer s = (f r).exec answer s' := by
  simp [exec, h]

end Prog
end KiteRail
