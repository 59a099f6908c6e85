import KiteRail.SsoSessions

/-! Whose sign-in a callback completes. The state of a login attempt is kept by the server
only: a callback is taken from any browser that presents it. -/
namespace KiteRail.Sso
open Bytes Prog Startup
open Proxy (Request)
open Auth (sessionCookie)
variable {svc : Service} {t : ℕ} {history : List Event}

section Browsers

def Call.browser : Call → Option ℕ
  | .login b _ => some b
  | .callback b _ => some b
  | _ => none

def callerOf (t : ℕ) : Event → Option ℕ
  | .received u asked => if u = t then asked.browser else none
  | _ => none

def browserOf (history : List Event) (t : ℕ) : Option ℕ := history.findSome? (callerOf t)

def makerOf (n : ℕ) : Event → Option ℕ
  | .attempted u m _ => if m = n then some u else none
  | _ => none

def starterOf (history : List Event) (n : ℕ) : Option ℕ :=
  (history.findSome? (makerOf n)).bind (browserOf history)

/-- Every attempt that has not expired was made by the browser that thread `t` serves. -/
def sole (t : ℕ) (s : Store) : Bool :=
  s.attempts.rows.all fun a =>
    s.clock < a.expiresAt → starterOf s.history a.serial = browserOf s.history t

/-- A callback deletes its attempt while no other browser is signing in. -/
def undisputed (t : ℕ) : SsoOp → Store → Bool
  | .consumeLoginAttempt _, s => sole t s
  | _, _ => true

/-- The runs in which no browser's callback comes while another browser is signing in. -/
def oneByOne : Machine SsoOp SsoRes Store Reply Disturbance :=
  Store.machine.only fun t op s _ _ => undisputed t op s

end Browsers

section Numbers

def Fresh (past : List Event) : Event → Prop
  | .attempted _ n _ => ∀ u state, .attempted u n state ∉ past
  | _ => True

/-- Neither the making nor the deletion of an attempt. -/
def Event.plain : Event → Bool
  | .attempted _ _ _ => false
  | .consumed _ _ _ => false
  | _ => true

/-- What an operation adds to the history. -/
inductive Adds (t : ℕ) (s : Store) : SsoOp → Store → Prop
  | attempted (arg : CreateLoginAttemptParams)
      (hfree : s.attempts.find arg.state = none) :
      Adds t s (.createLoginAttempt arg) (s.attempted t arg)
  | consumed {state : Bytes} {a : LoginAttempt} (ha : s.pending state = some a) :
      Adds t s (.consumeLoginAttempt state) (s.consumed t a)
  | plain {op : SsoOp} {s' : Store} (new : List Event) (hhistory : s'.history = new ++ s.history)
      (hserial : s.serial ≤ s'.serial) (hnew : ∀ e ∈ new, e.plain = true) : Adds t s op s'

variable {s s' : Store}

lemma Adds.refl {op : SsoOp} : Adds t s op s := .plain [] rfl le_rfl (by simp)

lemma Adds.note {op : SsoOp} {e : Event} (he : e.plain = true) : Adds t s op (s.note e) :=
  .plain [e] rfl le_rfl (by simpa using he)

/-- The numbers in use are below the next one. -/
structure Numbered (s : Store) : Prop where
  below : ∀ u n state, .attempted u n state ∈ s.history → n < s.serial
  fresh : Grounded Fresh s.history

lemma Numbered.adds {op : SsoOp} (h : Numbered s) (hadds : Adds t s op s') : Numbered s' := by
  cases hadds with
  | attempted arg hfree =>
    rw [Store.attempted, dif_pos hfree]
    refine ⟨fun u n state hu => ?_, ⟨fun u state hu => ?_, h.fresh⟩⟩
    · rcases List.mem_cons.mp hu with heq | hu
      · obtain ⟨-, rfl, -⟩ := Event.attempted.inj heq
        exact Nat.lt_succ_self _
      · exact (h.below u n state hu).trans (Nat.lt_succ_self _)
    · exact absurd (h.below u _ state hu) (lt_irrefl _)
  | consumed ha =>
    refine ⟨fun u n state hu => h.below u n state ?_, ⟨trivial, h.fresh⟩⟩
    exact List.mem_of_ne_of_mem (by simp) hu
  | plain new hhistory hserial hnew =>
    refine ⟨fun u n state hu => ?_, ?_⟩
    · rw [hhistory] at hu
      rcases List.mem_append.mp hu with hu | hu
      · simpa [Event.plain] using hnew _ hu
      · exact (h.below u n state hu).trans_le hserial
    · rw [hhistory]
      refine h.fresh.append fun e he past => ?_
      cases e with
      | attempted u n state => simpa [Event.plain] using hnew _ he
      | _ => trivial

end Numbers

section OneByOne

variable {s s' : Store}

end OneByOne

section Sample

def requestOf : Event → Option (Bool × ℕ)
  | .received _ (.login b _) => some (true, b)
  | .received _ (.callback b _) => some (false, b)
  | _ => none

def cookieOf (c : SsoPool) (t : ℕ) : Option (ℕ × Request × Response × Cookie) :=
  match c.thread t with
  | some (.ret (.response (.callback b r) sent)) => sent.setCookie.map fun v => (b, r, sent, v)
  | _ => none

/-- What is read off the scripts below: the browser that was given a cookie, the one it
presented and the value of the new one, and the browsers that sent requests. -/
def given (t : ℕ) (c : SsoPool) : Option (ℕ × Option Bytes × Bytes × List (Bool × ℕ)) :=
  (cookieOf c t).map fun a => (a.1, sessionCookie sampleService.cfg a.2.1, a.2.2.2.value,
    c.shared.history.filterMap requestOf)

end Sample

end KiteRail.Sso
