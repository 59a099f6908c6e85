import KiteRail.ProgSegment
import KiteRail.SsoSessions

/-! How long activity keeps a session. The row of a session is written at most once a minute,
so between two requests it may be a minute older than the request before. -/
namespace KiteRail.Sso
open Bytes Prog Discipline Startup
open Proxy (Identity Request Role)
open Auth (sessionCookie)
variable {svc : Service} {t : ℕ} {key : Bytes} {s s' : Store}

/-- The session with the hash `key` is not logged out, and its statements succeed. -/
def undisturbed (key : Bytes) : (op : SsoOp) → Store → SsoRes op → Bool
  | .getActiveSession idHash cutoff, s, r =>
    idHash ≠ key || Except.isOk r == (s.active idHash cutoff).isSome
  | .touchSession idHash, _, r => idHash ≠ key || Option.isNone r
  | .revokeSession idHash, _, _ => idHash ≠ key
  | _, _, _ => true

/-- The deployment, as long as the session is undisturbed. -/
def calmMachine (key : Bytes) : Machine SsoOp SsoRes Store Reply Disturbance :=
  Store.machine.only fun _ op s r _ => undisturbed key op s r

section Rows

/-- The session expires at `expires`, is not revoked, and was seen at `seen` or later. -/
def Alive (key : Bytes) (expires seen : ℤ) (s : Store) : Prop :=
  ∃ x, s.sessions.find key = some x ∧ x.revokedAt = none ∧ x.expiresAt = expires ∧
    (sessionRole x.role).isSome ∧ seen ≤ x.lastSeenAt

lemma Alive.mono {expires seen seen' : ℤ} (h : Alive key expires seen s) (hle : seen' ≤ seen) :
    Alive key expires seen' s := by
  obtain ⟨x, hx, hopen, hexpires, hrole, hseen⟩ := h
  exact ⟨x, hx, hopen, hexpires, hrole, hle.trans hseen⟩

/-- The session lives on, unless it has expired. -/
structure Kept (key : Bytes) (s s' : Store) : Prop where
  clock : s.clock ≤ s'.clock
  alive : ∀ expires seen, Alive key expires seen s → s'.clock < expires →
    Alive key expires seen s'

lemma Kept.refl (key : Bytes) (s : Store) : Kept key s s := ⟨le_rfl, fun _ _ h _ => h⟩

lemma Kept.trans {a b c : Store} (h : Kept key a b) (g : Kept key b c) : Kept key a c :=
  ⟨h.clock.trans g.clock, fun expires seen ha hlt =>
    g.alive expires seen (h.alive expires seen ha (g.clock.trans_lt hlt)) hlt⟩

lemma kept_of_eq (hsessions : s'.sessions = s.sessions) (hclock : s.clock ≤ s'.clock) :
    Kept key s s' := by
  refine ⟨hclock, fun expires seen h _ => ?_⟩
  rw [Alive, hsessions]
  exact h

lemma kept_created (arg : CreateSessionParams) : Kept key s (s.created t arg) := by
  rw [Store.created]
  split
  · rename_i hfree
    refine ⟨le_rfl, fun expires seen h _ => ?_⟩
    obtain ⟨x, hx, hrow⟩ := h
    have hne : key ≠ arg.idHash := by
      rintro rfl
      simp [hfree] at hx
    have hfind := Table.find_insert s.sessions (s.inserted arg) hfree key
    exact ⟨x, (hfind.trans (if_neg hne)).trans hx, hrow⟩
  · exact .refl key s

lemma kept_touched (hi : Inv svc s) (idHash : Bytes) : Kept key s (s.touched idHash) := by
  refine ⟨le_rfl, fun expires seen h _ => ?_⟩
  obtain ⟨x, hx, hopen, hexpires, hrole, hseen⟩ := h
  have hbefore := (hi.sessions key x hx).before
  have hfind : (s.touched idHash).sessions.find key =
      some (if Store.unrevoked idHash x then { x with lastSeenAt := s.clock } else x) := by
    simp [Store.touched, Table.find_update, hx]
  by_cases hhit : Store.unrevoked idHash x = true
  · rw [if_pos hhit] at hfind
    exact ⟨_, hfind, hopen, hexpires, hrole, hseen.trans hbefore⟩
  · rw [if_neg hhit] at hfind
    exact ⟨_, hfind, hopen, hexpires, hrole, hseen⟩

lemma kept_revoked {idHash : Bytes} (hne : idHash ≠ key) : Kept key s (s.revoked idHash) := by
  refine ⟨le_rfl, fun expires seen h _ => ?_⟩
  obtain ⟨x, hx, hrow⟩ := h
  have hmiss : ¬ Store.unrevoked idHash x = true := by
    intro hhit
    have hkey := Table.find_key hx
    exact hne ((unrevoked_iff.mp hhit).1.symm.trans hkey)
  refine ⟨x, ?_, hrow⟩
  simp [Store.revoked, Table.find_update, hx, hmiss]

lemma kept_expired : Kept key s s.sessionsExpired := by
  refine ⟨le_rfl, fun expires seen h hlt => ?_⟩
  obtain ⟨x, hx, hopen, rfl, hrow⟩ := h
  refine ⟨x, ?_, hopen, rfl, hrow⟩
  have hretention : 0 ≤ Store.retention := by decide
  have hkeep : ¬ x.expiresAt ≤ s.clock - Store.retention := by
    have hclock : s.clock < x.expiresAt := hlt
    omega
  exact (Table.find_delete ..).mpr ⟨hx, by simpa using hkeep⟩

lemma kept_exec {op : SsoOp} {r : SsoRes op} (hi : Inv svc s) (h : Exec t op s r s')
    (hok : undisturbed key op s r = true) : Kept key s s' := by
  cases changes_of_exec h with
  | nothing hsessions hclock => exact kept_of_eq hsessions hclock.ge
  | created arg => exact kept_created arg
  | touched idHash => exact kept_touched hi idHash
  | revoked idHash => exact kept_revoked (by simpa [undisturbed] using hok)
  | expired => exact kept_expired

end Rows

section Steps
variable {c d : SsoPool} {l : Label SsoOp SsoRes} {ls : List (Label SsoOp SsoRes)}

lemma kept_step (hc : Sound (discipline svc) (Told svc) c)
    (h : Step (calmMachine key).semantics (Serves svc) c l d) : Kept key c.shared d.shared := by
  cases h with
  | start hp => exact .refl key _
  | act ht hx =>
    obtain ⟨hexec, hok⟩ := (Machine.only_exec _).mp hx
    exact kept_exec hc.inv hexec hok
  | lose ht => exact .refl key _
  | env he =>
    obtain ⟨f, he⟩ := he
    cases f with
    | tick d =>
      obtain rfl := Option.some.inj he
      exact kept_of_eq rfl (by simp)
    | discover =>
      obtain rfl := Option.some.inj he
      exact kept_of_eq rfl le_rfl

lemma kept_run (hc : Sound (discipline svc) (Told svc) c)
    (h : Run (calmMachine key).semantics (Serves svc) c ls d) :
    Sound (discipline svc) (Told svc) d ∧ Kept key c.shared d.shared := by
  induction h with
  | nil => exact ⟨hc, .refl key _⟩
  | snoc _ hs ih =>
    obtain ⟨hd, hkept⟩ := ih
    exact ⟨hd.step wp_entry hs.of_only, hkept.trans (kept_step hd hs)⟩

/-- What thread `t` does itself. -/
def Takes (svc : Service) (key : Bytes) (t : ℕ) (op : SsoOp) (s : Store) (r : SsoRes op)
    (s' : Store) : Prop :=
  Inv svc s ∧ Exec t op s r s' ∧ undisturbed key op s r = true

lemma segment (svc : Service) (key : Bytes) (t : ℕ) :
    Segment (calmMachine key).semantics (Serves svc) t (Kept key) (Takes svc key t)
      fun c => Sound (discipline svc) (Told svc) c ∧ t < c.next where
  refl := .refl key
  trans _ _ _ := .trans
  keep c l d hc hs := by
    refine ⟨hc.1.step wp_entry hs.of_only, ?_⟩
    cases hs with
    | start => exact hc.2.trans (Nat.lt_succ_self _)
    | _ => exact hc.2
  named c hc := hc.2
  others c l d hc hs _ := kept_step hc.1 hs
  own c op r s hc hx := by
    obtain ⟨hexec, hok⟩ := (Machine.only_exec _).mp hx
    exact ⟨hc.1.inv, hexec, hok⟩

end Steps

section Requests
variable {r : Request} {value : Bytes} {expires seen time : ℤ}

lemma statement_eq_none {s₁ : Store} {reply : Reply}
    (h : Store.statement none s₁ s reply = some (none, s')) : s' = s₁ := by
  cases reply <;> simp_all [Store.statement]

lemma Alive.touch (h : Alive key expires seen s) {a : SsoRes (.touchSession key)}
    (hx : Takes svc key t (.touchSession key) s a s') : Alive key expires s.clock s' := by
  obtain ⟨hi, ⟨reply, hanswer⟩, hok⟩ := hx
  obtain rfl : a = none := Option.isNone_iff_eq_none.mp (by simpa [undisturbed] using hok)
  obtain rfl := statement_eq_none hanswer
  obtain ⟨x, hx, hopen, hexpire, hrole, -⟩ := h
  have hhit : Store.unrevoked key x = true := unrevoked_iff.mpr ⟨Table.find_key hx, hopen⟩
  refine ⟨{ x with lastSeenAt := s.clock }, ?_, hopen, hexpire, hrole, le_rfl⟩
  simp [Store.touched, Table.find_update, hx, hhit]

/-- What a lookup must answer for a session that is alive. -/
def Finds (key : Bytes) (expires : ℤ) (answer : Except GoError GetActiveSessionRow) (s : Store) :
    Prop :=
  ∃ row role, answer = .ok row ∧ sessionRole row.role = some role ∧
    Alive key expires row.lastSeenAt s

lemma Alive.found (h : Alive key expires seen s) (hexpires : s.clock < expires) {cutoff : ℤ}
    (hcutoff : cutoff < seen) {a : SsoRes (.getActiveSession key cutoff)}
    (hx : Takes svc key t (.getActiveSession key cutoff) s a s') : Finds key expires a s' := by
  obtain ⟨x, hfind, hopen, rfl, hrole, hseen⟩ := h
  have hactive : s.active key cutoff = some x := by
    simp [Store.active, hfind, hopen, hexpires, hcutoff.trans_le hseen]
  rcases exec_getActiveSession hx.2.1 with ⟨y, hy, rfl, rfl⟩ | ⟨⟨e, rfl⟩, -⟩
  · obtain rfl := Option.some.inj (hactive.symm.trans hy)
    obtain ⟨role, hrole'⟩ := Option.isSome_iff_exists.mp hrole
    exact ⟨x.row, role, rfl, hrole', x, hfind, hopen, rfl, hrole, le_rfl⟩
  · have hok := hx.2.2
    simp [undisturbed, hactive, Except.isOk, Except.toBool] at hok

/-- The assertion holds as long as the clock stands at `time`. -/
def During (time : ℤ) (P : Store → Prop) (s : Store) : Prop :=
  time ≤ s.clock ∧ (s.clock = time → P s)

variable {α : Type} {P : Store → Prop}

/-- Once the clock has moved on, nothing remains to be shown. -/
lemma ensures_late {p : SsoProg α} {B : α → Store → Prop} : ∀ s, time < s.clock →
    p.Ensures (Kept key) (Takes svc key t) (fun a => During time (B a)) s := by
  induction p with
  | ret a =>
    intro s hlate
    exact ⟨hlate.le, fun heq => absurd heq hlate.ne'⟩
  | call op k ih =>
    intro s hlate s₁ a s₂ hcalm htakes
    have hkept := hcalm.trans (kept_exec htakes.1 htakes.2.1 htakes.2.2)
    exact ih a s₂ (hlate.trans_le hkept.clock)

lemma ensures_known {K : Prop} {p : SsoProg α} {B : α → Store → Prop}
    (h : K → ∀ s, During time P s → p.Ensures (Kept key) (Takes svc key t)
      (fun a => During time (B a)) s) :
    ∀ s, During time (fun s => K ∧ P s) s →
      p.Ensures (Kept key) (Takes svc key t) (fun a => During time (B a)) s := by
  intro s hd
  by_cases heq : s.clock = time
  · exact h (hd.2 heq).1 s ⟨hd.1, fun _ => (hd.2 heq).2⟩
  · exact ensures_late s (lt_of_le_of_ne hd.1 (Ne.symm heq))

lemma ensures_op {op : SsoOp} {C : SsoRes op → Store → Prop} (hexpires : time < expires)
    (hop : ∀ a s s', s.clock = time → Alive key expires seen s → Takes svc key t op s a s' →
      C a s') :
    ∀ s, During time (Alive key expires seen) s →
      (perform op : SsoProg (SsoRes op)).Ensures (Kept key) (Takes svc key t)
        (fun a => During time (C a)) s := by
  intro s hd s₁ a s₂ hcalm htakes
  have hkept := kept_exec htakes.1 htakes.2.1 htakes.2.2
  have hle := hd.1.trans hcalm.clock
  refine ⟨hle.trans hkept.clock, fun heq => ?_⟩
  have hclock₁ : s₁.clock = time := le_antisymm (heq ▸ hkept.clock) hle
  have hclock : s.clock = time := le_antisymm (hclock₁ ▸ hcalm.clock) hd.1
  have halive := hcalm.alive expires seen (hd.2 hclock) (hclock₁ ▸ hexpires)
  exact hop a s₁ s₂ hclock₁ halive htakes

/-- The activity of a request is not recorded only if less than a minute is lost. -/
lemma ensures_refresh (hexpires : time < expires) :
    ∀ s, During time (Alive key expires seen) s →
      (refresh key time seen).Ensures (Kept key) (Takes svc key t)
        (fun _ => During time (Alive key expires (time - touchInterval))) s := by
  have hinterval : 0 ≤ touchInterval := by decide
  unfold refresh
  split
  · refine ensures_op hexpires fun a s s' hclock halive hx => ?_
    exact (halive.touch hx).mono (by omega)
  · intro s hd
    exact ⟨hd.1, fun heq => (hd.2 heq).mono (by omega)⟩

/-- A request while the session is alive is accepted, and the session is known to be active
but for the interval of `TouchSession`. -/
lemma ensures_authenticateSession (hvalue : sessionCookie svc.cfg r = some value)
    (hkey : key = hashToken value) (hexpires : time < expires)
    (hidle : time - seen < svc.cfg.sessionIdleTTL) :
    ∀ s, During time (Alive key expires seen) s →
      (authenticateSession svc r).Ensures (Kept key) (Takes svc key t)
        (fun answer => During time fun s => answer.isSome = true ∧
          Alive key expires (time - touchInterval) s) s := by
  subst hkey
  unfold authenticateSession
  rw [hvalue]
  refine ensures_bind (C := fun reading => During time fun s => reading = time ∧
    Alive (hashToken value) expires seen s) (ensures_op hexpires ?_) fun reading => ensures_known ?_
  · intro a s s' hclock halive hx
    obtain ⟨rfl, rfl⟩ := exec_now hx.2.1
    exact ⟨hclock, halive⟩
  rintro rfl
  refine ensures_bind
    (C := fun answer => During reading (Finds (hashToken value) expires answer))
    (ensures_op hexpires ?_) fun answer s hd => ?_
  · intro a s s' hclock halive hx
    exact halive.found (hclock ▸ hexpires) (by omega) hx
  by_cases hlate : s.clock = reading
  · obtain ⟨row, role, rfl, hrole, halive⟩ := hd.2 hlate
    simp only [hrole]
    refine ensures_bind (ensures_refresh hexpires) (fun _ s h => ?_) s ⟨hd.1, fun _ => halive⟩
    exact ⟨h.1, fun heq => ⟨rfl, h.2 heq⟩⟩
  · exact ensures_late s (lt_of_le_of_ne hd.1 (Ne.symm hlate))

lemma ensures_handle (hvalue : sessionCookie svc.cfg r = some value)
    (hkey : key = hashToken value) (hexpires : time < expires)
    (hidle : time - seen < svc.cfg.sessionIdleTTL) :
    ∀ s, During time (Alive key expires seen) s →
      (handle svc (.authenticate r)).Ensures (Kept key) (Takes svc key t)
        (fun o => During time fun s => (∃ identity, o = .session r (some identity)) ∧
          Alive key expires (time - touchInterval) s) s := by
  have hserve := ensures_authenticateSession (t := t) hvalue hkey hexpires hidle
  refine ensures_bind (C := fun _ => During time (Alive key expires seen))
    (ensures_op hexpires ?_) fun _ => ensures_bind hserve fun answer s h => ?_
  · intro a s s' hclock halive hx
    obtain rfl := exec_receive hx.2.1
    exact halive
  · refine ⟨h.1, fun heq => ?_⟩
    obtain ⟨hsome, halive⟩ := h.2 heq
    obtain ⟨identity, rfl⟩ := Option.isSome_iff_exists.mp hsome
    exact ⟨⟨identity, rfl⟩, halive⟩

end Requests

section Visits
variable {c d e : SsoPool} {value : Bytes} {r : Request} {o : Outcome}
  {ls : List (Label SsoOp SsoRes)} {expires seen : ℤ}

def Pool.received (svc : Service) (c : SsoPool) (r : Request) : SsoPool :=
  ⟨c.shared, Function.update c.thread c.next (some (handle svc (.authenticate r))), c.next + 1⟩

/-- A sequence of requests with the cookie of `value`, each at an instant at which it is
answered, with the answers. Whatever else is called goes on before, while and after they are
served. -/
inductive Visits (svc : Service) (value : Bytes) : SsoPool → List (ℤ × Outcome) → SsoPool → Prop
  | done {c d : SsoPool} {ls : List (Label SsoOp SsoRes)}
      (hrun : Run (calmMachine (hashToken value)).semantics (Serves svc) c ls d) :
      Visits svc value c [] d
  | visit {c d e f : SsoPool} {ls ls' : List (Label SsoOp SsoRes)} {r : Request} {o : Outcome}
      {log : List (ℤ × Outcome)}
      (hbefore : Run (calmMachine (hashToken value)).semantics (Serves svc) c ls d)
      (hcookie : sessionCookie svc.cfg r = some value)
      (hserved : Run (calmMachine (hashToken value)).semantics (Serves svc)
        (Pool.received svc d r) ls' e)
      (hclock : e.shared.clock = d.shared.clock)
      (hreturned : e.thread d.next = some (.ret o))
      (hrest : Visits svc value e log f) : Visits svc value c ((d.shared.clock, o) :: log) f

/-- Each instant comes less than `gap` after the one before. -/
def Follows (gap : ℤ) : ℤ → List ℤ → Prop
  | _, [] => True
  | last, time :: times => time - last < gap ∧ Follows gap time times

/-- The first request comes before the session is idle, and each later one at least the
interval of `TouchSession` before it would be. -/
def Frequent (idle created : ℤ) : List ℤ → Prop
  | [] => True
  | time :: times => time - created < idle ∧ Follows (idle - touchInterval) time times

instance (gap last : ℤ) : (times : List ℤ) → Decidable (Follows gap last times)
  | [] => .isTrue trivial
  | time :: times =>
    have := instDecidableFollows gap time times
    inferInstanceAs (Decidable (time - last < gap ∧ Follows gap time times))

lemma sound_received (hd : Sound (discipline svc) (Told svc) d) (r : Request) :
    Sound (discipline svc) (Told svc) (Pool.received svc d r) := by
  have hstart : Step Store.machine.semantics (Serves svc) d (.start d.next)
      (Pool.received svc d r) := .start ⟨_, rfl⟩
  exact hd.step wp_entry hstart

lemma visit_alive (hd : Sound (discipline svc) (Told svc) d)
    (hcookie : sessionCookie svc.cfg r = some value)
    (hserved : Run (calmMachine (hashToken value)).semantics (Serves svc)
      (Pool.received svc d r) ls e)
    (hclock : e.shared.clock = d.shared.clock) (hreturned : e.thread d.next = some (.ret o))
    (halive : Alive (hashToken value) expires seen d.shared) (hexpires : d.shared.clock < expires)
    (hidle : d.shared.clock - seen < svc.cfg.sessionIdleTTL) :
    (∃ identity, o = .session r (some identity)) ∧
      Alive (hashToken value) expires (d.shared.clock - touchInterval) e.shared := by
  have hends := ensures_handle (t := d.next) hcookie rfl hexpires hidle d.shared
    ⟨le_rfl, fun _ => halive⟩
  obtain ⟨-, hq⟩ := hserved.ensures (segment svc (hashToken value) d.next)
    ⟨sound_received hd r, Nat.lt_succ_self _⟩ (Function.update_self ..) hends
  obtain ⟨s, hkept, hle, hret⟩ := hq _ hreturned
  -- the clock stood still while the request was served
  have hsame : s.clock = d.shared.clock := le_antisymm (hclock ▸ hkept.clock) hle
  obtain ⟨hidentity, hlive⟩ := hret hsame
  exact ⟨hidentity, hkept.alive expires _ hlive (hclock ▸ hexpires)⟩

lemma Frequent.of_follows {idle last : ℤ} {times : List ℤ}
    (h : Follows (idle - touchInterval) last times) :
    Frequent idle (last - touchInterval) times := by
  cases times with
  | nil => trivial
  | cons time times => exact ⟨by have hgap := h.1; omega, h.2⟩

lemma Visits.clock {log : List (ℤ × Outcome)} (hv : Visits svc value c log d)
    (hc : Sound (discipline svc) (Told svc) c) : c.shared.clock ≤ d.shared.clock := by
  induction hv with
  | done hrun => exact (kept_run hc hrun).2.clock
  | @visit c d e f _ _ r _ _ hbefore _ hserved hclock _ _ ih =>
    obtain ⟨hd, hkept⟩ := kept_run hc hbefore
    obtain ⟨he, -⟩ := kept_run (sound_received hd r) hserved
    exact (hkept.clock.trans hclock.ge).trans (ih he)

/-- The accounting of a sequence: since `seen` the session is known to have been active. -/
lemma Visits.accepted {log : List (ℤ × Outcome)} (hv : Visits svc value c log d)
    (hc : Sound (discipline svc) (Told svc) c)
    (halive : Alive (hashToken value) expires seen c.shared) (hexpires : d.shared.clock < expires)
    (hfrequent : Frequent svc.cfg.sessionIdleTTL seen (log.map Prod.fst)) :
    ∀ p ∈ log, ∃ r identity, p.2 = .session r (some identity) := by
  induction hv generalizing seen with
  | done hrun => simp
  | @visit c d e f _ _ r o log hbefore hcookie hserved hclock hreturned hrest ih =>
    obtain ⟨hd, hkept⟩ := kept_run hc hbefore
    obtain ⟨hidle, hfollows⟩ := hfrequent
    obtain ⟨he, -⟩ := kept_run (sound_received hd r) hserved
    have hunexpired : d.shared.clock < expires :=
      (hclock.ge.trans (hrest.clock he)).trans_lt hexpires
    obtain ⟨⟨identity, ho⟩, hlive⟩ := visit_alive hd hcookie hserved hclock hreturned
      (hkept.alive expires seen halive hunexpired) hunexpired hidle
    refine List.forall_mem_cons.mpr ⟨⟨r, identity, ho⟩, ?_⟩
    exact ih he hlive hexpires (.of_follows hfollows)

end Visits

/-- The role of a session is one that requests are accepted with. -/
lemma sessionRole_of_recorded {history : List Event} {clock : ℤ} {x : Session}
    (hlawful : Grounded (Lawful svc) history) (h : Recorded history clock x) :
    (sessionRole x.role).isSome = true := by
  obtain ⟨u, attempt, hborn⟩ := h.born
  obtain ⟨later, earlier, -, hadmitted, -⟩ := hlawful.split hborn
  obtain ⟨idToken, claims, role, -, -, -, hfrom, htext⟩ := hadmitted.user
  have hhuman : role = .reviewer ∨ role = .admin := by
    unfold roleFrom at hfrom
    grind
  have hrole : x.role = roleText role := htext
  rcases hhuman with rfl | rfl
  · rw [hrole]
    rfl
  · rw [hrole]
    rfl

/-- Activity keeps a session alive as far as it is recorded. After any run, a session that is
not logged out accepts every request of a sequence before its expiry, whatever else is called
meanwhile, if the first comes less than the idle time after the session was created and each
later one less than the idle time without the interval of `TouchSession` after the one before. -/
theorem activity_keeps_session (svc : Service) (clock : ℤ) (discovered : Bool)
    {ls : List (Label SsoOp SsoRes)} {c d : SsoPool}
    (hrun : Run Store.machine.semantics (Serves svc) (Pool.initial (.start clock discovered))
      ls c)
    {value : Bytes} {x : Session} (hx : c.shared.sessions.find (hashToken value) = some x)
    (hopen : x.revokedAt = none) {log : List (ℤ × Outcome)} (hv : Visits svc value c log d)
    (hexpires : d.shared.clock < x.expiresAt)
    (hfrequent : Frequent svc.cfg.sessionIdleTTL x.createdAt (log.map Prod.fst)) :
    ∀ p ∈ log, ∃ r identity, p.2 = .session r (some identity) := by
  have hsound := sound_run hrun
  have hrecorded := hsound.inv.sessions _ x hx
  have halive : Alive (hashToken value) x.expiresAt x.createdAt c.shared :=
    ⟨x, hx, hopen, rfl, sessionRole_of_recorded hsound.inv.lawful hrecorded, hrecorded.since⟩
  exact hv.accepted hsound halive hexpires hfrequent

section Sample

def outcomeOf (c : SsoPool) (t : ℕ) : Option Outcome :=
  match c.thread t with
  | some (.ret o) => some o
  | _ => none

lemma thread_of_outcomeOf {c : SsoPool} {o : Outcome} (h : outcomeOf c t = some o) :
    c.thread t = some (.ret o) := by
  unfold outcomeOf at h
  split at h
  · obtain rfl := Option.some.inj h
    assumption
  · simp at h

def playVisits (svc : Service) (value : Bytes) (r : Request) :
    List (ℕ × List Reply) → SsoPool → Option (List (ℤ × Outcome) × SsoPool)
  | [], c => some ([], c)
  | (wait, replies) :: rest, c =>
    ((calmMachine (hashToken value)).play [.env (.tick wait)] c).bind fun d =>
      ((calmMachine (hashToken value)).play (replies.map (.act d.next))
        (Pool.received svc d r)).bind fun e =>
        if e.shared.clock = d.shared.clock then
          (outcomeOf e d.next).bind fun o =>
            (playVisits svc value r rest e).map fun p => ((d.shared.clock, o) :: p.1, p.2)
        else none

lemma starts_act (t : ℕ) (replies : List Reply) :
    Machine.starts (replies.map fun reply => (.act t reply : SsoMove)) = [] := by
  induction replies with
  | nil => rfl
  | cons reply replies ih => exact ih

lemma visits_of_play {value : Bytes} {r : Request} (hcookie : sessionCookie svc.cfg r = some value)
    {script : List (ℕ × List Reply)} {c d : SsoPool} {log : List (ℤ × Outcome)}
    (h : playVisits svc value r script c = some (log, d)) : Visits svc value c log d := by
  induction script generalizing c log with
  | nil =>
    obtain ⟨rfl, rfl⟩ := Prod.mk.inj (Option.some.inj h)
    exact .done (.nil _)
  | cons move script ih =>
    obtain ⟨d', hwait, h⟩ := Option.bind_eq_some_iff.mp h
    obtain ⟨e, hserved, h⟩ := Option.bind_eq_some_iff.mp h
    split at h
    · rename_i hclock
      obtain ⟨o, ho, h⟩ := Option.bind_eq_some_iff.mp h
      obtain ⟨⟨log', f⟩, hrest, heq⟩ := Option.map_eq_some_iff.mp h
      obtain ⟨rfl, rfl⟩ := Prod.mk.inj heq
      have hwaits : ∃ ls, Run (calmMachine (hashToken value)).semantics (Serves svc) c ls d' :=
        Machine.play_run (by simp [Machine.starts]) hwait
      have hruns : ∃ ls, Run (calmMachine (hashToken value)).semantics (Serves svc)
          (Pool.received svc d' r) ls e := Machine.play_run (by simp [starts_act]) hserved
      obtain ⟨ls, hbefore⟩ := hwaits
      obtain ⟨ls', hrun⟩ := hruns
      exact .visit hbefore hcookie hrun hclock (thread_of_outcomeOf ho) (ih hrest)
    · simp at h

def accepted : Outcome → Bool
  | .session _ identity => identity.isSome
  | _ => false

/-- Requests after a sign-in at instant 0: the times and whether they were accepted, and
the row of the session before them with the time after them. -/
def sampleVisits (script : List (ℕ × List Reply)) :
    Option (List (ℤ × Bool) × ℤ × Option (Option ℤ × ℤ × ℤ)) :=
  (Store.machine.play
    (loginMoves 0 0 "state" ++ callbackMoves 1 0 "state" "ann@example.com" "token")
    (Pool.initial (.start 0 true))).bind fun c =>
      (playVisits sampleService (lit "token") (sampleRequest "" "__Host-elodea_session=token")
        script c).map fun p => (p.1.map fun q => (q.1, accepted q.2), p.2.shared.clock,
          (c.shared.sessions.find (hashToken (lit "token"))).map fun x =>
            (x.revokedAt, x.createdAt, x.expiresAt))

lemma visits_of_sample {script : List (ℕ × List Reply)} {answers : List (ℤ × Bool)}
    {clock created expires : ℤ}
    (h : sampleVisits script = some (answers, clock, some (none, created, expires))) :
    ∃ ls c d x log, Run Store.machine.semantics (Serves sampleService)
        (Pool.initial (.start 0 true)) ls c ∧
      c.shared.sessions.find (hashToken (lit "token")) = some x ∧ x.revokedAt = none ∧
      x.createdAt = created ∧ x.expiresAt = expires ∧
      Visits sampleService (lit "token") c log d ∧ d.shared.clock = clock ∧
      log.map (fun q => (q.1, accepted q.2)) = answers ∧
      log.map Prod.fst = answers.map Prod.fst := by
  obtain ⟨c, hc, h⟩ := Option.bind_eq_some_iff.mp h
  obtain ⟨⟨log, d⟩, hplay, heq⟩ := Option.map_eq_some_iff.mp h
  simp only [Prod.mk.injEq, Option.map_eq_some_iff] at heq
  obtain ⟨hlog, hclock, x, hx, hopen, hcreated, hexpires⟩ := heq
  obtain ⟨ls, hrun⟩ := Machine.play_run (serves_of_starts [_, _] rfl) hc
  have htimes : log.map Prod.fst = answers.map Prod.fst := by
    rw [← hlog, List.map_map]
    rfl
  exact ⟨ls, c, d, x, log, hrun, hx, hopen, hcreated, hexpires,
    visits_of_play (by decide) hplay, hclock, hlog, htimes⟩

/-- Requests after fifty and a hundred minutes; the first is recorded. -/
theorem activity_keeps_session_sample : ∃ ls c d x log,
    Run Store.machine.semantics (Serves sampleService) (Pool.initial (.start 0 true)) ls c ∧
      c.shared.sessions.find (hashToken (lit "token")) = some x ∧
      Visits sampleService (lit "token") c log d ∧ log.length = 2 ∧
      ∀ p ∈ log, ∃ r identity, p.2 = .session r (some identity) := by
  have hplay : sampleVisits [(3000000000000, [.works, .works, .works, .works]),
      (3000000000000, [.works, .works, .works, .works])] =
        some ([(3000000000000, true), (6000000000000, true)], 6000000000000,
          some (none, 0, 28800000000000)) := by decide +kernel
  obtain ⟨ls, c, d, x, log, hrun, hx, hopen, hcreated, hexpires, hv, hclock, -, htimes⟩ :=
    visits_of_sample hplay
  have hlength : log.length = 2 := by
    have hlen := congrArg List.length htimes
    simpa using hlen
  have hfrequent : Frequent sampleService.cfg.sessionIdleTTL x.createdAt (log.map Prod.fst) := by
    rw [htimes, hcreated]
    exact ⟨by decide, by decide⟩
  have hunexpired : d.shared.clock < x.expiresAt := by
    rw [hclock, hexpires]
    decide
  exact ⟨ls, c, d, x, log, hrun, hx, hv, hlength,
    activity_keeps_session sampleService 0 true hrun hx hopen hv hunexpired hfrequent⟩

/-- With an idle time of an hour, a request one minute after the sign-in is not recorded, and
the next, less than an hour later and long before the expiry, is rejected. -/
theorem activity_not_recorded : ∃ ls c d x log,
    Run Store.machine.semantics (Serves sampleService) (Pool.initial (.start 0 true)) ls c ∧
      c.shared.sessions.find (hashToken (lit "token")) = some x ∧ x.revokedAt = none ∧
      Visits sampleService (lit "token") c log d ∧ d.shared.clock < x.expiresAt ∧
      Follows sampleService.cfg.sessionIdleTTL x.createdAt (log.map Prod.fst) ∧
      ∃ p ∈ log, ¬ ∃ r identity, p.2 = .session r (some identity) := by
  have hplay : sampleVisits [(60000000000, [.works, .works, .works]),
      (3599000000000, [.works, .works, .works])] =
        some ([(60000000000, true), (3659000000000, false)], 3659000000000,
          some (none, 0, 28800000000000)) := by decide +kernel
  obtain ⟨ls, c, d, x, log, hrun, hx, hopen, hcreated, hexpires, hv, hclock, hlog, htimes⟩ :=
    visits_of_sample hplay
  refine ⟨ls, c, d, x, log, hrun, hx, hopen, hv, ?_, ?_, ?_⟩
  · rw [hclock, hexpires]
    decide
  · rw [htimes, hcreated]
    decide
  · have hmem : ((3659000000000 : ℤ), false) ∈ log.map fun q => (q.1, accepted q.2) := by
      rw [hlog]
      decide
    obtain ⟨p, hp, heq⟩ := List.mem_map.mp hmem
    refine ⟨p, hp, fun hyes => ?_⟩
    obtain ⟨r, identity, hsession⟩ := hyes
    simp [hsession, accepted] at heq

end Sample

end KiteRail.Sso
