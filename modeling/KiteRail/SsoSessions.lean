import KiteRail.SsoRules

namespace KiteRail.Sso
open Bytes Prog Discipline Startup
open Proxy (Identity Request Role)
open Auth (sessionCookie)
variable {svc : Service} {t : ℕ}

section Programs
variable {A : Store → Prop} {b : ℕ} {r : Request}

lemma holds_startAttempt (returnTo : Bytes) :
    (discipline svc).Holds t (fun s => .received t (.login b r) ∈ s.history)
      (startAttempt returnTo) fun _ _ => True := by
  have hpast := steady_past t (.received t (.login b r))
  refine holds_bind (holds_randomToken hpast) fun state => ?_
  refine holds_bind (holds_randomToken hpast) fun nonce => ?_
  refine holds_bind (holds_randomToken hpast) fun verifier => ?_
  refine holds_bind (holds_mono (holds_now hpast) (fun _ _ h => h) fun _ _ _ h => h.1)
    fun time => ?_
  refine holds_bind (holds_createLoginAttempt _) fun err => ?_
  cases err with
  | some e => exact holds_ret hpast.stable fun _ _ _ => trivial
  | none => exact holds_ret hpast.stable fun _ _ _ => trivial

lemma holds_login :
    (discipline svc).Holds t (fun s => .received t (.login b r) ∈ s.history)
      (login svc r) fun _ _ => True := by
  have hpast := steady_past t (.received t (.login b r))
  refine holds_bind (holds_client hpast) fun ok => ?_
  cases ok with
  | false => exact holds_ret hpast.stable fun _ _ _ => trivial
  | true =>
    cases hto : validReturnTo svc (param r (lit "return_to")) with
    | none => exact holds_ret hpast.stable fun _ _ _ => trivial
    | some returnTo => exact holds_startAttempt returnTo

lemma holds_verifiedToken (hA : Steady t A) (attempt : ConsumeLoginAttemptRow) (code : Bytes) :
    (discipline svc).Holds t A (verifiedToken attempt code) fun answer s =>
      A s ∧ ∀ idToken, answer = .ok idToken → .verified t idToken ∈ s.history := by
  refine holds_bind (holds_exchange hA _ _) fun answer => ?_
  cases answer with
  | error e => exact holds_ret hA.stable fun s _ h => ⟨h, by simp⟩
  | ok rawIDToken =>
    dsimp only
    split
    · exact holds_ret hA.stable fun s _ h => ⟨h, by simp⟩
    · refine holds_bind (holds_verify hA rawIDToken) fun verified => ?_
      cases verified with
      | error e =>
        exact holds_mono (holds_ret hA.stable fun s _ h => ⟨h, by simp⟩) (fun _ _ h => h.1)
          fun _ _ _ h => h
      | ok idToken =>
        have hverified := hA.and (steady_past t (.verified t idToken))
        refine holds_mono (holds_ret hverified.stable fun s _ h => ⟨h.1, fun idToken' heq => ?_⟩)
          (fun s _ h => ⟨h.1, h.2 idToken rfl⟩) fun _ _ _ h => h
        obtain rfl := Except.ok.inj heq
        exact h.2

lemma admitUser_eq_ok {attempt : ConsumeLoginAttemptRow} {idToken : IDToken} {user : Identity}
    (h : admitUser svc attempt idToken = .ok user) : ∃ claims, idToken.claims = .ok claims ∧
      identityFrom svc claims = .ok user.id ∧ roleFrom svc claims = some user.role := by
  unfold admitUser at h
  split at h
  · simp at h
  · split at h
    · simp at h
    · rename_i claims hclaims
      split at h
      · simp at h
      · rename_i identity hidentity
        split at h
        · simp at h
        · rename_i role hrole
          obtain rfl := Except.ok.inj h
          exact ⟨claims, hclaims, hidentity, hrole⟩

lemma holds_startSession {n : ℕ} {state : Bytes} {attempt : ConsumeLoginAttemptRow}
    {idToken : IDToken} {user : Identity} (hadmitted : admitUser svc attempt idToken = .ok user) :
    (discipline svc).Holds t (fun s => Holding t n state s ∧ .verified t idToken ∈ s.history)
      (startSession svc attempt idToken.subject user) fun _ _ => True := by
  obtain ⟨claims, hclaims, hidentity, hrole⟩ := admitUser_eq_ok hadmitted
  have hsteady := (steady_holding t n state).and (steady_past t (.verified t idToken))
  refine holds_bind (holds_randomToken hsteady) fun sessionToken => ?_
  refine holds_bind (holds_now hsteady) fun time => ?_
  refine holds_bind (holds_createSession _ hclaims hidentity hrole rfl rfl) fun err => ?_
  cases err with
  | some e => exact holds_ret (Stable.pure True) fun _ _ _ => trivial
  | none => exact holds_ret (Stable.pure True) fun _ _ _ => trivial

lemma holds_finishAttempt {n : ℕ} {state : Bytes} (attempt : ConsumeLoginAttemptRow) :
    (discipline svc).Holds t (Holding t n state) (finishAttempt svc attempt r)
      fun _ _ => True := by
  have hold := steady_holding t n state
  unfold finishAttempt
  split
  · exact holds_ret hold.stable fun _ _ _ => trivial
  · refine holds_bind (holds_client hold) fun ok => ?_
    cases ok with
    | false => exact holds_ret hold.stable fun _ _ _ => trivial
    | true =>
      refine holds_bind (holds_verifiedToken hold attempt _) fun answer => ?_
      cases answer with
      | error code =>
        exact holds_mono (holds_ret hold.stable fun _ _ _ => trivial) (fun _ _ h => h.1)
          fun _ _ _ h => h
      | ok idToken =>
        cases hadmitted : admitUser svc attempt idToken with
        | error code =>
          simp only [hadmitted]
          exact holds_mono (holds_ret hold.stable fun _ _ _ => trivial) (fun _ _ h => h.1)
            fun _ _ _ h => h
        | ok user =>
          simp only [hadmitted]
          exact holds_mono (holds_startSession hadmitted) (fun s _ h => ⟨h.1, h.2 idToken rfl⟩)
            fun _ _ _ h => h

/-- A cookie is set only by a callback that deleted an attempt. -/
lemma holds_callback :
    (discipline svc).Holds t (fun s => .received t (.callback b r) ∈ s.history)
      (callback svc r) fun sent s => sent.setCookie.isSome →
        ∃ n state, .consumed t n state ∈ s.history := by
  refine holds_bind holds_consumeLoginAttempt fun answer => ?_
  cases answer with
  | error e =>
    refine holds_mono (holds_ret (Stable.pure True) fun s _ _ hcookie => ?_) (fun _ _ _ => trivial)
      fun _ _ _ h => h
    simp [Response.setCookie] at hcookie
  | ok attempt =>
    intro s hi h
    obtain ⟨n, state, hold⟩ := h attempt rfl
    have hfinish : (discipline svc).wp t (finishAttempt svc attempt r) (fun _ _ => True) s :=
      holds_finishAttempt attempt s hi hold
    exact wp_mono (wp_past hold.1 hfinish) fun _ _ _ h _ => ⟨n, state, h.1⟩

lemma holds_logout (hA : Steady t A) :
    (discipline svc).Holds t A (logout svc r) fun _ _ => True := by
  unfold logout
  split
  · exact holds_ret hA.stable fun _ _ _ => trivial
  · cases sessionCookie svc.cfg r with
    | none => exact holds_ret hA.stable fun _ _ _ => trivial
    | some value =>
      refine holds_bind (holds_revokeSession hA _) fun err => ?_
      cases err with
      | some e => exact holds_ret hA.stable fun _ _ _ => trivial
      | none => exact holds_ret hA.stable fun _ _ _ => trivial

/-- The lookup that gave the identity. -/
def Found (svc : Service) (history : List Event) (t : ℕ) (r : Request) (identity : Identity) :
    Prop :=
  ∃ value x cutoff found, sessionCookie svc.cfg r = some value ∧
    .found t x cutoff found ∈ history ∧ x.idHash = hashToken value ∧ x.email = identity.id ∧
    sessionRole x.role = some identity.role

lemma steady_found (t : ℕ) (r : Request) (identity : Identity) :
    Steady t fun s => Found svc s.history t r identity := by
  rintro s s' ⟨value, x, cutoff, found, hvalue, hfound, hx⟩ hg
  exact ⟨value, x, cutoff, found, hvalue, hg.history.subset hfound, hx⟩

lemma holds_refresh (hA : Steady t A) (idHash : Bytes) (time lastSeenAt : ℤ) :
    (discipline svc).Holds t A (refresh idHash time lastSeenAt) fun _ s => A s := by
  unfold refresh
  split
  · exact holds_touchSession hA idHash
  · exact holds_ret hA.stable fun _ _ h => h

lemma holds_authenticateSession :
    (discipline svc).Holds t (fun _ => True) (authenticateSession svc r) fun answer s =>
      ∀ identity, answer = some identity → Found svc s.history t r identity := by
  have htrue := steady_true t
  unfold authenticateSession
  cases hvalue : sessionCookie svc.cfg r with
  | none => exact holds_ret htrue.stable fun _ _ _ => by simp
  | some value =>
    refine holds_bind (holds_mono (holds_now htrue) (fun _ _ h => h) fun _ _ _ h => h.2)
      fun time => ?_
    refine holds_bind (holds_getActiveSession _) fun answer => ?_
    cases answer with
    | error e =>
      exact holds_mono (holds_ret htrue.stable fun _ _ _ => by simp) (fun _ _ _ => trivial)
        fun _ _ _ h => h
    | ok row =>
      cases hrole : sessionRole row.role with
      | none =>
        simp only [hrole]
        exact holds_mono (holds_ret htrue.stable fun _ _ _ => by simp) (fun _ _ _ => trivial)
          fun _ _ _ h => h
      | some role =>
        simp only [hrole]
        have hsteady : Steady t fun s => Found svc s.history t r ⟨row.email, role⟩ :=
          steady_found t r _
        refine holds_mono (holds_bind (holds_refresh hsteady _ _ _) fun _ =>
          holds_ret hsteady.stable fun s _ h => ?_) (fun s _ h => ?_) fun _ _ _ h => h
        · rintro identity heq
          obtain rfl := Option.some.inj heq
          exact h
        · obtain ⟨x, cutoff, found, hfound, hhash, rfl⟩ := h row rfl
          exact ⟨value, x, cutoff, found, hvalue, hfound, hhash, rfl, hrole⟩

/-- What is known of a call that has ended. -/
def Told (svc : Service) (t : ℕ) : Outcome → Store → Prop
  | .response c sent, s => .received t c ∈ s.history ∧ ∀ b r, c = .callback b r →
      sent.setCookie.isSome → ∃ n state, .consumed t n state ∈ s.history
  | .session r answer, s => ∀ identity, answer = some identity → Found svc s.history t r identity
  | .swept, _ => True

lemma holds_serve (c : Call) :
    (discipline svc).Holds t (fun s => .received t c ∈ s.history) (serve svc c) (Told svc t) := by
  have hpast := steady_past t (.received t c)
  -- the reception of the call is kept along with what its program ensures
  have hkept : ∀ {α : Type} {p : SsoProg α} {B : α → Store → Prop},
      (discipline svc).Holds t (fun s => .received t c ∈ s.history) p B →
      (discipline svc).Holds t (fun s => .received t c ∈ s.history) p
        fun a s => .received t c ∈ s.history ∧ B a s :=
    fun h => holds_mono (holds_past h) (fun _ _ hr => ⟨hr, hr⟩) fun _ _ _ h => h
  cases c with
  | login b r =>
    refine holds_bind (hkept holds_login) fun sent => ?_
    refine holds_mono (holds_ret hpast.stable fun s _ h => ⟨h, by simp⟩) (fun _ _ h => h.1)
      fun _ _ _ h => h
  | callback b r =>
    refine holds_bind (hkept holds_callback) fun sent => ?_
    have hsteady : Steady t fun s => sent.setCookie.isSome →
        ∃ n state, .consumed t n state ∈ s.history := by
      intro s s' h hg hcookie
      obtain ⟨n, state, hmem⟩ := h hcookie
      exact ⟨n, state, hg.history.subset hmem⟩
    exact holds_ret (hpast.and hsteady).stable fun s _ h => ⟨h.1, fun _ _ _ => h.2⟩
  | logout r =>
    refine holds_bind (hkept (holds_logout hpast)) fun sent => ?_
    refine holds_mono (holds_ret hpast.stable fun s _ h => ⟨h, by simp⟩) (fun _ _ h => h.1)
      fun _ _ _ h => h
  | authenticate r =>
    refine holds_bind (holds_mono holds_authenticateSession (fun _ _ _ => trivial)
      fun _ _ _ h => h) fun answer => ?_
    refine holds_ret (fun s s' h hr identity heq => ?_) fun s _ h => h
    exact steady_found t r identity s s' (h identity heq) hr.toGrows
  | sweep =>
    exact holds_bind (holds_deleteExpired hpast) fun _ => holds_ret hpast.stable
      fun _ _ _ => trivial

end Programs

section Runs
variable {clock : ℤ} {discovered : Bool} {ls : List (Label SsoOp SsoRes)} {c : SsoPool}

lemma wp_entry (p : SsoProg Outcome) (t : ℕ) (s : Store) (hp : Serves svc p)
    (hi : (discipline svc).inv s) (hf : (discipline svc).fresh t s) :
    (discipline svc).wp t p (Told svc t) s := by
  obtain ⟨call, rfl⟩ := hp
  exact holds_bind (holds_receive call) (fun _ => holds_serve call) s hi hf

lemma sound_run (hrun : Run Store.machine.semantics (Serves svc)
    (Pool.initial (.start clock discovered)) ls c) : Sound (discipline svc) (Told svc) c :=
  (Sound.initial (Inv.start clock discovered) fun _ _ h => by simp [Store.start] at h).run wp_entry
    hrun

lemma told_of_sound {o : Outcome} (h : Sound (discipline svc) (Told svc) c)
    (ht : c.thread t = some (.ret o)) : Told svc t o c.shared :=
  (h.threads t _ ht).2 _ (Keeps.refl t _) h.inv

end Runs

section Acceptance
variable {past : List Event} {x : Session} {cutoff lookup : ℤ} {identity : Identity}

/-- Why the cookie of `value` was accepted as `identity` by a lookup that found the session
`x`, after the events `past`. -/
structure Accepted (svc : Service) (past : List Event) (t : ℕ) (value : Bytes) (x : Session)
    (lookup : ℤ) (identity : Identity) : Prop where
  /-- A callback created a session for the hash of the value, and had verified claims that
  give the identity and the role. -/
  created : ∃ u attempt b r idToken claims since before,
    past = since ++ .created u attempt x.born :: before ∧ x.idHash = hashToken value ∧
    .received u (.callback b r) ∈ before ∧ .verified u idToken ∈ before ∧
    idToken.claims = .ok claims ∧ identityFrom svc claims = .ok identity.id ∧
    roleFrom svc claims = some identity.role
  human : identity.role = .reviewer ∨ identity.role = .admin
  /-- No logout of the session has committed. -/
  unrevoked : .revoked x.serial ∉ past
  /-- At an instant between the reading of the clock and the lookup, the session is within
  its life and has been active within the idle time. -/
  alive : ∃ reading time activity, .read t reading ∈ past ∧ reading ≤ time ∧ time ≤ lookup ∧
    x.createdAt ≤ time ∧ time < x.createdAt + svc.cfg.sessionTTL ∧
    (activity = x.createdAt ∨ .touched x.serial activity ∈ past) ∧ activity ≤ time ∧
    time - activity < svc.cfg.sessionIdleTTL

lemma sessionRole_roleText {text : Bytes} {role role' : Role} (htext : text = roleText role)
    (h : sessionRole text = some role') :
    role = role' ∧ (role' = .reviewer ∨ role' = .admin) := by
  subst htext
  cases role with
  | agent =>
    have hnone : sessionRole (roleText .agent) = none := rfl
    simp [hnone] at h
  | reviewer =>
    obtain rfl : Role.reviewer = role' := by simpa [sessionRole] using h
    exact ⟨rfl, .inl rfl⟩
  | admin =>
    have hne : ¬ roleText .admin = roleText .reviewer := by decide
    obtain rfl : Role.admin = role' := by simpa [sessionRole, hne] using h
    exact ⟨rfl, .inr rfl⟩

/-- The instant is the reading, or the last activity if that came later. -/
lemma Active.alive (h : Active svc past t x cutoff lookup)
    (hexpiry : x.expiresAt ≤ x.createdAt + svc.cfg.sessionTTL) :
    ∃ reading time activity, .read t reading ∈ past ∧ reading ≤ time ∧ time ≤ lookup ∧
      x.createdAt ≤ time ∧ time < x.createdAt + svc.cfg.sessionTTL ∧
      (activity = x.createdAt ∨ .touched x.serial activity ∈ past) ∧ activity ≤ time ∧
      time - activity < svc.cfg.sessionIdleTTL := by
  obtain ⟨hrecorded, -, hunexpired, hrecent, reading, hread, hle, rfl⟩ := h
  have hidle := svc.idle_pos
  have hsince := hrecorded.since
  have hbefore := hrecorded.before
  refine ⟨reading, max reading x.lastSeenAt, x.lastSeenAt, hread, le_max_left _ _,
    max_le hle hbefore, hsince.trans (le_max_right _ _), ?_, hrecorded.seen, le_max_right _ _, ?_⟩
  · rcases max_choice reading x.lastSeenAt with hmax | hmax <;> omega
  · rcases max_choice reading x.lastSeenAt with hmax | hmax <;> omega

lemma accepted_of_active {value : Bytes} (h : Active svc past t x cutoff lookup)
    (hpast : Grounded (Lawful svc) past) (hhash : x.idHash = hashToken value)
    (hemail : x.email = identity.id) (hrole : sessionRole x.role = some identity.role) :
    Accepted svc past t value x lookup identity := by
  obtain ⟨u, attempt, hborn⟩ := h.recorded.born
  obtain ⟨since, before, hsplit, hadmitted, hbefore⟩ := hpast.split hborn
  obtain ⟨n, state, -, hconsumed, -⟩ := hadmitted.attempt
  obtain ⟨-, b, r, hrecv, -⟩ := attempted_of_consumed hbefore hconsumed
  obtain ⟨idToken, claims, role, hverified, hclaims, hidentity, hfrom, htext⟩ := hadmitted.user
  obtain ⟨rfl, hhuman⟩ := sessionRole_roleText htext hrole
  refine ⟨⟨u, attempt, b, r, idToken, claims, since, before, hsplit, hhash, hrecv, hverified,
    hclaims, ?_, hfrom⟩, hhuman, h.recorded.unrevoked h.unrevoked, h.alive hadmitted.expiry⟩
  exact hidentity.trans (congrArg _ hemail)

end Acceptance

section Steps

/-- No session of both stores has another expiry, and none is revoked no longer. -/
def Sealed (s s' : Store) : Prop :=
  ∀ k x x', s.sessions.find k = some x → s'.sessions.find k = some x' →
    x'.expiresAt = x.expiresAt ∧ (x.revokedAt ≠ none → x'.revokedAt = x.revokedAt)

variable {s s' : Store}

lemma sealed_of_eq (h : s'.sessions = s.sessions) : Sealed s s' := by
  intro k x x' hx hx'
  rw [h, hx] at hx'
  obtain rfl := Option.some.inj hx'
  exact ⟨rfl, fun _ => rfl⟩

lemma sealed_of_delete {guard : Session → Bool} (h : s'.sessions = s.sessions.delete guard) :
    Sealed s s' := by
  intro k x x' hx hx'
  rw [h, Table.find_delete, hx] at hx'
  obtain rfl := Option.some.inj hx'.1
  exact ⟨rfl, fun _ => rfl⟩

lemma sealed_of_update {idHash : Bytes} {set : Session → Session}
    (hset : ∀ x, (set x).idHash = x.idHash)
    (h : s'.sessions = s.sessions.update (Store.unrevoked idHash) set hset)
    (hexpiry : ∀ x, (set x).expiresAt = x.expiresAt) : Sealed s s' := by
  intro k x x' hx hx'
  rw [h, Table.find_update, hx, Option.map_some] at hx'
  obtain rfl := Option.some.inj hx'
  split
  · rename_i hguard
    exact ⟨hexpiry x, fun hne => absurd (unrevoked_iff.mp hguard).2 hne⟩
  · exact ⟨rfl, fun _ => rfl⟩

lemma sealed_created (arg : CreateSessionParams) : Sealed s (s.created t arg) := by
  rw [Store.created]
  split
  · rename_i hfree
    intro k x x' hx hx'
    replace hx' := (Table.find_insert s.sessions (s.inserted arg) hfree k).symm.trans hx'
    split at hx'
    · rename_i hk
      rw [hk] at hx
      exact absurd (hx.symm.trans hfree) (by simp)
    · obtain rfl := Option.some.inj (hx.symm.trans hx')
      exact ⟨rfl, fun _ => rfl⟩
  · exact sealed_of_eq rfl

/-- What operations do to the sessions and the clock. -/
inductive Changes (t : ℕ) (s : Store) : SsoOp → Store → Prop
  | nothing {op : SsoOp} {s' : Store} (hsessions : s'.sessions = s.sessions)
      (hclock : s'.clock = s.clock) : Changes t s op s'
  | created (arg : CreateSessionParams) : Changes t s (.createSession arg) (s.created t arg)
  | touched (idHash : Bytes) : Changes t s (.touchSession idHash) (s.touched idHash)
  | revoked (idHash : Bytes) : Changes t s (.revokeSession idHash) (s.revoked idHash)
  | expired : Changes t s .deleteExpiredSessions s.sessionsExpired

lemma attempted_sessions (arg : CreateLoginAttemptParams) :
    (s.attempted t arg).sessions = s.sessions ∧ (s.attempted t arg).clock = s.clock := by
  rw [Store.attempted]
  split
  · exact ⟨rfl, rfl⟩
  · exact ⟨rfl, rfl⟩

lemma changes_of_exec {op : SsoOp} {r : SsoRes op} (h : Exec t op s r s') : Changes t s op s' := by
  cases op with
  | receive c => exact .nothing (exec_receive h ▸ rfl) (exec_receive h ▸ rfl)
  | client => exact .nothing (exec_client h ▸ rfl) (exec_client h ▸ rfl)
  | now => exact .nothing ((exec_now h).2 ▸ rfl) ((exec_now h).2 ▸ rfl)
  | randomToken => exact .nothing (exec_randomToken h ▸ rfl) (exec_randomToken h ▸ rfl)
  | createLoginAttempt arg =>
    rcases exec_createLoginAttempt h with rfl | rfl
    · exact .nothing rfl rfl
    · exact .nothing (attempted_sessions arg).1 (attempted_sessions arg).2
  | consumeLoginAttempt state =>
    rcases exec_consumeLoginAttempt h with ⟨a, -, -, rfl⟩ | ⟨-, rfl | rfl⟩
    all_goals exact .nothing rfl rfl
  | exchange code codeVerifier => exact .nothing (exec_exchange h ▸ rfl) (exec_exchange h ▸ rfl)
  | verify rawIDToken =>
    rcases exec_verify h with ⟨idToken, -, rfl⟩ | ⟨-, rfl⟩
    all_goals exact .nothing rfl rfl
  | createSession arg =>
    rcases exec_createSession h with rfl | rfl
    · exact .nothing rfl rfl
    · exact .created arg
  | getActiveSession idHash cutoff =>
    rcases exec_getActiveSession h with ⟨x, -, -, rfl⟩ | ⟨-, rfl⟩
    all_goals exact .nothing rfl rfl
  | touchSession idHash =>
    rcases exec_touchSession h with rfl | rfl
    · exact .nothing rfl rfl
    · exact .touched idHash
  | revokeSession idHash =>
    rcases exec_revokeSession h with rfl | rfl
    · exact .nothing rfl rfl
    · exact .revoked idHash
  | deleteExpiredLoginAttempts =>
    rcases exec_deleteExpiredLoginAttempts h with rfl | rfl
    all_goals exact .nothing rfl rfl
  | deleteExpiredSessions =>
    rcases exec_deleteExpiredSessions h with rfl | rfl
    · exact .nothing rfl rfl
    · exact .expired

lemma sealed_of_changes {op : SsoOp} (h : Changes t s op s') : Sealed s s' := by
  cases h with
  | nothing hsessions hclock => exact sealed_of_eq hsessions
  | created arg => exact sealed_created arg
  | touched idHash => exact sealed_of_update (by intro; rfl) rfl fun _ => rfl
  | revoked idHash => exact sealed_of_update (by intro; rfl) rfl fun _ => rfl
  | expired => exact sealed_of_delete rfl

lemma sealed_step {c d : SsoPool} {l : Label SsoOp SsoRes} {entry : SsoProg Outcome → Prop}
    (h : Step Store.machine.semantics entry c l d) : Sealed c.shared d.shared := by
  cases h with
  | start hp => exact sealed_of_eq rfl
  | act ht hx => exact sealed_of_changes (changes_of_exec hx)
  | lose ht => exact sealed_of_eq rfl
  | @env s' he =>
    obtain ⟨f, he⟩ := he
    cases f with
    | tick d =>
      obtain rfl := Option.some.inj he
      exact sealed_of_eq rfl
    | discover =>
      obtain rfl := Option.some.inj he
      exact sealed_of_eq rfl

end Steps

/-- The attempt of which a session was made, from the login that began it. -/
lemma Inv.attempt_of_created {s : Store} (h : Inv svc s) {u : ℕ} {attempt : Option ℕ} {x : Session}
    (hx : .created u attempt x ∈ s.history) : ∃ n state v b r, attempt = some n ∧
      .consumed u n state ∈ s.history ∧ .attempted v n state ∈ s.history ∧
      .received v (.login b r) ∈ s.history := by
  obtain ⟨later, earlier, hsplit, hadmitted, -⟩ := h.lawful.split hx
  obtain ⟨n, state, hn, hconsumed, -⟩ := hadmitted.attempt
  have hc : .consumed u n state ∈ s.history := by simp [hsplit, hconsumed]
  obtain ⟨⟨v, hattempted⟩, -⟩ := attempted_of_consumed h.lawful hc
  obtain ⟨b, r, hrecv⟩ := login_of_attempted h.lawful hattempted
  exact ⟨n, state, v, b, r, hn, hc, hattempted, hrecv⟩

/-- Sessions are sound over any run of logins, callbacks, logouts, authenticated requests and
sweeps. Every session was made of a login attempt, no two of the same; a request is
authenticated only as `Accepted` says; and no step gives a session another expiry or takes
its revocation back. -/
theorem session_soundness (svc : Service) (clock : ℤ) (discovered : Bool)
    {ls : List (Label SsoOp SsoRes)} {c : SsoPool}
    (hrun : Run Store.machine.semantics (Serves svc) (Pool.initial (.start clock discovered))
      ls c) :
    ((sessionAttempts c.shared.history).Nodup ∧
      ∀ u attempt x, .created u attempt x ∈ c.shared.history → ∃ n state v b r, attempt = some n ∧
        .consumed u n state ∈ c.shared.history ∧ .attempted v n state ∈ c.shared.history ∧
        .received v (.login b r) ∈ c.shared.history) ∧
    (∀ t r identity, c.thread t = some (.ret (.session r (some identity))) →
      ∃ value x cutoff lookup later earlier, sessionCookie svc.cfg r = some value ∧
        c.shared.history = later ++ .found t x cutoff lookup :: earlier ∧
        Accepted svc earlier t value x lookup identity) ∧
    ∀ l d, Step Store.machine.semantics (Serves svc) c l d → Sealed c.shared d.shared := by
  have hsound := sound_run hrun
  refine ⟨⟨?_, fun u attempt x hx => hsound.inv.attempt_of_created hx⟩, fun t r identity ht => ?_,
    fun l d hstep => sealed_step hstep⟩
  · refine hsound.inv.lawful.nodup attemptOf fun past e n hok hn => ?_
    cases e with
    | created u attempt x =>
      obtain ⟨m, -, rfl, -, hfresh⟩ := hok.attempt
      obtain rfl : m = n := by simpa [attemptOf] using hn
      exact hfresh
    | _ => simp [attemptOf] at hn
  · obtain ⟨value, x, cutoff, lookup, hvalue, hfound, hhash, hemail, hrole⟩ :=
      told_of_sound hsound ht identity rfl
    obtain ⟨later, earlier, hsplit, hactive, hearlier⟩ := hsound.inv.lawful.split hfound
    exact ⟨value, x, cutoff, lookup, later, earlier, hvalue, hsplit,
      accepted_of_active hactive hearlier hhash hemail hrole⟩

section Sample

def sampleService : Service where
  cfg := {
    issuer := lit "https://id.example"
    clientID := lit "rail"
    clientSecret := lit "secret"
    redirectURL := lit "https://rail.example/auth/callback"
    providerName := lit "SSO"
    groupsClaim := lit "groups"
    identityClaim := lit "email"
    scopes := [lit "openid"]
    reviewerGroups := [lit "ops"]
    adminGroups := []
    sessionTTL := 8 * 3600 * second
    sessionIdleTTL := 3600 * second
    cookieSameSite := [] }
  allowedOrigins := [lit "https://console.example"]
  table := asciiCase
  parseURL _ := none
  idle_pos := by decide

def sampleRequest (query cookie : String) : Request where
  method := lit "GET"
  url := ⟨[], [], lit "/", [], lit query⟩
  header := .singleton (lit "Cookie") [lit cookie]
  body := ⟨[], none⟩
  identity := none

def sampleToken (email : String) : IDToken where
  nonce := lit "nonce"
  subject := lit email
  claims := .ok (((AList.singleton (lit "groups") (.arr [.str (lit "ops")])).insert
    (lit "email_verified") (.bool true)).insert (lit "email") (.str (lit email)))

abbrev SsoMove := Machine.Move SsoOp SsoRes Outcome Reply Disturbance

def loginMoves (t browser : ℕ) (state : String) : List SsoMove :=
  [.start (handle sampleService (.login browser (sampleRequest "" ""))), .act t .works,
    .act t .works, .act t (.draws (lit state)), .act t (.draws (lit "nonce")),
    .act t (.draws (lit "verifier")), .act t .works, .act t .works]

def callbackMoves (t browser : ℕ) (state email token : String) : List SsoMove :=
  [.start (handle sampleService
      (.callback browser (sampleRequest ("code=code&state=" ++ state) ""))),
    .act t .works, .act t .works, .act t .works, .act t (.exchanges (.ok (lit "jwt"))),
    .act t (.verifies (.ok (sampleToken email))), .act t (.draws (lit token)), .act t .works,
    .act t .works]

/-- A request with the cookie of that session, which is touched. -/
def requestMoves (t : ℕ) : List SsoMove :=
  [.start (handle sampleService (.authenticate (sampleRequest "" "__Host-elodea_session=token"))),
    .act t .works, .act t .works, .act t .works, .act t .works]

lemma serves_of_starts {moves : List SsoMove} (calls : List Call)
    (h : Machine.starts moves = calls.map (handle sampleService)) :
    ∀ p ∈ Machine.starts moves, Serves sampleService p := by
  intro p hp
  rw [h] at hp
  obtain ⟨call, -, rfl⟩ := List.mem_map.mp hp
  exact ⟨call, rfl⟩

def identityOf (c : SsoPool) (t : ℕ) : Option (Request × Identity) :=
  match c.thread t with
  | some (.ret (.session r (some identity))) => some (r, identity)
  | _ => none

lemma thread_of_identityOf {c : SsoPool} {r : Request} {identity : Identity}
    (h : identityOf c t = some (r, identity)) :
    c.thread t = some (.ret (.session r (some identity))) := by
  unfold identityOf at h
  split at h
  · obtain ⟨rfl, rfl⟩ := Prod.mk.inj (Option.some.inj h)
    assumption
  · simp at h

/-- A session is used half an hour after it was created. -/
theorem session_soundness_sample : ∃ ls c, Run Store.machine.semantics (Serves sampleService)
      (Pool.initial (.start 0 true)) ls c ∧
    ∃ r identity value x cutoff lookup later earlier, identity.id = lit "ann@example.com" ∧
      sessionCookie sampleService.cfg r = some value ∧
      c.shared.history = later ++ .found 2 x cutoff lookup :: earlier ∧
      Accepted sampleService earlier 2 value x lookup identity := by
  have hplay : (((Store.machine.play (loginMoves 0 0 "state" ++
      callbackMoves 1 0 "state" "ann@example.com" "token" ++ [.env (.tick 1800000000000)] ++
      requestMoves 2) (Pool.initial (.start 0 true))).bind
        (identityOf · 2)).map fun a => a.2.id) = some (lit "ann@example.com") := by
    decide +kernel
  obtain ⟨⟨r, identity⟩, hid, hann⟩ := Option.map_eq_some_iff.mp hplay
  obtain ⟨c, hc, hthread⟩ := Option.bind_eq_some_iff.mp hid
  obtain ⟨ls, hrun⟩ := Machine.play_run (serves_of_starts [_, _, _] rfl) hc
  obtain ⟨value, x, cutoff, lookup, later, earlier, haccepted⟩ :=
    (session_soundness sampleService 0 true hrun).2.1 2 r identity (thread_of_identityOf hthread)
  exact ⟨ls, c, hrun, r, identity, value, x, cutoff, lookup, later, earlier, hann, haccepted⟩

end Sample

end KiteRail.Sso
