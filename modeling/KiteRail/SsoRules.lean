import KiteRail.SsoInvariant

namespace KiteRail.Sso
open Bytes Prog Discipline Startup
variable {svc : Service} {t : ℕ} {s s' : Store}

section Inversion
variable {reply : Reply}

lemma quick_eq_some {α : Type} {a b : α} (h : Store.quick a reply = some b) : b = a := by
  cases reply <;> simp_all [Store.quick]

lemma draw_eq_some {r : Bytes} (h : Store.draw s reply = some (r, s')) : s' = s := by
  cases reply <;> simp_all [Store.draw]

lemma statement_eq_some {err r : Option GoError} {s₁ : Store}
    (h : Store.statement err s₁ s reply = some (r, s')) : s' = s ∨ s' = s₁ := by
  cases reply <;> simp_all [Store.statement]

lemma tokenResponse_eq_some {r : Except GoError Bytes}
    (h : Store.tokenResponse s reply = some (r, s')) : s' = s := by
  cases reply <;> simp_all [Store.tokenResponse]

abbrev Exec (t : ℕ) (op : SsoOp) (s : Store) (r : SsoRes op) (s' : Store) : Prop :=
  Store.machine.semantics.exec t op s r s'

lemma exec_receive {c : Call} {r : SsoRes (.receive c)} (h : Exec t (.receive c) s r s') :
    s' = s.note (.received t c) := by
  obtain ⟨reply, h⟩ := h
  exact (Prod.mk.inj (quick_eq_some h)).2

lemma exec_client {r : SsoRes .client} (h : Exec t .client s r s') : s' = s := by
  obtain ⟨reply, h⟩ := h
  exact (Prod.mk.inj (quick_eq_some h)).2

lemma exec_now {r : SsoRes .now} (h : Exec t .now s r s') :
    r = s.clock ∧ s' = s.note (.read t s.clock) := by
  obtain ⟨reply, h⟩ := h
  exact Prod.mk.inj (quick_eq_some h)

lemma exec_randomToken {r : SsoRes .randomToken} (h : Exec t .randomToken s r s') : s' = s := by
  obtain ⟨reply, h⟩ := h
  exact draw_eq_some h

lemma exec_createLoginAttempt {arg : CreateLoginAttemptParams}
    {r : SsoRes (.createLoginAttempt arg)} (h : Exec t (.createLoginAttempt arg) s r s') :
    s' = s ∨ s' = s.attempted t arg := by
  obtain ⟨reply, h⟩ := h
  exact statement_eq_some h

lemma exec_consumeLoginAttempt {state : Bytes} {r : SsoRes (.consumeLoginAttempt state)}
    (h : Exec t (.consumeLoginAttempt state) s r s') :
    (∃ a, s.pending state = some a ∧ r = .ok a.row ∧ s' = s.consumed t a) ∨
      (∃ e, r = .error e) ∧ (s' = s ∨ s' = s.removed state) := by
  obtain ⟨reply, h⟩ := h
  change Store.consume t state s reply = some (r, s') at h
  unfold Store.consume at h
  split at h
  · split at h
    · rename_i a ha
      obtain ⟨rfl, rfl⟩ := Prod.mk.inj (Option.some.inj h)
      exact .inl ⟨a, ha, rfl, rfl⟩
    · obtain ⟨rfl, rfl⟩ := Prod.mk.inj (Option.some.inj h)
      exact .inr ⟨⟨_, rfl⟩, .inl rfl⟩
  · obtain ⟨rfl, rfl⟩ := Prod.mk.inj (Option.some.inj h)
    exact .inr ⟨⟨_, rfl⟩, .inl rfl⟩
  · obtain ⟨rfl, rfl⟩ := Prod.mk.inj (Option.some.inj h)
    exact .inr ⟨⟨_, rfl⟩, .inr rfl⟩
  · simp at h

lemma exec_exchange {code codeVerifier : Bytes} {r : SsoRes (.exchange code codeVerifier)}
    (h : Exec t (.exchange code codeVerifier) s r s') : s' = s := by
  obtain ⟨reply, h⟩ := h
  exact tokenResponse_eq_some h

lemma exec_verify {rawIDToken : Bytes} {r : SsoRes (.verify rawIDToken)}
    (h : Exec t (.verify rawIDToken) s r s') :
    (∃ idToken, r = .ok idToken ∧ s' = s.note (.verified t idToken)) ∨
      (∃ e, r = .error e) ∧ s' = s := by
  obtain ⟨reply, h⟩ := h
  change Store.verification t s reply = some (r, s') at h
  unfold Store.verification at h
  split at h
  · obtain ⟨rfl, rfl⟩ := Prod.mk.inj (Option.some.inj h)
    exact .inl ⟨_, rfl, rfl⟩
  · obtain ⟨rfl, rfl⟩ := Prod.mk.inj (Option.some.inj h)
    exact .inr ⟨⟨_, rfl⟩, rfl⟩
  · simp at h

lemma exec_createSession {arg : CreateSessionParams} {r : SsoRes (.createSession arg)}
    (h : Exec t (.createSession arg) s r s') : s' = s ∨ s' = s.created t arg := by
  obtain ⟨reply, h⟩ := h
  exact statement_eq_some h

lemma exec_getActiveSession {idHash : Bytes} {cutoff : ℤ}
    {r : SsoRes (.getActiveSession idHash cutoff)}
    (h : Exec t (.getActiveSession idHash cutoff) s r s') :
    (∃ x, s.active idHash cutoff = some x ∧ r = .ok x.row ∧
      s' = s.note (.found t x cutoff s.clock)) ∨ (∃ e, r = .error e) ∧ s' = s := by
  obtain ⟨reply, h⟩ := h
  change Store.lookup t idHash cutoff s reply = some (r, s') at h
  unfold Store.lookup at h
  split at h
  · split at h
    · rename_i x hx
      obtain ⟨rfl, rfl⟩ := Prod.mk.inj (Option.some.inj h)
      exact .inl ⟨x, hx, rfl, rfl⟩
    · obtain ⟨rfl, rfl⟩ := Prod.mk.inj (Option.some.inj h)
      exact .inr ⟨⟨_, rfl⟩, rfl⟩
  · obtain ⟨rfl, rfl⟩ := Prod.mk.inj (Option.some.inj h)
    exact .inr ⟨⟨_, rfl⟩, rfl⟩
  · simp at h

lemma exec_touchSession {idHash : Bytes} {r : SsoRes (.touchSession idHash)}
    (h : Exec t (.touchSession idHash) s r s') : s' = s ∨ s' = s.touched idHash := by
  obtain ⟨reply, h⟩ := h
  exact statement_eq_some h

lemma exec_revokeSession {idHash : Bytes} {r : SsoRes (.revokeSession idHash)}
    (h : Exec t (.revokeSession idHash) s r s') : s' = s ∨ s' = s.revoked idHash := by
  obtain ⟨reply, h⟩ := h
  exact statement_eq_some h

lemma exec_deleteExpiredLoginAttempts {r : SsoRes .deleteExpiredLoginAttempts}
    (h : Exec t .deleteExpiredLoginAttempts s r s') : s' = s ∨ s' = s.attemptsExpired := by
  obtain ⟨reply, h⟩ := h
  exact statement_eq_some h

lemma exec_deleteExpiredSessions {r : SsoRes .deleteExpiredSessions}
    (h : Exec t .deleteExpiredSessions s r s') : s' = s ∨ s' = s.sessionsExpired := by
  obtain ⟨reply, h⟩ := h
  exact statement_eq_some h

end Inversion

/-- What thread `u` keeps while it works on one attempt. -/
structure Grows (u : ℕ) (s s' : Store) : Prop where
  history : s.history <:+ s'.history
  clock : s.clock ≤ s'.clock
  ticket : s'.ticket u = s.ticket u

/-- What thread `u` may rely on of the others. -/
structure Keeps (u : ℕ) (s s' : Store) : Prop extends Grows u s s' where
  calls : ∀ c, .received u c ∈ s'.history → .received u c ∈ s.history

section Frames
variable {u : ℕ}

lemma Keeps.refl (u : ℕ) (s : Store) : Keeps u s s :=
  ⟨⟨List.suffix_rfl, le_rfl, rfl⟩, fun _ h => h⟩

lemma Keeps.trans {a b c : Store} (h : Keeps u a b) (g : Keeps u b c) : Keeps u a c :=
  ⟨⟨h.history.trans g.history, h.clock.trans g.clock, g.ticket.trans h.ticket⟩,
    fun x hx => h.calls x (g.calls x hx)⟩

/-- Tables and history change, but nothing of thread `u`. -/
lemma keeps_append {new : List Event} (hhistory : s'.history = new ++ s.history)
    (hclock : s'.clock = s.clock) (hticket : s'.ticket u = s.ticket u)
    (hnew : ∀ c, .received u c ∉ new) : Keeps u s s' := by
  refine ⟨⟨hhistory ▸ List.suffix_append _ _, hclock.ge, hticket⟩, fun c hc => ?_⟩
  rw [hhistory] at hc
  exact (List.mem_append.mp hc).resolve_left (hnew c)

lemma keeps_tables (hhistory : s'.history = s.history) (hclock : s'.clock = s.clock)
    (hticket : s'.ticket u = s.ticket u) : Keeps u s s' := by
  refine ⟨⟨hhistory ▸ List.suffix_rfl, hclock.ge, hticket⟩, fun c hc => ?_⟩
  exact hhistory ▸ hc

lemma keeps_note {e : Event} (he : ∀ c, e ≠ .received u c) : Keeps u s (s.note e) := by
  have hnew : ∀ c, .received u c ∉ [e] := fun c hc => he c (List.mem_singleton.mp hc).symm
  exact keeps_append rfl rfl rfl hnew

lemma keeps_attempted (arg : CreateLoginAttemptParams) : Keeps u s (s.attempted t arg) := by
  rw [Store.attempted]
  split
  · have hnew : ∀ c, .received u c ∉ [Event.attempted t s.serial arg.state] := by simp
    exact keeps_append rfl rfl rfl hnew
  · exact .refl u s

lemma keeps_consumed (a : LoginAttempt) (hu : t ≠ u) : Keeps u s (s.consumed t a) := by
  have hnew : ∀ c, .received u c ∉ [Event.consumed t a.serial a.state] := by simp
  exact keeps_append rfl rfl (Function.update_of_ne hu.symm _ _) hnew

lemma keeps_created (arg : CreateSessionParams) (hu : t ≠ u) : Keeps u s (s.created t arg) := by
  rw [Store.created]
  split
  · have hnew : ∀ c, .received u c ∉ [Event.created t (s.ticket t) (s.inserted arg)] := by simp
    exact keeps_append rfl rfl (Function.update_of_ne hu.symm _ _) hnew
  · exact .refl u s

lemma keeps_touched (idHash : Bytes) : Keeps u s (s.touched idHash) :=
  keeps_append rfl rfl rfl (by simp)

lemma keeps_revoked (idHash : Bytes) : Keeps u s (s.revoked idHash) :=
  keeps_append rfl rfl rfl (by simp)

lemma history_created (arg : CreateSessionParams) :
    s.history <:+ (s.created t arg).history := by
  rw [Store.created]
  split
  · exact List.suffix_cons _ _
  · exact List.suffix_rfl

lemma keeps_env (u : ℕ) (h : Store.machine.semantics.env s s') : Keeps u s s' := by
  obtain ⟨f, h⟩ := h
  cases f with
  | tick d =>
    obtain rfl := Option.some.inj h
    exact ⟨⟨List.suffix_rfl, by simp, rfl⟩, fun _ hc => hc⟩
  | discover =>
    obtain rfl := Option.some.inj h
    exact ⟨⟨List.suffix_rfl, le_rfl, rfl⟩, fun _ hc => hc⟩

lemma inv_env (h : Inv svc s) (he : Store.machine.semantics.env s s') : Inv svc s' := by
  obtain ⟨f, he⟩ := he
  cases f with
  | tick d =>
    obtain rfl := Option.some.inj he
    exact h.tick d
  | discover =>
    obtain rfl := Option.some.inj he
    exact h.discover

end Frames

/-- A thread that has not been started has received nothing. -/
def discipline (svc : Service) : Discipline Store.machine.semantics where
  inv := Inv svc
  fresh t s := ∀ c, .received t c ∉ s.history
  guar t _ s _ s' := s.history <:+ s'.history ∧ ∀ u, t ≠ u → Keeps u s s'
  rely := Keeps
  rely_refl := Keeps.refl
  rely_trans _ _ _ _ := Keeps.trans
  rely_guar _ u _ _ _ _ hu _ h := h.2 u hu
  rely_env u _ _ _ he := keeps_env u he
  rely_lose _ u s _ _ := .refl u s
  fresh_rely _ _ _ hf h c hc := hf c (h.calls c hc)
  inv_env _ _ := inv_env
  inv_lose _ _ h := h

section Rules
variable {α : Type} {A : Store → Prop} {p : SsoProg α} {B : α → Store → Prop}

/-- What is in the history stays there. -/
lemma wp_past {e : Event} (he : e ∈ s.history) (h : (discipline svc).wp t p B s) :
    (discipline svc).wp t p (fun a s => e ∈ s.history ∧ B a s) s := by
  induction p generalizing s with
  | ret a => exact fun s' hr hi => ⟨hr.history.subset he, h s' hr hi⟩
  | call op k ih =>
    intro s₁ hr hi r s₂ hx
    obtain ⟨hi₂, hg, hk⟩ := h s₁ hr hi r s₂ hx
    exact ⟨hi₂, hg, ih r (hg.1.subset (hr.history.subset he)) hk⟩

lemma holds_past {e : Event} (h : (discipline svc).Holds t A p B) :
    (discipline svc).Holds t (fun s => e ∈ s.history ∧ A s) p fun a s => e ∈ s.history ∧ B a s :=
  fun s hi hA => wp_past hA.1 (h s hi hA.2)

/-- Assertions about the history, the clock and the thread's attempt. -/
def Steady (t : ℕ) (A : Store → Prop) : Prop := ∀ s s', A s → Grows t s s' → A s'

lemma Steady.stable (h : Steady t A) : (discipline svc).Stable t A :=
  fun s s' hA hr => h s s' hA hr.toGrows

lemma steady_past (t : ℕ) (e : Event) : Steady t fun s => e ∈ s.history :=
  fun _ _ he h => h.history.subset he

lemma Steady.and {A' : Store → Prop} (h : Steady t A) (h' : Steady t A') :
    Steady t fun s => A s ∧ A' s :=
  fun s s' hA hg => ⟨h s s' hA.1 hg, h' s s' hA.2 hg⟩

lemma steady_true (t : ℕ) : Steady t fun _ => True := fun _ _ _ _ => trivial

/-- An operation that changes nothing of any thread. -/
lemma holds_quiet {op : SsoOp} {C : SsoRes op → Store → Prop} (hA : Steady t A)
    (hC : ∀ r, Steady t (C r))
    (hop : ∀ s r s', Inv svc s → A s → Exec t op s r s' →
      Inv svc s' ∧ (∀ u, Keeps u s s') ∧ C r s') :
    (discipline svc).Holds t A (perform op) fun r s => A s ∧ C r s := by
  refine holds_call hA.stable (fun s r s' hi hs hx => ?_) fun r =>
    holds_ret (hA.and (hC r)).stable fun s _ h => h
  obtain ⟨hi', hkeep, hc⟩ := hop s r s' hi hs hx
  exact ⟨hi', ⟨(hkeep t).history, fun u _ => hkeep u⟩, hA s s' hs (hkeep t).toGrows, hc⟩

lemma holds_step {op : SsoOp} (hA : Steady t A)
    (hop : ∀ s r s', Inv svc s → A s → Exec t op s r s' → Inv svc s' ∧ ∀ u, Keeps u s s') :
    (discipline svc).Holds t A (perform op) fun _ s => A s := by
  have hquiet : (discipline svc).Holds t A (perform op) fun _ s => A s ∧ True := by
    refine holds_quiet hA (fun _ => steady_true t) fun s r s' hi hs hx => ?_
    obtain ⟨hi', hkeep⟩ := hop s r s' hi hs hx
    exact ⟨hi', hkeep, trivial⟩
  exact holds_mono hquiet (fun _ _ h => h) fun _ _ _ h => h.1

lemma holds_idle {op : SsoOp} (hA : Steady t A)
    (hop : ∀ s r s', Exec t op s r s' → s' = s) :
    (discipline svc).Holds t A (perform op) fun _ s => A s := by
  refine holds_step hA fun s r s' hi _ hx => ?_
  obtain rfl := hop s r s' hx
  exact ⟨hi, fun u => .refl u s'⟩

lemma holds_receive (c : Call) : (discipline svc).Holds t (fun s => ∀ c, .received t c ∉ s.history)
    (perform (SsoOp.receive c)) fun _ s => .received t c ∈ s.history := by
  refine holds_call (fun s s' hf hr c hc => hf c (hr.calls c hc)) (fun s r s' hi hf hx => ?_)
    fun _ => holds_ret (steady_past t _).stable fun _ _ h => h
  obtain rfl := exec_receive hx
  refine ⟨hi.note rfl (by simp) hf, ⟨List.suffix_cons _ _, fun u hu => keeps_note ?_⟩,
    List.mem_cons_self⟩
  intro c' heq
  exact hu (Event.received.inj heq).1

lemma holds_now (hA : Steady t A) : (discipline svc).Holds t A now fun time s =>
    A s ∧ .read t time ∈ s.history ∧ time ≤ s.clock := by
  refine holds_quiet hA (fun time => ?_) fun s r s' hi _ hx => ?_
  · exact (steady_past t _).and fun _ _ hle hg => hle.trans hg.clock
  · obtain ⟨rfl, rfl⟩ := exec_now hx
    exact ⟨hi.note rfl (by simp) trivial, fun u => keeps_note (by simp), List.mem_cons_self, le_rfl⟩

lemma holds_client (hA : Steady t A) : (discipline svc).Holds t A client fun _ s => A s :=
  holds_idle hA fun _ _ _ => exec_client

lemma holds_randomToken (hA : Steady t A) :
    (discipline svc).Holds t A randomToken fun _ s => A s :=
  holds_idle hA fun _ _ _ => exec_randomToken

lemma holds_createLoginAttempt {b : ℕ} {r : Proxy.Request} (arg : CreateLoginAttemptParams) :
    (discipline svc).Holds t (fun s => .received t (.login b r) ∈ s.history)
      (createLoginAttempt arg) fun _ s => .received t (.login b r) ∈ s.history := by
  refine holds_step (steady_past t _) fun s _ s' hi hs hx => ?_
  rcases exec_createLoginAttempt hx with rfl | rfl
  · exact ⟨hi, fun u => .refl u s'⟩
  · exact ⟨hi.attempted ⟨b, r, hs⟩ arg, fun u => keeps_attempted arg⟩

/-- The thread has deleted an attempt and not made a session of it. -/
def Holding (t n : ℕ) (state : Bytes) (s : Store) : Prop :=
  .consumed t n state ∈ s.history ∧ s.ticket t = some n

lemma steady_holding (t n : ℕ) (state : Bytes) : Steady t (Holding t n state) :=
  (steady_past t _).and fun _ _ hn hg => hg.ticket.trans hn

lemma holds_consumeLoginAttempt {b : ℕ} {r : Proxy.Request} :
    (discipline svc).Holds t (fun s => .received t (.callback b r) ∈ s.history)
      (consumeLoginAttempt (param r (lit "state")))
      fun answer s => ∀ row, answer = .ok row → ∃ n state, Holding t n state s := by
  have hsteady : ∀ answer : Except GoError ConsumeLoginAttemptRow, Steady t fun s =>
      ∀ row, answer = .ok row → ∃ n state, Holding t n state s := by
    intro answer s s' h hg row hrow
    obtain ⟨n, state, hold⟩ := h row hrow
    exact ⟨n, state, steady_holding t n state s s' hold hg⟩
  refine holds_call (steady_past t _).stable (fun s answer s' hi hs hx => ?_)
    fun answer => holds_ret (hsteady answer).stable fun _ _ h => h
  rcases exec_consumeLoginAttempt hx with ⟨a, ha, -, rfl⟩ | ⟨⟨e, rfl⟩, rfl | rfl⟩
  · exact ⟨hi.consumed ha ⟨b, r, hs, rfl⟩, ⟨List.suffix_cons _ _, fun u hu => keeps_consumed a hu⟩,
      fun _ _ => ⟨a.serial, a.state, List.mem_cons_self, Function.update_self ..⟩⟩
  · exact ⟨hi, ⟨List.suffix_rfl, fun u _ => .refl u s'⟩, by simp⟩
  · exact ⟨hi.removeAttempts _, ⟨List.suffix_rfl, fun u _ => keeps_tables rfl rfl rfl⟩, by simp⟩

lemma holds_exchange (hA : Steady t A) (code codeVerifier : Bytes) :
    (discipline svc).Holds t A (exchange code codeVerifier) fun _ s => A s :=
  holds_idle hA fun _ _ _ => exec_exchange

lemma holds_verify (hA : Steady t A) (rawIDToken : Bytes) :
    (discipline svc).Holds t A (verify rawIDToken) fun answer s =>
      A s ∧ ∀ idToken, answer = .ok idToken → .verified t idToken ∈ s.history := by
  refine holds_quiet hA (fun answer s s' h hg idToken heq => ?_) fun s r s' hi _ hx => ?_
  · exact hg.history.subset (h idToken heq)
  · rcases exec_verify hx with ⟨idToken, rfl, rfl⟩ | ⟨⟨e, rfl⟩, rfl⟩
    · refine ⟨hi.note rfl (by simp) trivial, fun u => keeps_note (by simp), fun idToken' heq => ?_⟩
      obtain rfl := Except.ok.inj heq
      exact List.mem_cons_self
    · exact ⟨hi, fun u => .refl u s', by simp⟩

lemma holds_createSession {n : ℕ} {state : Bytes} {idToken : IDToken} {claims : Claims}
    {role : Proxy.Role} {time : ℤ} (arg : CreateSessionParams)
    (hclaims : idToken.claims = .ok claims) (hemail : identityFrom svc claims = .ok arg.email)
    (hrole : roleFrom svc claims = some role) (htext : arg.role = roleText role)
    (hexpiry : arg.expiresAt = time + svc.cfg.sessionTTL) :
    (discipline svc).Holds t (fun s => (Holding t n state s ∧ .verified t idToken ∈ s.history) ∧
      .read t time ∈ s.history ∧ time ≤ s.clock) (createSession arg) fun _ _ => True := by
  have hsteady : Steady t fun s => (Holding t n state s ∧ .verified t idToken ∈ s.history) ∧
      .read t time ∈ s.history ∧ time ≤ s.clock :=
    ((steady_holding t n state).and (steady_past t _)).and
      ((steady_past t _).and fun _ _ hle hg => hle.trans hg.clock)
  refine holds_call hsteady.stable (fun s r s' hi hs hx => ?_)
    fun _ => holds_ret (Stable.pure True) fun _ _ h => h
  obtain ⟨⟨⟨-, hticket⟩, hverified⟩, -, hle⟩ := hs
  rcases exec_createSession hx with rfl | rfl
  · exact ⟨hi, ⟨List.suffix_rfl, fun u _ => .refl u s'⟩, trivial⟩
  · refine ⟨hi.created hticket ⟨idToken, claims, role, hverified, hclaims, hemail, hrole, htext⟩ ?_,
      ⟨history_created arg, fun u hu => keeps_created arg hu⟩, trivial⟩
    rw [hexpiry]
    exact Int.add_le_add_right hle _

lemma holds_getActiveSession {time : ℤ} (idHash : Bytes) :
    (discipline svc).Holds t (fun s => .read t time ∈ s.history ∧ time ≤ s.clock)
      (getActiveSession idHash (time - svc.cfg.sessionIdleTTL)) fun answer s =>
        ∀ row, answer = .ok row → ∃ x cutoff found, .found t x cutoff found ∈ s.history ∧
          x.idHash = idHash ∧ x.row = row := by
  have hreading : Steady t fun s => .read t time ∈ s.history ∧ time ≤ s.clock :=
    (steady_past t _).and fun _ _ hle hg => hle.trans hg.clock
  have hsteady : ∀ answer : Except GoError GetActiveSessionRow, Steady t fun s =>
      ∀ row, answer = .ok row → ∃ x cutoff found, .found t x cutoff found ∈ s.history ∧
        x.idHash = idHash ∧ x.row = row := by
    intro answer s s' h hg row hrow
    obtain ⟨x, cutoff, found, hfound, hx⟩ := h row hrow
    exact ⟨x, cutoff, found, hg.history.subset hfound, hx⟩
  refine holds_mono (holds_quiet hreading hsteady fun s r s' hi hs hx => ?_) (fun _ _ h => h)
    fun _ _ _ h => h.2
  rcases exec_getActiveSession hx with ⟨x, hactive, rfl, rfl⟩ | ⟨⟨e, rfl⟩, rfl⟩
  · refine ⟨hi.note rfl (by simp) (hi.active hactive hs.1 hs.2), fun u => keeps_note (by simp),
      fun row hrow => ?_⟩
    exact ⟨x, _, _, List.mem_cons_self, (active_eq_some hactive).2.1, Except.ok.inj hrow⟩
  · exact ⟨hi, fun u => .refl u s', by simp⟩

lemma holds_touchSession (hA : Steady t A) (idHash : Bytes) :
    (discipline svc).Holds t A (touchSession idHash) fun _ s => A s := by
  refine holds_bind (holds_step hA fun s r s' hi _ hx => ?_)
    fun _ => holds_ret hA.stable fun _ _ h => h
  rcases exec_touchSession hx with rfl | rfl
  · exact ⟨hi, fun u => .refl u s'⟩
  · exact ⟨hi.touched idHash, fun u => keeps_touched idHash⟩

lemma holds_revokeSession (hA : Steady t A) (idHash : Bytes) :
    (discipline svc).Holds t A (revokeSession idHash) fun _ s => A s := by
  refine holds_step hA fun s r s' hi _ hx => ?_
  rcases exec_revokeSession hx with rfl | rfl
  · exact ⟨hi, fun u => .refl u s'⟩
  · exact ⟨hi.revoked idHash, fun u => keeps_revoked idHash⟩

lemma holds_deleteExpired (hA : Steady t A) :
    (discipline svc).Holds t A deleteExpired fun _ s => A s := by
  refine holds_bind (holds_step hA fun s r s' hi _ hx => ?_) fun _ =>
    holds_bind (holds_step hA fun s r s' hi _ hx => ?_) fun _ =>
      holds_ret hA.stable fun _ _ h => h
  · rcases exec_deleteExpiredLoginAttempts hx with rfl | rfl
    · exact ⟨hi, fun u => .refl u s'⟩
    · exact ⟨hi.removeAttempts _, fun u => keeps_tables rfl rfl rfl⟩
  · rcases exec_deleteExpiredSessions hx with rfl | rfl
    · exact ⟨hi, fun u => .refl u s'⟩
    · exact ⟨hi.removeSessions _, fun u => keeps_tables rfl rfl rfl⟩

end Rules

end KiteRail.Sso
