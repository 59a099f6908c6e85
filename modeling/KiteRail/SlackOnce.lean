import KiteRail.QuarantineOpen
import KiteRail.QuarantineSafety
import KiteRail.SlackAuthority

/-! One click, one decision. The endpoint decides on the quarantine table that the console, the
proxy and the replay worker share. Slack may deliver a signed interaction again; within five
minutes of its timestamp only the status of the entry stands against a second decision, and
parking the entry opens it. So a click decides once as long as entries are parked late. -/
namespace KiteRail.Slack
open Bytes GoStrings GoStrconv QuarantineStore Prog
open Replay (World Serves Event)

/-- The handler as the decider of the endpoint. -/
def decider (lib : UuidLib) (h : QuarantineHandler.Handler) : Decider Op Res :=
  ⟨QuarantineHandler.approve lib h, QuarantineHandler.deny lib h⟩

/-- The programs of a deployment with the endpoint. -/
inductive Deployment (lib : UuidLib) (table : CaseTable) (cfg : Config) (rcfg : Replay.Config) :
    AppProg Res (Option Outcome) → Prop
  | slack (h : QuarantineHandler.Handler) :
      Deployment lib table cfg rcfg (serve table (decider lib h) (new table cfg))
  | other {p : Eff Unit} (hp : Serves lib rcfg p) :
      Deployment lib table cfg rcfg (embed p >>= fun _ => .ret none)

/-- What two deliveries of one signed interaction have in common. -/
structure Identity where
  timestamp : Bytes
  signature : Bytes
  body : Option Bytes
  deriving DecidableEq

def Request.identity (r : Request) : Identity :=
  ⟨r.header.get (lit "X-Slack-Request-Timestamp"), r.header.get (lit "X-Slack-Signature"),
    (r.body.readAll maxBody).toOption⟩

/-- The interaction that a call serves. -/
def Desk.serving (d : Desk) (t : ℕ) : Option Identity := (d.served t).map Request.identity

/-- The committed decisions that an interaction caused. -/
def decisions (s : Floor World) (k : Identity) : ℕ :=
  s.inner.hist.countP fun e => e.2.decision.isSome && s.desk.serving e.1 == some k

/-- At this time the interaction is older than five minutes. -/
def Identity.Expired (k : Identity) (now : ℕ) : Prop :=
  ∀ ts, parseInt k.timestamp = some ts → maxSignatureAge < now - ts * 1000000000

/-- What must hold when an entry is parked: the interactions that decided it have expired, and
no delivery of them is still being served. -/
def Calm (s : Floor World) (id : UUID) : Prop :=
  ∀ u e k, (u, e) ∈ s.inner.hist → e.decision = some id → s.desk.serving u = some k →
    k.Expired s.desk.clock ∧ ∀ v, s.desk.serving v = some k → v ∈ s.desk.gone

/-- Entries are parked only when all is calm. -/
def ParksLate (_ : ℕ) (op : AppOp Op) (s : Floor World) (_ : AppRes Res op) (_ : Floor World) :
    Prop :=
  ∀ id site, op = .inner (.markReplayFailed id site) → Calm s id

def lateParks (lib : UuidLib) : Semantics (AppOp Op) (AppRes Res) (Floor World) :=
  (machine (World.machine lib)).semantics.given ParksLate

/-- The entry that the interaction's button names. -/
def Identity.Targets (lib : UuidLib) (k : Identity) (id : UUID) : Prop :=
  ∃ raw i act, k.body = some raw ∧ payload raw = some i ∧ i.action = some act ∧
    parseQuarantineID lib act.value = .ok id

/-- No delivery of the interaction can decide any more. -/
def Desk.Spent (d : Desk) (k : Identity) : Prop :=
  k.Expired d.clock ∧ ∀ v, d.serving v = some k →
    v ∈ d.gone ∨ ∀ n, (v, n) ∈ d.readings → k.Expired n

/-- The invariant: an interaction that has decided an entry found it open, and either the entry
is still closed or no delivery of the interaction can decide any more. -/
structure Once (lib : UuidLib) (table : CaseTable) (s : Floor World) : Prop where
  good : s.desk.Good table
  targets : ∀ u e k id, (u, e) ∈ s.inner.hist → e.decision = some id →
    s.desk.serving u = some k → k.Targets lib id
  settled : ∀ u e k id, (u, e) ∈ s.inner.hist → e.decision = some id →
    s.desk.serving u = some k → s.inner.Closed id ∨ s.desk.Spent k
  once : ∀ k, decisions s k ≤ 1

section Keys
variable {lib : UuidLib} {table : CaseTable} {cfg : Config} {d d' : Desk} {t : ℕ} {k : Identity}

lemma Identity.Targets.unique {id id' : UUID} (h : k.Targets lib id) (h' : k.Targets lib id') :
    id = id' := by
  obtain ⟨raw, i, act, hraw, hi, hact, hid⟩ := h
  obtain ⟨raw', i', act', hraw', hi', hact', hid'⟩ := h'
  obtain rfl := Option.some.inj (hraw.symm.trans hraw')
  obtain rfl := Option.some.inj (hi.symm.trans hi')
  obtain rfl := Option.some.inj (hact.symm.trans hact')
  exact Except.ok.inj (hid.symm.trans hid')

lemma Identity.Expired.mono {n n' : ℕ} (h : k.Expired n) (hle : n ≤ n') : k.Expired n' := by
  intro ts hts
  have hlt := h ts hts
  omega

/-- A delivery that was cleared and is still being served can decide. -/
lemma Cleared.not_spent {approving : Bool} {id email : Bytes}
    (h : Cleared table cfg d t approving id email) (hlive : t ∉ d.gone)
    (hk : d.serving t = some k) : ¬ d.Spent k := by
  obtain ⟨r, raw, user, ⟨hr, -, -, -, ts, now, hts, hnow, -, hage⟩, -⟩ := h
  rintro ⟨-, hspent⟩
  obtain rfl : r.identity = k := by simpa [Desk.serving, hr] using hk
  rcases hspent t hk with hgone | hread
  · exact hlive hgone
  · exact absurd (hread now hnow ts hts) (not_lt.mpr hage)

lemma Cleared.targets {approving : Bool} {id email : Bytes} {qid : UUID}
    (h : Cleared table cfg d t approving id email) (hk : d.serving t = some k)
    (hid : parseQuarantineID lib id = .ok qid) : k.Targets lib qid := by
  obtain ⟨r, raw, user, ⟨hr, -, hraw, -⟩, ⟨i, hi, -, -, hact, -⟩, -⟩ := h
  obtain rfl : r.identity = k := by simpa [Desk.serving, hr] using hk
  exact ⟨raw, i, _, by simp [Request.identity, hraw, Except.toOption], hi, hact, hid⟩

/-- Later readings and new arrivals do not revive an interaction. -/
lemma Desk.Spent.mono (h : d.Spent k) (hclock : d.clock ≤ d'.clock) (hgone : d.gone ⊆ d'.gone)
    (hread : ∀ v n, (v, n) ∈ d'.readings → (v, n) ∈ d.readings ∨ n = d.clock)
    (hserving : ∀ v, d'.serving v = d.serving v ∨ ∀ n, (v, n) ∉ d.readings) : d'.Spent k := by
  refine ⟨h.1.mono hclock, fun v hv => ?_⟩
  rcases hserving v with hsame | hunread
  · refine (h.2 v (hsame ▸ hv)).imp (fun hmem => hgone hmem) fun hexpired n hn => ?_
    rcases hread v n hn with hold | rfl
    · exact hexpired n hold
    · exact h.1
  · refine .inr fun n hn => ?_
    rcases hread v n hn with hold | rfl
    · exact absurd hold (hunread n)
    · exact h.1

end Keys

section Invariant
variable {lib : UuidLib} {table : CaseTable} {s s' : Floor World} {t : ℕ}

/-- A change of the endpoint keeps the invariant if it leaves the calls that decided alone and
revives no interaction. -/
lemma Once.moved (hi : Once lib table s) (hgood : s'.desk.Good table)
    (hinner : s'.inner = s.inner)
    (hserving : ∀ u e, (u, e) ∈ s.inner.hist → s'.desk.serving u = s.desk.serving u)
    (hspent : ∀ k, s.desk.Spent k → s'.desk.Spent k) : Once lib table s' where
  good := hgood
  targets u e k id hmem he hk := by
    rw [hinner] at hmem
    exact hi.targets u e k id hmem he (hserving u e hmem ▸ hk)
  settled u e k id hmem he hk := by
    rw [hinner] at hmem ⊢
    exact (hi.settled u e k id hmem he (hserving u e hmem ▸ hk)).imp_right (hspent k)
  once k := by
    have hsame : decisions s' k = decisions s k := by
      rw [decisions, hinner]
      refine List.countP_congr fun e he => ?_
      rw [hserving e.1 e.2 he]
    exact hsame ▸ hi.once k

/-- A call that may still decide has not decided under its interaction. -/
lemma Once.decisions_eq_zero (hi : Once lib table s) {k : Identity} {id : UUID}
    (hopen : ¬ s.inner.Closed id) (htarget : k.Targets lib id) (hlive : ¬ s.desk.Spent k) :
    decisions s k = 0 := by
  rw [decisions, List.countP_eq_zero]
  rintro ⟨u, e⟩ hmem hcounted
  simp only [Bool.and_eq_true, beq_iff_eq] at hcounted
  obtain ⟨id', hid'⟩ := Option.isSome_iff_exists.mp hcounted.1
  obtain rfl := htarget.unique (hi.targets u e k id' hmem hid' hcounted.2)
  exact (hi.settled u e k id hmem hid' hcounted.2).elim hopen hlive

/-- An operation on the quarantine keeps the invariant if a decision is one that the call may
make and a park is late. -/
lemma Once.inner (hi : Once lib table s) {op : Op} {r : Res op} {w : World}
    (hx : (World.machine lib).semantics.exec t op s.inner r w)
    (hpark : ∀ id site, op = .markReplayFailed id site → Calm s id)
    (hmay : ∀ id k, Replay.ruling op = some id → s.desk.serving t = some k →
      k.Targets lib id ∧ ¬ s.desk.Spent k) : Once lib table { s with inner := w } := by
  have hstays : ∀ u e k id, (u, e) ∈ s.inner.hist → e.decision = some id →
      s.desk.serving u = some k → w.Closed id ∨ s.desk.Spent k := by
    intro u e k id hmem he hk
    by_cases hop : ∃ site, op = .markReplayFailed id site
    · obtain ⟨site, hop⟩ := hop
      obtain ⟨hexpired, hgone⟩ := hpark id site hop u e k hmem he hk
      exact .inr ⟨hexpired, fun v hv => .inl (hgone v hv)⟩
    · refine (hi.settled u e k id hmem he hk).imp_left fun hclosed => ?_
      exact Replay.exec_closed hx hclosed fun site hsite => hop ⟨site, hsite⟩
  cases Replay.exec_commits hx with
  | silent new hhist hnew =>
    have hold : ∀ u (e : Event) id, (u, e) ∈ w.hist → e.decision = some id →
        (u, e) ∈ s.inner.hist := by
      intro u e id hmem he
      rw [hhist] at hmem
      refine (List.mem_append.mp hmem).resolve_right fun hmem => ?_
      simp [(hnew _ hmem).2] at he
    refine ⟨hi.good, fun u e k id hmem he => hi.targets u e k id (hold u e id hmem he) he,
      fun u e k id hmem he => hstays u e k id (hold u e id hmem he) he, fun k => ?_⟩
    have hnone : new.countP (fun e => e.2.decision.isSome && s.desk.serving e.1 == some k) = 0 :=
      List.countP_eq_zero.mpr fun e he => by simp [(hnew e he).2]
    simpa [decisions, hhist, hnone] using hi.once k
  | decision id e hop he hopen hclosed hhist =>
    refine ⟨hi.good, fun u e' k id' hmem he' hk => ?_, fun u e' k id' hmem he' hk => ?_,
      fun k => ?_⟩
    · rw [hhist] at hmem
      rcases List.mem_append.mp hmem with hmem | hmem
      · exact hi.targets u e' k id' hmem he' hk
      · obtain ⟨rfl, rfl⟩ := Prod.mk.inj (List.mem_singleton.mp hmem)
        obtain rfl := Option.some.inj (he.symm.trans he')
        exact (hmay id k hop hk).1
    · rw [hhist] at hmem
      rcases List.mem_append.mp hmem with hmem | hmem
      · exact hstays u e' k id' hmem he' hk
      · obtain ⟨rfl, rfl⟩ := Prod.mk.inj (List.mem_singleton.mp hmem)
        obtain rfl := Option.some.inj (he.symm.trans he')
        exact .inl hclosed
    · by_cases hk : s.desk.serving t = some k
      · obtain ⟨htarget, hlive⟩ := hmay id k hop hk
        have hzero := hi.decisions_eq_zero hopen htarget hlive
        rw [decisions] at hzero
        simp [decisions, hhist, hzero, he, hk]
      · simpa [decisions, hhist, hk] using hi.once k

end Invariant

/-- What the others do, as a call sees it. -/
structure Interferes (t : ℕ) (s s' : Floor World) : Prop where
  sees : s.desk.Sees t s'.desk
  readings : ∀ n, (t, n) ∈ s'.desk.readings → (t, n) ∈ s.desk.readings
  hist : ∀ e, (t, e) ∈ s'.inner.hist → (t, e) ∈ s.inner.hist

structure Unborn (t : ℕ) (s : Floor World) : Prop where
  served : s.desk.served t = none
  live : t ∉ s.desk.gone
  readings : ∀ n, (t, n) ∉ s.desk.readings
  hist : ∀ e, (t, e) ∉ s.inner.hist

section Discipline
variable {lib : UuidLib} {table : CaseTable} {cfg : Config} {s s' : Floor World} {t u : ℕ}

lemma Interferes.refl (t : ℕ) (s : Floor World) : Interferes t s s :=
  ⟨.refl t _, fun _ => id, fun _ => id⟩

lemma Interferes.trans {a b c : Floor World} (h : Interferes t a b) (g : Interferes t b c) :
    Interferes t a c :=
  ⟨h.sees.trans g.sees, fun n => h.readings n ∘ g.readings n, fun e => h.hist e ∘ g.hist e⟩

lemma Unborn.interferes (h : Unborn t s) (g : Interferes t s s') : Unborn t s' :=
  ⟨g.sees.own.trans h.served, fun hmem => h.live (g.sees.stays hmem),
    fun n hmem => h.readings n (g.readings n hmem), fun e hmem => h.hist e (g.hist e hmem)⟩

lemma env_lateParks (h : (lateParks lib).env s s') :
    ∃ clock, s.desk.clock ≤ clock ∧ clock < maxClock ∧
      s' = { s with desk := { s.desk with clock := clock } } := by
  obtain ⟨f, hf⟩ := h
  cases f with
  | inner f => exact f.elim
  | tick clock =>
    simp only [machine, Floor.fault] at hf
    split_ifs at hf with hc
    exact ⟨clock, hc.1, hc.2, (Option.some.inj hf).symm⟩

lemma interferes_lose (hu : t ≠ u) : Interferes u s ((lateParks lib).lose t s) :=
  ⟨.ended hu, fun _ => id, fun _ => id⟩

/-- The end of a call, by loss or by its answer. -/
lemma Desk.Spent.ended {d : Desk} {k : Identity} (h : d.Spent k) : (d.ended t).Spent k :=
  h.mono le_rfl (List.subset_cons_self _ _) (fun _ _ => .inl) fun _ => .inl rfl

lemma Once.lose (hi : Once lib table s) : Once lib table ((lateParks lib).lose t s) := by
  have hended : Once lib table { s with desk := s.desk.ended t } :=
    hi.moved hi.good.ended rfl (fun _ _ _ => rfl) fun _ h => h.ended
  exact ⟨hended.good, hended.targets, hended.settled, hended.once⟩

def onceDiscipline (lib : UuidLib) (table : CaseTable) : Discipline (lateParks lib) where
  inv := Once lib table
  fresh := Unborn
  guar t _ s _ s' := ∀ u, t ≠ u → Interferes u s s'
  rely := Interferes
  rely_refl := .refl
  rely_trans _ _ _ _ h g := h.trans g
  rely_guar _ u _ _ _ _ hu _ hg := hg u hu
  rely_env u s s' _ he := by
    obtain ⟨clock, hle, -, rfl⟩ := env_lateParks he
    exact ⟨.ticked hle, fun _ => id, fun _ => id⟩
  rely_lose _ _ _ hu _ := interferes_lose hu
  fresh_rely _ _ _ hf hr := hf.interferes hr
  inv_env s s' hi he := by
    obtain ⟨clock, hle, hmax, rfl⟩ := env_lateParks he
    refine hi.moved (hi.good.ticked hle hmax) rfl (fun _ _ _ => rfl) fun k h => ?_
    exact h.mono hle (List.Subset.refl _) (fun _ _ => .inl) fun _ => .inl rfl
  inv_lose _ _ hi := hi.lose

lemma once_exec {op : AppOp Op} {r : AppRes Res op} (hi : Once lib table s)
    (hop : ∀ o, op ≠ .inner o) (hnew : op = .accept → Unborn t s)
    (hx : (machine (World.machine lib)).semantics.exec t op s r s')
    (hgood : s'.desk.Good table) : Once lib table s' ∧ ∀ u, t ≠ u → Interferes u s s' := by
  obtain ⟨hinner, hle, hsees⟩ := exec_desk hop hx
  obtain ⟨hgone, hread, hserved⟩ := exec_record hop hx
  have hserving : ∀ v, s'.desk.serving v = s.desk.serving v ∨ Unborn v s := by
    intro v
    by_cases hv : t = v
    · subst hv
      by_cases hacc : op = .accept
      · exact .inr (hnew hacc)
      · exact .inl (by rw [Desk.serving, hserved hacc, Desk.serving])
    · exact .inl (by rw [Desk.serving, (hsees v hv).own, Desk.serving])
  refine ⟨hi.moved hgood hinner (fun u e hmem => ?_) fun k h => ?_,
    fun u hu => ⟨hsees u hu, ?_, ?_⟩⟩
  · exact (hserving u).resolve_right fun hborn => hborn.hist e hmem
  · refine h.mono hle.clock hgone (fun v n hn => (hread v n hn).imp_right And.right) fun v => ?_
    exact (hserving v).imp_right Unborn.readings
  · exact fun n hn => (hread u n hn).resolve_right fun heq => hu heq.1.symm
  · exact fun e he => hinner ▸ he

lemma onceHosts (lib : UuidLib) (table : CaseTable) :
    Hosts table (World.machine lib) (onceDiscipline lib table) where
  exec _ _ _ _ _ h := h.1
  good _ h := h.good
  rely _ _ _ h := h.sees
  fresh _ _ h := ⟨h.served, h.live⟩
  accept _ _ _ _ hi hf hx hgood := once_exec hi (by simp) (fun _ => hf) hx.1 hgood
  desk _ _ _ _ _ hop hacc hi hx hgood :=
    once_exec hi hop (fun h => absurd h hacc) hx.1 hgood

/-- A program on the quarantine, on behalf of a call that may make the decisions in it. -/
lemma holds_embed {α : Type} {P : Op → Prop} {A : Desk → Prop} (hA : Lasting t A)
    (hmay : ∀ d op id k, A d → P op → Replay.ruling op = some id → d.serving t = some k →
      k.Targets lib id ∧ ¬ d.Spent k)
    (p : Eff α) (hp : p.Performs P) :
    (onceDiscipline lib table).Holds t (fun s => A s.desk) (embed p) (fun _ _ => True) := by
  have hst := (onceHosts lib table).stable hA
  induction p with
  | ret a => exact holds_trivial hst
  | call op next ih =>
    refine Discipline.holds_call hst (C := fun _ s' => A s'.desk) (fun s r s' hi h hx => ?_)
      fun r => ih r (hp.2 r)
    obtain ⟨w, hw, rfl⟩ := exec_inner hx.1
    have hcalm : ∀ id site, op = .markReplayFailed id site → Calm s id := fun id site hop =>
      hx.2 id site (congrArg AppOp.inner hop)
    refine ⟨hi.inner hw hcalm fun id k hop hk => hmay s.desk op id k h hp.1 hop hk, ?_, h⟩
    refine fun u hu => ⟨.refl u _, fun _ => id, fun e hmem => ?_⟩
    have hown : ∀ new : Replay.History, w.hist = s.inner.hist ++ new → (∀ x ∈ new, x.1 = t) →
        (u, e) ∈ s.inner.hist := by
      intro new hhist hnew
      change (u, e) ∈ w.hist at hmem
      rw [hhist] at hmem
      exact (List.mem_append.mp hmem).resolve_right fun hmem => hu (hnew _ hmem).symm
    cases Replay.exec_commits hw with
    | silent new hhist hnew => exact hown new hhist fun x hx => (hnew x hx).1
    | decision id e' _ _ _ _ hhist => exact hown _ hhist (by simp)

/-- A decision of the handler is on the entry that it was called for. -/
lemma performs_decideWith {h : QuarantineHandler.Handler} {id reviewerID decision rule : Bytes}
    {decide : Eff (Option GoError)}
    (hdecide : decide.Performs fun op => ∀ qid, Replay.ruling op = some qid →
      parseQuarantineID lib id = .ok qid) :
    (QuarantineHandler.decideWith lib h id reviewerID decide decision rule).Performs fun op =>
      ∀ qid, Replay.ruling op = some qid → parseQuarantineID lib id = .ok qid := by
  refine performs_bind ?_ fun entry => ?_
  · unfold QuarantineStore.get
    split
    · trivial
    · refine performs_bind (performs_perform (by simp [Replay.ruling])) fun m => ?_
      cases m <;> trivial
  · cases entry with
    | error err => trivial
    | ok entry =>
      refine performs_bind hdecide fun res => ?_
      cases res with
      | some err => trivial
      | none =>
        change (QuarantineHandler.appendLedger h entry reviewerID decision rule).Performs _
        unfold QuarantineHandler.appendLedger
        split
        · refine performs_bind (performs_perform (by simp [Replay.ruling])) fun res => ?_
          cases res <;> trivial
        · trivial

lemma performs_approve {h : QuarantineHandler.Handler} {id reviewerID : Bytes} :
    (QuarantineHandler.approve lib h id reviewerID).Performs fun op =>
      ∀ qid, Replay.ruling op = some qid → parseQuarantineID lib id = .ok qid := by
  refine performs_decideWith ?_
  unfold QuarantineStore.approve
  split
  · trivial
  · rename_i qid hid
    exact ⟨by simp [Replay.ruling], fun _ => ⟨by simp [Replay.ruling, hid], fun _ => trivial⟩⟩

lemma performs_deny {h : QuarantineHandler.Handler} {id reviewerID reason : Bytes} :
    (QuarantineHandler.deny lib h id reviewerID reason).Performs fun op =>
      ∀ qid, Replay.ruling op = some qid → parseQuarantineID lib id = .ok qid := by
  refine performs_decideWith ?_
  unfold QuarantineStore.deny
  split
  · trivial
  · rename_i qid hid
    exact ⟨by simp [Replay.ruling], fun _ => ⟨by simp [Replay.ruling, hid], fun _ => trivial⟩⟩

lemma lasting_cleared (approving : Bool) (id email : Bytes) :
    Lasting t fun d => Cleared table cfg d t approving id email ∧ t ∉ d.gone :=
  fun _ _ hle h => ⟨h.1.mono hle.le, fun hmem => h.2 (hle.stays hmem)⟩

/-- The handler may decide for a request that is cleared. -/
lemma decides_handler (h : QuarantineHandler.Handler) :
    Decides table cfg (onceDiscipline lib table) (decider lib h) := by
  have hmay : ∀ approving id email t (d : Desk) (op : Op) (qid : UUID) (k : Identity),
      Cleared table cfg d t approving id email ∧ t ∉ d.gone →
      (∀ qid, Replay.ruling op = some qid → parseQuarantineID lib id = .ok qid) →
      Replay.ruling op = some qid → d.serving t = some k → k.Targets lib qid ∧ ¬ d.Spent k :=
    fun approving id email t d op qid k hd hop hq hk =>
      ⟨hd.1.targets hk (hop qid hq), hd.1.not_spent hd.2 hk⟩
  intro t id email
  exact ⟨holds_embed (lasting_cleared true id email) (hmay true id email t) _ performs_approve,
    holds_embed (lasting_cleared false id email) (hmay false id email t) _ performs_deny⟩

/-- The other programs serve no interaction. -/
lemma holds_other (p : Eff Unit) :
    (onceDiscipline lib table).Holds t (fun s => s.desk.served t = none)
      (embed p >>= fun _ => .ret (none : Option Outcome)) (fun _ _ => True) := by
  have hlast : Lasting t fun d => d.served t = none := fun _ _ hle h => hle.own.trans h
  refine Discipline.holds_bind (holds_embed (P := fun _ => True) hlast ?_ p
    (performs_of_forall (fun _ => trivial) p)) fun _ => holds_trivial stable_trivial
  intro d op id k hd _ _ hk
  simp [Desk.serving, hd] at hk

end Discipline

/-- Over every run in which entries are parked late, with any number of deliveries, each signed
interaction causes at most one committed decision. -/
theorem one_click_one_decision (lib : UuidLib) (table : CaseTable) (cfg : Config)
    (rcfg : Replay.Config) {clock : ℕ} (hclock : clock < maxClock)
    {ls : List (Label (AppOp Op) (AppRes Res))}
    {c : Pool (AppOp Op) (AppRes Res) (Floor World) (Option Outcome)}
    (hrun : Run (lateParks lib) (Deployment lib table cfg rcfg)
      (Pool.initial ⟨Desk.start clock, World.initial⟩) ls c) (k : Identity) :
    decisions c.shared k ≤ 1 := by
  have hsound : Discipline.Sound (onceDiscipline lib table) (fun _ _ _ => True) c := by
    refine Discipline.Sound.run ?_ (Discipline.Sound.initial ?_ ?_) hrun
    · intro p t s hp hi hf
      cases hp with
      | slack h => exact (onceHosts lib table).holds_serve (decides_handler h) s hi hf
      | other hp => exact holds_other _ s hi hf.served
    · exact ⟨⟨hclock, by simp [Desk.start], by simp [Desk.start]⟩, by simp [World.initial],
        by simp [World.initial], by simp [decisions, World.initial]⟩
    · exact fun t => ⟨rfl, by simp [Desk.start], by simp [Desk.start], by simp [World.initial]⟩
  exact hsound.inv.once k

/-! One interaction, delivered twice, about an entry that the policy in force no longer admits. -/

abbrev Script := List (Machine.Move (AppOp Op) (AppRes Res) (Option Outcome)
  (DeskChoice Replay.Choice) (DeskFault Empty))

/-- A program of the deployment and what happens to its operations. -/
def running (t : ℕ) (p : Eff Unit) (choices : List Replay.Choice) : Script :=
  .start (embed p >>= fun _ => .ret none) :: choices.map fun ch => .act t (.inner ch)

def holding (t : ℕ) : Script :=
  running t (do
      let _ ← Proxy.serveHTTP Proxy.sampleHandler Proxy.sampleRequest
      return ())
    [.clock Replay.noon, .verdict (.ok ⟨.quarantine, lit "rule", [], lit "v1"⟩),
      .clock Replay.noon, Replay.well, .clock Replay.noon, .inserted 55 .ok]

def approving (t : ℕ) : Script :=
  running t (do
      let _ ← QuarantineHandler.approve Replay.sampleLib ⟨true⟩ (lit "7") (lit "alice")
      return ())
    [Replay.well, .clock Replay.noon, Replay.well, Replay.well]

def recheckingWorker : QuarantineWorker.Worker := { Replay.sampleWorker with recheck := true }

def parking (t : ℕ) : Script :=
  running t (QuarantineWorker.processOnce Replay.sampleLib recheckingWorker)
    [.context none, Replay.well, Replay.well, Replay.well, .claimed [55] .ok, .context none,
      .clock Replay.noon, .verdict (.ok ⟨.deny, lit "rule", [], lit "v2"⟩), Replay.well,
      Replay.well, Replay.well]

def sampleClick : Request :=
  ⟨lit "POST", (Header.add (Header.add ∅ (lit "X-Slack-Request-Timestamp") (lit "1699999880"))
    (lit "X-Slack-Signature")
    (lit "v0=25847681a705d23df15f40a2b520bf68d7a33db9df060188d079775fb603fa02")),
    ⟨sampleBody, none⟩⟩

/-- What happens to a delivery: the email of its user is asked for or found, and the entry is
decided or not. -/
def deliver (resolving ruling : List (DeskChoice Replay.Choice)) :
    List (DeskChoice Replay.Choice) :=
  [.request sampleClick, .ok] ++ resolving ++
    [.inner Replay.well, .inner (.clock Replay.noon), .inner Replay.well] ++ ruling

def delivering (t : ℕ) (choices : List (DeskChoice Replay.Choice)) : Script :=
  .start (serve Startup.asciiCase (decider Replay.sampleLib ⟨true⟩)
    (new Startup.asciiCase sampleConfig)) :: choices.map (.act t)

def asked : List (DeskChoice Replay.Choice) := [.ok, .answer (.ok sampleAnswer), .ok, .ok]

def found : List (DeskChoice Replay.Choice) := [.ok, .ok]

def decided : List (DeskChoice Replay.Choice) := [.inner Replay.well, .ok]

/-- The deliveries decide before and after the entry is parked. -/
def clickedTwice : Script :=
  holding 0 ++ delivering 1 (deliver asked decided) ++ parking 2 ++
    delivering 3 (deliver found decided)

/-- The entry is parked before the click. -/
def clickedLate : Script :=
  holding 0 ++ approving 1 ++ parking 2 ++ delivering 3 (deliver asked decided) ++
    delivering 4 (deliver found [.ok])

abbrev SampleDeployment : AppProg Res (Option Outcome) → Prop :=
  Deployment Replay.sampleLib Startup.asciiCase sampleConfig Replay.sampleConfig

lemma starts_running {t : ℕ} {p : Eff Unit} {choices : List Replay.Choice}
    (hp : Serves Replay.sampleLib Replay.sampleConfig p) :
    ∀ q ∈ Machine.starts (running t p choices), SampleDeployment q := by
  have hstarts : Machine.starts (running t p choices) = [embed p >>= fun _ => .ret none] := by
    simp [Machine.starts, running]
  rw [hstarts]
  exact List.forall_mem_singleton.mpr (.other hp)

lemma starts_delivering {t : ℕ} {choices : List (DeskChoice Replay.Choice)} :
    ∀ q ∈ Machine.starts (delivering t choices), SampleDeployment q := by
  have hstarts : Machine.starts (delivering t choices) =
      [serve Startup.asciiCase (decider Replay.sampleLib ⟨true⟩)
        (new Startup.asciiCase sampleConfig)] := by
    simp [Machine.starts, delivering]
  rw [hstarts]
  exact List.forall_mem_singleton.mpr (.slack ⟨true⟩)

lemma starts_holding (t : ℕ) : ∀ q ∈ Machine.starts (holding t), SampleDeployment q :=
  starts_running (.proxy Proxy.sampleHandler Proxy.sampleRequest fun _ => rfl)

lemma starts_parking (t : ℕ) : ∀ q ∈ Machine.starts (parking t), SampleDeployment q :=
  starts_running (.pass recheckingWorker ⟨fun _ => rfl, fun _ => ⟨_, rfl⟩, rfl⟩)

/-- A delivery within the five minutes decides again once the worker has parked the entry. -/
theorem redelivery_decides_again : ∃ ls c,
    Run (machine (World.machine Replay.sampleLib)).semantics
      (Deployment Replay.sampleLib Startup.asciiCase sampleConfig Replay.sampleConfig)
      (Pool.initial ⟨Desk.start sampleTime, World.initial⟩) ls c ∧
    decisions c.shared sampleClick.identity = 2 := by
  have hcount : ((machine (World.machine Replay.sampleLib)).play clickedTwice
      (Pool.initial ⟨Desk.start sampleTime, World.initial⟩)).map
      (fun c => decisions c.shared sampleClick.identity) = some 2 := by decide +kernel
  obtain ⟨c, hplay, htwo⟩ := Option.map_eq_some_iff.mp hcount
  have hstarts : ∀ p ∈ Machine.starts clickedTwice, SampleDeployment p := by
    simp only [clickedTwice, Machine.starts_append, List.forall_mem_append]
    exact ⟨⟨⟨starts_holding 0, starts_delivering⟩, starts_parking 2⟩, starts_delivering⟩
  obtain ⟨ls, hrun⟩ := Machine.play_run hstarts hplay
  exact ⟨ls, c, hrun, htwo⟩

/-- A test for late parks: no interaction has decided the entry. -/
def unclicked (_ : ℕ) (op : AppOp Op) (s : Floor World) (_ : AppRes Res op) (_ : Floor World) :
    Bool :=
  match op with
  | .inner (.markReplayFailed id _) => s.inner.hist.all fun e =>
      e.2.decision != some id || s.desk.serving e.1 == none
  | _ => true

lemma parksLate_of_unclicked {t : ℕ} {op : AppOp Op} {s s' : Floor World} {r : AppRes Res op}
    (h : unclicked t op s r s' = true) : ParksLate t op s r s' := by
  rintro id site rfl u e k hmem he hk
  have hevent := List.all_eq_true.mp h (u, e) hmem
  simp [he, hk] at hevent

theorem one_click_one_decision_sample : ∃ ls c,
    Run (lateParks Replay.sampleLib)
      (Deployment Replay.sampleLib Startup.asciiCase sampleConfig Replay.sampleConfig)
      (Pool.initial ⟨Desk.start sampleTime, World.initial⟩) ls c ∧
    (c.shared.inner.hist.countP fun e => e.2.decides 55) = 2 ∧
    decisions c.shared sampleClick.identity ≤ 1 := by
  have hcount : (((machine (World.machine Replay.sampleLib)).only unclicked).play clickedLate
      (Pool.initial ⟨Desk.start sampleTime, World.initial⟩)).map
      (fun c => c.shared.inner.hist.countP fun e => e.2.decides 55) = some 2 := by decide +kernel
  obtain ⟨c, hplay, htwo⟩ := Option.map_eq_some_iff.mp hcount
  have hstarts : ∀ p ∈ Machine.starts clickedLate, SampleDeployment p := by
    simp only [clickedLate, Machine.starts_append, List.forall_mem_append]
    exact ⟨⟨⟨⟨starts_holding 0, starts_running (.approve ⟨true⟩ (lit "7") (lit "alice"))⟩,
      starts_parking 2⟩, starts_delivering⟩, starts_delivering⟩
  obtain ⟨ls, hrun⟩ := Machine.play_run hstarts hplay
  have hlate := hrun.given fun _ _ _ _ _ => parksLate_of_unclicked
  have hclock : sampleTime < maxClock := by decide +kernel
  exact ⟨ls, c, hlate, htwo, one_click_one_decision Replay.sampleLib Startup.asciiCase sampleConfig
    Replay.sampleConfig hclock hlate sampleClick.identity⟩

end KiteRail.Slack
