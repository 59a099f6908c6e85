import KiteRail.ConfigDuties
import KiteRail.SlackOutline

namespace KiteRail.Slack
open Bytes GoStrings Prog

inductive Call
  | approve (id reviewerID : Bytes)
  | deny (id reviewerID reason : Bytes)
  deriving DecidableEq

abbrev CallRes : Call → Type := fun _ => Option GoError

def anyDecider : Decider Call CallRes :=
  ⟨fun id reviewerID => perform (.approve id reviewerID),
    fun id reviewerID reason => perform (.deny id reviewerID reason)⟩

/-- Every call is noted with the request it was made for; the answer may be any. -/
def calls : Machine Call CallRes (List (ℕ × Call)) (Option GoError) Empty where
  answer res t op s := some (res, (t, op) :: s)
  fault := fun f _ => f.elim
  lose := fun _ s => s

section Discipline
variable {table : CaseTable} {cfg : Config} {t : ℕ}

def Allowed (table : CaseTable) (cfg : Config) (d : Desk) (t : ℕ) : Call → Prop
  | .approve id email => Cleared table cfg d t true id email
  | .deny id email _ => Cleared table cfg d t false id email

lemma Allowed.mono {d d' : Desk} {op : Call} (h : Allowed table cfg d t op) (hle : d.Le d') :
    Allowed table cfg d' t op := by
  cases op <;> exact Cleared.mono h hle

structure Authorised (table : CaseTable) (cfg : Config) (s : Floor (List (ℕ × Call))) : Prop where
  good : s.desk.Good table
  calls : ∀ t op, (t, op) ∈ s.inner → Allowed table cfg s.desk t op

/-- A change of the endpoint keeps what was authorised. -/
lemma Authorised.mono {s s' : Floor (List (ℕ × Call))} (h : Authorised table cfg s)
    (hgood : s'.desk.Good table) (hinner : s'.inner = s.inner) (hle : s.desk.Le s'.desk) :
    Authorised table cfg s' :=
  ⟨hgood, fun t op hmem => (h.calls t op (hinner ▸ hmem)).mono hle⟩

lemma fault_calls {f : DeskFault Empty} {s s' : Floor (List (ℕ × Call))}
    (h : (machine calls).fault f s = some s') : ∃ clock, s.desk.clock ≤ clock ∧ clock < maxClock ∧
      s' = { s with desk := { s.desk with clock := clock } } := by
  cases f with
  | inner f => exact f.elim
  | tick clock =>
    simp only [machine, Floor.fault] at h
    split at h
    · rename_i hc
      exact ⟨clock, hc.1, hc.2, (Option.some.inj h).symm⟩
    · simp at h

def discipline (table : CaseTable) (cfg : Config) : Discipline (machine calls).semantics where
  inv := Authorised table cfg
  fresh t s := s.desk.served t = none ∧ t ∉ s.desk.gone
  guar t _ s _ s' := ∀ u, t ≠ u → s.desk.Sees u s'.desk
  rely t s s' := s.desk.Sees t s'.desk
  rely_refl t s := .refl t _
  rely_trans _ _ _ _ h g := h.trans g
  rely_guar _ u _ _ _ _ hu _ hg := hg u hu
  rely_env u s s' _ he := by
    obtain ⟨f, hf⟩ := he
    obtain ⟨clock, hle, -, rfl⟩ := fault_calls hf
    exact .ticked hle
  rely_lose _ _ _ hu _ := .ended hu
  fresh_rely _ _ _ hf hr := ⟨hr.own.trans hf.1, fun hmem => hf.2 (hr.stays hmem)⟩
  inv_env s s' hi he := by
    obtain ⟨f, hf⟩ := he
    obtain ⟨clock, hle, hmax, rfl⟩ := fault_calls hf
    exact hi.mono (hi.good.ticked hle hmax) rfl (.ticked hle)
  inv_lose _ _ hi := hi.mono hi.good.ended rfl .ended

lemma authorised_exec {op : AppOp Call} {s s' : Floor (List (ℕ × Call))} {r : AppRes CallRes op}
    (hi : Authorised table cfg s) (hop : ∀ o, op ≠ .inner o)
    (hx : (machine calls).semantics.exec t op s r s') (hgood : s'.desk.Good table) :
    Authorised table cfg s' ∧ ∀ u, t ≠ u → s.desk.Sees u s'.desk := by
  obtain ⟨hinner, hle, hsees⟩ := exec_desk hop hx
  exact ⟨hi.mono hgood hinner hle, hsees⟩

lemma hosts (table : CaseTable) (cfg : Config) : Hosts table calls (discipline table cfg) where
  exec _ _ _ _ _ h := h
  good _ h := h.good
  rely _ _ _ h := h
  fresh _ _ h := h
  accept _ _ _ _ hi _ hx hgood := authorised_exec hi (by simp) hx hgood
  desk _ _ _ _ _ hop _ hi hx hgood := authorised_exec hi hop hx hgood

lemma holds_call (op : Call) :
    (discipline table cfg).Holds t (fun s => Allowed table cfg s.desk t op ∧ t ∉ s.desk.gone)
      (embed (perform op : Prog Call CallRes (Option GoError))) (fun _ _ => True) := by
  have hst : (discipline table cfg).Stable t fun s => Allowed table cfg s.desk t op ∧
      t ∉ s.desk.gone := fun s s' h hr => ⟨h.1.mono hr.le, fun hmem => h.2 (hr.stays hmem)⟩
  refine Discipline.holds_call hst (C := fun _ _ => True) (fun s r s' hi h hx => ?_)
    fun _ => holds_trivial stable_trivial
  obtain ⟨w, ⟨res, hw⟩, rfl⟩ := exec_inner hx
  obtain ⟨-, rfl⟩ := Prod.mk.inj (Option.some.inj hw)
  refine ⟨⟨hi.good, fun u op' hmem => ?_⟩, fun u _ => .refl u _, trivial⟩
  rcases List.mem_cons.mp hmem with heq | hmem
  · obtain ⟨rfl, rfl⟩ := Prod.mk.inj heq
    exact h.1
  · exact hi.calls u op' hmem

end Discipline

def Serving (table : CaseTable) (cfg : Config) (p : AppProg CallRes (Option Outcome)) : Prop :=
  p = serve table anyDecider (new table cfg)

/-- In every interleaving of requests, with every answer of Slack and of the decider, the decider
is called only while serving a request that is cleared for that call. -/
theorem decisions_authorised (table : CaseTable) (cfg : Config) {clock : ℕ}
    (hclock : clock < maxClock) {ls : List (Label (AppOp Call) (AppRes CallRes))}
    {c : Pool (AppOp Call) (AppRes CallRes) (Floor (List (ℕ × Call))) (Option Outcome)}
    (hrun : Run (machine calls).semantics (Serving table cfg)
      (Pool.initial ⟨Desk.start clock, []⟩) ls c) :
    (∀ t id email, (t, .approve id email) ∈ c.shared.inner →
      Cleared table cfg c.shared.desk t true id email) ∧
    ∀ t id email reason, (t, .deny id email reason) ∈ c.shared.inner →
      Cleared table cfg c.shared.desk t false id email := by
  have hsound : Discipline.Sound (discipline table cfg) (fun _ _ _ => True) c := by
    refine Discipline.Sound.run ?_ (Discipline.Sound.initial ?_ ?_) hrun
    · rintro p t s rfl hi hf
      refine (hosts table cfg).holds_serve (fun t id email => ⟨?_, ?_⟩) s hi hf
      · exact holds_call (.approve id email)
      · exact holds_call (.deny id email _)
    · exact ⟨⟨hclock, by simp [Desk.start], by simp [Desk.start]⟩, by simp⟩
    · exact fun t => ⟨rfl, by simp [Desk.start]⟩
  exact ⟨fun t id email h => hsound.inv.calls t _ h,
    fun t id email reason h => hsound.inv.calls t _ h⟩

/-! A click on the approve button. -/

def sampleConfig : Config := ⟨lit "secret", lit "T1", [lit " Ana@Example.com "]⟩

def sampleTime : ℕ := 1700000000000000000

def sampleBody : Bytes :=
  lit "payload=%7B\"type\":\"block_actions\",\"team\":%7B\"id\":\"T1\"%7D," ++
    lit "\"user\":%7B\"id\":\"U1\"%7D," ++
    lit "\"actions\":[%7B\"action_id\":\"elodea_approve\",\"value\":\"7\"%7D]%7D"

def sampleRequest : Request :=
  ⟨lit "POST", (Header.add (Header.add ∅ (lit "X-Slack-Request-Timestamp") (lit "1699999880"))
    (lit "X-Slack-Signature") (sign (lit "secret") (lit "1699999880") sampleBody)),
    ⟨sampleBody, none⟩⟩

def sampleAnswer : ApiAnswer :=
  ⟨200, lit "\x7b\"ok\":true,\"user\":\x7b\"profile\":" ++
    lit "\x7b\"email\":\"ANA@example.com\"\x7d\x7d\x7d"⟩

/-- A request from its arrival to its answer, with Slack asked about the user. -/
def sampleServing : List (Machine.Move (AppOp Call) (AppRes CallRes) (Option Outcome)
    (DeskChoice (Option GoError)) (DeskFault Empty)) :=
  [.start (serve Startup.asciiCase anyDecider (new Startup.asciiCase sampleConfig)),
    .act 0 (.request sampleRequest), .act 0 .ok, .act 0 .ok, .act 0 (.answer (.ok sampleAnswer)),
    .act 0 .ok, .act 0 .ok, .act 0 (.inner none), .act 0 .ok]

theorem decisions_authorised_sample : ∃ ls c,
    Run (machine calls).semantics (Serving Startup.asciiCase sampleConfig)
      (Pool.initial ⟨Desk.start sampleTime, []⟩) ls c ∧
    c.shared.inner = [(0, .approve (lit "7") (lit "ana@example.com"))] ∧
    Cleared Startup.asciiCase sampleConfig c.shared.desk 0 true (lit "7")
      (lit "ana@example.com") := by
  have hcalls : ((machine calls).play sampleServing (Pool.initial ⟨Desk.start sampleTime, []⟩)).map
      (fun c => c.shared.inner) = some [(0, .approve (lit "7") (lit "ana@example.com"))] := by
    decide +kernel
  obtain ⟨c, hplay, hinner⟩ := Option.map_eq_some_iff.mp hcalls
  have hstarts : ∀ p ∈ Machine.starts sampleServing, Serving Startup.asciiCase sampleConfig p :=
    List.forall_mem_singleton.mpr rfl
  obtain ⟨ls, hrun⟩ := Machine.play_run hstarts hplay
  have hclock : sampleTime < maxClock := by decide +kernel
  have hcleared := decisions_authorised Startup.asciiCase sampleConfig hclock hrun
  exact ⟨ls, c, hrun, hinner, hcleared.1 0 _ _ (by rw [hinner]; exact List.mem_cons_self)⟩

end KiteRail.Slack
