import KiteRail.ProgInterleave
import KiteRail.SlackServe

/-! The Slack endpoint among its concurrent requests: the clock, the cache of emails, and a record
of what was received and read. The record is what authority is traced back to. The endpoint is
proved once for every decider and every machine the decider runs on. -/
namespace KiteRail.Slack
open Bytes GoStrings GoStrconv Prog

/-- The readings of the clock so far, the latest first, each with the call that took it. -/
abbrev Readings := List (ℕ × ℕ)

/-- The state of the endpoint: the clock, the cache, the request of every call, the clock's
readings, what a call found in the cache and what Slack answered it, each with the readings taken
before, and the calls that are over. -/
structure Desk where
  clock : ℕ
  emails : Bytes → Option CachedEmail
  served : ℕ → Option Request
  readings : Readings
  found : List (ℕ × Bytes × CachedEmail × Readings)
  answers : List (ℕ × Bytes × ApiAnswer × Readings)
  gone : List ℕ

/-- The endpoint and what its decider works on. -/
structure Floor (W : Type) where
  desk : Desk
  inner : W

inductive DeskChoice (Ch : Type)
  | ok
  | request (r : Request)
  | answer (a : Except GoError ApiAnswer)
  | inner (ch : Ch)

inductive DeskFault (F : Type)
  | tick (clock : ℕ)
  | inner (f : F)

/-- A bound of the clock that package `time` can represent. -/
def maxClock : ℕ := 2 ^ 62 * 1000000000

namespace Desk

def start (clock : ℕ) : Desk := ⟨clock, fun _ => none, fun _ => none, [], [], [], []⟩

def accepted (d : Desk) (t : ℕ) (r : Request) : Desk :=
  { d with served := Function.update d.served t (some r) }

def read (d : Desk) (t : ℕ) : Desk := { d with readings := (t, d.clock) :: d.readings }

def looked (d : Desk) (t : ℕ) (user : Bytes) : Option CachedEmail → Desk
  | some c => { d with found := (t, user, c, d.readings) :: d.found }
  | none => d

def answered (d : Desk) (t : ℕ) (user : Bytes) : Except GoError ApiAnswer → Desk
  | .ok a => { d with answers := (t, user, a, d.readings) :: d.answers }
  | .error _ => d

def stored (d : Desk) (user : Bytes) (e : CachedEmail) : Desk :=
  { d with emails := Function.update d.emails user (some e) }

def ended (d : Desk) (t : ℕ) : Desk := { d with gone := t :: d.gone }

end Desk

section Machine
variable {Inner : Type} {Res : Inner → Type} {W Ch F : Type}

def Floor.answer (inner : Machine Inner Res W Ch F) (ch : DeskChoice Ch) (t : ℕ)
    (op : AppOp Inner) (s : Floor W) : Option (AppRes Res op × Floor W) :=
  match op, ch with
  | .accept, .request r =>
    if (s.desk.served t).isNone then some (r, { s with desk := s.desk.accepted t r }) else none
  | .now, .ok => some (s.desk.clock, { s with desk := s.desk.read t })
  | .lookupEmail user, .ok =>
    some (s.desk.emails user, { s with desk := s.desk.looked t user (s.desk.emails user) })
  | .usersInfo user, .answer a => some (a, { s with desk := s.desk.answered t user a })
  | .storeEmail user e, .ok => some ((), { s with desk := s.desk.stored user e })
  | .respond _, .ok => some ((), { s with desk := s.desk.ended t })
  | .inner op, .inner ch =>
    (inner.answer ch t op s.inner).map fun a => (a.1, { s with inner := a.2 })
  | _, _ => none

/-- The clock goes forward. -/
def Floor.fault (inner : Machine Inner Res W Ch F) : DeskFault F → Floor W → Option (Floor W)
  | .tick clock, s =>
    if s.desk.clock ≤ clock ∧ clock < maxClock then
      some { s with desk := { s.desk with clock := clock } }
    else none
  | .inner f, s => (inner.fault f s.inner).map fun w => { s with inner := w }

def Floor.lose (inner : Machine Inner Res W Ch F) (t : ℕ) (s : Floor W) : Floor W :=
  ⟨s.desk.ended t, inner.lose t s.inner⟩

/-- The endpoint on top of the machine of its decider. -/
def machine (inner : Machine Inner Res W Ch F) :
    Machine (AppOp Inner) (AppRes Res) (Floor W) (DeskChoice Ch) (DeskFault F) :=
  ⟨Floor.answer inner, Floor.fault inner, Floor.lose inner⟩

variable {inner : Machine Inner Res W Ch F} {t : ℕ} {s s' : Floor W}

lemma exec_accept {r : Request} (h : (machine inner).semantics.exec t .accept s r s') :
    s.desk.served t = none ∧ s' = { s with desk := s.desk.accepted t r } := by
  obtain ⟨ch, h⟩ := h
  cases ch <;> simp only [machine, Floor.answer, Option.isNone_iff_eq_none] at h <;> grind

lemma exec_now {n : ℕ} (h : (machine inner).semantics.exec t .now s n s') :
    n = s.desk.clock ∧ s' = { s with desk := s.desk.read t } := by
  obtain ⟨ch, h⟩ := h
  cases ch <;> simp only [machine, Floor.answer] at h <;> grind

lemma exec_lookupEmail {user : Bytes} {e : Option CachedEmail}
    (h : (machine inner).semantics.exec t (.lookupEmail user) s e s') :
    e = s.desk.emails user ∧ s' = { s with desk := s.desk.looked t user e } := by
  obtain ⟨ch, h⟩ := h
  cases ch <;> simp only [machine, Floor.answer] at h <;> grind

lemma exec_usersInfo {user : Bytes} {a : Except GoError ApiAnswer}
    (h : (machine inner).semantics.exec t (.usersInfo user) s a s') :
    s' = { s with desk := s.desk.answered t user a } := by
  obtain ⟨ch, h⟩ := h
  cases ch <;> simp only [machine, Floor.answer] at h <;> grind

lemma exec_storeEmail {user : Bytes} {e : CachedEmail} {r : Unit}
    (h : (machine inner).semantics.exec t (.storeEmail user e) s r s') :
    s' = { s with desk := s.desk.stored user e } := by
  obtain ⟨ch, h⟩ := h
  cases ch <;> simp only [machine, Floor.answer] at h <;> grind

lemma exec_respond {status : ℕ} {r : Unit}
    (h : (machine inner).semantics.exec t (.respond status) s r s') :
    s' = { s with desk := s.desk.ended t } := by
  obtain ⟨ch, h⟩ := h
  cases ch <;> simp only [machine, Floor.answer] at h <;> grind

lemma exec_inner {op : Inner} {r : Res op}
    (h : (machine inner).semantics.exec t (.inner op) s r s') :
    ∃ w, inner.semantics.exec t op s.inner r w ∧ s' = { s with inner := w } := by
  obtain ⟨ch, h⟩ := h
  cases ch with
  | inner ch =>
    obtain ⟨a, ha, heq⟩ := Option.map_eq_some_iff.mp h
    obtain ⟨rfl, rfl⟩ := Prod.mk.inj heq
    exact ⟨a.2, ⟨ch, ha⟩, rfl⟩
  | ok => simp [machine, Floor.answer] at h
  | request r => simp [machine, Floor.answer] at h
  | answer a => simp [machine, Floor.answer] at h

end Machine

/-! What a decision rests on. -/

section Authority
variable (table : CaseTable)

/-- The answer reports an account of a person with this email, in lower case. -/
def Reports (a : ApiAnswer) (email : Bytes) : Prop :=
  ∃ info, a.userInfo = .ok info ∧ info.ok = true ∧ info.deleted = false ∧ info.isBot = false ∧
    info.email ≠ [] ∧ toLower table info.email = email

/-- The call read this time after the given readings. -/
def Desk.ReadSince (d : Desk) (before : Readings) (t now : ℕ) : Prop :=
  ∃ since, d.readings = since ++ before ∧ (t, now) ∈ since

/-- A call asked Slack about the user, was answered so, and then read `kept`. -/
def Vouched (d : Desk) (user email : Bytes) (kept : ℕ) : Prop :=
  ∃ u a before, (u, user, a, before) ∈ d.answers ∧ d.ReadSince before u kept ∧
    Reports table a email

/-- The invariant of the endpoint: every cached email is one that Slack reported. -/
structure Desk.Good (d : Desk) : Prop where
  clock : d.clock < maxClock
  past : ∀ p ∈ d.readings, p.2 ≤ d.clock
  cached : ∀ user c, d.emails user = some c →
    ∃ kept, Vouched table d user c.email kept ∧ c.expires = kept + emailCacheTTL

/-- What happens at the endpoint only adds to its record. -/
structure Desk.Le (d d' : Desk) : Prop where
  clock : d.clock ≤ d'.clock
  served : ∀ u r, d.served u = some r → d'.served u = some r
  readings : d.readings <:+ d'.readings
  found : d.found ⊆ d'.found
  answers : d.answers ⊆ d'.answers

/-- What the others do to the record, as a call sees it. -/
structure Desk.Sees (t : ℕ) (d d' : Desk) : Prop where
  le : d.Le d'
  own : d'.served t = d.served t
  stays : t ∈ d'.gone → t ∈ d.gone

/-- The request is signed, and was so within five minutes of a reading of the clock. -/
def Signed (cfg : Config) (d : Desk) (t : ℕ) (r : Request) (raw : Bytes) : Prop :=
  d.served t = some r ∧ r.method = lit "POST" ∧ r.body.readAll maxBody = .ok raw ∧
    r.header.get (lit "X-Slack-Signature") =
      sign cfg.signingSecret (r.header.get (lit "X-Slack-Request-Timestamp")) raw ∧
    ∃ ts now, parseInt (r.header.get (lit "X-Slack-Request-Timestamp")) = some ts ∧
      (t, now) ∈ d.readings ∧
      -maxSignatureAge ≤ now - ts * 1000000000 ∧ now - ts * 1000000000 ≤ maxSignatureAge

def payload (raw : Bytes) : Option Interaction :=
  if (UrlQuery.parseQuery raw).2 = false then none
  else unmarshalInteraction (UrlQuery.get (UrlQuery.parseQuery raw).1 (lit "payload"))

/-- The payload is a click on one of the two buttons, in the configured workspace. -/
def Clicked (cfg : Config) (raw : Bytes) (user actionID id : Bytes) : Prop :=
  ∃ i, payload raw = some i ∧ (cfg.teamID ≠ [] → i.teamID = cfg.teamID) ∧
    i.type = lit "block_actions" ∧ i.action = some ⟨actionID, id⟩ ∧ i.userID = user

/-- The call has the user's email from Slack's answer to itself, or from the cache. -/
def Learnt (d : Desk) (t : ℕ) (user email : Bytes) (before : Readings) (kept now : ℕ) : Prop :=
  (∃ a, (t, user, a, before) ∈ d.answers ∧ Reports table a email ∧ kept = now) ∨
    (t, user, ⟨email, kept + emailCacheTTL⟩, before) ∈ d.found

/-- When the call read the clock on learning the email, less than ten minutes had passed since
Slack's answer was kept. -/
def Known (d : Desk) (t : ℕ) (user email : Bytes) : Prop :=
  ∃ before kept now, Learnt table d t user email before kept now ∧ d.ReadSince before t now ∧
    Vouched table d user email kept ∧ kept ≤ now ∧ now < kept + emailCacheTTL

def button (approving : Bool) : Bytes := if approving then actionApprove else actionDeny

/-- What the decider may be called with while serving a request. -/
def Cleared (cfg : Config) (d : Desk) (t : ℕ) (approving : Bool) (id email : Bytes) : Prop :=
  ∃ r raw user, Signed cfg d t r raw ∧ Clicked cfg raw user (button approving) id ∧
    Known table d t user email ∧ email ∈ newReviewers table cfg.reviewers

variable {table} {cfg : Config} {d d' : Desk} {t kept : ℕ} {r : Request} {raw user email : Bytes}

lemma Desk.Le.refl (d : Desk) : d.Le d :=
  ⟨le_rfl, fun _ _ h => h, List.suffix_refl _, List.Subset.refl _, List.Subset.refl _⟩

lemma Desk.Le.trans {e : Desk} (h : d.Le d') (g : d'.Le e) : d.Le e :=
  ⟨h.clock.trans g.clock, fun u r hr => g.served u r (h.served u r hr),
    h.readings.trans g.readings, List.Subset.trans h.found g.found,
    List.Subset.trans h.answers g.answers⟩

lemma Desk.ReadSince.mono {before : Readings} {now : ℕ} (h : d.ReadSince before t now)
    (hle : d.Le d') : d'.ReadSince before t now := by
  obtain ⟨since, heq, hmem⟩ := h
  obtain ⟨newer, hnewer⟩ := hle.readings
  exact ⟨newer ++ since, by rw [← hnewer, heq, List.append_assoc], List.mem_append_right _ hmem⟩

lemma Desk.ReadSince.mem {before : Readings} {now : ℕ} (h : d.ReadSince before t now) :
    (t, now) ∈ d.readings := by
  obtain ⟨since, heq, hmem⟩ := h
  exact heq ▸ List.mem_append_left _ hmem

/-- The reading that a call takes now is after all the earlier ones. -/
lemma Desk.readSince_read {before : Readings} (h : before <:+ d.readings) :
    (d.read t).ReadSince before t d.clock := by
  obtain ⟨since, heq⟩ := h
  exact ⟨(t, d.clock) :: since, by rw [Desk.read, ← heq, List.cons_append], List.mem_cons_self⟩

lemma Vouched.mono (h : Vouched table d user email kept) (hle : d.Le d') :
    Vouched table d' user email kept := by
  obtain ⟨u, a, before, ha, hk, hr⟩ := h
  exact ⟨u, a, before, hle.answers ha, hk.mono hle, hr⟩

lemma Learnt.mono {before : Readings} {now : ℕ} (h : Learnt table d t user email before kept now)
    (hle : d.Le d') : Learnt table d' t user email before kept now :=
  h.imp (fun ⟨a, ha, hr⟩ => ⟨a, hle.answers ha, hr⟩) fun hf => hle.found hf

lemma Signed.mono (h : Signed cfg d t r raw) (hle : d.Le d') : Signed cfg d' t r raw := by
  obtain ⟨hs, hm, hb, hsig, ts, now, hts, hnow, hage⟩ := h
  exact ⟨hle.served _ _ hs, hm, hb, hsig, ts, now, hts, hle.readings.subset hnow, hage⟩

lemma Known.mono (h : Known table d t user email) (hle : d.Le d') :
    Known table d' t user email := by
  obtain ⟨before, kept, now, hl, hnow, hv, hage⟩ := h
  exact ⟨before, kept, now, hl.mono hle, hnow.mono hle, hv.mono hle, hage⟩

lemma Cleared.mono {approving : Bool} {id : Bytes} (h : Cleared table cfg d t approving id email)
    (hle : d.Le d') : Cleared table cfg d' t approving id email := by
  obtain ⟨r, raw, user, hs, hc, hk, he⟩ := h
  exact ⟨r, raw, user, hs.mono hle, hc, hk.mono hle, he⟩

lemma Desk.Sees.refl (t : ℕ) (d : Desk) : d.Sees t d := ⟨.refl d, rfl, id⟩

lemma Desk.Sees.trans {e : Desk} (h : d.Sees t d') (g : d'.Sees t e) : d.Sees t e :=
  ⟨h.le.trans g.le, g.own.trans h.own, h.stays ∘ g.stays⟩

section Updates
variable (h : d.Good table)
include h

lemma Desk.Good.accepted : (d.accepted t r).Good table :=
  ⟨h.clock, h.past, h.cached⟩

lemma Desk.Good.ended : (d.ended t).Good table := ⟨h.clock, h.past, h.cached⟩

lemma Desk.Good.ticked {clock : ℕ} (hle : d.clock ≤ clock) (hmax : clock < maxClock) :
    Desk.Good table { d with clock := clock } :=
  ⟨hmax, fun p hp => (h.past p hp).trans hle, h.cached⟩

end Updates

lemma Desk.Le.accepted (hs : d.served t = none) : d.Le (d.accepted t r) where
  clock := le_rfl
  served u q hq := by
    have hne : u ≠ t := by
      rintro rfl
      simp [hs] at hq
    simpa [Desk.accepted, Function.update_of_ne hne] using hq
  readings := List.suffix_refl _
  found := List.Subset.refl _
  answers := List.Subset.refl _

lemma Desk.Le.read : d.Le (d.read t) :=
  ⟨le_rfl, fun _ _ h => h, List.suffix_cons _ _, List.Subset.refl _, List.Subset.refl _⟩

lemma Desk.Le.looked (c : Option CachedEmail) : d.Le (d.looked t user c) := by
  cases c with
  | none => exact .refl d
  | some c =>
    exact ⟨le_rfl, fun _ _ h => h, List.suffix_refl _, List.subset_cons_self _ _,
      List.Subset.refl _⟩

lemma Desk.Le.answered (a : Except GoError ApiAnswer) : d.Le (d.answered t user a) := by
  cases a with
  | error err => exact .refl d
  | ok a =>
    exact ⟨le_rfl, fun _ _ h => h, List.suffix_refl _, List.Subset.refl _,
      List.subset_cons_self _ _⟩

lemma Desk.Le.stored {e : CachedEmail} : d.Le (d.stored user e) :=
  ⟨le_rfl, fun _ _ h => h, List.suffix_refl _, List.Subset.refl _, List.Subset.refl _⟩

lemma Desk.Le.ended : d.Le (d.ended t) :=
  ⟨le_rfl, fun _ _ h => h, List.suffix_refl _, List.Subset.refl _, List.Subset.refl _⟩

lemma Desk.Le.ticked {clock : ℕ} (hle : d.clock ≤ clock) : d.Le { d with clock := clock } :=
  ⟨hle, fun _ _ h => h, List.suffix_refl _, List.Subset.refl _, List.Subset.refl _⟩

section Seen
variable {u : ℕ}

lemma Desk.Sees.read : d.Sees u (d.read t) := ⟨.read, rfl, id⟩

lemma Desk.Sees.looked (c : Option CachedEmail) : d.Sees u (d.looked t user c) := by
  cases c with
  | none => exact .refl u d
  | some c => exact ⟨.looked (some c), rfl, id⟩

lemma Desk.Sees.answered (a : Except GoError ApiAnswer) : d.Sees u (d.answered t user a) := by
  cases a with
  | error err => exact .refl u d
  | ok a => exact ⟨.answered (.ok a), rfl, id⟩

lemma Desk.Sees.stored {e : CachedEmail} : d.Sees u (d.stored user e) := ⟨.stored, rfl, id⟩

lemma Desk.Sees.ticked {clock : ℕ} (hle : d.clock ≤ clock) :
    d.Sees u { d with clock := clock } := ⟨.ticked hle, rfl, id⟩

lemma Desk.Sees.ended (hu : t ≠ u) : d.Sees u (d.ended t) :=
  ⟨.ended, rfl, fun hmem => (List.mem_cons.mp hmem).resolve_left (Ne.symm hu)⟩

end Seen

lemma Desk.Good.read (h : d.Good table) : (d.read t).Good table where
  clock := h.clock
  past p hp := by
    rcases List.mem_cons.mp hp with rfl | hp
    · exact le_rfl
    · exact h.past p hp
  cached user c hc := by
    obtain ⟨kept, hv, he⟩ := h.cached user c hc
    exact ⟨kept, hv.mono .read, he⟩

lemma Desk.Good.looked (h : d.Good table) (e : Option CachedEmail) :
    (d.looked t user e).Good table := by
  cases e with
  | none => exact h
  | some e =>
    refine ⟨h.clock, h.past, fun user' c hc => ?_⟩
    obtain ⟨kept, hv, he⟩ := h.cached user' c hc
    exact ⟨kept, hv.mono (.looked (some e)), he⟩

lemma Desk.Good.answered (h : d.Good table) (a : Except GoError ApiAnswer) :
    (d.answered t user a).Good table := by
  cases a with
  | error err => exact h
  | ok a =>
    refine ⟨h.clock, h.past, fun user' c hc => ?_⟩
    obtain ⟨kept, hv, he⟩ := h.cached user' c hc
    exact ⟨kept, hv.mono (.answered (.ok a)), he⟩

lemma Desk.Good.stored (h : d.Good table) (hv : Vouched table d user email kept) :
    (d.stored user ⟨email, kept + emailCacheTTL⟩).Good table where
  clock := h.clock
  past := h.past
  cached user' c hc := by
    by_cases hu : user' = user
    · subst hu
      simp only [Desk.stored, Function.update_self, Option.some.injEq] at hc
      subst hc
      exact ⟨kept, hv.mono .stored, rfl⟩
    · simp only [Desk.stored, Function.update_of_ne hu] at hc
      obtain ⟨kept, hv', he⟩ := h.cached user' c hc
      exact ⟨kept, hv'.mono .stored, he⟩

end Authority

/-- What an operation of the endpoint leaves alone. -/
lemma exec_desk {Inner : Type} {Res : Inner → Type} {W Ch F : Type}
    {inner : Machine Inner Res W Ch F} {t : ℕ} {op : AppOp Inner} {s s' : Floor W}
    {r : AppRes Res op} (hop : ∀ o, op ≠ .inner o)
    (h : (machine inner).semantics.exec t op s r s') :
    s'.inner = s.inner ∧ s.desk.Le s'.desk ∧ ∀ u, t ≠ u → s.desk.Sees u s'.desk := by
  cases op with
  | accept =>
    obtain ⟨hs, rfl⟩ := exec_accept h
    exact ⟨rfl, .accepted hs, fun u hu =>
      ⟨.accepted hs, Function.update_of_ne (Ne.symm hu) _ _, id⟩⟩
  | now =>
    obtain ⟨-, rfl⟩ := exec_now h
    exact ⟨rfl, .read, fun _ _ => .read⟩
  | lookupEmail user =>
    obtain ⟨-, rfl⟩ := exec_lookupEmail h
    exact ⟨rfl, .looked r, fun _ _ => .looked r⟩
  | usersInfo user =>
    obtain rfl := exec_usersInfo h
    exact ⟨rfl, .answered r, fun _ _ => .answered r⟩
  | storeEmail user e =>
    obtain rfl := exec_storeEmail h
    exact ⟨rfl, .stored, fun _ _ => .stored⟩
  | respond status =>
    obtain rfl := exec_respond h
    exact ⟨rfl, .ended, fun _ hu => .ended hu⟩
  | inner op => exact absurd rfl (hop op)

/-- What it adds to the record: a reading is of the present clock, and only an arrival changes
what is being served. -/
lemma exec_record {Inner : Type} {Res : Inner → Type} {W Ch F : Type}
    {inner : Machine Inner Res W Ch F} {t : ℕ} {op : AppOp Inner} {s s' : Floor W}
    {r : AppRes Res op} (hop : ∀ o, op ≠ .inner o)
    (h : (machine inner).semantics.exec t op s r s') :
    s.desk.gone ⊆ s'.desk.gone ∧
    (∀ v n, (v, n) ∈ s'.desk.readings →
      (v, n) ∈ s.desk.readings ∨ v = t ∧ n = s.desk.clock) ∧
    (op ≠ .accept → s'.desk.served = s.desk.served) := by
  cases op with
  | accept =>
    obtain ⟨-, rfl⟩ := exec_accept h
    exact ⟨List.Subset.refl _, fun _ _ => .inl, by simp⟩
  | now =>
    obtain ⟨-, rfl⟩ := exec_now h
    refine ⟨List.Subset.refl _, fun v n hmem => ?_, fun _ => rfl⟩
    exact (List.mem_cons.mp hmem).symm.imp id Prod.mk.inj
  | lookupEmail user =>
    obtain ⟨-, rfl⟩ := exec_lookupEmail h
    cases r <;> exact ⟨List.Subset.refl _, fun _ _ => .inl, fun _ => rfl⟩
  | usersInfo user =>
    obtain rfl := exec_usersInfo h
    cases r <;> exact ⟨List.Subset.refl _, fun _ _ => .inl, fun _ => rfl⟩
  | storeEmail user e =>
    obtain rfl := exec_storeEmail h
    exact ⟨List.Subset.refl _, fun _ _ => .inl, fun _ => rfl⟩
  | respond status =>
    obtain rfl := exec_respond h
    exact ⟨List.subset_cons_self _ _, fun _ _ => .inl, fun _ => rfl⟩
  | inner op => exact absurd rfl (hop op)

end KiteRail.Slack
