import KiteRail.SlackDesk

namespace KiteRail.Slack
open Bytes GoStrings GoStrconv Prog

section Endpoint
variable {Inner : Type} {Res : Inner → Type} {W Ch F : Type} {inner : Machine Inner Res W Ch F}

/-- A discipline that the endpoint may run under: it knows the endpoint's invariant, leaves the
endpoint's record to grow, and keeps its own invariant whenever the endpoint keeps its own. -/
structure Hosts (table : CaseTable) (inner : Machine Inner Res W Ch F)
    {M : Semantics (AppOp Inner) (AppRes Res) (Floor W)} (D : Discipline M) : Prop where
  exec : ∀ t op s r s', M.exec t op s r s' → (machine inner).semantics.exec t op s r s'
  good : ∀ s, D.inv s → s.desk.Good table
  rely : ∀ t s s', D.rely t s s' → s.desk.Sees t s'.desk
  fresh : ∀ t s, D.fresh t s → s.desk.served t = none ∧ t ∉ s.desk.gone
  accept : ∀ t s r s', D.inv s → D.fresh t s → M.exec t .accept s r s' → s'.desk.Good table →
    D.inv s' ∧ D.guar t .accept s r s'
  desk : ∀ t op s r s', (∀ o, op ≠ .inner o) → op ≠ .accept → D.inv s → M.exec t op s r s' →
    s'.desk.Good table → D.inv s' ∧ D.guar t op s r s'

/-- What stays true of the record for as long as only the others change it. -/
def Lasting (t : ℕ) (A : Desk → Prop) : Prop := ∀ d d', d.Sees t d' → A d → A d'

variable {t : ℕ}

lemma Lasting.and {A A' : Desk → Prop} (h : Lasting t A) (h' : Lasting t A') :
    Lasting t fun d => A d ∧ A' d :=
  fun d d' hle hA => ⟨h d d' hle hA.1, h' d d' hle hA.2⟩

lemma lasting_served (r : Request) : Lasting t fun d => d.served t = some r ∧ t ∉ d.gone :=
  fun _ _ hle h => ⟨hle.own.trans h.1, fun hmem => h.2 (hle.stays hmem)⟩

lemma lasting_signed (cfg : Config) (r : Request) (raw : Bytes) :
    Lasting t fun d => Signed cfg d t r raw ∧ t ∉ d.gone :=
  fun _ _ hle h => ⟨h.1.mono hle.le, fun hmem => h.2 (hle.stays hmem)⟩

lemma lasting_known (table : CaseTable) (user email : Bytes) :
    Lasting t fun d => Known table d t user email :=
  fun _ _ hle h => h.mono hle.le

/-- Slack answered the call after the given readings. -/
def Answered (t : ℕ) (user : Bytes) (a : ApiAnswer) (before : Readings) (d : Desk) : Prop :=
  (t, user, a, before) ∈ d.answers ∧ before <:+ d.readings

lemma lasting_answered (user : Bytes) (a : ApiAnswer) (before : Readings) :
    Lasting t (Answered t user a before) :=
  fun _ _ hle h => ⟨hle.le.answers h.1, h.2.trans hle.le.readings⟩

/-- The call found an entry of the cache that was kept at the given time. -/
def Found (table : CaseTable) (t : ℕ) (user email : Bytes) (kept : ℕ) (before : Readings)
    (d : Desk) : Prop :=
  (t, user, ⟨email, kept + emailCacheTTL⟩, before) ∈ d.found ∧ before <:+ d.readings ∧
    Vouched table d user email kept

lemma lasting_found (table : CaseTable) (user email : Bytes) (kept : ℕ) (before : Readings) :
    Lasting t (Found table t user email kept before) :=
  fun _ _ hle h =>
    ⟨hle.le.found h.1, h.2.1.trans hle.le.readings, h.2.2.mono hle.le⟩

lemma lasting_readSince (before : Readings) (now : ℕ) :
    Lasting t fun d => d.ReadSince before t now :=
  fun _ _ hle h => h.mono hle.le

lemma lasting_const (P : Prop) : Lasting t fun _ => P := fun _ _ _ h => h

variable {table : CaseTable} {M : Semantics (AppOp Inner) (AppRes Res) (Floor W)}
  {D : Discipline M} {α : Type} {A : Desk → Prop} {B : α → Floor W → Prop}

lemma Hosts.stable (H : Hosts table inner D) (hA : Lasting t A) :
    D.Stable t fun s => A s.desk :=
  fun s s' h hr => hA _ _ (H.rely t s s' hr) h

lemma holds_op {P : Floor W → Prop} {op : AppOp Inner} {f : AppRes Res op → AppProg Res α}
    {C : AppRes Res op → Floor W → Prop} (hst : D.Stable t P)
    (hexec : ∀ s r s', D.inv s → P s → M.exec t op s r s' →
      D.inv s' ∧ D.guar t op s r s' ∧ C r s')
    (hf : ∀ r, D.Holds t (C r) (f r) B) : D.Holds t P (effect op >>= f) B :=
  Discipline.holds_call hst hexec hf

lemma Hosts.holds_desk (H : Hosts table inner D) {P : Floor W → Prop} {op : AppOp Inner}
    {f : AppRes Res op → AppProg Res α} {C : AppRes Res op → Floor W → Prop}
    (hop : ∀ o, op ≠ .inner o) (hacc : op ≠ .accept) (hst : D.Stable t P)
    (hexec : ∀ s r s', s.desk.Good table → P s → (machine inner).semantics.exec t op s r s' →
      s'.desk.Good table ∧ C r s')
    (hf : ∀ r, D.Holds t (C r) (f r) B) : D.Holds t P (effect op >>= f) B := by
  refine holds_op hst (fun s r s' hi hA hx => ?_) hf
  obtain ⟨hgood, hC⟩ := hexec s r s' (H.good s hi) hA (H.exec t op s r s' hx)
  obtain ⟨hi', hg⟩ := H.desk t op s r s' hop hacc hi hx hgood
  exact ⟨hi', hg, hC⟩

lemma Hosts.holds_return (H : Hosts table inner D) (hA : Lasting t A) {a : α}
    (h : ∀ s, A s.desk → B a s) : D.Holds t (fun s => A s.desk) (.ret a) B :=
  Discipline.holds_ret (H.stable hA) fun s _ hs => h s hs

lemma Hosts.holds_now (H : Hosts table inner D) (hA : Lasting t A) {before : Readings}
    (hbefore : ∀ d, A d → before <:+ d.readings) {f : ℕ → AppProg Res α}
    (hf : ∀ now, D.Holds t
      (fun s => A s.desk ∧ s.desk.ReadSince before t now ∧ now < maxClock) (f now) B) :
    D.Holds t (fun s => A s.desk) (effect .now >>= f) B := by
  refine H.holds_desk (by simp) (by simp) (H.stable hA) (fun s now s' hg h hx => ?_) hf
  obtain ⟨rfl, rfl⟩ := exec_now hx
  exact ⟨hg.read, hA _ _ .read h, Desk.readSince_read (hbefore _ h), hg.clock⟩

variable {cfg : Config} {r : Request} {raw user : Bytes}

/-- Whether a signed time is close to the clock is decided exactly. -/
lemma fresh_iff {now : ℕ} {ts : ℤ} {timestamp : Bytes} (hnow : now < maxClock)
    (hts : parseInt timestamp = some ts) : fresh now ts = true ↔
      -maxSignatureAge ≤ now - ts * 1000000000 ∧ now - ts * 1000000000 ≤ maxSignatureAge := by
  have hwindow : 0 ≤ maxSignatureAge ∧ maxSignatureAge < 2 ^ 60 := by decide
  rw [← GoTime.sub_unix_within hnow (parseInt_bounds hts) hwindow]
  simp only [fresh, Bool.not_eq_true', Bool.or_eq_false_iff, decide_eq_false_iff_not, not_lt]
  exact And.comm

lemma Hosts.holds_verify (H : Hosts table inner D) {app : App} (hpost : r.method = lit "POST")
    (hbody : r.body.readAll maxBody = .ok raw) :
    D.Holds t (fun s => s.desk.served t = some r ∧ t ∉ s.desk.gone)
      (verify app (r.header.get (lit "X-Slack-Request-Timestamp"))
        (r.header.get (lit "X-Slack-Signature")) raw)
      (fun ok s => ok = true → Signed app.cfg s.desk t r raw ∧ t ∉ s.desk.gone) := by
  unfold verify
  split
  · exact H.holds_return (lasting_served r) (by simp)
  · rename_i ts hts
    split
    · exact H.holds_return (lasting_served r) (by simp)
    · refine H.holds_now (lasting_served r) (fun _ _ => List.nil_suffix) fun now => ?_
      have hlast : Lasting t fun d => (d.served t = some r ∧ t ∉ d.gone) ∧
          d.ReadSince [] t now ∧ now < maxClock :=
        (lasting_served r).and ((lasting_readSince [] now).and (lasting_const _))
      split
      · rename_i hfresh
        refine H.holds_return hlast fun s hs hok => ?_
        have hage := (fresh_iff hs.2.2 hts).mp hfresh
        exact ⟨⟨hs.1.1, hpost, hbody, (beq_iff_eq.mp hok).symm, ts, now, hts, hs.2.1.mem, hage⟩,
          hs.1.2⟩
      · exact H.holds_return hlast (by simp)

def Resolved (table : CaseTable) (t : ℕ) (A : Desk → Prop) (user : Bytes)
    (res : Except GoError Bytes) (s : Floor W) : Prop :=
  A s.desk ∧ ∀ e, res = .ok e → Known table s.desk t user e

lemma Hosts.holds_unresolved (H : Hosts table inner D) {A' : Desk → Prop} (hA' : Lasting t A')
    (hsub : ∀ d, A' d → A d) {err : GoError} :
    D.Holds t (fun s => A' s.desk) (.ret (.error err)) (Resolved table t A user) :=
  H.holds_return hA' fun s hs => ⟨hsub _ hs, by simp⟩

lemma Hosts.holds_keepEmail (H : Hosts table inner D) (hA : Lasting t A) {a : ApiAnswer}
    {before : Readings} {info : UserInfo} (hinfo : a.userInfo = .ok info) :
    D.Holds t (fun s => A s.desk ∧ Answered t user a before s.desk) (keepEmail table user info)
      (Resolved table t A user) := by
  have hlast : Lasting t fun d => A d ∧ Answered t user a before d :=
    hA.and (lasting_answered user a before)
  unfold keepEmail
  split
  · exact H.holds_unresolved hlast fun _ h => h.1
  · rename_i hok
    split
    · exact H.holds_unresolved hlast fun _ h => h.1
    · rename_i hperson
      split
      · exact H.holds_unresolved hlast fun _ h => h.1
      · rename_i hne
        have hreports : Reports table a (toLower table info.email) := by
          simp only [Bool.not_eq_true', Bool.not_eq_false, Bool.or_eq_true, not_or,
            Bool.not_eq_true] at hok hperson
          exact ⟨info, hinfo, hok, hperson.1, hperson.2, hne, rfl⟩
        refine H.holds_now hlast (fun _ h => h.2.2) fun now => ?_
        have hvouch : ∀ d : Desk, (A d ∧ Answered t user a before d) ∧ d.ReadSince before t now ∧
            now < maxClock → Vouched table d user (toLower table info.email) now :=
          fun d hd => ⟨t, a, before, hd.1.2.1, hd.2.1, hreports⟩
        have hlearnt : ∀ d : Desk, (A d ∧ Answered t user a before d) ∧ d.ReadSince before t now ∧
            now < maxClock → Known table d t user (toLower table info.email) :=
          fun d hd => ⟨before, now, now, .inl ⟨a, hd.1.2.1, hreports, rfl⟩, hd.2.1, hvouch d hd,
            le_rfl, Nat.lt_add_of_pos_right (by decide)⟩
        have hknown : Lasting t fun d => A d ∧ Known table d t user (toLower table info.email) :=
          hA.and (lasting_known table user _)
        refine H.holds_desk (by simp) (by simp)
          (H.stable (hlast.and ((lasting_readSince before now).and (lasting_const _))))
          (C := fun _ s' => A s'.desk ∧ Known table s'.desk t user (toLower table info.email))
          (fun s _ s' hg h hx => ?_) fun _ => H.holds_return hknown fun s hs => ?_
        · obtain rfl := exec_storeEmail hx
          exact ⟨hg.stored (hvouch _ h), hA _ _ .stored h.1.1, (hlearnt _ h).mono .stored⟩
        · exact ⟨hs.1, fun e he => Except.ok.inj he ▸ hs.2⟩

lemma Hosts.holds_fetchEmail (H : Hosts table inner D) (hA : Lasting t A) :
    D.Holds t (fun s => A s.desk) (fetchEmail table user) (Resolved table t A user) := by
  refine H.holds_desk (by simp) (by simp) (H.stable hA) (C := fun a s' => A s'.desk ∧
    ∀ a', a = .ok a' → ∃ before, Answered t user a' before s'.desk)
    (fun s a s' hg h hx => ?_) fun a => ?_
  · obtain rfl := exec_usersInfo hx
    refine ⟨hg.answered a, hA _ _ (.answered a) h, ?_⟩
    rintro a' rfl
    exact ⟨s.desk.readings, List.mem_cons_self, List.suffix_refl _⟩
  · cases a with
    | error err =>
      exact Discipline.holds_mono (H.holds_unresolved hA fun _ h => h) (fun _ _ h => h.1)
        fun _ _ _ h => h
    | ok a =>
      intro s hi h
      obtain ⟨before, hanswered⟩ := h.2 a rfl
      refine (?_ : D.Holds t (fun s => A s.desk ∧ Answered t user a before s.desk) _
        (Resolved table t A user)) s hi ⟨h.1, hanswered⟩
      split
      · exact H.holds_unresolved (hA.and (lasting_answered user a before)) fun _ h => h.1
      · rename_i info hinfo
        exact H.holds_keepEmail hA hinfo

/-- A cached email that has not expired is known. -/
lemma Hosts.holds_cached (H : Hosts table inner D) (hA : Lasting t A) {cached : Bytes} {kept : ℕ}
    {before : Readings} :
    D.Holds t (fun s => A s.desk ∧ Found table t user cached kept before s.desk)
      (effect .now >>= fun now =>
        if now < kept + emailCacheTTL then .ret (.ok cached) else fetchEmail table user)
      (Resolved table t A user) := by
  have hlast : Lasting t fun d => A d ∧ Found table t user cached kept before d :=
    hA.and (lasting_found table user cached kept before)
  refine H.holds_desk (by simp) (by simp) (H.stable hlast) (C := fun now s' => A s'.desk ∧
    (now < kept + emailCacheTTL → Known table s'.desk t user cached))
    (fun s now s' hg h hx => ?_) fun now => ?_
  · obtain ⟨rfl, rfl⟩ := exec_now hx
    refine ⟨hg.read, hA _ _ .read h.1, fun hlt => ?_⟩
    obtain ⟨hfound, hbefore, hv⟩ := h.2
    obtain ⟨u, a, earlier, -, hk, -⟩ := id hv
    exact ⟨before, kept, s.desk.clock, .inr hfound, Desk.readSince_read hbefore, hv.mono .read,
      hg.past _ hk.mem, hlt⟩
  · split
    · rename_i hlt
      have hknown : Lasting t fun d => A d ∧
          (now < kept + emailCacheTTL → Known table d t user cached) :=
        hA.and fun _ _ hle h hlt => (h hlt).mono hle.le
      exact H.holds_return hknown fun s hs => ⟨hs.1, fun e he => Except.ok.inj he ▸ hs.2 hlt⟩
    · exact Discipline.holds_mono (H.holds_fetchEmail hA) (fun _ _ h => h.1) fun _ _ _ h => h

/-- The email of a user is one that Slack reported, recently. -/
lemma Hosts.holds_email (H : Hosts table inner D) (hA : Lasting t A) :
    D.Holds t (fun s => A s.desk) (email table user) (Resolved table t A user) := by
  unfold email
  split
  · exact H.holds_unresolved hA fun _ h => h
  · refine H.holds_desk (by simp) (by simp) (H.stable hA) (C := fun c s' => A s'.desk ∧
      ∀ c', c = some c' → ∃ kept before, c'.expires = kept + emailCacheTTL ∧
        Found table t user c'.email kept before s'.desk) (fun s c s' hg h hx => ?_) fun c => ?_
    · obtain ⟨rfl, rfl⟩ := exec_lookupEmail hx
      refine ⟨hg.looked _, hA _ _ (.looked _) h, fun c' hc => ?_⟩
      obtain ⟨kept, hv, hexpires⟩ := hg.cached user c' hc
      rw [hc]
      refine ⟨kept, s.desk.readings, hexpires, ?_, List.suffix_refl _, hv.mono (.looked (some c'))⟩
      rw [← hexpires]
      exact List.mem_cons_self
    · cases c with
      | none =>
        exact Discipline.holds_mono (H.holds_fetchEmail hA) (fun _ _ h => h.1) fun _ _ _ h => h
      | some c =>
        intro s hi h
        obtain ⟨kept, before, hexpires, hfound⟩ := h.2 c rfl
        obtain ⟨cached, expires⟩ := c
        obtain rfl : expires = kept + emailCacheTTL := hexpires
        exact H.holds_cached hA s hi ⟨h.1, hfound⟩

/-- Running the decider on behalf of a request that is cleared for it keeps the discipline. -/
def Decides (table : CaseTable) (cfg : Config) (D : Discipline M)
    (dec : Decider Inner Res) : Prop :=
  ∀ t id email,
    D.Holds t (fun s => Cleared table cfg s.desk t true id email ∧ t ∉ s.desk.gone)
      (embed (dec.approve id email)) (fun _ _ => True) ∧
    D.Holds t (fun s => Cleared table cfg s.desk t false id email ∧ t ∉ s.desk.gone)
      (embed (dec.deny id email (lit "Denied in Slack"))) (fun _ _ => True)

variable {dec : Decider Inner Res} {app : App}

lemma stable_trivial : D.Stable t fun _ => True := fun _ _ h _ => h

lemma holds_trivial {P : Floor W → Prop} (hst : D.Stable t P) {a : α} :
    D.Holds t P (.ret a) fun _ _ => True :=
  Discipline.holds_ret hst fun _ _ _ => trivial

lemma Hosts.holds_decide (H : Hosts table inner D) (hdec : Decides table cfg D dec)
    {actionID id : Bytes} (haction : actionID = actionApprove ∨ actionID = actionDeny)
    (hclick : Clicked cfg raw user actionID id) :
    D.Holds t (fun s => Signed cfg s.desk t r raw ∧ t ∉ s.desk.gone)
      (decide table dec (new table cfg) user actionID id) (fun _ _ => True) := by
  refine Discipline.holds_bind (H.holds_email (lasting_signed cfg r raw)) fun res => ?_
  have hlast : Lasting t fun d => (Signed cfg d t r raw ∧ t ∉ d.gone) ∧
      ∀ e, res = .ok e → Known table d t user e :=
    (lasting_signed cfg r raw).and fun _ _ hle h e he => (h e he).mono hle.le
  have hst := H.stable (t := t) hlast
  cases res with
  | error err => exact holds_trivial hst
  | ok email =>
    have hcleared : ∀ approving, actionID = button approving → email ∈ (new table cfg).reviewers →
        ∀ s : Floor W, Resolved table t (fun d => Signed cfg d t r raw ∧ t ∉ d.gone) user
          (.ok email) s → Cleared table cfg s.desk t approving id email ∧ t ∉ s.desk.gone := by
      rintro approving rfl hreviewer s hs
      exact ⟨⟨r, raw, user, hs.1.1, hclick, hs.2 email rfl, hreviewer⟩, hs.1.2⟩
    change D.Holds t _ (if email ∉ (new table cfg).reviewers then _
      else if actionID = actionApprove then _ else _) _
    split_ifs with hreviewer happrove
    · refine Discipline.holds_bind (Discipline.holds_mono (hdec t id email).1
        (fun s _ hs => hcleared true happrove hreviewer s hs) fun _ _ _ h => h) ?_
      exact fun _ => holds_trivial stable_trivial
    · have hdeny : actionID = button false := haction.resolve_left happrove
      refine Discipline.holds_bind (Discipline.holds_mono (hdec t id email).2
        (fun s _ hs => hcleared false hdeny hreviewer s hs) fun _ _ _ h => h) ?_
      exact fun _ => holds_trivial stable_trivial
    · exact holds_trivial hst

lemma Hosts.holds_serveInteraction (H : Hosts table inner D) (hdec : Decides table cfg D dec)
    {i : Interaction} (hpayload : payload raw = some i) :
    D.Holds t (fun s => Signed cfg s.desk t r raw ∧ t ∉ s.desk.gone)
      (serveInteraction table dec (new table cfg) i) (fun _ _ => True) := by
  have hst := H.stable (t := t) (lasting_signed (t := t) cfg r raw)
  unfold serveInteraction
  split_ifs with hteam htype
  · exact holds_trivial hst
  · exact holds_trivial hst
  · cases haction : i.action with
    | none => exact holds_trivial hst
    | some act =>
      change D.Holds t _ (if act.actionID ≠ actionApprove ∧ act.actionID ≠ actionDeny then _
        else _) _
      split_ifs with hbutton
      · exact holds_trivial hst
      · have hteam' : cfg.teamID ≠ [] → i.teamID = cfg.teamID := fun hne => by
          by_contra hother
          exact hteam ⟨hne, hother⟩
        have hclick : Clicked cfg raw i.userID act.actionID act.value :=
          ⟨i, hpayload, hteam', not_not.mp htype, haction, rfl⟩
        refine Discipline.holds_bind (H.holds_decide hdec (by tauto) hclick) fun _ => ?_
        exact holds_trivial stable_trivial

lemma Hosts.holds_servePayload (H : Hosts table inner D) (hdec : Decides table cfg D dec) :
    D.Holds t (fun s => Signed cfg s.desk t r raw ∧ t ∉ s.desk.gone)
      (servePayload table dec (new table cfg) raw) (fun _ _ => True) := by
  have hst := H.stable (t := t) (lasting_signed (t := t) cfg r raw)
  unfold servePayload
  split_ifs with hform
  · exact holds_trivial hst
  · have hpayload : payload raw =
        unmarshalInteraction (UrlQuery.get (UrlQuery.parseQuery raw).1 (lit "payload")) :=
      if_neg hform
    rw [← hpayload]
    cases hi : payload raw with
    | none => exact holds_trivial hst
    | some i => exact H.holds_serveInteraction hdec hi

lemma Hosts.holds_serveHTTP (H : Hosts table inner D) (hdec : Decides table cfg D dec) :
    D.Holds t (fun s => s.desk.served t = some r ∧ t ∉ s.desk.gone)
      (serveHTTP table dec (new table cfg) r) (fun _ _ => True) := by
  have hst := H.stable (t := t) (lasting_served (t := t) r)
  unfold serveHTTP
  split_ifs with hpost
  · exact holds_trivial hst
  · cases hbody : r.body.readAll maxBody with
    | error err => exact holds_trivial hst
    | ok raw =>
      refine Discipline.holds_bind (H.holds_verify (not_not.mp hpost) hbody) fun ok => ?_
      cases ok with
      | true =>
        exact Discipline.holds_mono (H.holds_servePayload hdec) (fun _ _ h => h rfl)
          fun _ _ _ h => h
      | false =>
        exact Discipline.holds_mono (A := fun _ => True) (holds_trivial stable_trivial)
          (fun _ _ _ => trivial) fun _ _ _ h => h

/-- The endpoint keeps every discipline under which its decider may run for requests that are
cleared. -/
theorem Hosts.holds_serve (H : Hosts table inner D) (hdec : Decides table cfg D dec) :
    D.Holds t (fun s => D.fresh t s) (serve table dec (new table cfg))
      (fun _ _ => True) := by
  have hst : D.Stable t fun s => D.fresh t s := fun s s' h hr => D.fresh_rely t s s' h hr
  refine holds_op hst (C := fun r s' => s'.desk.served t = some r ∧ t ∉ s'.desk.gone)
    (fun s r s' hi hfresh hx => ?_) fun r => ?_
  · have hx' := H.exec t _ s r s' hx
    obtain ⟨-, rfl⟩ := exec_accept hx'
    obtain ⟨hi', hg⟩ := H.accept t s r _ hi hfresh hx (H.good s hi).accepted
    exact ⟨hi', hg, Function.update_self _ _ _, (H.fresh t s hfresh).2⟩
  · refine Discipline.holds_bind (H.holds_serveHTTP hdec) fun response => ?_
    refine H.holds_desk (by simp) (by simp) stable_trivial (C := fun _ _ => True)
      (fun s _ s' hg _ hx => ?_) fun _ => holds_trivial stable_trivial
    obtain rfl := exec_respond hx
    exact ⟨hg.ended, trivial⟩

end Endpoint

end KiteRail.Slack
