import KiteRail.ProxyEnforcement
import KiteRail.QuarantineServes

namespace KiteRail.Replay
open Bytes QuarantineStore Prog Discipline

/-- A state that some run of a deployment reaches. -/
def Reached (lib : UuidLib) (cfg : Config) (c : Pool Op Res World Unit) : Prop :=
  ∃ ls, Run (World.machine lib).semantics (Serves lib cfg) (Pool.initial World.initial) ls c

/-- A reviewer's decision on `id` that was committed. -/
def Event.decides (id : UUID) : Event → Bool
  | .approved i _ => i = id
  | .denied i _ => i = id
  | _ => false

/-- A transition of `id` to `replay_failed` that was committed. -/
def Event.parks (id : UUID) : Event → Bool
  | .parked i _ => i = id
  | _ => false

def Event.calls (entryID : Bytes) : Event → Bool
  | .called e _ => e = entryID
  | _ => false

section Events
variable {lib : UuidLib} {u : UUID} {e : Event}

lemma act_eq_hold {payload : Bytes} : e.act lib u = some (.hold payload) ↔
    ∃ row, e = .held row ∧ row.id = u ∧ row.payload = payload := by
  cases e <;> simp [Event.act]

lemma act_eq_approve {reviewer : Option Bytes} :
    e.act lib u = some (.approve reviewer) ↔ e = .approved u reviewer := by
  cases e <;> simp [Event.act]

lemma act_eq_park {site : ParkSite} :
    e.act lib u = some (.park site) ↔ e = .parked u site := by
  cases e <;> simp [Event.act]

lemma countP_acts {p : Act → Bool} {q : Event → Bool}
    (hpq : ∀ e : Event, ((e.act lib u).map p).getD false = q e) (hist : History) :
    (acts lib u hist).countP p = hist.countP fun e => q e.2 := by
  rw [acts, List.countP_filterMap]
  simp only [hpq]

lemma map_decides (e : Event) : ((e.act lib u).map Act.decides).getD false = e.decides u := by
  cases e <;> simp only [Event.act, Event.decides] <;> (try split_ifs) <;> simp_all [Act.decides]

lemma map_parks (e : Event) : ((e.act lib u).map Act.parks).getD false = e.parks u := by
  cases e <;> simp only [Event.act, Event.parks] <;> (try split_ifs) <;> simp_all [Act.parks]

lemma map_call (e : Event) :
    ((e.act lib u).map fun a => a == .call).getD false = e.calls (lib.text u) := by
  cases e <;> simp only [Event.act, Event.calls] <;> (try split_ifs) <;> simp_all

lemma exists_of_acts {hist : History} {before after : List Act} {a : Act}
    (h : acts lib u hist = before ++ a :: after) :
    ∃ x t e y, hist = x ++ (t, e) :: y ∧ e.act lib u = some a ∧ acts lib u x = before ∧
      acts lib u y = after := by
  obtain ⟨x, rest, rfl, hx, hrest⟩ := List.filterMap_eq_append_iff.mp h
  obtain ⟨w, ⟨t, e⟩, y, rfl, hw, he, hy⟩ := List.filterMap_eq_cons_iff.mp hrest
  refine ⟨x ++ w, t, e, y, by simp, he, ?_, hy⟩
  rw [acts_append, show acts lib u x = before from hx]
  have hnil : acts lib u w = [] := List.filterMap_eq_nil_iff.mpr hw
  simp [hnil]

end Events

section
variable {lib : UuidLib} {cfg : Config} {c d : Pool Op Res World Unit} {s s' : World} {t : ℕ}

lemma Reached.sound (h : Reached lib cfg c) : Sound (discipline lib cfg) (fun _ _ _ => True) c :=
  h.elim fun _ hr => sound_run hr

lemma Reached.inv (h : Reached lib cfg c) : Inv lib cfg c.shared := h.sound.inv

lemma Reached.run (h : Reached lib cfg c) {ls : List (Label Op Res)}
    (hr : Run (World.machine lib).semantics (Serves lib cfg) c ls d) : Reached lib cfg d :=
  h.elim fun _ h => ⟨_, h.trans hr⟩

lemma acts_update_le {guard : Quarantine → Bool} {event : Quarantine → Event} {u : UUID}
    (hevent : ∀ r, r.id ≠ u → (event r).act lib u = none) :
    (acts lib u ((s.table.hits guard).map fun r => (t, event r))).length ≤ 1 := by
  rw [acts_hits hevent]
  exact Option.length_toList_le

/-- Histories only grow, for one entry by one act at a time. -/
lemma hist_of_exec {op : Op} {r : Res op} (h : (World.machine lib).semantics.exec t op s r s') :
    ∃ new, s'.hist = s.hist ++ new ∧ ∀ u, (acts lib u new).length ≤ 1 := by
  have hsingle : ∀ (e : Event) (u : UUID), (acts lib u [(t, e)]).length ≤ 1 := fun e u =>
    List.length_filterMap_le _ _
  rcases exec_cases h with rfl | hd
  · exact ⟨[], by simp, by simp [acts]⟩
  cases op with
  | append entry =>
    obtain ⟨res, rfl⟩ := hd
    exact ⟨_, rfl, hsingle _⟩
  | createQuarantineEntry arg =>
    obtain ⟨id, hnew, rfl⟩ := hd
    exact ⟨_, rfl, hsingle _⟩
  | claimApprovedForReplay limit =>
    obtain ⟨ids, rfl⟩ := hd
    exact ⟨_, rfl, fun _ => acts_update_le fun _ hr => if_neg hr⟩
  | markReplayed id =>
    obtain ⟨now, rfl⟩ := hd
    exact ⟨_, rfl, fun _ => acts_update_le fun _ hr => if_neg hr⟩
  | tryReplayLock =>
    obtain ⟨-, rfl⟩ := hd
    exact ⟨[], by simp, by simp [acts]⟩
  | rollback =>
    obtain rfl := hd
    exact ⟨[], by simp [World.unlock], by simp [acts]⟩
  | _ => first
    | exact hd.elim
    | (obtain rfl := hd; exact ⟨_, rfl, hsingle _⟩)
    | (obtain rfl := hd; exact ⟨_, rfl, fun _ => acts_update_le fun _ hr => if_neg hr⟩)

lemma hist_of_run {ls : List (Label Op Res)}
    (h : Run (World.machine lib).semantics (Serves lib cfg) c ls d) :
    ∃ new, d.shared.hist = c.shared.hist ++ new := by
  induction h with
  | nil => exact ⟨[], by simp⟩
  | snoc _ hs ih =>
    obtain ⟨new, hnew⟩ := ih
    cases hs with
    | start hp => exact ⟨new, hnew⟩
    | act ht hx =>
      obtain ⟨new', hnew', -⟩ := hist_of_exec hx
      exact ⟨new ++ new', by simp [hnew', hnew]⟩
    | lose ht => exact ⟨new, hnew⟩
    | env he => exact he.choose.elim

lemma Reached.call {entryID : Bytes} {req : OutRequest} {r : Res (.httpDo entryID req)}
    (h : Reached lib cfg c)
    (hs : Step (World.machine lib).semantics (Serves lib cfg) c
      (.act t (.httpDo entryID req) r) d) :
    ∃ row, c.shared.table.find row.id = some row ∧ entryID = lib.text row.id ∧
      row.status = .replaying := by
  cases hs with
  | act ht hx =>
    obtain ⟨-, ⟨hp, -⟩, -⟩ := h.sound.act ht hx
    obtain ⟨-, -, row, rs, hrow, hstatus, -, hid, -⟩ := hp
    exact ⟨row, hrow, hid, hstatus⟩

lemma Reached.denied (h : Reached lib cfg c) {u : ℕ} {id : UUID}
    {reviewer : Option Bytes} (hd : (u, .denied id reviewer) ∈ c.shared.hist) :
    ∃ row, c.shared.table.find id = some row ∧ row.status = .denied := by
  obtain ⟨m, hm, hrel⟩ := h.inv.lives id
  have hmem : Act.deny ∈ acts lib id c.shared.hist :=
    List.mem_filterMap.mpr ⟨_, hd, by simp [Event.act]⟩
  obtain ⟨before, after, hacts⟩ := List.append_of_mem hmem
  have hm : Lives cfg ((before ++ [.deny]) ++ after) m := by simpa [hacts] using hm
  obtain ⟨m', hm'⟩ := hm.of_append
  cases m' with
  | none => simp [Lives.none_iff] at hm'
  | some l =>
    have hphase : l.phase = .denied := by
      obtain ⟨_, -, hn⟩ := Lives.snoc_iff.mp hm'
      cases hn
      rfl
    obtain rfl : after = [] := hm'.terminal (.inl hphase) hm
    obtain rfl := hm'.unique (by simpa using hm)
    cases hf : c.shared.table.find id with
    | none => simp [hf] at hrel
    | some row =>
      rw [hf] at hrel
      cases hrel with
      | some ha => exact ⟨row, rfl, by rw [ha.status, hphase]; rfl⟩

/-- A row being replayed was approved. -/
lemma Inv.approved (h : Inv lib cfg s) {row : Quarantine}
    (hrow : s.table.find row.id = some row) (hr : row.status = .replaying) :
    ∃ u reviewer, (u, .approved row.id reviewer) ∈ s.hist := by
  obtain ⟨l, hl, ha⟩ := h.life hrow
  have hphase : l.phase ≠ .pending ∧ l.phase ≠ .denied := by
    rcases ha.replaying hr with hp | hp <;> simp [hp]
  obtain ⟨before, after, hacts, -⟩ := hl.approved hphase.1 hphase.2
  obtain ⟨x, u, e, y, hhist, he, -⟩ := exists_of_acts hacts
  obtain rfl := act_eq_approve.mp he
  exact ⟨u, l.reviewer, by simp [hhist]⟩

lemma Reached.final (h : Reached lib cfg c) {ls : List (Label Op Res)}
    (hr : Run (World.machine lib).semantics (Serves lib cfg) c ls d) {id : UUID} {row : Quarantine}
    (hrow : c.shared.table.find id = some row)
    (hfinal : row.status = .denied ∨ row.status = .replayed) :
    ∃ row', d.shared.table.find id = some row' ∧ row'.status = row.status := by
  obtain ⟨l, hl, ha⟩ := h.inv.life hrow
  have hphase : l.phase = .denied ∨ l.phase = .replayed := by
    rw [ha.status] at hfinal
    cases hp : l.phase <;> simp [hp, Phase.status] at hfinal ⊢
  obtain ⟨new, hnew⟩ := hist_of_run hr
  obtain ⟨m, hm, hrel⟩ := (h.run hr).inv.lives id
  rw [hnew, acts_append] at hm
  have hnil : acts lib id new = [] := hl.terminal hphase hm
  rw [hnil, List.append_nil] at hm
  obtain rfl := hl.unique hm
  cases hf : d.shared.table.find id with
  | none => simp [hf] at hrel
  | some row' =>
    rw [hf] at hrel
    cases hrel with
    | some ha' => exact ⟨row', rfl, ha'.status.trans ha.status.symm⟩

lemma Inv.decisions (h : Inv lib cfg s) (id : UUID) :
    (s.hist.countP fun e => e.2.decides id) ≤ 1 + s.hist.countP fun e => e.2.parks id := by
  obtain ⟨m, hm, -⟩ := h.lives id
  have hdecides : (acts lib id s.hist).countP Act.decides = _ := countP_acts map_decides _
  have hparks : (acts lib id s.hist).countP Act.parks = _ := countP_acts map_parks _
  rw [← hdecides, ← hparks]
  cases m with
  | none => simp [Lives.none_iff.mp hm]
  | some l =>
    have hd := hm.decisions_eq
    split_ifs at hd <;> omega

end

/-- No replay without an approval, and no decision is undone: over every run, with
any failures, cancellations and crashes. -/
theorem replay_follows_approval (lib : UuidLib) (cfg : Config) (c : Pool Op Res World Unit)
    (hc : Reached lib cfg c) :
    (∀ t entryID req r d, Step (World.machine lib).semantics (Serves lib cfg) c
      (.act t (.httpDo entryID req) r) d →
      ∃ row, c.shared.table.find row.id = some row ∧ entryID = lib.text row.id ∧
        row.status = .replaying ∧ ∃ u reviewer, (u, .approved row.id reviewer) ∈ c.shared.hist) ∧
    (∀ u id reviewer, (u, .denied id reviewer) ∈ c.shared.hist → ∀ t req r d,
      ¬ Step (World.machine lib).semantics (Serves lib cfg) c
        (.act t (.httpDo (lib.text id) req) r) d) ∧
    (∀ ls d, Run (World.machine lib).semantics (Serves lib cfg) c ls d → ∀ id row,
      c.shared.table.find id = some row → row.status = .denied ∨ row.status = .replayed →
      ∃ row', d.shared.table.find id = some row' ∧ row'.status = row.status) ∧
    (∀ id, (c.shared.hist.countP fun e => e.2.decides id) ≤
      1 + c.shared.hist.countP fun e => e.2.parks id) := by
  refine ⟨?_, ?_, fun ls d hr id row hrow hfinal => hc.final hr hrow hfinal, hc.inv.decisions⟩
  · intro t entryID req r d hs
    obtain ⟨row, hrow, hid, hstatus⟩ := hc.call hs
    exact ⟨row, hrow, hid, hstatus, hc.inv.approved hrow hstatus⟩
  · intro u id reviewer hd t req r d hs
    obtain ⟨row, hrow, hid, hstatus⟩ := hc.call hs
    obtain rfl := lib.text_injective hid
    obtain ⟨row', hrow', hdenied⟩ := hc.denied hd
    obtain rfl := Option.some.inj (hrow.symm.trans hrow')
    simp [hstatus] at hdenied

def sampleLib : UuidLib where
  parse bs := .ok (BitVec.ofNat 128 (Nat.ofDigits 256 (bs.map UInt8.toNat)))
  text u := (Nat.digits 256 u.toNat).map UInt8.ofNat
  parse_text u := by
    have hbytes : ((Nat.digits 256 u.toNat).map UInt8.ofNat).map UInt8.toNat =
        Nat.digits 256 u.toNat := by
      rw [List.map_map]
      conv_rhs => rw [← List.map_id (Nat.digits 256 u.toNat)]
      refine List.map_congr_left fun d hd => ?_
      exact Nat.mod_eq_of_lt (Nat.digits_lt_base (by decide) hd)
    rw [hbytes, Nat.ofDigits_digits]
    simp

def sampleWorker : QuarantineWorker.Worker :=
  ⟨true, .ok ⟨lit "http", lit "tools", lit "/mcp", [], []⟩, lit "token", 3, 10, false⟩

def sampleConfig : Config := ⟨3, True, True⟩

def noon : Time := ⟨1700000000000000000, 0⟩

def well : Choice := .done noon .ok

def heldAndApproved : List (Machine.Move Op Res Unit Choice Empty) :=
  [.start (do
      let _ ← Proxy.serveHTTP Proxy.sampleHandler Proxy.sampleRequest
      return ()),
    .act 0 (.clock noon), .act 0 (.verdict (.ok ⟨.quarantine, lit "rule", [], lit "v1"⟩)),
    .act 0 (.clock noon), .act 0 well, .act 0 (.clock noon), .act 0 (.inserted 1 .ok),
    .start (do
      let _ ← QuarantineHandler.approve sampleLib ⟨true⟩ (sampleLib.text 1) (lit "alice")
      return ()),
    .act 1 well, .act 1 (.clock noon), .act 1 well, .act 1 well]

/-- A pass of thread `t` that claims the request, and what it then does. -/
def claimingPass (t : ℕ) (rest : List Choice) : List (Machine.Move Op Res Unit Choice Empty) :=
  .start (QuarantineWorker.processOnce sampleLib sampleWorker) ::
    ([.context none, well, well, well, .claimed [1] .ok, .context none] ++ rest).map (.act t)

def succeeds : List Choice := [well, .response 200, well, well, well]

lemma heldAndApproved_serves :
    ∀ p ∈ Machine.starts heldAndApproved, Serves sampleLib sampleConfig p :=
  List.forall_mem_cons.mpr ⟨.proxy Proxy.sampleHandler Proxy.sampleRequest fun _ => rfl,
    List.forall_mem_cons.mpr ⟨.approve ⟨true⟩ (sampleLib.text 1) (lit "alice"),
      List.forall_mem_nil _⟩⟩

lemma claimingPass_serves (t : ℕ) (rest : List Choice) :
    ∀ p ∈ Machine.starts (claimingPass t rest), Serves sampleLib sampleConfig p := by
  have hacts : Machine.starts (claimingPass t rest) =
      [QuarantineWorker.processOnce sampleLib sampleWorker] := by
    simp [Machine.starts, claimingPass]
  rw [hacts]
  exact List.forall_mem_cons.mpr ⟨.pass sampleWorker ⟨fun _ => rfl, fun _ => ⟨_, rfl⟩, rfl⟩,
    List.forall_mem_nil _⟩

/-- The passes of threads 2, 3 and so on after a request was held and approved. -/
def passes (rests : List (List Choice)) : List (Machine.Move Op Res Unit Choice Empty) :=
  heldAndApproved ++ (rests.zipIdx 2).flatMap fun r => claimingPass r.2 r.1

lemma passes_serves (rests : List (List Choice)) :
    ∀ p ∈ Machine.starts (passes rests), Serves sampleLib sampleConfig p := by
  rw [passes, Machine.starts_append, List.forall_mem_append]
  refine ⟨heldAndApproved_serves, fun p hp => ?_⟩
  rw [Machine.starts, List.filterMap_flatMap] at hp
  obtain ⟨r, -, hp⟩ := List.mem_flatMap.mp hp
  exact claimingPass_serves r.2 r.1 p hp

lemma heldAndReplayed_reached : ∃ c, Reached sampleLib sampleConfig c ∧
    (c.shared.hist.countP fun e => e.2.calls (sampleLib.text 1)) = 1 := by
  have hplay : ((World.machine sampleLib).play (passes [succeeds]) (Pool.initial World.initial)).map
      (fun c => c.shared.hist.countP fun e => e.2.calls (sampleLib.text 1)) = some 1 := by
    decide +kernel
  obtain ⟨c, hplay, hcalls⟩ := Option.map_eq_some_iff.mp hplay
  exact ⟨c, Machine.play_run (passes_serves _) hplay, hcalls⟩

def heldAndDenied : List (Machine.Move Op Res Unit Choice Empty) :=
  [.start (do
      let _ ← Proxy.serveHTTP Proxy.sampleHandler Proxy.sampleRequest
      return ()),
    .act 2 (.clock noon), .act 2 (.verdict (.ok ⟨.quarantine, lit "rule", [], lit "v1"⟩)),
    .act 2 (.clock noon), .act 2 well, .act 2 (.clock noon), .act 2 (.inserted 2 .ok),
    .start (do
      let _ ← QuarantineHandler.deny sampleLib ⟨true⟩ (sampleLib.text 2) (lit "alice") []
      return ()),
    .act 3 well, .act 3 (.clock noon), .act 3 well, .act 3 well]

/-- The entry that thread `t` is about to replay. -/
def replaying (c : Pool Op Res World Unit) (t : ℕ) : Option Bytes :=
  match c.thread t with
  | some (.call (.httpDo entryID _) _) => some entryID
  | _ => none

lemma step_of_replaying {lib : UuidLib} {cfg : Config} {c d : Pool Op Res World Unit} {t : ℕ}
    {entryID : Bytes} {ch : Choice} (h : replaying c t = some entryID)
    (hmove : (World.machine lib).move (.act t ch) c = some d) : ∃ req r,
      Step (World.machine lib).semantics (Serves lib cfg) c (.act t (.httpDo entryID req) r) d := by
  obtain ⟨op, r, hs⟩ : ∃ op r, Step (World.machine lib).semantics (Serves lib cfg) c
    (.act t op r) d := Machine.move_act hmove
  cases hs with
  | act ht hx =>
    unfold replaying at h
    rw [ht] at h
    split at h
    · rename_i entryID' req k heq
      obtain ⟨rfl, -⟩ := Prog.call.inj (Option.some.inj heq)
      obtain rfl := Option.some.inj h
      exact ⟨req, r, .act ht hx⟩
    · simp at h

def denies (id : UUID) : Event → Bool
  | .denied id' _ => id' = id
  | _ => false

lemma denied_of_any {hist : History} {id : UUID} (h : hist.any (fun e => denies id e.2) = true) :
    ∃ u reviewer, (u, .denied id reviewer) ∈ hist := by
  obtain ⟨⟨u, e⟩, he, hd⟩ := List.any_eq_true.mp h
  cases e with
  | denied id' reviewer =>
    obtain rfl : id' = id := of_decide_eq_true hd
    exact ⟨u, reviewer, he⟩
  | _ => simp [denies] at hd

/-- The call for the request that was approved. The one that was denied is never replayed. -/
theorem replay_follows_approval_once : ∃ c d req r, Reached sampleLib sampleConfig c ∧
    Step (World.machine sampleLib).semantics (Serves sampleLib sampleConfig) c
      (.act 4 (.httpDo (sampleLib.text 1) req) r) d ∧
    (∃ row, c.shared.table.find row.id = some row ∧ sampleLib.text 1 = sampleLib.text row.id ∧
      row.status = .replaying ∧ ∃ u reviewer, (u, .approved row.id reviewer) ∈ c.shared.hist) ∧
    (∀ t req r e, ¬ Step (World.machine sampleLib).semantics (Serves sampleLib sampleConfig) c
      (.act t (.httpDo (sampleLib.text 2) req) r) e) ∧
    ∃ row, d.shared.table.find 2 = some row ∧ row.status = .denied := by
  have hplay : ((World.machine sampleLib).play (heldAndApproved ++ heldAndDenied ++
      claimingPass 4 [well]) (Pool.initial World.initial)).map (fun c =>
        (replaying c 4, c.shared.hist.any fun e => denies 2 e.2,
          (c.shared.table.find 2).map Quarantine.status,
          ((World.machine sampleLib).move (.act 4 (.response 200)) c).isSome)) =
      some (some (sampleLib.text 1), true, some .denied, true) := by decide +kernel
  obtain ⟨c, hplay, hfacts⟩ := Option.map_eq_some_iff.mp hplay
  simp only [Prod.mk.injEq] at hfacts
  obtain ⟨hcall, hdenies, hstatus, hmove⟩ := hfacts
  have hserves : ∀ p ∈ Machine.starts (heldAndApproved ++ heldAndDenied ++ claimingPass 4 [well]),
      Serves sampleLib sampleConfig p := by
    simp only [Machine.starts_append, List.forall_mem_append]
    exact ⟨⟨heldAndApproved_serves, List.forall_mem_cons.mpr ⟨.proxy _ _ fun _ => rfl,
      List.forall_mem_cons.mpr ⟨.deny ⟨true⟩ (sampleLib.text 2) (lit "alice") [],
        List.forall_mem_nil _⟩⟩⟩, claimingPass_serves 4 _⟩
  have hc : Reached sampleLib sampleConfig c := Machine.play_run hserves hplay
  obtain ⟨hreplays, hnever, hfinal, -⟩ := replay_follows_approval sampleLib sampleConfig c hc
  obtain ⟨d, hd⟩ := Option.isSome_iff_exists.mp hmove
  obtain ⟨req, r, hs⟩ := step_of_replaying hcall hd
  obtain ⟨u, reviewer, hu⟩ := denied_of_any hdenies
  obtain ⟨row, hrow, hdenied⟩ := Option.map_eq_some_iff.mp hstatus
  obtain ⟨row', hrow', hsame⟩ := hfinal _ d ((Run.nil c).snoc hs) 2 row hrow (.inl hdenied)
  exact ⟨c, d, req, r, hc, hs, hreplays 4 _ req r d hs, hnever u 2 reviewer hu, row', hrow',
    hsame.trans hdenied⟩

section
variable {lib : UuidLib} {cfg : Config} {s : World}

/-- The payload of a claim is the payload that was held. -/
lemma Inv.claimed_payload (h : Inv lib cfg s) {row : Quarantine} {t : ℕ} {before after : History}
    (hhist : s.hist = before ++ (t, .claimed row) :: after) :
    ∃ rest, acts lib row.id s.hist = .hold row.payload :: rest := by
  obtain ⟨l, hl, -, hpayload, -⟩ := h.journal before t _ after hhist
  obtain ⟨rest, hrest⟩ := hl.held
  exact ⟨rest ++ acts lib row.id ((t, .claimed row) :: after), by
    rw [hhist, acts_append, hrest, hpayload]
    rfl⟩

lemma Inv.call_carries (h : Inv lib cfg s) {t : ℕ} {entryID : Bytes} {req : OutRequest}
    (hmem : (t, .called entryID req) ∈ s.hist) :
    req.header.get (lit "Idempotency-Key") = lit "kiterail-quarantine-" ++ entryID ∧
    ∃ id rest, entryID = lib.text id ∧ acts lib id s.hist = .hold req.body :: rest := by
  obtain ⟨pre, post, hhist⟩ := List.append_of_mem hmem
  obtain ⟨row, rs, ⟨before, after, hpre, -⟩, hid, hbody, hkey, -⟩ := h.journal pre t _ post hhist
  rw [hpre, List.append_assoc, List.cons_append] at hhist
  obtain ⟨rest, hrest⟩ := h.claimed_payload hhist
  exact ⟨hkey, row.id, rest, hid, by rw [hbody, hrest]⟩

end

theorem replays_bounded_identical (lib : UuidLib) (cfg : Config) (c : Pool Op Res World Unit)
    (hc : Reached lib cfg c) :
    (∀ before u id reviewer between after,
      c.shared.hist = before ++ (u, .approved id reviewer) :: (between ++ after) →
      (∀ v other, (v, .approved id other) ∉ between) →
      (between.countP fun e => e.2.calls (lib.text id)) ≤ cfg.maxReplayAttempts + 1) ∧
    (∀ t t' entryID req req', (t, .called entryID req) ∈ c.shared.hist →
      (t', .called entryID req') ∈ c.shared.hist → req.body = req'.body ∧
        req.header.get (lit "Idempotency-Key") = req'.header.get (lit "Idempotency-Key")) ∧
    (∀ t t' entryID entryID' req req', (t, .called entryID req) ∈ c.shared.hist →
      (t', .called entryID' req') ∈ c.shared.hist → entryID ≠ entryID' →
        req.header.get (lit "Idempotency-Key") ≠ req'.header.get (lit "Idempotency-Key")) := by
  refine ⟨?_, ?_, ?_⟩
  · intro before u id reviewer between after hhist hno
    obtain ⟨m, hm, -⟩ := hc.inv.lives id
    have hacts : acts lib id c.shared.hist = (acts lib id before ++
        .approve reviewer :: acts lib id between) ++ acts lib id after := by
      rw [hhist]
      simp [acts, Event.act]
    rw [hacts] at hm
    obtain ⟨m', hm'⟩ := hm.of_append
    rw [← countP_acts map_call]
    refine hm'.calls_since fun other hmem => ?_
    obtain ⟨⟨v, e⟩, he, hact⟩ := List.mem_filterMap.mp hmem
    obtain rfl := act_eq_approve.mp hact
    exact hno v other he
  · intro t t' entryID req req' hcall hcall'
    obtain ⟨hkey, id, rest, hid, hacts⟩ := hc.inv.call_carries hcall
    obtain ⟨hkey', id', rest', hid', hacts'⟩ := hc.inv.call_carries hcall'
    obtain rfl := lib.text_injective (hid.symm.trans hid')
    have heq := hacts.symm.trans hacts'
    simp only [List.cons.injEq, Act.hold.injEq] at heq
    exact ⟨heq.1, hkey.trans hkey'.symm⟩
  · intro t t' entryID entryID' req req' hcall hcall' hne heq
    rw [(hc.inv.call_carries hcall).1, (hc.inv.call_carries hcall').1] at heq
    exact hne (List.append_cancel_left heq)

theorem replays_bounded_identical_once : ∃ c, Reached sampleLib sampleConfig c ∧
    (c.shared.hist.countP fun e => e.2.calls (sampleLib.text 1)) = 1 ∧
    ∀ before u reviewer between after,
      c.shared.hist = before ++ (u, .approved 1 reviewer) :: (between ++ after) →
      (∀ v other, (v, .approved 1 other) ∉ between) →
      (between.countP fun e => e.2.calls (sampleLib.text 1)) ≤ 4 := by
  obtain ⟨c, hc, hcalls⟩ := heldAndReplayed_reached
  have h := (replays_bounded_identical sampleLib sampleConfig c hc).1
  exact ⟨c, hc, hcalls, fun before u reviewer between after hhist hno =>
    h before u 1 reviewer between after hhist hno⟩

end KiteRail.Replay
