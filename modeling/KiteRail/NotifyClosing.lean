import KiteRail.NotifyDelivery

/-! Why a notification is closed, whatever the time that the steps take: a send returned nil,
the action was no longer pending, or the worker's replica does not have the channel. The last
is a reason only if no running replica has it. -/
namespace KiteRail.Notify
open Bytes Prog Replay Discipline
variable {lib : UuidLib} {s s' : Outbox} {t : ℕ} {key : Key}

def Settled (s : Outbox) (id : UUID) : Prop :=
  ∃ entry, s.world.table.find id = some entry ∧ entry.status ≠ .pending

/-- What a step of the rest of the system does to the quarantine table. -/
lemma answer_table {ch : Choice} {t : ℕ} {op : Op} {w w' : World} {r : Res op}
    (h : World.answer lib ch t op w = some (r, w')) :
    w'.table = w.table ∨
    (∃ guard set hset, w'.table = w.table.update guard set hset ∧
      ∀ row, (set row).status ≠ .pending) ∨
    ∃ row hrow, w'.table = w.table.insert row hrow := by
  unfold World.answer at h
  split at h
  all_goals try split at h
  all_goals try simp only [reduceCtorEq] at h
  all_goals obtain ⟨-, rfl⟩ := Prod.mk.inj (Option.some.inj h)
  all_goals first
    | exact .inl rfl
    | exact .inr (.inl ⟨_, _, by intro; rfl, rfl, by intro; simp [World.claimOf, World.releaseOf]⟩)
    | exact .inr (.inr ⟨_, by assumption, rfl⟩)

/-- Why a worker may close a notification. -/
def Justified (t : ℕ) (key : Key) (s : Outbox) : Prop :=
  key ∈ s.sent ∨ Settled s key.1 ∨ key.2 ∉ s.config t

section Reasons

/-- An action that has left `pending` never returns to it. -/
lemma settled_system {ch : Choice} {t : ℕ} {op : Op} {w w' : World} {r : Res op} {id : UUID}
    (h : World.answer lib ch t op w = some (r, w')) {entry : Quarantine}
    (hfind : w.table.find id = some entry) (hstatus : entry.status ≠ .pending) :
    ∃ entry', w'.table.find id = some entry' ∧ entry'.status ≠ .pending := by
  rcases answer_table h with htable | ⟨guard, set, hset, htable, hset'⟩ | ⟨row, hrow, htable⟩
  · exact ⟨entry, by rw [htable, hfind], hstatus⟩
  · rw [htable, Table.find_update, hfind, Option.map_some]
    refine ⟨_, rfl, ?_⟩
    split
    · exact hset' entry
    · exact hstatus
  · refine ⟨entry, ?_, hstatus⟩
    rw [htable, Table.find_insert, if_neg, hfind]
    rintro rfl
    rw [hrow] at hfind
    exact absurd hfind (by simp)

/-- What no step undoes. -/
structure Grows (s s' : Outbox) : Prop where
  settled : ∀ id, Settled s id → Settled s' id
  sent : ∀ key ∈ s.sent, key ∈ s'.sent

lemma Grows.trans {a b c : Outbox} (h : Grows a b) (g : Grows b c) : Grows a c :=
  ⟨fun id hs => g.settled id (h.settled id hs), fun key hk => g.sent key (h.sent key hk)⟩

lemma Grows.of_eq (hworld : s'.world = s.world) (hsent : s'.sent = s.sent) : Grows s s' :=
  ⟨fun id h => by rwa [Settled, hworld], fun key h => by rwa [hsent]⟩

lemma grows_disturb (h : (Outbox.untimed lib).semantics.env s s') :
    Grows s s' ∧ s'.config = s.config ∧ s'.rows = s.rows := by
  obtain ⟨f, hf⟩ := h
  cases f with
  | system ch t op =>
    obtain ⟨⟨r, w⟩, ha, rfl⟩ := Option.map_eq_some_iff.mp hf
    exact ⟨⟨fun _ ⟨entry, hfind, hstatus⟩ => settled_system ha hfind hstatus, fun _ h => h⟩,
      rfl, rfl⟩
  | _ =>
    obtain rfl := Option.some.inj hf
    exact ⟨.of_eq rfl rfl, rfl, rfl⟩

/-- Only the first statement of a pass is about the channels of the thread. -/
lemma grows_perform {op : NotifyOp} {reply : Reply} {r : NotifyRes op}
    (h : Outbox.perform lib reply t op s = some (r, s')) : Grows s s' ∧
      (s'.config = s.config ∨ ∃ channels, op = .enqueueHeldNotifications channels ∧
        s'.config = Function.update s.config t channels) := by
  cases op with
  | enqueueHeldNotifications channels =>
    rcases perform_enqueue h with rfl | rfl
    · exact ⟨.of_eq rfl rfl, .inr ⟨channels, rfl, rfl⟩⟩
    · exact ⟨.of_eq rfl rfl, .inr ⟨channels, rfl, rfl⟩⟩
  | claimDueNotifications maxAttempts batchSize =>
    rcases perform_claim h with ⟨rfl, -⟩ | ⟨keys, err, -, -, rfl, -⟩
    · exact ⟨.of_eq rfl rfl, .inl rfl⟩
    · exact ⟨.of_eq rfl rfl, .inl rfl⟩
  | getQuarantineEntry id =>
    obtain ⟨rfl, -⟩ := perform_getQuarantineEntry h
    exact ⟨.of_eq rfl rfl, .inl rfl⟩
  | beginSend k action =>
    obtain rfl := perform_beginSend h
    exact ⟨.of_eq rfl rfl, .inl rfl⟩
  | endSend k =>
    obtain rfl := perform_endSend h
    refine ⟨⟨fun _ h => h, fun key hk => ?_⟩, .inl rfl⟩
    simp only [Outbox.returned]
    split
    · exact hk
    · exact List.mem_cons_of_mem _ hk
  | now =>
    obtain ⟨rfl, -⟩ := perform_now h
    exact ⟨.of_eq rfl rfl, .inl rfl⟩
  | markNotificationDelivered k =>
    rcases perform_markDelivered h with ⟨rfl, -⟩ | ⟨rfl, -⟩
    · exact ⟨.of_eq rfl rfl, .inl rfl⟩
    · exact ⟨.of_eq rfl rfl, .inl rfl⟩
  | markNotificationFailed k nextAttemptAt =>
    rcases perform_markFailed h with ⟨rfl, -⟩ | ⟨rfl, -⟩
    · exact ⟨.of_eq rfl rfl, .inl rfl⟩
    · exact ⟨.of_eq rfl rfl, .inl rfl⟩

end Reasons

/-- The rules of the workers: a notification is closed only with a reason. -/
def closeRules (lib : UuidLib) : Discipline (Outbox.untimed lib).semantics where
  inv _ := True
  fresh _ _ := True
  guar t op s _ s' := (Grows s s' ∧ ∀ u, u ≠ t → s'.config u = s.config u) ∧
    ∀ key, op = .markNotificationDelivered key → Justified t key s
  rely t s s' := Grows s s' ∧ s'.config t = s.config t
  rely_refl _ _ := ⟨.of_eq rfl rfl, rfl⟩
  rely_trans _ _ _ _ h g := ⟨h.1.trans g.1, g.2.trans h.2⟩
  rely_guar _ u _ _ _ _ hne _ hg := ⟨hg.1.1, hg.1.2 u hne.symm⟩
  rely_env u _ _ _ he := ⟨(grows_disturb he).1, congrFun (grows_disturb he).2.1 u⟩
  rely_lose _ _ _ _ _ := ⟨.of_eq rfl rfl, rfl⟩
  fresh_rely _ _ _ _ _ := trivial
  inv_env _ _ _ _ := trivial
  inv_lose _ _ _ := trivial

section Passes
variable {α : Type} {A : Outbox → Prop} {B : α → Outbox → Prop} {w : Worker}

def Serves (t : ℕ) (w : Worker) (s : Outbox) : Prop := s.config t = w.channels

lemma stable_serves : (closeRules lib).Stable t (Serves t w) := fun _ _ h hr => hr.2.trans h

lemma stable_justified : (closeRules lib).Stable t (Justified t key) := by
  intro s s' h hr
  rcases h with hsent | hsettled | hconfig
  · exact .inl (hr.1.sent key hsent)
  · exact .inr (.inl (hr.1.settled key.1 hsettled))
  · exact .inr (.inr (by rwa [hr.2]))

/-- After its first statement a thread keeps whatever the others keep. -/
lemma holds_closing (op : NotifyOp) {k : NotifyRes op → NotifyProg α}
    {C : NotifyRes op → Outbox → Prop} (hop : ∀ channels, op ≠ .enqueueHeldNotifications channels)
    (hst : (closeRules lib).Stable t A)
    (hjust : ∀ s key, A s → op = .markNotificationDelivered key → Justified t key s)
    (hC : ∀ reply s r s', Outbox.perform lib reply t op s = some (r, s') → C r s')
    (hk : ∀ r, (closeRules lib).Holds t (fun s => A s ∧ C r s) (k r) B) :
    (closeRules lib).Holds t A (.call op k) B := by
  refine holds_call (C := fun r s => A s ∧ C r s) hst (fun s r s' _ hA hx => ?_) hk
  obtain ⟨reply, hp⟩ := hx
  obtain ⟨hgrows, hconfig | ⟨channels, rfl, -⟩⟩ := grows_perform hp
  · refine ⟨trivial, ⟨⟨hgrows, fun u _ => congrFun hconfig u⟩, fun key => hjust s key hA⟩, ?_⟩
    exact ⟨hst s s' hA ⟨hgrows, congrFun hconfig t⟩, hC reply s r s' hp⟩
  · exact absurd rfl (hop channels)

lemma holds_close : (closeRules lib).Holds t (fun s => Serves t w s ∧ Justified t key s)
    (markDelivered key) fun _ => Serves t w := by
  refine holds_closing (.markNotificationDelivered key) (C := fun _ _ => True) (by simp)
    (stable_serves.and stable_justified) ?_ (fun _ _ _ _ _ => trivial) fun _ => ?_
  · rintro s _ hA ⟨⟩
    exact hA.2
  · exact holds_ret ((stable_serves.and stable_justified).and (.pure True)) fun _ _ h => h.1.1

lemma holds_postpone (attempts : ℕ) : (closeRules lib).Holds t (Serves t w) (fail key attempts)
    fun _ => Serves t w := by
  refine holds_closing .now (C := fun _ _ => True) (by simp) stable_serves (by simp)
    (fun _ _ _ _ _ => trivial) fun (time : ℕ) => ?_
  refine holds_closing (.markNotificationFailed key (time + backoff attempts).toNat)
    (C := fun _ _ => True) (by simp) (stable_serves.and (.pure True)) (by simp)
    (fun _ _ _ _ _ => trivial) fun _ => ?_
  exact holds_ret ((stable_serves.and (.pure True)).and (.pure True)) fun _ _ h => h.1.1

lemma holds_read {id : UUID} {k : Except GoError Quarantine → NotifyProg α}
    (hk : ∀ r, (closeRules lib).Holds t (fun s => Serves t w s ∧
      ∀ entry, r = .ok entry → entry.status ≠ .pending → Settled s id) (k r) B) :
    (closeRules lib).Holds t (Serves t w) (getQuarantineEntry id >>= k) B := by
  refine holds_closing (.getQuarantineEntry id) (C := fun (r : Except GoError Quarantine) s =>
    ∀ entry, r = .ok entry → entry.status ≠ .pending → Settled s id) (by simp) stable_serves
    (by simp) (fun reply s r s' hp => ?_) hk
  obtain ⟨rfl, hr⟩ := perform_getQuarantineEntry hp
  exact fun entry he hne => ⟨entry, hr entry he, hne⟩

lemma holds_sent (action : HeldAction) : (closeRules lib).Holds t (Serves t w) (send key action)
    fun err s => Serves t w s ∧ (err = none → key ∈ s.sent) := by
  refine holds_closing (.beginSend key action) (C := fun _ _ => True) (by simp) stable_serves
    (by simp) (fun _ _ _ _ _ => trivial) fun _ => ?_
  refine holds_closing (.endSend key) (C := fun (err : Option GoError) s =>
    err = none → key ∈ s.sent) (by simp) (stable_serves.and (.pure True)) (by simp)
    (fun reply s r s' hp => ?_) fun err => ?_
  · obtain rfl := perform_endSend hp
    rintro rfl
    exact List.mem_cons_self
  · refine holds_ret ((stable_serves.and (.pure True)).and fun s s' h hr he => ?_)
      fun _ _ h => ⟨h.1.1, h.2⟩
    exact hr.1.sent key (h he)

lemma holds_close_deliver (row : ClaimDueNotificationsRow) :
    (closeRules lib).Holds t (Serves t w) (deliver lib w row) fun _ => Serves t w := by
  rw [deliver]
  split
  · exact holds_ret stable_serves fun _ _ h => h
  rename_i id _
  dsimp only
  split
  · -- a channel that the replica does not have
    rename_i hchannel
    exact holds_mono holds_close (fun s _ h => ⟨h, .inr (.inr (by rwa [h]))⟩) fun _ _ _ h => h
  refine holds_read fun r => ?_
  cases r with
  | error e => exact holds_mono (holds_postpone row.attempts) (fun s _ h => h.1) fun _ _ _ h => h
  | ok entry =>
    dsimp only
    split
    · rename_i hstatus
      exact holds_mono holds_close (fun s _ h => ⟨h.1, .inr (.inl (h.2 entry rfl hstatus))⟩)
        fun _ _ _ h => h
    refine holds_bind (holds_mono (holds_sent _) (fun s _ h => h.1) fun _ _ _ h => h) fun err => ?_
    cases err with
    | some e => exact holds_mono (holds_postpone row.attempts) (fun s _ h => h.1) fun _ _ _ h => h
    | none => exact holds_mono holds_close (fun s _ h => ⟨h.1, .inl (h.2 rfl)⟩) fun _ _ _ h => h

lemma holds_close_deliverAll (due : List ClaimDueNotificationsRow) :
    (closeRules lib).Holds t (Serves t w) (deliverAll lib w due) fun _ _ => True := by
  induction due with
  | nil => exact holds_ret stable_serves fun _ _ _ => trivial
  | cons row due ih => exact holds_bind (holds_close_deliver row) fun _ => ih

lemma holds_close_processOnce (w : Worker) :
    (closeRules lib).Holds t (fun _ => True) (processOnce lib w) fun _ _ => True := by
  rw [processOnce]
  split
  · exact holds_ret (.pure True) fun _ _ _ => trivial
  refine holds_call (C := fun _ => Serves t w) (.pure True) (fun s r s' _ _ hx => ?_) fun err => ?_
  · obtain ⟨reply, hp⟩ := hx
    refine ⟨trivial, ⟨⟨(grows_perform hp).1, fun u hu => ?_⟩, by simp⟩, ?_⟩
    · rcases perform_enqueue hp with rfl | rfl <;> exact Function.update_of_ne hu _ _
    · rcases perform_enqueue hp with rfl | rfl <;> exact Function.update_self _ _ _
  cases (err : Option GoError) with
  | some e => exact holds_ret stable_serves fun _ _ _ => trivial
  | none =>
    refine holds_closing (.claimDueNotifications maxAttempts batchSize) (C := fun _ _ => True)
      (by simp) stable_serves (by simp) (fun _ _ _ _ _ => trivial) fun r => ?_
    cases (r : Except GoError (List ClaimDueNotificationsRow)) with
    | error e => exact holds_ret (stable_serves.and (.pure True)) fun _ _ _ => trivial
    | ok due => exact holds_mono (holds_close_deliverAll due) (fun s _ h => h.1) fun _ _ _ h => h

lemma wp_close_pass {p : NotifyProg Unit} (hp : Passes lib p) :
    (closeRules lib).wp t p (fun _ _ => True) s := by
  cases hp with
  | pass w => exact holds_close_processOnce w s trivial trivial

lemma sound_close {world : World} {ls : List (Label NotifyOp NotifyRes)} {c : WorkerPool}
    (hr : Run (Outbox.untimed lib).semantics (Passes lib) (.initial (Outbox.start world)) ls c) :
    Sound (closeRules lib) (fun _ _ _ => True) c :=
  Sound.run (fun _ _ _ hp _ _ => wp_close_pass hp) (Sound.initial trivial fun _ => trivial) hr

end Passes

section Closing
variable {c d : WorkerPool} {l : Label NotifyOp NotifyRes} {ls : List (Label NotifyOp NotifyRes)}

def Outbox.closed (s : Outbox) (key : Key) : Bool :=
  (s.rows.find key).any fun r => r.deliveredAt.isSome

lemma closed_update {guard : Notification → Bool} (set : Notification → Notification)
    (hset : ∀ r, (set r).key = r.key) (hrows : s'.rows = s.rows.update guard set hset)
    (hkeep : ∀ r, guard r = true → r.key = key → (set r).deliveredAt = r.deliveredAt) :
    s'.closed key = s.closed key := by
  rw [Outbox.closed, hrows, Table.find_update, Outbox.closed]
  cases hfind : s.rows.find key with
  | none => rfl
  | some r =>
    rw [Option.map_some, Option.any_some, Option.any_some]
    split
    · rename_i hg
      rw [hkeep r hg (Table.find_key hfind)]
    · rfl

lemma closed_queue {clock : ℕ} {rows : Table Notification.key} {k : Key}
    (h : ((Outbox.queue clock rows k).find key).any (fun r => r.deliveredAt.isSome) = true) :
    (rows.find key).any (fun r => r.deliveredAt.isSome) = true := by
  unfold Outbox.queue at h
  split at h
  · rename_i hnone
    have hfind := Table.find_insert rows ⟨k.1, k.2, clock, 0, clock, none⟩ hnone key
    by_cases hk : key = k
    · rw [hfind.trans (if_pos hk)] at h
      simp at h
    · rwa [hfind.trans (if_neg hk)] at h
  · exact h

lemma closed_enqueued {channels : List Bytes} (h : (s.enqueued channels).closed key = true) :
    s.closed key = true := by
  simp only [Outbox.enqueued, Outbox.closed] at h ⊢
  generalize s.pendingIDs ×ˢ channels = pairs at h
  generalize s.rows = rows at h ⊢
  induction pairs generalizing rows with
  | nil => exact h
  | cons pair pairs ih => exact closed_queue (ih _ h)

/-- Only the update that marks a row delivered does so. -/
lemma perform_closed {op : NotifyOp} {reply : Reply} {r : NotifyRes op}
    (h : Outbox.perform lib reply t op s = some (r, s')) (hopen : s.closed key = false)
    (hclosed : s'.closed key = true) : op = .markNotificationDelivered key := by
  have hne : s'.closed key ≠ s.closed key := by simp [hopen, hclosed]
  cases op with
  | enqueueHeldNotifications channels =>
    rcases perform_enqueue h with rfl | rfl
    · exact absurd rfl hne
    · have hbefore : s.closed key = true := closed_enqueued (s := s.began t channels) hclosed
      exact absurd (hbefore.symm.trans hopen) (by simp)
  | claimDueNotifications maxAttempts batchSize =>
    rcases perform_claim h with ⟨rfl, -⟩ | ⟨keys, err, -, -, rfl, -⟩
    · exact absurd rfl hne
    · exact absurd (closed_update (Outbox.leaseOf s.clock) (fun _ => rfl) rfl fun _ _ _ => rfl) hne
  | getQuarantineEntry id =>
    obtain ⟨rfl, -⟩ := perform_getQuarantineEntry h
    exact absurd rfl hne
  | beginSend key action =>
    obtain rfl := perform_beginSend h
    exact absurd rfl hne
  | endSend key =>
    obtain rfl := perform_endSend h
    exact absurd rfl hne
  | now =>
    obtain ⟨rfl, -⟩ := perform_now h
    exact absurd rfl hne
  | markNotificationDelivered k =>
    rcases perform_markDelivered h with ⟨rfl, -⟩ | ⟨rfl, -⟩
    · exact absurd rfl hne
    · by_contra hk
      refine hne (closed_update (fun r => { r with deliveredAt := some s.clock }) (fun _ => rfl)
        rfl fun r hg hkey => ?_)
      have hrk : r.key = k := of_decide_eq_true hg
      exact absurd (congrArg NotifyOp.markNotificationDelivered (hrk.symm.trans hkey)) hk
  | markNotificationFailed k nextAttemptAt =>
    rcases perform_markFailed h with ⟨rfl, -⟩ | ⟨rfl, -⟩
    · exact absurd rfl hne
    · exact absurd (closed_update (fun r => { r with nextAttemptAt := nextAttemptAt })
        (fun _ => rfl) rfl fun _ _ _ => rfl) hne

lemma step_closed (hs : Step (Outbox.untimed lib).semantics (Passes lib) c l d)
    (hopen : c.shared.closed key = false) (hclosed : d.shared.closed key = true) :
    ∃ t r, l = .act t (.markNotificationDelivered key) r := by
  have hne : d.shared.rows ≠ c.shared.rows := by
    intro he
    rw [Outbox.closed, he] at hclosed
    simp [Outbox.closed, hclosed] at hopen
  cases hs with
  | start hp => exact absurd rfl hne
  | lose ht => exact absurd rfl hne
  | @act t op k r s ht hx =>
    obtain ⟨reply, hp⟩ := hx
    obtain rfl := perform_closed hp hopen hclosed
    exact ⟨t, r, rfl⟩
  | env he => exact absurd (grows_disturb he).2.2 hne

lemma step_grows (hs : Step (Outbox.untimed lib).semantics (Passes lib) c l d) :
    Grows c.shared d.shared := by
  cases hs with
  | start hp => exact .of_eq rfl rfl
  | lose ht => exact .of_eq rfl rfl
  | act ht hx =>
    obtain ⟨reply, hp⟩ := hx
    exact (grows_perform hp).1
  | env he => exact (grows_disturb he).1

lemma run_grows (hr : Run (Outbox.untimed lib).semantics (Passes lib) c ls d) :
    Grows c.shared d.shared := by
  induction hr with
  | nil => exact .of_eq rfl rfl
  | snoc _ hs ih => exact ih.trans (step_grows hs)

lemma step_justified {r : Option GoError} (h : Sound (closeRules lib) (fun _ _ _ => True) c)
    (hs : Step (Outbox.untimed lib).semantics (Passes lib) c
      (.act t (.markNotificationDelivered key) r) d) : Justified t key c.shared := by
  cases hs with
  | act ht hx => exact (h.act ht hx).2.1.2 key rfl

end Closing

/-- A notification is closed only by an update of a worker, which, if the worker's replica has
the channel whenever a running replica has it, means that a send returned nil, that the action
was no longer pending, or that no running replica has the channel. -/
theorem closed_with_reason (lib : UuidLib) (world : World) (ls : List (Label NotifyOp NotifyRes))
    (c : WorkerPool)
    (hr : Run (Outbox.untimed lib).semantics (Passes lib) (.initial (Outbox.start world)) ls c) :
    (∀ key l d, Step (Outbox.untimed lib).semantics (Passes lib) c l d →
      c.shared.closed key = false → d.shared.closed key = true →
      ∃ t r, l = .act t (.markNotificationDelivered key) r) ∧
    (∀ t key r d, Step (Outbox.untimed lib).semantics (Passes lib) c
      (.act t (.markNotificationDelivered key) r) d →
      (∀ channels ∈ c.shared.running, key.2 ∈ channels → key.2 ∈ c.shared.config t) →
      key ∈ c.shared.sent ∨ Settled c.shared key.1 ∨
        ∀ channels ∈ c.shared.running, key.2 ∉ channels) ∧
    ∀ id ms d, Run (Outbox.untimed lib).semantics (Passes lib) c ms d →
      Settled c.shared id → Settled d.shared id := by
  refine ⟨fun key l d hs => step_closed hs, fun t key r d hs hall => ?_,
    fun id ms d hm => (run_grows hm).settled id⟩
  rcases step_justified (sound_close hr) hs with hsent | hsettled | hconfig
  · exact .inl hsent
  · exact .inr (.inl hsettled)
  · exact .inr (.inr fun channels hrun hmem => hconfig (hall channels hrun hmem))

/-- A replica with both channels has queued the action, and one that has only the first
claims its rows. -/
def rollingDeploy : Script :=
  [.env (.deploy [slack]), .env (.deploy [slack, webhook])] ++ held [1] ++
    [.start (processOnce sampleLib (newWorker [slack, webhook] [])), .act 0 .works] ++
    claiming 1 [slack] [(1, slack), (1, webhook)] ++ sending 1 second ++ [.act 1 .works]

lemma not_settled {id : UUID}
    (h : (s.world.table.find id).map Quarantine.status = some .pending) : ¬ Settled s id := by
  rintro ⟨entry, hfind, hstatus⟩
  rw [hfind, Option.map_some] at h
  exact hstatus (Option.some.inj h)

lemma move_closed {c d : WorkerPool} (h : (Outbox.untimed lib).move (.act t .works) c = some d)
    (hopen : c.shared.closed key = false) (hclosed : d.shared.closed key = true) :
    ∃ r, Step (Outbox.untimed lib).semantics (Passes lib) c
      (.act t (.markNotificationDelivered key) r) d := by
  obtain ⟨op, r, hs⟩ : ∃ op r, Step (Outbox.untimed lib).semantics (Passes lib) c
    (.act t op r) d := Machine.move_act h
  obtain ⟨u, r', hl⟩ := step_closed hs hopen hclosed
  obtain rfl := (Label.act.inj hl).1
  exact ⟨r', hl ▸ hs⟩

theorem rolling_deploy_drops_webhook : ∃ ls c t r d,
    Run (Outbox.untimed sampleLib).semantics (Passes sampleLib)
      (.initial (Outbox.start World.initial)) ls c ∧
    Step (Outbox.untimed sampleLib).semantics (Passes sampleLib) c
      (.act t (.markNotificationDelivered (1, webhook)) r) d ∧
    c.shared.closed (1, webhook) = false ∧ d.shared.closed (1, webhook) = true ∧
    (1, webhook) ∉ d.shared.sent ∧ ¬ Settled d.shared 1 ∧
    d.shared.running = [[slack, webhook], [slack]] := by
  have hplay : (((Outbox.untimed sampleLib).play rollingDeploy
      (.initial (Outbox.start World.initial))).bind fun c =>
        ((Outbox.untimed sampleLib).move (.act 1 .works) c).map fun d =>
          (c.shared.closed (1, webhook), d.shared.closed (1, webhook),
            decide ((1, webhook) ∉ d.shared.sent),
            (d.shared.world.table.find 1).map Quarantine.status,
            decide (d.shared.running = [[slack, webhook], [slack]]))) =
      some (false, true, true, some .pending, true) := by
    decide +kernel
  obtain ⟨c, hc, hmove⟩ := Option.bind_eq_some_iff.mp hplay
  obtain ⟨d, hd, hfacts⟩ := Option.map_eq_some_iff.mp hmove
  simp only [Prod.mk.injEq, decide_eq_true_eq] at hfacts
  obtain ⟨hopen, hclosed, hsent, hstatus, hrunning⟩ := hfacts
  obtain ⟨ls, hrun⟩ :=
    Machine.play_run (passes_of_starts [[slack, webhook], [slack]] rfl) hc
  obtain ⟨r, hs⟩ := move_closed hd hopen hclosed
  exact ⟨ls, c, 1, r, d, hrun, hs, hopen, hclosed, hsent, not_settled hstatus, hrunning⟩

/-- The same replicas, each of which has claimed and sent a notification of a channel that it
has. The sends took longer than the timeout. -/
def splitBatch : Script :=
  [.env (.deploy [slack]), .env (.deploy [slack, webhook])] ++ held [1] ++
    claiming 0 [slack, webhook] [(1, webhook)] ++ claiming 1 [slack] [(1, slack)] ++
    entering 0 ++ entering 1 ++ [.env (.tick (15 * second)), .act 0 .works, .act 1 .works]

theorem closed_with_reason_split : ∃ ls c,
    Run (Outbox.untimed sampleLib).semantics (Passes sampleLib)
      (.initial (Outbox.start World.initial)) ls c ∧
    c.shared.running = [[slack, webhook], [slack]] ∧ ¬ Settled c.shared 1 ∧
    ∀ t key, (t, key) = (0, (1, webhook)) ∨ (t, key) = (1, (1, slack)) →
      ∃ r d, Step (Outbox.untimed sampleLib).semantics (Passes sampleLib) c
        (.act t (.markNotificationDelivered key) r) d ∧
      c.shared.closed key = false ∧ d.shared.closed key = true ∧
      (∀ channels ∈ c.shared.running, key.2 ∈ channels → key.2 ∈ c.shared.config t) ∧
      (key ∈ c.shared.sent ∨ Settled c.shared key.1 ∨
        ∀ channels ∈ c.shared.running, key.2 ∉ channels) := by
  have hplay : ((Outbox.untimed sampleLib).play splitBatch
      (.initial (Outbox.start World.initial))).map (fun c =>
        (decide (c.shared.running = [[slack, webhook], [slack]]),
          (c.shared.world.table.find 1).map Quarantine.status,
          [(0, ((1 : UUID), webhook)), (1, (1, slack))].all fun x =>
            !c.shared.closed x.2 && decide (x.2.2 ∈ c.shared.config x.1) &&
              ((Outbox.untimed sampleLib).move (.act x.1 .works) c).any fun d =>
                d.shared.closed x.2)) = some (true, some .pending, true) := by
    decide +kernel
  obtain ⟨c, hc, hfacts⟩ := Option.map_eq_some_iff.mp hplay
  simp only [Prod.mk.injEq, decide_eq_true_eq, List.all_eq_true] at hfacts
  obtain ⟨hrunning, hstatus, hthreads⟩ := hfacts
  obtain ⟨ls, hrun⟩ := Machine.play_run (passes_of_starts [[slack, webhook], [slack]] rfl) hc
  obtain ⟨-, hreason, -⟩ := closed_with_reason sampleLib _ ls c hrun
  refine ⟨ls, c, hrun, hrunning, not_settled hstatus, fun t key hkey => ?_⟩
  have hthread := hthreads (t, key) (by simpa using hkey)
  simp only [Bool.and_eq_true, Bool.not_eq_true', decide_eq_true_eq, Option.any_eq_true]
    at hthread
  obtain ⟨⟨hopen, hconfig⟩, d, hd, hclosed⟩ := hthread
  obtain ⟨r, hs⟩ := move_closed hd hopen hclosed
  have hhas : ∀ channels ∈ c.shared.running, key.2 ∈ channels → key.2 ∈ c.shared.config t :=
    fun _ _ _ => hconfig
  exact ⟨r, d, hs, hopen, hclosed, hhas, hreason t key r d hs hhas⟩

end KiteRail.Notify
