import KiteRail.NotifyOutbox

/-! What workers on one outbox may rely on. A claim moves the next attempt a lease ahead,
so until the lease ends nobody else can claim the row; a worker whose sends begin in time
records a failure before that. -/
namespace KiteRail.Notify
open Bytes Prog Replay Discipline
variable {lib : UuidLib}

/-- What thread `t` may do. -/
structure Moves (t : ℕ) (s s' : Outbox) : Prop where
  clock : s'.clock = s.clock
  holds : ∀ h, h.thread ≠ t → (h ∈ s'.holds ↔ h ∈ s.holds)
  sends : ∀ x, x.thread ≠ t → (x ∈ s'.sends ↔ x ∈ s.sends)
  last : ∀ u, u ≠ t → s'.last u = s.last u
  punctual : s'.punctual = true → s.punctual = true

/-- What thread `t` may see of the others. -/
structure Others (t : ℕ) (s s' : Outbox) : Prop where
  clock : s.clock ≤ s'.clock
  holds : ∀ h, h.thread = t → (h ∈ s'.holds ↔ h ∈ s.holds)
  sends : ∀ x, x.thread = t → (x ∈ s'.sends ↔ x ∈ s.sends)
  last : s'.last t = s.last t
  punctual : s'.punctual = true → s.punctual = true

/-- What holds of every reachable outbox: until it ends, a lease keeps others from claiming
the row, and a thread inside `Send` has a lease that lasts longer. -/
structure Leased (s : Outbox) : Prop where
  claimed_le : ∀ h ∈ s.holds, h.claimedAt ≤ s.clock
  leased : s.punctual = true → ∀ h ∈ s.holds, s.clock < h.claimedAt + lease →
    ∃ r, s.rows.find h.key = some r ∧ h.claimedAt + lease ≤ r.nextAttemptAt
  apart : s.punctual = true → ∀ h ∈ s.holds, ∀ h' ∈ s.holds, h.key = h'.key →
    h = h' ∨ h.claimedAt + lease ≤ h'.claimedAt ∨ h'.claimedAt + lease ≤ h.claimedAt
  inside : s.punctual = true → ∀ x ∈ s.sends, s.clock ≤ x.since + clientTimeout ∧
    ∃ h ∈ s.holds, h.thread = x.thread ∧ h.key = x.key ∧
      x.since + clientTimeout < h.claimedAt + lease

lemma Others.refl (t : ℕ) (s : Outbox) : Others t s s :=
  ⟨le_rfl, fun _ _ => Iff.rfl, fun _ _ => Iff.rfl, rfl, id⟩

lemma Others.trans {t : ℕ} {a b c : Outbox} (h : Others t a b) (g : Others t b c) :
    Others t a c :=
  ⟨h.clock.trans g.clock, fun x hx => (g.holds x hx).trans (h.holds x hx),
    fun x hx => (g.sends x hx).trans (h.sends x hx), g.last.trans h.last,
    fun hp => h.punctual (g.punctual hp)⟩

lemma Moves.refl (t : ℕ) (s : Outbox) : Moves t s s :=
  ⟨rfl, fun _ _ => Iff.rfl, fun _ _ => Iff.rfl, fun _ _ => rfl, id⟩

lemma Moves.others {t u : ℕ} {s s' : Outbox} (h : Moves t s s') (hu : t ≠ u) : Others u s s' :=
  ⟨h.clock.ge, fun x hx => h.holds x (hx ▸ hu.symm), fun x hx => h.sends x (hx ▸ hu.symm),
    h.last u hu.symm, h.punctual⟩

/-- Without the workers nothing changes but the clock, the quarantine table and the running
replicas. -/
lemma env_eq {s s' : Outbox} (h : (Outbox.machine lib).semantics.env s s') :
    ∃ d world running, s' = { s with clock := s.clock + d, world := world, running := running } ∧
      ∀ x ∈ s.sends, d ≠ 0 → s.clock + d ≤ x.since + clientTimeout := by
  obtain ⟨f, hf⟩ := h
  obtain ⟨hbounded, hf⟩ := Option.ite_none_right_eq_some.mp hf
  cases f with
  | tick d =>
    obtain rfl := Option.some.inj hf
    exact ⟨d, s.world, s.running, rfl,
      fun x hx _ => of_decide_eq_true (List.all_eq_true.mp hbounded x hx)⟩
  | system ch t op =>
    obtain ⟨⟨r, w⟩, -, rfl⟩ := Option.map_eq_some_iff.mp hf
    exact ⟨0, w, s.running, rfl, by simp⟩
  | deploy channels =>
    obtain rfl := Option.some.inj hf
    exact ⟨0, s.world, channels :: s.running, rfl, by simp⟩
  | retire channels =>
    obtain rfl := Option.some.inj hf
    exact ⟨0, s.world, s.running.erase channels, rfl, by simp⟩

lemma others_disturb (u : ℕ) {s s' : Outbox} (h : (Outbox.machine lib).semantics.env s s') :
    Others u s s' := by
  obtain ⟨d, world, running, rfl, -⟩ := env_eq h
  exact ⟨Nat.le_add_right _ _, fun _ _ => Iff.rfl, fun _ _ => Iff.rfl, rfl, id⟩

section Steps
variable {s s' : Outbox} {t : ℕ} {key : Key}

/-- Steps that leave the claims and their rows alone and end sends. -/
lemma Leased.of_fewer_sends (hi : Leased s) (hclock : s'.clock = s.clock)
    (hholds : s'.holds = s.holds) (hpunctual : s'.punctual = true → s.punctual = true)
    (hrows : ∀ k r, s.rows.find k = some r →
      ∃ r', s'.rows.find k = some r' ∧ r.nextAttemptAt ≤ r'.nextAttemptAt)
    (hsends : ∀ x ∈ s'.sends, x ∈ s.sends) : Leased s' := by
  refine ⟨?_, fun hp h hh hlt => ?_, fun hp h hh h' hh' => ?_, fun hp x hx => ?_⟩
  · rw [hholds, hclock]
    exact hi.claimed_le
  · rw [hholds] at hh
    rw [hclock] at hlt
    obtain ⟨r, hfind, hle⟩ := hi.leased (hpunctual hp) h hh hlt
    obtain ⟨r', hfind', hle'⟩ := hrows _ _ hfind
    exact ⟨r', hfind', hle.trans hle'⟩
  · rw [hholds] at hh hh'
    exact hi.apart (hpunctual hp) h hh h' hh'
  · rw [hclock, hholds]
    exact hi.inside (hpunctual hp) x (hsends x hx)

lemma find_queue {clock : ℕ} {rows : Table Notification.key} {k : Key} {r : Notification}
    (h : rows.find k = some r) : (Outbox.queue clock rows key).find k = some r := by
  unfold Outbox.queue
  split
  · rename_i hnone
    have hne : k ≠ key := by
      rintro rfl
      exact absurd (hnone.symm.trans h) (by simp)
    exact (Table.find_insert rows ⟨key.1, key.2, clock, 0, clock, none⟩ hnone k).trans
      ((if_neg hne).trans h)
  · exact h

lemma find_enqueued {channels : List Bytes} {k : Key} {r : Notification}
    (h : s.rows.find k = some r) : (s.enqueued channels).rows.find k = some r := by
  simp only [Outbox.enqueued]
  generalize s.pendingIDs ×ˢ channels = pairs
  generalize s.rows = rows at h
  induction pairs generalizing rows with
  | nil => exact h
  | cons pair pairs ih => exact ih _ (find_queue h)

lemma not_claimable (hi : Leased s) (hp : s.punctual = true) {h : Hold} (hh : h ∈ s.holds)
    (hlt : s.clock < h.claimedAt + lease) {maxAttempts batchSize : ℕ} {keys : List Key}
    (hclaim : s.claimable maxAttempts batchSize keys = true) : h.key ∉ keys := by
  intro hmem
  obtain ⟨r, hfind, hle⟩ := hi.leased hp h hh hlt
  simp only [Outbox.claimable, Bool.and_eq_true, List.all_eq_true] at hclaim
  have hdue := hclaim.2 h.key hmem
  simp only [hfind, Option.any_some, Outbox.due, Bool.and_eq_true, decide_eq_true_eq] at hdue
  exact absurd (hle.trans hdue.2) (not_le.mpr hlt)

lemma find_claimed {keys : List Key} {err : Option GoError} {k : Key} {r : Notification}
    (h : s.rows.find k = some r) : (s.claimed t keys err).rows.find k =
      some (if k ∈ keys then Outbox.leaseOf s.clock r else r) := by
  refine (Table.find_update s.rows _ (Outbox.leaseOf s.clock) (fun _ => rfl) k).trans ?_
  rw [h, Option.map_some, Table.find_key h]
  simp only [decide_eq_true_eq]

/-- A claim finds only rows whose leases have ended. -/
lemma leased_claimed (hi : Leased s) {maxAttempts batchSize : ℕ} {keys : List Key}
    (hclaim : s.claimable maxAttempts batchSize keys = true) (err : Option GoError) :
    Leased (s.claimed t keys err) := by
  have hnew : ∀ h ∈ (s.claimed t keys err).holds,
      (h.key ∈ keys ∧ h.thread = t ∧ h.claimedAt = s.clock) ∨ h ∈ s.holds := by
    intro h hh
    simp only [Outbox.claimed] at hh
    split at hh
    · exact .inr hh
    · rcases List.mem_append.mp hh with hh | hh
      · obtain ⟨k, hk, rfl⟩ := List.mem_map.mp hh
        exact .inl ⟨hk, rfl, rfl⟩
      · exact .inr hh
  have hold : ∀ h ∈ s.holds, h ∈ (s.claimed t keys err).holds := by
    intro h hh
    simp only [Outbox.claimed]
    split
    · exact hh
    · exact List.mem_append_right _ hh
  have hended : s.punctual = true → ∀ h ∈ s.holds, h.key ∈ keys →
      h.claimedAt + lease ≤ s.clock := fun hp h hh hk =>
    not_lt.mp fun hlt => not_claimable hi hp hh hlt hclaim hk
  refine ⟨fun h hh => ?_, fun hp h hh hlt => ?_, fun hp h hh h' hh' hkey => ?_, fun hp x hx => ?_⟩
  · rcases hnew h hh with ⟨-, -, heq⟩ | hh
    · exact heq.le
    · exact hi.claimed_le h hh
  · rcases hnew h hh with ⟨hk, -, heq⟩ | hh
    · have hall := (Bool.and_eq_true _ _ ▸ hclaim : _ ∧ _).2
      have hdue := List.all_eq_true.mp hall h.key hk
      obtain ⟨r, hfind⟩ : ∃ r, s.rows.find h.key = some r := by
        cases hf : s.rows.find h.key with
        | none => simp [hf] at hdue
        | some r => exact ⟨r, rfl⟩
      refine ⟨_, find_claimed hfind, ?_⟩
      rw [if_pos hk, heq]
      exact le_rfl
    · obtain ⟨r, hfind, hle⟩ := hi.leased hp h hh hlt
      refine ⟨_, find_claimed hfind, ?_⟩
      rw [if_neg (not_claimable hi hp hh hlt hclaim)]
      exact hle
  · rcases hnew h hh with ⟨hk, ht, heq⟩ | hh <;> rcases hnew h' hh' with ⟨hk', ht', heq'⟩ | hh'
    · left
      obtain ⟨_, _, _⟩ := h
      obtain ⟨_, _, _⟩ := h'
      simp_all
    · right
      right
      rw [heq]
      exact hended hp h' hh' (hkey ▸ hk)
    · right
      left
      rw [heq']
      exact hended hp h hh (hkey ▸ hk')
    · exact hi.apart hp h hh h' hh' hkey
  · obtain ⟨hle, h, hh, hthread, hkey, hlt⟩ := hi.inside hp x hx
    exact ⟨hle, h, hold h hh, hthread, hkey, hlt⟩

lemma leased_sending (hi : Leased s) : Leased (s.sending t key) := by
  have hpunctual : (s.sending t key).punctual = true →
      s.punctual = true ∧ s.timely t key = true := by
    intro hp
    simpa [Outbox.sending] using hp
  refine ⟨hi.claimed_le, fun hp => hi.leased (hpunctual hp).1,
    fun hp => hi.apart (hpunctual hp).1, fun hp x hx => ?_⟩
  rcases List.mem_cons.mp hx with rfl | hx
  · obtain ⟨h, hh, htimely⟩ := List.any_eq_true.mp (hpunctual hp).2
    simp only [Bool.and_eq_true, decide_eq_true_eq] at htimely
    exact ⟨Nat.le_add_right _ _, h, hh, htimely.1.1, htimely.1.2, htimely.2⟩
  · exact hi.inside (hpunctual hp).1 x hx

/-- Recording a failure under a lease opens the row to others only where no other lease is
in force. -/
lemma leased_failed (hi : Leased s) (hidle : ∀ x ∈ s.sends, x.thread ≠ t)
    (hown : s.punctual = true → ∃ h ∈ s.holds, h.thread = t ∧ h.key = key ∧
      s.clock < h.claimedAt + lease) (nextAttemptAt : ℕ) :
    Leased (s.failed t key nextAttemptAt) := by
  have hmem : ∀ h, h ∈ (s.failed t key nextAttemptAt).holds ↔
      h ∈ s.holds ∧ ¬ (h.thread = t ∧ h.key = key) := by
    intro h
    simp [Outbox.failed, -not_and, not_and_or]
  refine ⟨fun h hh => hi.claimed_le h ((hmem h).mp hh).1, fun hp h hh hlt => ?_,
    fun hp h hh h' hh' => hi.apart hp h ((hmem h).mp hh).1 h' ((hmem h').mp hh').1,
    fun hp x hx => ?_⟩
  · obtain ⟨hh, hnot⟩ := (hmem h).mp hh
    obtain ⟨r, hfind, hle⟩ := hi.leased hp h hh hlt
    have hkey : h.key ≠ key := by
      intro hk
      obtain ⟨h₀, hh₀, ht₀, hk₀, hlt₀⟩ := hown hp
      have hle₀ := hi.claimed_le h₀ hh₀
      have hle := hi.claimed_le h hh
      have hlt : s.clock < h.claimedAt + lease := hlt
      rcases hi.apart hp h hh h₀ hh₀ (hk.trans hk₀.symm) with rfl | hapart | hapart
      · exact hnot ⟨ht₀, hk⟩
      · omega
      · omega
    refine ⟨r, ?_, hle⟩
    refine (Table.find_update s.rows _ (fun r => { r with nextAttemptAt := nextAttemptAt })
      (fun _ => rfl) h.key).trans ?_
    simp only [hfind, Option.map_some, Table.find_key hfind, decide_eq_true_eq, if_neg hkey]
  · obtain ⟨hle, h, hh, hthread, hkey, hlt⟩ := hi.inside hp x hx
    refine ⟨hle, h, (hmem h).mpr ⟨hh, fun hown' => ?_⟩, hthread, hkey, hlt⟩
    exact hidle x hx (hthread ▸ hown'.1)

end Steps

lemma leased_disturb {s s' : Outbox} (hi : Leased s)
    (h : (Outbox.machine lib).semantics.env s s') : Leased s' := by
  obtain ⟨d, world, running, rfl, hsends⟩ := env_eq h
  refine ⟨fun x hx => (hi.claimed_le x hx).trans (Nat.le_add_right _ _), fun hp x hx hlt => ?_,
    hi.apart, fun hp x hx => ⟨?_, (hi.inside hp x hx).2⟩⟩
  · exact hi.leased hp x hx ((Nat.le_add_right _ _).trans_lt hlt)
  · rcases eq_or_ne d 0 with rfl | hd
    · exact (hi.inside hp x hx).1
    · exact hsends x hx hd

lemma leased_lose {s : Outbox} (hi : Leased s) (t : ℕ) :
    Leased ((Outbox.machine lib).semantics.lose t s) :=
  hi.of_fewer_sends rfl rfl id (fun _ r h => ⟨r, h, le_rfl⟩) fun _ hx => (List.mem_filter.mp hx).1

def Unclaimed (t : ℕ) (s : Outbox) : Prop :=
  (∀ h ∈ s.holds, h.thread ≠ t) ∧ ∀ x ∈ s.sends, x.thread ≠ t

def notifyRules (lib : UuidLib) : Discipline (Outbox.machine lib).semantics where
  inv := Leased
  fresh := Unclaimed
  guar t _ s _ s' := Moves t s s'
  rely := Others
  rely_refl := Others.refl
  rely_trans _ _ _ _ h g := h.trans g
  rely_guar _ _ _ _ _ _ hne _ hg := hg.others hne
  rely_env u _ _ _ he := others_disturb u he
  rely_lose t u s hne _ :=
    ⟨le_rfl, fun _ _ => Iff.rfl,
      fun x hx => by simp [Outbox.machine, Outbox.untimed, Machine.semantics, hx, hne.symm],
      rfl, id⟩
  fresh_rely t _ _ hf hr :=
    ⟨fun h hh ht => hf.1 h ((hr.holds h ht).mp hh) ht,
      fun x hx ht => hf.2 x ((hr.sends x ht).mp hx) ht⟩
  inv_env _ _ hi he := leased_disturb hi he
  inv_lose t _ hi := leased_lose hi t

section Exec
variable {t : ℕ} {s s' : Outbox} {key : Key}

attribute [local simp] Outbox.perform

/-! What each statement answers and does. -/

lemma perform_enqueue {channels : List Bytes} {reply : Reply} {r : Option GoError}
    (h : Outbox.perform lib reply t (.enqueueHeldNotifications channels) s = some (r, s')) :
    s' = s.began t channels ∨ s' = (s.began t channels).enqueued channels := by
  cases reply with
  | works => exact .inr (Prod.mk.inj (Option.some.inj h)).2.symm
  | fails e => exact .inl (Prod.mk.inj (Option.some.inj h)).2.symm
  | lost e => exact .inr (Prod.mk.inj (Option.some.inj h)).2.symm
  | claims keys err => exact absurd h (by simp)

lemma perform_claim {maxAttempts batchSize : ℕ} {reply : Reply}
    {r : Except GoError (List ClaimDueNotificationsRow)}
    (h : Outbox.perform lib reply t (.claimDueNotifications maxAttempts batchSize) s =
      some (r, s')) :
    (s' = s ∧ ∃ e, reply = .fails e ∧ r = .error e) ∨
      ∃ keys err, reply = .claims keys err ∧ s.claimable maxAttempts batchSize keys = true ∧
        s' = s.claimed t keys err ∧
        ∀ due, r = .ok due → err = none ∧ due = Outbox.claimRows lib s keys := by
  cases reply with
  | works => exact absurd h (by simp)
  | lost e => exact absurd h (by simp)
  | fails e =>
    obtain ⟨rfl, rfl⟩ := Prod.mk.inj (Option.some.inj h)
    exact .inl ⟨rfl, e, rfl, rfl⟩
  | claims keys err =>
    obtain ⟨hclaim, h⟩ := Option.ite_none_right_eq_some.mp h
    obtain ⟨rfl, rfl⟩ := Prod.mk.inj (Option.some.inj h)
    refine .inr ⟨keys, err, rfl, hclaim, rfl, fun due hdue => ?_⟩
    cases err with
    | none => exact ⟨rfl, (Except.ok.inj hdue).symm⟩
    | some e => simp at hdue

lemma perform_getQuarantineEntry {id : UUID} {reply : Reply} {r : Except GoError Quarantine}
    (h : Outbox.perform lib reply t (.getQuarantineEntry id) s = some (r, s')) :
    s' = s ∧ ∀ entry, r = .ok entry → s.world.table.find id = some entry := by
  cases reply with
  | works =>
    obtain ⟨rfl, rfl⟩ := Prod.mk.inj (Option.some.inj h)
    refine ⟨rfl, fun entry hr => ?_⟩
    split at hr
    · rename_i hfind
      rw [hfind, Except.ok.inj hr]
    · simp at hr
  | fails e =>
    obtain ⟨rfl, rfl⟩ := Prod.mk.inj (Option.some.inj h)
    exact ⟨rfl, fun entry hr => by simp at hr⟩
  | lost e => exact absurd h (by simp)
  | claims keys err => exact absurd h (by simp)

lemma perform_beginSend {action : HeldAction} {reply : Reply} {r : Unit}
    (h : Outbox.perform lib reply t (.beginSend key action) s = some (r, s')) :
    s' = s.sending t key := by
  cases reply with
  | works => exact (Prod.mk.inj (Option.some.inj h)).2.symm
  | fails e => exact absurd h (by simp)
  | lost e => exact absurd h (by simp)
  | claims keys err => exact absurd h (by simp)

lemma perform_endSend {reply : Reply} {r : Option GoError}
    (h : Outbox.perform lib reply t (.endSend key) s = some (r, s')) :
    s' = s.returned t key r := by
  cases reply with
  | works =>
    obtain ⟨rfl, rfl⟩ := Prod.mk.inj (Option.some.inj h)
    rfl
  | fails e =>
    obtain ⟨rfl, rfl⟩ := Prod.mk.inj (Option.some.inj h)
    rfl
  | lost e => exact absurd h (by simp)
  | claims keys err => exact absurd h (by simp)

lemma perform_now {reply : Reply} {r : ℕ}
    (h : Outbox.perform lib reply t .now s = some (r, s')) : s' = s ∧ r = s.clock := by
  cases reply with
  | works =>
    obtain ⟨rfl, rfl⟩ := Prod.mk.inj (Option.some.inj h)
    exact ⟨rfl, rfl⟩
  | fails e => exact absurd h (by simp)
  | lost e => exact absurd h (by simp)
  | claims keys err => exact absurd h (by simp)

lemma perform_markDelivered {reply : Reply} {r : Option GoError}
    (h : Outbox.perform lib reply t (.markNotificationDelivered key) s = some (r, s')) :
    (s' = s ∧ ∃ e, reply = .fails e) ∨ s' = s.delivered key ∧ ∀ e, reply ≠ .fails e := by
  cases reply with
  | works => exact .inr ⟨(Prod.mk.inj (Option.some.inj h)).2.symm, by simp⟩
  | fails e => exact .inl ⟨(Prod.mk.inj (Option.some.inj h)).2.symm, e, rfl⟩
  | lost e => exact .inr ⟨(Prod.mk.inj (Option.some.inj h)).2.symm, by simp⟩
  | claims keys err => exact absurd h (by simp)

lemma perform_markFailed {nextAttemptAt : ℕ} {reply : Reply} {r : Option GoError}
    (h : Outbox.perform lib reply t (.markNotificationFailed key nextAttemptAt) s =
      some (r, s')) :
    (s' = s ∧ ∃ e, reply = .fails e) ∨
      s' = s.failed t key nextAttemptAt ∧ ∀ e, reply ≠ .fails e := by
  cases reply with
  | works => exact .inr ⟨(Prod.mk.inj (Option.some.inj h)).2.symm, by simp⟩
  | fails e => exact .inl ⟨(Prod.mk.inj (Option.some.inj h)).2.symm, e, rfl⟩
  | lost e => exact .inr ⟨(Prod.mk.inj (Option.some.inj h)).2.symm, by simp⟩
  | claims keys err => exact absurd h (by simp)

lemma exec_perform {op : NotifyOp} {r : NotifyRes op}
    (h : (Outbox.machine lib).semantics.exec t op s r s') :
    s.prompt t op = true ∧ ∃ reply, Outbox.perform lib reply t op s = some (r, s') := by
  obtain ⟨reply, ha⟩ := h
  obtain ⟨hprompt, hp⟩ := Option.ite_none_right_eq_some.mp ha
  exact ⟨hprompt, reply, hp⟩

lemma exec_enqueue {channels : List Bytes} {r : Option GoError}
    (h : (Outbox.machine lib).semantics.exec t (.enqueueHeldNotifications channels) s r s') :
    s' = s.began t channels ∨ s' = (s.began t channels).enqueued channels := by
  obtain ⟨-, reply, hp⟩ := exec_perform h
  exact perform_enqueue hp

lemma exec_claim {maxAttempts batchSize : ℕ} {r : Except GoError (List ClaimDueNotificationsRow)}
    (h : (Outbox.machine lib).semantics.exec t (.claimDueNotifications maxAttempts batchSize)
      s r s') :
    s.clock = s.last t ∧ ((s' = s ∧ ∃ e, r = .error e) ∨
      ∃ keys err, s.claimable maxAttempts batchSize keys = true ∧ s' = s.claimed t keys err ∧
        ∀ due, r = .ok due → err = none ∧ due = Outbox.claimRows lib s keys) := by
  obtain ⟨hprompt, reply, hp⟩ := exec_perform h
  refine ⟨of_decide_eq_true hprompt, ?_⟩
  rcases perform_claim hp with ⟨hs, e, -, hr⟩ | ⟨keys, err, -, hclaim, hs, hdue⟩
  · exact .inl ⟨hs, e, hr⟩
  · exact .inr ⟨keys, err, hclaim, hs, hdue⟩

lemma exec_getQuarantineEntry {id : UUID} {r : Except GoError Quarantine}
    (h : (Outbox.machine lib).semantics.exec t (.getQuarantineEntry id) s r s') :
    s' = s ∧ ∀ entry, r = .ok entry → s.world.table.find id = some entry := by
  obtain ⟨-, reply, hp⟩ := exec_perform h
  exact perform_getQuarantineEntry hp

lemma exec_beginSend {action : HeldAction} {r : Unit}
    (h : (Outbox.machine lib).semantics.exec t (.beginSend key action) s r s') :
    s' = s.sending t key := by
  obtain ⟨-, reply, hp⟩ := exec_perform h
  exact perform_beginSend hp

lemma exec_endSend {r : Option GoError}
    (h : (Outbox.machine lib).semantics.exec t (.endSend key) s r s') :
    s' = s.returned t key r := by
  obtain ⟨-, reply, hp⟩ := exec_perform h
  exact perform_endSend hp

lemma exec_now {r : ℕ} (h : (Outbox.machine lib).semantics.exec t .now s r s') : s' = s := by
  obtain ⟨-, reply, hp⟩ := exec_perform h
  exact (perform_now hp).1

lemma exec_markDelivered {r : Option GoError}
    (h : (Outbox.machine lib).semantics.exec t (.markNotificationDelivered key) s r s') :
    s' = s ∨ s' = s.delivered key := by
  obtain ⟨-, reply, hp⟩ := exec_perform h
  exact (perform_markDelivered hp).imp And.left And.left

lemma exec_markFailed {nextAttemptAt : ℕ} {r : Option GoError}
    (h : (Outbox.machine lib).semantics.exec t (.markNotificationFailed key nextAttemptAt) s r s') :
    s.clock = s.last t ∧ (s' = s ∨ s' = s.failed t key nextAttemptAt) := by
  obtain ⟨hprompt, reply, hp⟩ := exec_perform h
  exact ⟨of_decide_eq_true hprompt, (perform_markFailed hp).imp And.left And.left⟩

end Exec

end KiteRail.Notify
