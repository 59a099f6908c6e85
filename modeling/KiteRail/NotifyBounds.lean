import KiteRail.NotifyDelivery

/-! Bounds on the outbox. Any time may pass here between any two steps, and a send may take
as long as it likes. Every claim is worth at most one send, so the number of sends is
bounded by the attempts that the claims have counted. -/
namespace KiteRail.Notify
open Bytes Prog Replay Discipline
variable {lib : UuidLib}

/-- The shift stays in range for every number of attempts that a claim can return. -/
lemma shifted_eq {n : ℕ} (h : n ≤ maxAttempts) : shifted n = 15 * second * 2 ^ (n - 1) := by
  have hn : n ≤ 8 := h
  interval_cases n <;> decide

lemma backoff_le (n : ℕ) : backoff n ≤ hour := min_le_right _ _

lemma le_backoff {n : ℕ} (h : n ≤ maxAttempts) : 15 * second ≤ backoff n := by
  have hpow : (1 : ℤ) ≤ 2 ^ (n - 1) := one_le_pow₀ (by decide)
  rw [backoff, shifted_eq h]
  exact le_min (le_mul_of_one_le_right (by decide) hpow) (by decide)

lemma backoff_mono {m n : ℕ} (h : m ≤ n) (hn : n ≤ maxAttempts) : backoff m ≤ backoff n := by
  have hpow : (2 : ℤ) ^ (m - 1) ≤ 2 ^ (n - 1) := pow_le_pow_right₀ (by decide) (by omega)
  rw [backoff, backoff, shifted_eq hn, shifted_eq (h.trans hn)]
  exact min_le_min_right _ (mul_le_mul_of_nonneg_left hpow (by decide))

/-- The outbox, the claims that no send was begun for, the sends that were begun, and for
every thread the rows that its claim answered and the time that it read last. -/
structure Tally where
  outbox : Outbox
  tickets : List (ℕ × Key)
  begun : List Key
  batch : ℕ → List ClaimDueNotificationsRow
  reading : ℕ → ℕ

namespace Tally

def start (world : World) : Tally := ⟨Outbox.start world, [], [], fun _ => [], fun _ => 0⟩

/-- The books after an operation that was answered `r` and made the outbox `o`: an answered
claim gives the thread a ticket for every row, and a send takes one. -/
def after (s : Tally) (reply : Reply) (t : ℕ) (op : NotifyOp) (r : NotifyRes op) (o : Outbox) :
    Tally :=
  match op, reply, r with
  | .claimDueNotifications _ _, .claims keys none, Except.ok due =>
    { s with
      outbox := o
      tickets := keys.map (fun key => (t, key)) ++ s.tickets
      batch := Function.update s.batch t due }
  | .beginSend key _, _, _ =>
    { s with outbox := o, tickets := s.tickets.erase (t, key), begun := key :: s.begun }
  | .now, _, time => { s with outbox := o, reading := Function.update s.reading t time }
  | _, _, _ => { s with outbox := o }

variable (lib : UuidLib)

def answer (reply : Reply) (t : ℕ) (op : NotifyOp) (s : Tally) : Option (NotifyRes op × Tally) :=
  (Outbox.perform lib reply t op s.outbox).map fun a => (a.1, s.after reply t op a.1 a.2)

def machine : Machine NotifyOp NotifyRes Tally Reply Disturbance where
  answer := answer lib
  fault f s := (Outbox.disturb lib f s.outbox).map fun o => { s with outbox := o }
  lose t s := { s with outbox := (Outbox.untimed lib).lose t s.outbox }

end Tally

section Rows
variable {o o' : Outbox} {t : ℕ} {key : Key}

/-- What no step undoes: a row stays, its attempts never fall, and once it is marked
delivered they do not grow. -/
structure Kept (o o' : Outbox) : Prop where
  stays : ∀ k r, o.rows.find k = some r → ∃ r', o'.rows.find k = some r' ∧
    r'.createdAt = r.createdAt ∧ r.attempts ≤ r'.attempts ∧
    (r.deliveredAt.isSome → r'.deliveredAt.isSome ∧ r'.attempts = r.attempts)

lemma Kept.of_rows (h : o'.rows = o.rows) : Kept o o' :=
  ⟨fun k r hr => ⟨r, by rw [h, hr], rfl, le_rfl, fun hd => ⟨hd, rfl⟩⟩⟩

lemma Kept.trans {a b c : Outbox} (h : Kept a b) (g : Kept b c) : Kept a c := by
  refine ⟨fun k r hr => ?_⟩
  obtain ⟨r', hr', hcreated, hle, hdone⟩ := h.stays k r hr
  obtain ⟨r'', hr'', hcreated', hle', hdone'⟩ := g.stays k r' hr'
  refine ⟨r'', hr'', hcreated'.trans hcreated, hle.trans hle', fun hd => ?_⟩
  obtain ⟨hd', heq⟩ := hdone hd
  obtain ⟨hd'', heq'⟩ := hdone' hd'
  exact ⟨hd'', heq'.trans heq⟩

/-- An update of the rows under some keys. -/
lemma Kept.of_update {guard : Notification → Bool} (set : Notification → Notification)
    (hset : ∀ r, (set r).key = r.key) (hrows : o'.rows = o.rows.update guard set hset)
    (hcreated : ∀ r, (set r).createdAt = r.createdAt) (hle : ∀ r, r.attempts ≤ (set r).attempts)
    (hdone : ∀ r ∈ o.rows.rows, guard r = true → r.deliveredAt.isSome →
      (set r).deliveredAt.isSome ∧ (set r).attempts = r.attempts) : Kept o o' := by
  refine ⟨fun k r hr => ?_⟩
  rw [hrows, Table.find_update, hr, Option.map_some]
  refine ⟨_, rfl, ?_⟩
  split
  · rename_i hg
    exact ⟨hcreated r, hle r, hdone r (Table.find_eq_some_iff.mp hr).1 hg⟩
  · exact ⟨rfl, le_rfl, fun hd => ⟨hd, rfl⟩⟩

lemma kept_claimed {maxAttempts batchSize : ℕ} {keys : List Key}
    (h : o.claimable maxAttempts batchSize keys = true) (err : Option GoError) :
    Kept o (o.claimed t keys err) := by
  refine .of_update (Outbox.leaseOf o.clock) (fun _ => rfl) rfl (fun _ => rfl)
    (fun r => Nat.le_succ r.attempts) fun r hr hg hd => ?_
  obtain ⟨r', hfind, hopen, -⟩ := due_of_claimable h (of_decide_eq_true hg)
  obtain rfl := Option.some.inj ((Table.find_eq_some_iff.mpr ⟨hr, rfl⟩).symm.trans hfind)
  simp [hopen] at hd

lemma kept_perform {reply : Reply} {op : NotifyOp} {r : NotifyRes op}
    (h : Outbox.perform lib reply t op o = some (r, o')) : Kept o o' := by
  cases op with
  | enqueueHeldNotifications channels =>
    rcases perform_enqueue h with rfl | rfl
    · exact .of_rows rfl
    · refine ⟨fun k r hr => ⟨r, ?_, rfl, le_rfl, fun hd => ⟨hd, rfl⟩⟩⟩
      exact find_enqueued (s := o.began t channels) hr
  | claimDueNotifications maxAttempts batchSize =>
    rcases perform_claim h with ⟨rfl, -⟩ | ⟨keys, err, -, hclaim, rfl, -⟩
    · exact .of_rows rfl
    · exact kept_claimed hclaim err
  | getQuarantineEntry id =>
    obtain ⟨rfl, -⟩ := perform_getQuarantineEntry h
    exact .of_rows rfl
  | beginSend key action =>
    obtain rfl := perform_beginSend h
    exact .of_rows rfl
  | endSend key =>
    obtain rfl := perform_endSend h
    exact .of_rows rfl
  | now =>
    obtain ⟨rfl, -⟩ := perform_now h
    exact .of_rows rfl
  | markNotificationDelivered key =>
    rcases perform_markDelivered h with ⟨rfl, -⟩ | ⟨rfl, -⟩
    · exact .of_rows rfl
    · exact .of_update (fun r => { r with deliveredAt := some o.clock }) (fun _ => rfl) rfl
        (fun _ => rfl) (fun _ => le_rfl) fun r _ _ _ => ⟨rfl, rfl⟩
  | markNotificationFailed key nextAttemptAt =>
    rcases perform_markFailed h with ⟨rfl, -⟩ | ⟨rfl, -⟩
    · exact .of_rows rfl
    · exact .of_update (fun r => { r with nextAttemptAt := nextAttemptAt }) (fun _ => rfl) rfl
        (fun _ => rfl) (fun _ => le_rfl) fun r _ _ hd => ⟨hd, rfl⟩

lemma find_queue_cases {clock : ℕ} {rows : Table Notification.key} {k : Key} {r : Notification}
    (h : (Outbox.queue clock rows key).find k = some r) :
    rows.find k = some r ∨ rows.find k = none ∧ r.attempts = 0 ∧ r.nextAttemptAt = clock := by
  unfold Outbox.queue at h
  split at h
  · rename_i hnone
    have hfind := Table.find_insert rows ⟨key.1, key.2, clock, 0, clock, none⟩ hnone k
    by_cases hk : k = key
    · rw [hfind.trans (if_pos hk)] at h
      obtain rfl := Option.some.inj h
      exact .inr ⟨hk ▸ hnone, rfl, rfl⟩
    · rw [hfind.trans (if_neg hk)] at h
      exact .inl h
  · exact .inl h

lemma find_enqueued_cases {channels : List Bytes} {k : Key} {r : Notification}
    (h : (o.enqueued channels).rows.find k = some r) :
    o.rows.find k = some r ∨ o.rows.find k = none ∧ r.attempts = 0 ∧
      r.nextAttemptAt = o.clock := by
  simp only [Outbox.enqueued] at h
  generalize o.pendingIDs ×ˢ channels = pairs at h
  generalize o.rows = rows at h ⊢
  induction pairs generalizing rows with
  | nil => exact .inl h
  | cons pair pairs ih =>
    rcases ih _ h with hqueue | ⟨hnone, hnew⟩
    · exact find_queue_cases hqueue
    · refine .inr ⟨?_, hnew⟩
      cases hfind : rows.find k with
      | none => rfl
      | some r' =>
        rw [find_queue hfind] at hnone
        exact absurd hnone (by simp)

end Rows

def Outbox.attempts (o : Outbox) (k : Key) : ℕ := (o.rows.find k).elim 0 Notification.attempts

section Attempts
variable {o o' : Outbox} {t : ℕ} {key k : Key}

lemma Outbox.attempts_eq {r : Notification} (h : o.rows.find k = some r) :
    o.attempts k = r.attempts := by
  rw [Outbox.attempts, h, Option.elim_some]

lemma Kept.attempts_le (h : Kept o o') (k : Key) : o.attempts k ≤ o'.attempts k := by
  cases hfind : o.rows.find k with
  | none => simp [Outbox.attempts, hfind]
  | some r =>
    obtain ⟨r', hfind', -, hle, -⟩ := h.stays k r hfind
    rwa [Outbox.attempts_eq hfind, Outbox.attempts_eq hfind']

lemma attempts_update {guard : Notification → Bool} (set : Notification → Notification)
    (hset : ∀ r, (set r).key = r.key) (hrows : o'.rows = o.rows.update guard set hset)
    (hkeep : ∀ r, (set r).attempts = r.attempts) : o'.attempts k = o.attempts k := by
  rw [Outbox.attempts, hrows, Table.find_update, Outbox.attempts]
  cases o.rows.find k with
  | none => rfl
  | some r =>
    rw [Option.map_some, Option.elim_some, Option.elim_some]
    split
    · exact hkeep r
    · rfl

lemma attempts_enqueued {channels : List Bytes} :
    (o.enqueued channels).attempts k = o.attempts k := by
  cases hfind : (o.enqueued channels).rows.find k with
  | none =>
    cases hbefore : o.rows.find k with
    | none => rw [Outbox.attempts, Outbox.attempts, hfind, hbefore]
    | some r => exact absurd (hfind.symm.trans (find_enqueued hbefore)) (by simp)
  | some r =>
    rw [Outbox.attempts_eq hfind]
    rcases find_enqueued_cases hfind with hbefore | ⟨hbefore, hzero, -⟩
    · exact (Outbox.attempts_eq hbefore).symm
    · rw [Outbox.attempts, hbefore, hzero, Option.elim_none]

lemma attempts_claimed {maxAttempts batchSize : ℕ} {keys : List Key}
    (h : o.claimable maxAttempts batchSize keys = true) (err : Option GoError) :
    (o.claimed t keys err).attempts k = o.attempts k + if k ∈ keys then 1 else 0 := by
  cases hfind : o.rows.find k with
  | none =>
    have hnot : k ∉ keys := fun hk => by
      obtain ⟨r, hr, -⟩ := due_of_claimable h hk
      exact absurd (hfind.symm.trans hr) (by simp)
    have hnone : (o.claimed t keys err).rows.find k = none :=
      (Table.find_update o.rows _ (Outbox.leaseOf o.clock) (fun _ => rfl) k).trans
        (by rw [hfind, Option.map_none])
    rw [Outbox.attempts, Outbox.attempts, hnone, hfind, if_neg hnot, Nat.add_zero]
  | some r =>
    rw [Outbox.attempts_eq (find_claimed hfind), Outbox.attempts_eq hfind]
    split <;> rfl

end Attempts

/-- Every send is paid for by a claim, and no row waits longer than an hour. -/
structure Bounded (s : Tally) : Prop where
  attempts : ∀ k, s.outbox.attempts k ≤ maxAttempts
  spent : ∀ k, s.begun.count k + s.tickets.countP (fun x => x.2 = k) ≤ s.outbox.attempts k
  soon : ∀ k r, s.outbox.rows.find k = some r → r.nextAttemptAt ≤ s.outbox.clock + hour

section Steps
variable {s s' : Tally} {o' : Outbox} {t : ℕ} {key : Key}

lemma Bounded.of_attempts (hi : Bounded s) (hattempts : ∀ k, o'.attempts k = s.outbox.attempts k)
    (hsoon : ∀ k r, o'.rows.find k = some r → r.nextAttemptAt ≤ o'.clock + hour) :
    Bounded { s with outbox := o' } := by
  refine ⟨fun k => ?_, fun k => ?_, hsoon⟩
  · rw [hattempts]
    exact hi.attempts k
  · rw [hattempts]
    exact hi.spent k

lemma soon_update {guard : Notification → Bool} (set : Notification → Notification)
    (hset : ∀ r, (set r).key = r.key) (hrows : o'.rows = s.outbox.rows.update guard set hset)
    (hclock : o'.clock = s.outbox.clock) (hi : Bounded s)
    (hsoon : ∀ r, r.nextAttemptAt ≤ o'.clock + hour → (set r).nextAttemptAt ≤ o'.clock + hour)
    (k : Key) (r' : Notification) (h : o'.rows.find k = some r') :
    r'.nextAttemptAt ≤ o'.clock + hour := by
  rw [hrows, Table.find_update] at h
  obtain ⟨r, hfind, rfl⟩ := Option.map_eq_some_iff.mp h
  have hr := hclock.symm ▸ hi.soon k r hfind
  split
  · exact hsoon r hr
  · exact hr

lemma bounded_enqueued (hi : Bounded s) (channels : List Bytes) :
    Bounded { s with outbox := (s.outbox.began t channels).enqueued channels } := by
  refine hi.of_attempts (fun k => attempts_enqueued (o := s.outbox.began t channels))
    fun k r h => ?_
  rcases find_enqueued_cases h with hbefore | ⟨-, -, hnext⟩
  · exact hi.soon k r hbefore
  · rw [hnext]
    exact Nat.le_add_right _ _

lemma bounded_delivered (hi : Bounded s) : Bounded { s with outbox := s.outbox.delivered key } :=
  hi.of_attempts (fun _ => attempts_update (fun r => { r with deliveredAt := some s.outbox.clock })
    (fun _ => rfl) rfl fun _ => rfl)
    (soon_update (fun r => { r with deliveredAt := some s.outbox.clock }) (fun _ => rfl) rfl rfl hi
      fun _ h => h)

lemma bounded_failed (hi : Bounded s) {nextAttemptAt : ℕ}
    (hnext : nextAttemptAt ≤ s.outbox.clock + hour) :
    Bounded { s with outbox := s.outbox.failed t key nextAttemptAt } :=
  hi.of_attempts (fun _ => attempts_update (fun r => { r with nextAttemptAt := nextAttemptAt })
    (fun _ => rfl) rfl fun _ => rfl)
    (soon_update (fun r => { r with nextAttemptAt := nextAttemptAt }) (fun _ => rfl) rfl rfl hi
      fun _ _ => hnext)

lemma countP_tickets {keys : List Key} (hnodup : keys.Nodup) (k : Key) :
    (keys.map fun key => (t, key)).countP (fun x => x.2 = k) = if k ∈ keys then 1 else 0 := by
  rw [List.countP_map]
  have hcount : List.countP ((fun x : ℕ × Key => decide (x.2 = k)) ∘ fun key => (t, key)) keys =
      keys.count k := List.countP_congr fun x _ => by simp
  rw [hcount, hnodup.count]

lemma bounded_claimed (hi : Bounded s) {batchSize : ℕ} {keys : List Key}
    (h : s.outbox.claimable maxAttempts batchSize keys = true) (err : Option GoError)
    (r : Except GoError (List ClaimDueNotificationsRow)) :
    Bounded (s.after (.claims keys err) t (.claimDueNotifications maxAttempts batchSize) r
      (s.outbox.claimed t keys err)) := by
  have hnodup := nodup_of_claimable h
  have hattempts : ∀ k, (s.outbox.claimed t keys err).attempts k ≤ maxAttempts := by
    intro k
    rw [attempts_claimed h]
    split
    · rename_i hk
      obtain ⟨r, hfind, -, hlt, -⟩ := due_of_claimable h hk
      rw [Outbox.attempts_eq hfind]
      exact hlt
    · exact hi.attempts k
  have hsoon : ∀ k r, (s.outbox.claimed t keys err).rows.find k = some r →
      r.nextAttemptAt ≤ s.outbox.clock + hour := soon_update (Outbox.leaseOf s.outbox.clock)
    (fun _ => rfl) rfl rfl hi fun _ _ => Nat.add_le_add_left (show lease ≤ hour by decide) _
  have hcount : ∀ k, s.begun.count k + s.tickets.countP (fun x => x.2 = k) ≤
      (s.outbox.claimed t keys err).attempts k := fun k =>
    (hi.spent k).trans ((attempts_claimed h err).symm ▸ Nat.le_add_right _ _)
  cases err with
  | some e => exact ⟨hattempts, hcount, hsoon⟩
  | none =>
    cases r with
    | error e => exact ⟨hattempts, hcount, hsoon⟩
    | ok due =>
      refine ⟨hattempts, fun k => ?_, hsoon⟩
      have hspent := hi.spent k
      have hclaimed := attempts_claimed h (none : Option GoError) (t := t) (k := k)
      change s.begun.count k + List.countP _ (keys.map _ ++ s.tickets) ≤ _
      rw [List.countP_append, countP_tickets hnodup]
      exact hclaimed ▸ by omega

lemma bounded_sending (hi : Bounded s) (action : HeldAction) (hticket : (t, key) ∈ s.tickets) :
    Bounded (s.after .works t (.beginSend key action) () (s.outbox.sending t key)) := by
  refine ⟨hi.attempts, fun k => ?_, hi.soon⟩
  have hspent := hi.spent k
  change (key :: s.begun).count k + (s.tickets.erase (t, key)).countP (fun x => x.2 = k) ≤
    s.outbox.attempts k
  rw [List.count_cons, List.countP_erase]
  by_cases hk : key = k
  · have hpos : 0 < s.tickets.countP (fun x => x.2 = k) :=
      List.countP_pos_iff.mpr ⟨_, hticket, by simp [hk]⟩
    simp only [hk, beq_self_eq_true, if_true, decide_true]
    rw [hk] at hticket
    simp only [hticket, true_and, if_true]
    omega
  · simp only [hk, beq_iff_eq, if_false, decide_false]
    simpa using hspent

end Steps

/-- What thread `t` may do. A delay is computed from a row that the thread's claim answered
and the time that it read last. -/
structure Accounts (lib : UuidLib) (t : ℕ) (op : NotifyOp) (s s' : Tally) : Prop where
  kept : Kept s.outbox s'.outbox
  clock : s'.outbox.clock = s.outbox.clock
  tickets : ∀ x ∈ s.tickets, x.1 ≠ t → x ∈ s'.tickets
  batch : ∀ u, u ≠ t → s'.batch u = s.batch u
  reading : ∀ u, u ≠ t → s'.reading u = s.reading u
  delay : ∀ key nextAttemptAt, op = .markNotificationFailed key nextAttemptAt →
    ∃ row ∈ s.batch t, Names lib row key ∧ 1 ≤ row.attempts ∧
      row.attempts ≤ s.outbox.attempts key ∧ s.reading t ≤ s.outbox.clock ∧
      nextAttemptAt = (s.reading t + backoff row.attempts).toNat

/-- What thread `t` may see of the others. -/
structure Elsewhere (t : ℕ) (s s' : Tally) : Prop where
  kept : Kept s.outbox s'.outbox
  clock : s.outbox.clock ≤ s'.outbox.clock
  tickets : ∀ key, (t, key) ∈ s.tickets → (t, key) ∈ s'.tickets
  batch : s'.batch t = s.batch t
  reading : s'.reading t = s.reading t

section Rules
variable {s s' : Tally} {t : ℕ} {key : Key}

/-- Only time changes the clock, and nothing but the workers the rows and the books. -/
lemma env_tally (h : (Tally.machine lib).semantics.env s s') :
    ∃ o, s' = { s with outbox := o } ∧ s.outbox.clock ≤ o.clock ∧ o.rows = s.outbox.rows := by
  obtain ⟨f, hf⟩ := h
  obtain ⟨o, ho, rfl⟩ := Option.map_eq_some_iff.mp hf
  refine ⟨o, rfl, ?_⟩
  cases f with
  | tick d =>
    obtain rfl := Option.some.inj ho
    exact ⟨Nat.le_add_right _ _, rfl⟩
  | system ch t op =>
    obtain ⟨⟨r, w⟩, -, rfl⟩ := Option.map_eq_some_iff.mp ho
    exact ⟨le_rfl, rfl⟩
  | deploy channels =>
    obtain rfl := Option.some.inj ho
    exact ⟨le_rfl, rfl⟩
  | retire channels =>
    obtain rfl := Option.some.inj ho
    exact ⟨le_rfl, rfl⟩

lemma Bounded.of_rows (hi : Bounded s) (hclock : s.outbox.clock ≤ s'.outbox.clock)
    (hrows : s'.outbox.rows = s.outbox.rows) (htickets : s'.tickets = s.tickets)
    (hbegun : s'.begun = s.begun) : Bounded s' := by
  have hattempts : ∀ k, s'.outbox.attempts k = s.outbox.attempts k := fun k => by
    rw [Outbox.attempts, hrows, Outbox.attempts]
  refine ⟨fun k => hattempts k ▸ hi.attempts k, fun k => ?_, fun k r h => ?_⟩
  · rw [hattempts, htickets, hbegun]
    exact hi.spent k
  · exact (hi.soon k r (hrows ▸ h)).trans (Nat.add_le_add_right hclock _)

/-- The rules of the workers: every delay comes from the attempts of a claim. -/
def boundRules (lib : UuidLib) : Discipline (Tally.machine lib).semantics where
  inv := Bounded
  fresh _ _ := True
  guar t op s _ s' := Accounts lib t op s s'
  rely := Elsewhere
  rely_refl _ _ := ⟨.of_rows rfl, le_rfl, fun _ h => h, rfl, rfl⟩
  rely_trans _ _ _ _ h g :=
    ⟨h.kept.trans g.kept, h.clock.trans g.clock, fun key hk => g.tickets key (h.tickets key hk),
      g.batch.trans h.batch, g.reading.trans h.reading⟩
  rely_guar _ u _ _ _ _ hne _ hg :=
    ⟨hg.kept, hg.clock.ge, fun _ hk => hg.tickets _ hk hne.symm, hg.batch u hne.symm,
      hg.reading u hne.symm⟩
  rely_env _ _ _ _ he := by
    obtain ⟨o, rfl, hclock, hrows⟩ := env_tally he
    exact ⟨.of_rows hrows, hclock, fun key hk => hk, rfl, rfl⟩
  rely_lose _ _ _ _ _ := ⟨.of_rows rfl, le_rfl, fun _ h => h, rfl, rfl⟩
  fresh_rely _ _ _ _ _ := trivial
  inv_env _ _ hi he := by
    obtain ⟨o, rfl, hclock, hrows⟩ := env_tally he
    exact hi.of_rows hclock hrows rfl rfl
  inv_lose _ _ hi := hi.of_rows le_rfl rfl rfl rfl

/-- The operations that the books do not record, and that set no delay. -/
def NotifyOp.quiet : NotifyOp → Bool
  | .claimDueNotifications _ _ => false
  | .beginSend _ _ => false
  | .now => false
  | .markNotificationFailed _ _ => false
  | _ => true

lemma clock_perform {o o' : Outbox} {reply : Reply} {op : NotifyOp} {r : NotifyRes op}
    (h : Outbox.perform lib reply t op o = some (r, o')) : o'.clock = o.clock := by
  cases op with
  | enqueueHeldNotifications channels => rcases perform_enqueue h with rfl | rfl <;> rfl
  | claimDueNotifications maxAttempts batchSize =>
    rcases perform_claim h with ⟨rfl, -⟩ | ⟨keys, err, -, -, rfl, -⟩ <;> rfl
  | getQuarantineEntry id =>
    obtain ⟨rfl, -⟩ := perform_getQuarantineEntry h
    rfl
  | beginSend key action =>
    obtain rfl := perform_beginSend h
    rfl
  | endSend key =>
    obtain rfl := perform_endSend h
    rfl
  | now =>
    obtain ⟨rfl, -⟩ := perform_now h
    rfl
  | markNotificationDelivered key =>
    rcases perform_markDelivered h with ⟨rfl, -⟩ | ⟨rfl, -⟩ <;> rfl
  | markNotificationFailed key nextAttemptAt =>
    rcases perform_markFailed h with ⟨rfl, -⟩ | ⟨rfl, -⟩ <;> rfl

lemma exec_tally {op : NotifyOp} {r : NotifyRes op}
    (h : (Tally.machine lib).semantics.exec t op s r s') :
    ∃ reply o', Outbox.perform lib reply t op s.outbox = some (r, o') ∧
      s' = s.after reply t op r o' := by
  obtain ⟨reply, ha⟩ := h
  obtain ⟨⟨r', o'⟩, hp, heq⟩ := Option.map_eq_some_iff.mp ha
  obtain ⟨rfl, rfl⟩ := Prod.mk.inj heq
  exact ⟨reply, o', hp, rfl⟩

@[simp] lemma after_outbox (s : Tally) (reply : Reply) (t : ℕ) (op : NotifyOp) (r : NotifyRes op)
    (o : Outbox) : (s.after reply t op r o).outbox = o := by
  unfold Tally.after
  split <;> rfl

lemma after_quiet {op : NotifyOp} (hq : op.quiet = true) (reply : Reply) (r : NotifyRes op)
    (o : Outbox) : s.after reply t op r o = { s with outbox := o } := by
  cases op with
  | claimDueNotifications _ _ => simp [NotifyOp.quiet] at hq
  | beginSend _ _ => simp [NotifyOp.quiet] at hq
  | now => simp [NotifyOp.quiet] at hq
  | _ => rfl

lemma quiet_perform {op : NotifyOp} (hq : op.quiet = true) {reply : Reply} {r : NotifyRes op}
    {o' : Outbox} (hi : Bounded s) (h : Outbox.perform lib reply t op s.outbox = some (r, o')) :
    Bounded { s with outbox := o' } := by
  cases op with
  | enqueueHeldNotifications channels =>
    rcases perform_enqueue h with rfl | rfl
    · exact ⟨hi.attempts, hi.spent, hi.soon⟩
    · exact bounded_enqueued hi channels
  | getQuarantineEntry id =>
    obtain ⟨rfl, -⟩ := perform_getQuarantineEntry h
    exact hi
  | endSend key =>
    obtain rfl := perform_endSend h
    exact ⟨hi.attempts, hi.spent, hi.soon⟩
  | markNotificationDelivered key =>
    rcases perform_markDelivered h with ⟨rfl, -⟩ | ⟨rfl, -⟩
    · exact hi
    · exact bounded_delivered hi
  | claimDueNotifications _ _ => simp [NotifyOp.quiet] at hq
  | beginSend _ _ => simp [NotifyOp.quiet] at hq
  | now => simp [NotifyOp.quiet] at hq
  | markNotificationFailed _ _ => simp [NotifyOp.quiet] at hq

variable {α : Type} {A : Tally → Prop} {B : α → Tally → Prop}

lemma holds_quiet (op : NotifyOp) {k : NotifyRes op → NotifyProg α} (hq : op.quiet = true)
    (hst : (boundRules lib).Stable t A) (hk : ∀ r, (boundRules lib).Holds t A (k r) B) :
    (boundRules lib).Holds t A (.call op k) B := by
  refine holds_call (C := fun _ => A) hst (fun s r s' hi hA hx => ?_) hk
  obtain ⟨reply, o', hp, rfl⟩ := exec_tally hx
  rw [after_quiet hq]
  have hkept := kept_perform hp
  have hclock := clock_perform hp
  refine ⟨quiet_perform hq hi hp,
    ⟨hkept, hclock, fun _ h _ => h, fun _ _ => rfl, fun _ _ => rfl, ?_⟩, ?_⟩
  · rintro key nextAttemptAt rfl
    simp [NotifyOp.quiet] at hq
  · exact hst s _ hA ⟨hkept, hclock.ge, fun _ h => h, rfl, rfl⟩

end Rules

section Passes
variable {s s' : Tally} {t : ℕ} {key : Key} {keys : List Key} {row : ClaimDueNotificationsRow}
  {due : List ClaimDueNotificationsRow}

/-- A row that the thread's claim answered, which may have got more attempts since. -/
structure Counted (lib : UuidLib) (t : ℕ) (row : ClaimDueNotificationsRow) (key : Key) (s : Tally) :
    Prop where
  names : Names lib row key
  answered : row ∈ s.batch t
  first : 1 ≤ row.attempts
  counted : row.attempts ≤ s.outbox.attempts key

/-- What is left of a batch. -/
def Tickets (lib : UuidLib) (t : ℕ) (due : List ClaimDueNotificationsRow) (keys : List Key)
    (s : Tally) : Prop :=
  List.Forall₂ (fun row key => Counted lib t row key s ∧ (t, key) ∈ s.tickets) due keys

lemma Counted.kept (h : Counted lib t row key s) (hk : Kept s.outbox s'.outbox)
    (hbatch : s'.batch t = s.batch t) : Counted lib t row key s' :=
  ⟨h.names, hbatch ▸ h.answered, h.first, h.counted.trans (hk.attempts_le key)⟩

lemma stable_counted : (boundRules lib).Stable t (Counted lib t row key) :=
  fun _ _ h hr => h.kept hr.kept hr.batch

lemma stable_ticket : (boundRules lib).Stable t fun s => (t, key) ∈ s.tickets :=
  fun _ _ h hr => hr.tickets key h

lemma stable_tickets : (boundRules lib).Stable t (Tickets lib t due keys) :=
  fun _ _ h hr => h.imp fun _ key hc => ⟨hc.1.kept hr.kept hr.batch, hr.tickets key hc.2⟩

/-- The tickets of the other rows outlast a send. -/
lemma Tickets.erase {o : Outbox} {action : HeldAction} (h : Tickets lib t due keys s)
    (hnot : key ∉ keys) (hk : Kept s.outbox o) (reply : Reply) :
    Tickets lib t due keys (s.after reply t (.beginSend key action) () o) := by
  induction h with
  | nil => exact .nil
  | cons hrow _ ih =>
    obtain ⟨hne, hnot⟩ := not_or.mp (List.mem_cons.not.mp hnot)
    refine .cons ⟨hrow.1.kept hk rfl, ?_⟩ (ih hnot)
    exact (List.mem_erase_of_ne fun he => hne (Prod.mk.inj he).2.symm).mpr hrow.2

lemma holds_tally_markDelivered : (boundRules lib).Holds t (Tickets lib t due keys)
    (markDelivered key) fun _ => Tickets lib t due keys :=
  holds_quiet (.markNotificationDelivered key) rfl stable_tickets
    fun _ => holds_ret stable_tickets fun _ _ h => h

lemma holds_tally_getQuarantineEntry {α : Type} {A : Tally → Prop} {B : α → Tally → Prop}
    {id : UUID} {k : Except GoError Quarantine → NotifyProg α} (hst : (boundRules lib).Stable t A)
    (hk : ∀ r, (boundRules lib).Holds t A (k r) B) :
    (boundRules lib).Holds t A (getQuarantineEntry id >>= k) B :=
  holds_quiet (.getQuarantineEntry id) rfl hst hk

lemma holds_tally_now {α : Type} {A : Tally → Prop} {B : α → Tally → Prop}
    {k : ℕ → NotifyProg α} (hst : (boundRules lib).Stable t A)
    (hreading : ∀ s reading, A s → A { s with reading := reading })
    (hk : ∀ time, (boundRules lib).Holds t
      (fun s => A s ∧ s.reading t = time ∧ time ≤ s.outbox.clock) (k time) B) :
    (boundRules lib).Holds t A (now >>= k) B := by
  refine holds_call (C := fun (time : ℕ) s => A s ∧ s.reading t = time ∧ time ≤ s.outbox.clock) hst
    (fun s time s' hi hA hx => ?_) hk
  obtain ⟨reply, o', hp, rfl⟩ := exec_tally hx
  obtain ⟨rfl, rfl⟩ := perform_now hp
  exact ⟨⟨hi.attempts, hi.spent, hi.soon⟩,
    ⟨.of_rows rfl, rfl, fun _ h _ => h, fun _ _ => rfl, fun u hu => Function.update_of_ne hu _ _,
      by simp⟩, hreading s _ hA, Function.update_self _ _ _, le_rfl⟩

lemma holds_tally_fail : (boundRules lib).Holds t
    (fun s => Counted lib t row key s ∧ Tickets lib t due keys s) (fail key row.attempts)
    fun _ => Tickets lib t due keys := by
  refine holds_tally_now (stable_counted.and stable_tickets)
    (fun s reading h => ⟨⟨h.1.names, h.1.answered, h.1.first, h.1.counted⟩, h.2.imp fun _ _ hc =>
      ⟨⟨hc.1.names, hc.1.answered, hc.1.first, hc.1.counted⟩, hc.2⟩⟩) fun time => ?_
  have hst : (boundRules lib).Stable t fun s : Tally =>
      s.reading t = time ∧ time ≤ s.outbox.clock :=
    fun _ _ h hr => ⟨hr.reading.trans h.1, h.2.trans hr.clock⟩
  refine holds_call (C := fun _ => Tickets lib t due keys)
    ((stable_counted.and stable_tickets).and hst) (fun s r s' hi hA hx => ?_)
    fun _ => holds_ret stable_tickets fun _ _ h => h
  obtain ⟨reply, o', hp, rfl⟩ := exec_tally hx
  obtain ⟨⟨hcounted, htickets⟩, rfl, htime⟩ := hA
  have hkept := kept_perform hp
  have hclock := clock_perform hp
  have hle : (s.reading t + backoff row.attempts).toNat ≤ s.outbox.clock + hour := by
    have hhour := backoff_le row.attempts
    omega
  refine ⟨?_, ⟨hkept, hclock, fun _ h _ => h, fun _ _ => rfl, fun _ _ => rfl, ?_⟩, ?_⟩
  · rcases perform_markFailed hp with ⟨rfl, -⟩ | ⟨rfl, -⟩
    · exact hi
    · exact bounded_failed hi hle
  · rintro _ _ ⟨⟩
    exact ⟨row, hcounted.answered, hcounted.names, hcounted.first, hcounted.counted, htime, rfl⟩
  · exact stable_tickets s _ htickets ⟨hkept, hclock.ge, fun _ h => h, rfl, rfl⟩

lemma holds_tally_send (hnot : key ∉ keys) (action : HeldAction) : (boundRules lib).Holds t
    (fun s => (Counted lib t row key s ∧ (t, key) ∈ s.tickets) ∧ Tickets lib t due keys s)
    (send key action) fun _ s => Counted lib t row key s ∧ Tickets lib t due keys s := by
  refine holds_call (C := fun _ s => Counted lib t row key s ∧ Tickets lib t due keys s)
    ((stable_counted.and stable_ticket).and stable_tickets) (fun s r s' hi hA hx => ?_) fun _ => ?_
  · obtain ⟨reply, o', hp, rfl⟩ := exec_tally hx
    have hkept := kept_perform hp
    obtain rfl := perform_beginSend hp
    refine ⟨bounded_sending hi action hA.1.2,
      ⟨hkept, rfl, fun x hx hne => ?_, fun _ _ => rfl, fun _ _ => rfl, by simp⟩,
      hA.1.1.kept hkept rfl, hA.2.erase hnot hkept reply⟩
    refine (List.mem_erase_of_ne ?_).mpr hx
    rintro rfl
    exact hne rfl
  · exact holds_quiet (.endSend key) rfl (stable_counted.and stable_tickets) fun _ =>
      holds_ret (stable_counted.and stable_tickets) fun _ _ h => h

lemma holds_tally_deliver {w : Worker} (hrow : Names lib row key) (hnot : key ∉ keys) :
    (boundRules lib).Holds t
      (fun s => (Counted lib t row key s ∧ (t, key) ∈ s.tickets) ∧ Tickets lib t due keys s)
      (deliver lib w row) fun _ => Tickets lib t due keys := by
  obtain ⟨id, channel⟩ := key
  obtain ⟨hid, rfl⟩ := hrow
  rw [deliver, hid, lib.parse_text]
  dsimp only
  split
  · exact holds_mono holds_tally_markDelivered (fun _ _ h => h.2) fun _ _ _ h => h
  refine holds_tally_getQuarantineEntry ((stable_counted.and stable_ticket).and stable_tickets)
    fun r => ?_
  cases r with
  | error e =>
    exact holds_mono holds_tally_fail (fun _ _ h => ⟨h.1.1, h.2⟩) fun _ _ _ h => h
  | ok entry =>
    dsimp only
    split
    · exact holds_mono holds_tally_markDelivered (fun _ _ h => h.2) fun _ _ _ h => h
    refine holds_bind (holds_tally_send hnot _) fun err => ?_
    cases err with
    | some e => exact holds_tally_fail
    | none => exact holds_mono holds_tally_markDelivered (fun _ _ h => h.2) fun _ _ _ h => h

lemma holds_tally_deliverAll {w : Worker} (hnames : List.Forall₂ (Names lib) due keys)
    (hnodup : keys.Nodup) : (boundRules lib).Holds t (Tickets lib t due keys)
      (deliverAll lib w due) fun _ _ => True := by
  induction hnames with
  | nil => exact holds_ret stable_tickets fun _ _ _ => trivial
  | cons hrow _ ih =>
    obtain ⟨hnot, hnodup⟩ := List.nodup_cons.mp hnodup
    refine holds_bind (holds_mono (holds_tally_deliver hrow hnot) (fun s _ h => ?_)
      fun _ _ _ h => h) fun _ => ih hnodup
    cases h with
    | cons hhead htail => exact ⟨hhead, htail⟩

lemma tickets_claimRows {maxAttempts batchSize : ℕ}
    (h : s.outbox.claimable maxAttempts batchSize keys = true) :
    Tickets lib t (Outbox.claimRows lib s.outbox keys) keys
      (s.after (.claims keys none) t (.claimDueNotifications maxAttempts batchSize)
        (.ok (Outbox.claimRows lib s.outbox keys)) (s.outbox.claimed t keys none)) := by
  refine forall₂_claimRows fun k hk => ?_
  obtain ⟨r, hfind, -⟩ := due_of_claimable h hk
  have hattempts : (s.outbox.claimed t keys none).attempts k = r.attempts + 1 := by
    rw [attempts_claimed h, Outbox.attempts_eq hfind, if_pos hk]
  refine ⟨r, hfind, ⟨names_row hfind, ?_, Nat.le_add_left _ _, ?_⟩, ?_⟩
  · simp only [Tally.after, Function.update_self, Outbox.claimRows]
    exact List.mem_map.mpr ⟨r, List.mem_filterMap.mpr ⟨k, hk, hfind⟩, rfl⟩
  · exact hattempts.ge
  · exact List.mem_append_left _ (List.mem_map.mpr ⟨k, hk, rfl⟩)

lemma accounts_claimed {err : Option GoError} {r : Except GoError (List ClaimDueNotificationsRow)}
    {o : Outbox} {maxAttempts batchSize : ℕ} (hkept : Kept s.outbox o)
    (hclock : o.clock = s.outbox.clock) :
    Accounts lib t (.claimDueNotifications maxAttempts batchSize) s
      (s.after (.claims keys err) t (.claimDueNotifications maxAttempts batchSize) r o) := by
  cases err with
  | some e => exact ⟨hkept, hclock, fun _ h _ => h, fun _ _ => rfl, fun _ _ => rfl, by simp⟩
  | none =>
    cases r with
    | error e => exact ⟨hkept, hclock, fun _ h _ => h, fun _ _ => rfl, fun _ _ => rfl, by simp⟩
    | ok due =>
      exact ⟨hkept, hclock, fun x hmem _ => List.mem_append_right _ hmem,
        fun u hu => Function.update_of_ne hu _ _, fun _ _ => rfl, by simp⟩

lemma holds_tally_processOnce (w : Worker) :
    (boundRules lib).Holds t (fun _ => True) (processOnce lib w) fun _ _ => True := by
  rw [processOnce]
  split
  · exact holds_ret (.pure True) fun _ _ _ => trivial
  refine holds_quiet (.enqueueHeldNotifications w.channels) rfl (.pure True) fun err => ?_
  cases (err : Option GoError) with
  | some e => exact holds_ret (.pure True) fun _ _ _ => trivial
  | none =>
    refine holds_call (C := fun (r : Except GoError (List ClaimDueNotificationsRow)) s =>
      ∀ due, r = .ok due → ∃ keys, keys.Nodup ∧ Tickets lib t due keys s)
      (.pure True) (fun s r s' hi _ hx => ?_) fun r => ?_
    · obtain ⟨reply, o', hp, rfl⟩ := exec_tally hx
      have hkept := kept_perform hp
      have hclock := clock_perform hp
      rcases perform_claim hp with ⟨rfl, e, rfl, rfl⟩ | ⟨keys, err, rfl, hclaim, rfl, hr⟩
      · exact ⟨hi, ⟨hkept, rfl, fun _ h _ => h, fun _ _ => rfl, fun _ _ => rfl, by simp⟩, by simp⟩
      · refine ⟨bounded_claimed hi hclaim err r, accounts_claimed hkept hclock, fun due hdue => ?_⟩
        obtain ⟨rfl, rfl⟩ := hr due hdue
        obtain rfl := hdue
        exact ⟨keys, nodup_of_claimable hclaim, tickets_claimRows hclaim⟩
    · cases (r : Except GoError (List ClaimDueNotificationsRow)) with
      | error e => exact holds_ret (fun _ _ _ _ _ he => by simp at he) fun _ _ _ => trivial
      | ok due =>
        intro s hi h
        obtain ⟨keys, hnodup, htickets⟩ := h due rfl
        have hnames : List.Forall₂ (Names lib) due keys := htickets.imp fun _ _ hc => hc.1.names
        exact holds_tally_deliverAll hnames hnodup s hi htickets

abbrev TallyPool := Pool NotifyOp NotifyRes Tally Unit

lemma wp_tally_pass {p : NotifyProg Unit} (hp : Passes lib p) (hi : Bounded s) :
    (boundRules lib).wp t p (fun _ _ => True) s := by
  cases hp with
  | pass w => exact holds_tally_processOnce w s hi trivial

lemma bounded_start (world : World) : Bounded (Tally.start world) :=
  ⟨fun k => Nat.zero_le _, fun k => le_rfl, by simp [Tally.start, Outbox.start]⟩

lemma sound_tally {world : World} {ls : List (Label NotifyOp NotifyRes)} {c : TallyPool}
    (hr : Run (Tally.machine lib).semantics (Passes lib) (.initial (Tally.start world)) ls c) :
    Sound (boundRules lib) (fun _ _ _ => True) c :=
  Sound.run (fun _ _ _ hp hi _ => wp_tally_pass hp hi)
    (Sound.initial (bounded_start world) fun _ => trivial) hr

end Passes

section Runs
variable {c d : TallyPool} {l : Label NotifyOp NotifyRes} {ls : List (Label NotifyOp NotifyRes)}
  {key : Key}

def invokes (key : Key) : Label NotifyOp NotifyRes → Bool
  | .act _ (.beginSend k _) _ => k = key
  | _ => false

lemma after_begun (s : Tally) (reply : Reply) (t : ℕ) (op : NotifyOp) (r : NotifyRes op)
    (o : Outbox) : (s.after reply t op r o).begun.count key =
      s.begun.count key + if invokes key (.act t op r) then 1 else 0 := by
  cases op with
  | beginSend k action => simp [Tally.after, invokes, List.count_cons]
  | claimDueNotifications m n =>
    cases reply with
    | claims keys err => cases err <;> cases r <;> rfl
    | _ => rfl
  | _ => rfl

lemma step_begun (hs : Step (Tally.machine lib).semantics (Passes lib) c l d) :
    d.shared.begun.count key = c.shared.begun.count key + if invokes key l then 1 else 0 := by
  cases hs with
  | start hp => rfl
  | lose ht => rfl
  | act ht hx =>
    obtain ⟨reply, o', -, rfl⟩ := exec_tally hx
    exact after_begun _ reply _ _ _ o'
  | env he =>
    obtain ⟨o, rfl, -⟩ := env_tally he
    rfl

lemma run_begun (hr : Run (Tally.machine lib).semantics (Passes lib) c ls d) :
    d.shared.begun.count key = c.shared.begun.count key + ls.countP (invokes key) := by
  induction hr with
  | nil => rfl
  | snoc _ hs ih => rw [step_begun hs, ih, List.countP_append, List.countP_singleton, Nat.add_assoc]

lemma step_kept (hs : Step (Tally.machine lib).semantics (Passes lib) c l d) :
    Kept c.shared.outbox d.shared.outbox := by
  cases hs with
  | start hp => exact .of_rows rfl
  | lose ht => exact .of_rows rfl
  | act ht hx =>
    obtain ⟨reply, o', hp, rfl⟩ := exec_tally hx
    rw [after_outbox]
    exact kept_perform hp
  | env he =>
    obtain ⟨o, rfl, -, hrows⟩ := env_tally he
    exact .of_rows hrows

lemma run_kept (hr : Run (Tally.machine lib).semantics (Passes lib) c ls d) :
    Kept c.shared.outbox d.shared.outbox := by
  induction hr with
  | nil => exact .of_rows rfl
  | snoc _ hs ih => exact ih.trans (step_kept hs)

lemma Names.inj {row : ClaimDueNotificationsRow} {k : Key} (h : Names lib row key)
    (g : Names lib row k) : key = k := by
  have htext := congrArg lib.parse (h.1.symm.trans g.1)
  rw [lib.parse_text, lib.parse_text] at htext
  exact Prod.ext (Except.ok.inj htext) (h.2.symm.trans g.2)

lemma step_claimed {t maxAttempts batchSize : ℕ} {due : List ClaimDueNotificationsRow}
    (hs : Step (Tally.machine lib).semantics (Passes lib) c
      (.act t (.claimDueNotifications maxAttempts batchSize) (.ok due)) d)
    {row : ClaimDueNotificationsRow} (hrow : row ∈ due) (hnames : Names lib row key) :
    ∃ r, c.shared.outbox.rows.find key = some r ∧ r.deliveredAt = none := by
  cases hs with
  | act ht hx =>
    obtain ⟨reply, o', hp, rfl⟩ := exec_tally hx
    rcases perform_claim hp with ⟨-, e, -, he⟩ | ⟨keys, err, -, hclaim, -, hdue⟩
    · simp at he
    · obtain ⟨-, rfl⟩ := hdue due rfl
      simp only [Outbox.claimRows, List.mem_map, List.mem_filterMap] at hrow
      obtain ⟨r, ⟨k, hk, hfind⟩, rfl⟩ := hrow
      obtain rfl := hnames.inj (names_row hfind)
      obtain ⟨r', hfind', hopen, -⟩ := due_of_claimable hclaim hk
      exact ⟨r', hfind', hopen⟩

end Runs

/-- Bounds on the outbox, over every run. A notification has one row, which stays; it is
claimed at most `maxAttempts` times, and sent at most as often; once it is marked delivered
it is never claimed again. At no time is its next attempt more than an hour ahead, so an
hour after the last change of a row that is still to be sent it may be claimed. A delay
is computed from the attempts that the thread's claim answered and added to the time that the
thread read last; within these bounds the shift does not overflow. -/
theorem outbox_bounds (lib : UuidLib) (world : World) (ls : List (Label NotifyOp NotifyRes))
    (c : TallyPool)
    (hr : Run (Tally.machine lib).semantics (Passes lib) (.initial (Tally.start world)) ls c) :
    (c.shared.outbox.rows.rows.map Notification.key).Nodup ∧
    (∀ r ∈ c.shared.outbox.rows.rows, r.attempts ≤ maxAttempts) ∧
    (∀ key, ls.countP (invokes key) ≤ maxAttempts) ∧
    (∀ ms d, Run (Tally.machine lib).semantics (Passes lib) c ms d →
      ∀ key r, c.shared.outbox.rows.find key = some r →
        ∃ r', d.shared.outbox.rows.find key = some r' ∧ r'.createdAt = r.createdAt ∧
          (r.deliveredAt.isSome → r'.deliveredAt.isSome ∧ r'.attempts = r.attempts ∧
            ∀ t m n due e, Step (Tally.machine lib).semantics (Passes lib) d
              (.act t (.claimDueNotifications m n) (.ok due)) e →
              ∀ row ∈ due, ¬ Names lib row key) ∧
          (r' = r → r.deliveredAt = none → r.attempts < maxAttempts →
            r.nextAttemptAt ≤ c.shared.outbox.clock + hour ∧
            (c.shared.outbox.clock + hour ≤ d.shared.outbox.clock →
              d.shared.outbox.claimable maxAttempts batchSize [key] = true))) ∧
    ∀ t key nextAttemptAt r d, Step (Tally.machine lib).semantics (Passes lib) c
      (.act t (.markNotificationFailed key nextAttemptAt) r) d →
      ∃ row ∈ c.shared.batch t, Names lib row key ∧ 1 ≤ row.attempts ∧
        row.attempts ≤ c.shared.outbox.attempts key ∧ row.attempts ≤ maxAttempts ∧
        c.shared.reading t ≤ c.shared.outbox.clock ∧
        nextAttemptAt = c.shared.reading t + backoff row.attempts ∧
        shifted row.attempts = 15 * second * 2 ^ (row.attempts - 1) ∧
        15 * second ≤ backoff row.attempts ∧ backoff row.attempts ≤ hour ∧
        ∀ m ≤ row.attempts, backoff m ≤ backoff row.attempts := by
  have hsound := sound_tally hr
  have hi : Bounded c.shared := hsound.inv
  refine ⟨c.shared.outbox.rows.nodup, fun r hmem => ?_, fun key => ?_,
    fun ms d hd key r hfind => ?_, fun t key nextAttemptAt r d hs => ?_⟩
  · have hfind := Table.find_eq_some_iff.mpr ⟨hmem, rfl⟩
    exact Outbox.attempts_eq hfind ▸ hi.attempts r.key
  · have hcount : c.shared.begun.count key = _ := run_begun hr
    have hspent := hi.spent key
    have hle := hi.attempts key
    simp only [Pool.initial, Tally.start, List.count_nil] at hcount
    omega
  · obtain ⟨r', hfind', hcreated, -, hdone⟩ := (run_kept hd).stays key r hfind
    refine ⟨r', hfind', hcreated, fun hd' => ?_, ?_⟩
    · obtain ⟨hclosed, hattempts⟩ := hdone hd'
      refine ⟨hclosed, hattempts, fun t m n due e hs row hrow hnames => ?_⟩
      obtain ⟨r'', hfind'', hopen⟩ := step_claimed hs hrow hnames
      obtain rfl := Option.some.inj (hfind'.symm.trans hfind'')
      simp [hopen] at hclosed
    · rintro rfl hopen hlt
      have hsoon := hi.soon key r' hfind
      refine ⟨hsoon, fun hclock => ?_⟩
      have hdue : r'.nextAttemptAt ≤ d.shared.outbox.clock := hsoon.trans hclock
      simp [Outbox.claimable, Outbox.due, hfind', hopen, hlt, hdue, batchSize]
  · cases hs with
    | act ht hx =>
      obtain ⟨row, hrow, hnames, hfirst, hcounted, hreading, hnext⟩ :=
        (hsound.act ht hx).2.1.delay key _ rfl
      have hle : row.attempts ≤ maxAttempts := hcounted.trans (hi.attempts key)
      have hlow := le_backoff hle
      refine ⟨row, hrow, hnames, hfirst, hcounted, hle, hreading, ?_, shifted_eq hle, hlow,
        backoff_le _, fun m hm => backoff_mono hm hle⟩
      rw [hnext, Int.toNat_of_nonneg]
      exact Int.add_nonneg (Int.natCast_nonneg _) ((by decide : (0 : ℤ) ≤ 15 * second).trans hlow)

/-- A send that fails after ten seconds; the row is due again fifteen seconds later. -/
theorem outbox_bounds_retry : ∃ ls c,
    Run (Tally.machine sampleLib).semantics (Passes sampleLib)
      (.initial (Tally.start World.initial)) ls c ∧
    ls.countP (invokes (1, slack)) = 1 ∧
    (c.shared.outbox.rows.find (1, slack)).map (fun r => (r.attempts, r.nextAttemptAt)) =
      some (1, 25 * second) ∧
    ∀ r ∈ c.shared.outbox.rows.rows, r.attempts ≤ maxAttempts := by
  have hplay : ((Tally.machine sampleLib).play (held [1] ++ claiming 0 [slack] [(1, slack)] ++
      entering 0 ++ [.env (.tick clientTimeout), .act 0 (.fails .canceled), .act 0 .works,
        .act 0 .works]) (.initial (Tally.start World.initial))).map (fun c =>
        (c.shared.begun, (c.shared.outbox.rows.find (1, slack)).map fun r =>
          (r.attempts, r.nextAttemptAt))) = some ([(1, slack)], some (1, 25 * second)) := by
    decide +kernel
  obtain ⟨c, hc, hfacts⟩ := Option.map_eq_some_iff.mp hplay
  obtain ⟨hbegun, hrow⟩ := Prod.mk.inj hfacts
  obtain ⟨ls, hrun⟩ := Machine.play_run (passes_of_starts [[slack]] rfl) hc
  have hcount : c.shared.begun.count (1, slack) = _ := run_begun hrun
  have hcount' : 1 = 0 + ls.countP (invokes (1, slack)) := by
    simpa [hbegun, Pool.initial, Tally.start] using hcount
  exact ⟨ls, c, hrun, by omega, hrow, (outbox_bounds sampleLib _ ls c hrun).2.1⟩

end KiteRail.Notify
