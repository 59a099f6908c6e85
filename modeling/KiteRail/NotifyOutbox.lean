import KiteRail.GoTime
import KiteRail.QuarantineWorld

/-! Notifications of held actions: the outbox that the replicas of the notify worker share,
and a pass of the worker. The quarantine table is changed by the rest of the system at any
time. There are two machines: in one any time may pass between any two steps, in the other
only inside `Send`, up to the timeout of the client, and between passes. -/
namespace KiteRail.Notify
open Bytes Prog Replay

/-- Durations and instants are in nanoseconds. -/
def second : ℕ := 1000000000

def clientTimeout : ℕ := 10 * second

/-- The interval that a claim adds to `NOW()`. -/
def lease : ℕ := 120 * second

def maxAttempts : ℕ := 8

def batchSize : ℕ := 25

def hour : ℕ := 3600 * second

/-- `15 * time.Second << max(attempts-1, 0)`, in 64 bits. -/
def shifted (attempts : ℕ) : ℤ := GoTime.wrap64 (15 * second * 2 ^ (attempts - 1))

def backoff (attempts : ℕ) : ℤ := min (shifted attempts) hour

example : (List.range 10).map (fun n => backoff n / second) =
    [15, 15, 30, 60, 120, 240, 480, 960, 1920, 3600] := by decide

abbrev Key := UUID × Bytes

structure Notification where
  quarantineID : UUID
  channel : Bytes
  createdAt : ℕ
  attempts : ℕ
  nextAttemptAt : ℕ
  deliveredAt : Option ℕ

def Notification.key (r : Notification) : Key := (r.quarantineID, r.channel)

structure ClaimDueNotificationsRow where
  quarantineID : Bytes
  channel : Bytes
  attempts : ℕ

structure HeldAction where
  id : Bytes
  agent : Bytes
  tool : Bytes
  rule : Bytes
  explanation : Message
  heldAt : Time
  reviewURL : Bytes

inductive NotifyOp
  | enqueueHeldNotifications (channels : List Bytes)
  | claimDueNotifications (maxAttempts batchSize : ℕ)
  | getQuarantineEntry (id : UUID)
  | beginSend (key : Key) (action : HeldAction)
  | endSend (key : Key)
  | now
  | markNotificationDelivered (key : Key)
  | markNotificationFailed (key : Key) (nextAttemptAt : ℕ)

def NotifyRes : NotifyOp → Type
  | .enqueueHeldNotifications _ => Option GoError
  | .claimDueNotifications _ _ => Except GoError (List ClaimDueNotificationsRow)
  | .getQuarantineEntry _ => Except GoError Quarantine
  | .beginSend _ _ => Unit
  | .endSend _ => Option GoError
  | .now => ℕ
  | .markNotificationDelivered _ => Option GoError
  | .markNotificationFailed _ _ => Option GoError

abbrev NotifyProg := Prog NotifyOp NotifyRes

/-- A replica's worker: the names of its channels, and where notifications link to. -/
structure Worker where
  channels : List Bytes
  consoleURL : Bytes

def newWorker (channels : List Bytes) (consoleURL : Bytes) : Worker :=
  ⟨channels, consoleURL.rdropWhile fun b => b == 47⟩

section Programs

def enqueueHeldNotifications (channels : List Bytes) : NotifyProg (Option GoError) :=
  perform (NotifyOp.enqueueHeldNotifications channels)

def claimDueNotifications (maxAttempts batchSize : ℕ) :
    NotifyProg (Except GoError (List ClaimDueNotificationsRow)) :=
  perform (NotifyOp.claimDueNotifications maxAttempts batchSize)

def getQuarantineEntry (id : UUID) : NotifyProg (Except GoError Quarantine) :=
  perform (NotifyOp.getQuarantineEntry id)

/-- A send is inside the channel from the first of these steps to the second. -/
def send (key : Key) (action : HeldAction) : NotifyProg (Option GoError) := do
  perform (NotifyOp.beginSend key action)
  perform (NotifyOp.endSend key)

def now : NotifyProg ℕ := perform NotifyOp.now

/-- An error is logged. -/
def markDelivered (key : Key) : NotifyProg Unit := do
  let _ ← perform (NotifyOp.markNotificationDelivered key)
  return ()

def fail (key : Key) (attempts : ℕ) : NotifyProg Unit := do
  let time ← now
  let _ ← perform (NotifyOp.markNotificationFailed key (time + backoff attempts).toNat)
  return ()

def heldAction (w : Worker) (row : ClaimDueNotificationsRow) (entry : Quarantine) : HeldAction :=
  ⟨row.quarantineID, entry.agentID, entry.toolName, entry.policyRule, entry.explanation,
    entry.createdAt, if w.consoleURL = [] then [] else w.consoleURL ++ lit "/#inbox"⟩

variable (lib : UuidLib) (w : Worker)

def deliver (row : ClaimDueNotificationsRow) : NotifyProg Unit :=
  match lib.parse row.quarantineID with
  | .error _ => return ()
  | .ok id => do
    let key : Key := (id, row.channel)
    if row.channel ∉ w.channels then
      markDelivered key
    else
      match ← getQuarantineEntry id with
      | .error _ => fail key row.attempts
      | .ok entry =>
        if entry.status ≠ .pending then
          markDelivered key
        else
          match ← send key (heldAction w row entry) with
          | some _ => fail key row.attempts
          | none => markDelivered key

def deliverAll : List ClaimDueNotificationsRow → NotifyProg Unit
  | [] => return ()
  | row :: rest => do
    deliver lib w row
    deliverAll rest

def processOnce : NotifyProg Unit := do
  if w.channels = [] then
    return ()
  else
    match ← enqueueHeldNotifications w.channels with
    | some _ => return ()
    | none =>
      match ← claimDueNotifications maxAttempts batchSize with
      | .error _ => return ()
      | .ok due => deliverAll lib w due

end Programs

/-- A claim by a thread that may still act on it. -/
structure Hold where
  thread : ℕ
  key : Key
  claimedAt : ℕ

structure Sending where
  thread : ℕ
  key : Key
  since : ℕ

/-- The outbox and the quarantine table, the channel sets of the running replicas, and what
the statements are about: the claims, the sends in progress, the keys of sends that
returned nil, for every thread its replica's channels and the time of its last step, and
whether every send so far began a timeout before the end of its lease. -/
structure Outbox where
  clock : ℕ
  rows : Table Notification.key
  world : World
  running : List (List Bytes)
  holds : List Hold
  sends : List Sending
  sent : List Key
  config : ℕ → List Bytes
  last : ℕ → ℕ
  punctual : Bool

/-- How an operation ends: properly, with an error and no effect, or with an error after it
took effect. A claim skips locked rows, so any due rows may be claimed. -/
inductive Reply
  | works
  | fails (e : GoError)
  | lost (e : GoError)
  | claims (keys : List Key) (err : Option GoError)

/-- What happens without the workers: time passes, the rest of the system acts, and
replicas come and go. -/
inductive Disturbance
  | tick (d : ℕ)
  | system (ch : Choice) (t : ℕ) (op : Op)
  | deploy (channels : List Bytes)
  | retire (channels : List Bytes)

namespace Outbox

def start (world : World) : Outbox :=
  ⟨0, .empty, world, [], [], [], [], fun _ => [], fun _ => 0, true⟩

/-- The insert of one row, `ON CONFLICT DO NOTHING`. -/
def queue (clock : ℕ) (rows : Table Notification.key) (key : Key) : Table Notification.key :=
  if h : rows.find key = none then rows.insert ⟨key.1, key.2, clock, 0, clock, none⟩ h else rows

def pendingIDs (s : Outbox) : List UUID :=
  (s.world.table.rows.filter fun q => q.status = .pending).map Quarantine.id

def enqueued (s : Outbox) (channels : List Bytes) : Outbox :=
  { s with rows := (s.pendingIDs ×ˢ channels).foldl (queue s.clock) s.rows }

def began (s : Outbox) (t : ℕ) (channels : List Bytes) : Outbox :=
  { s with
    config := Function.update s.config t channels
    last := Function.update s.last t s.clock }

def due (maxAttempts clock : ℕ) (r : Notification) : Bool :=
  r.deliveredAt.isNone && r.attempts < maxAttempts && r.nextAttemptAt ≤ clock

def claimable (s : Outbox) (maxAttempts batchSize : ℕ) (keys : List Key) : Bool :=
  keys.Nodup && keys.length ≤ batchSize &&
    keys.all fun key => (s.rows.find key).any (due maxAttempts s.clock)

def leaseOf (clock : ℕ) (r : Notification) : Notification :=
  { r with attempts := r.attempts + 1, nextAttemptAt := clock + lease }

/-- The update of a claim; only an answered claim gives the thread the rows. -/
def claimed (s : Outbox) (t : ℕ) (keys : List Key) (err : Option GoError) : Outbox :=
  { s with
    rows := s.rows.update (fun r => r.key ∈ keys) (leaseOf s.clock) fun _ => rfl
    holds := if err.isSome then s.holds else keys.map (⟨t, ·, s.clock⟩) ++ s.holds }

def claimRows (lib : UuidLib) (s : Outbox) (keys : List Key) : List ClaimDueNotificationsRow :=
  (keys.filterMap s.rows.find).map fun r =>
    ⟨lib.text r.quarantineID, r.channel, r.attempts + 1⟩

/-- Whether a send may begin: a timeout before the lease ends. -/
def timely (s : Outbox) (t : ℕ) (key : Key) : Bool :=
  s.holds.any fun h => h.thread = t && h.key = key && s.clock + clientTimeout < h.claimedAt + lease

def sending (s : Outbox) (t : ℕ) (key : Key) : Outbox :=
  { s with
    sends := ⟨t, key, s.clock⟩ :: s.sends
    punctual := s.punctual && s.timely t key }

def returned (s : Outbox) (t : ℕ) (key : Key) (err : Option GoError) : Outbox :=
  { s with
    sends := s.sends.filter fun x => x.thread ≠ t
    sent := if err.isSome then s.sent else key :: s.sent
    last := Function.update s.last t s.clock }

def delivered (s : Outbox) (key : Key) : Outbox :=
  { s with
    rows := s.rows.update (fun r => r.key = key) (fun r => { r with deliveredAt := some s.clock })
      fun _ => rfl }

def failed (s : Outbox) (t : ℕ) (key : Key) (nextAttemptAt : ℕ) : Outbox :=
  { s with
    rows := s.rows.update (fun r => r.key = key)
      (fun r => { r with nextAttemptAt := nextAttemptAt }) fun _ => rfl
    holds := s.holds.filter fun h => !(h.thread = t && h.key = key) }

variable (lib : UuidLib)

def perform (reply : Reply) (t : ℕ) (op : NotifyOp) (s : Outbox) : Option (NotifyRes op × Outbox) :=
  match op, reply with
  | .enqueueHeldNotifications channels, .works =>
    some (none, (s.began t channels).enqueued channels)
  | .enqueueHeldNotifications channels, .fails e => some (some e, s.began t channels)
  | .enqueueHeldNotifications channels, .lost e =>
    some (some e, (s.began t channels).enqueued channels)
  | .claimDueNotifications maxAttempts batchSize, .claims keys err =>
    if s.claimable maxAttempts batchSize keys then
      some (match err with
        | some e => .error e
        | none => .ok (claimRows lib s keys), s.claimed t keys err)
    else none
  | .claimDueNotifications _ _, .fails e => some (.error e, s)
  | .getQuarantineEntry id, .works =>
    some (match s.world.table.find id with
      | some entry => .ok entry
      | none => .error .noRows, s)
  | .getQuarantineEntry _, .fails e => some (.error e, s)
  | .beginSend key _, .works => some ((), s.sending t key)
  | .endSend key, .works => some (none, s.returned t key none)
  | .endSend key, .fails e => some (some e, s.returned t key (some e))
  | .now, .works => some (s.clock, s)
  | .markNotificationDelivered key, .works => some (none, s.delivered key)
  | .markNotificationDelivered _, .fails e => some (some e, s)
  | .markNotificationDelivered key, .lost e => some (some e, s.delivered key)
  | .markNotificationFailed key nextAttemptAt, .works =>
    some (none, s.failed t key nextAttemptAt)
  | .markNotificationFailed _ _, .fails e => some (some e, s)
  | .markNotificationFailed key nextAttemptAt, .lost e =>
    some (some e, s.failed t key nextAttemptAt)
  | _, _ => none

def disturb : Disturbance → Outbox → Option Outbox
  | .tick d, s => some { s with clock := s.clock + d }
  | .system ch t op, s => (World.answer lib ch t op s.world).map fun a => { s with world := a.2 }
  | .deploy channels, s => some { s with running := channels :: s.running }
  | .retire channels, s => some { s with running := s.running.erase channels }

/-- Any time may pass between any two steps, and a send may take as long as it likes. A
replica that dies is no longer inside `Send`. -/
def untimed : Machine NotifyOp NotifyRes Outbox Reply Disturbance where
  answer := perform lib
  fault := disturb lib
  lose t s := { s with sends := s.sends.filter fun x => x.thread ≠ t }

/-- A pass of a running replica begins at any time and a send may take time; nothing else
does. -/
def prompt (s : Outbox) (t : ℕ) : NotifyOp → Bool
  | .enqueueHeldNotifications channels => channels ∈ s.running
  | .endSend _ => true
  | _ => s.clock = s.last t

/-- No send outlasts the timeout. -/
def bounded (s : Outbox) : Disturbance → Bool
  | .tick d => s.sends.all fun x => s.clock + d ≤ x.since + clientTimeout
  | _ => true

/-- Statements and the work of a worker take no time. -/
def machine : Machine NotifyOp NotifyRes Outbox Reply Disturbance where
  answer reply t op s := if s.prompt t op then perform lib reply t op s else none
  fault f s := if s.bounded f then disturb lib f s else none
  lose := (untimed lib).lose

end Outbox

/-- Passes of any replica. -/
inductive Passes (lib : UuidLib) : NotifyProg Unit → Prop
  | pass (w : Worker) : Passes lib (processOnce lib w)

end KiteRail.Notify
