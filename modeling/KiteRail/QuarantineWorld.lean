import KiteRail.KeyedTable
import KiteRail.ProgInterleave
import KiteRail.QuarantineLife
import KiteRail.QuarantineWorker

/-! The world the proxy, the reviewers and the replicas of the worker share: the
quarantine table, the advisory lock of the replay pass, and a history of everything
that was committed, recorded or sent. A statement takes effect as a whole or not at
all; whether it does, its answer may be an error. -/
namespace KiteRail.Replay
open Bytes QuarantineStore

/-- An entry of the history. A claim records the row as it is returned, an append
its outcome. -/
inductive Event
  | held (row : Quarantine)
  | approved (id : UUID) (reviewer : Option Bytes)
  | denied (id : UUID) (reviewer : Option Bytes)
  | claimed (row : Quarantine)
  | called (entryID : Bytes) (req : OutRequest)
  | replayed (id : UUID)
  | released (id : UUID)
  | parked (id : UUID) (site : ParkSite)
  | appended (entry : Ledger) (res : Option GoError)
  | forwarded (agent : Bytes) (out : OutRequest)

abbrev History := List (ℕ × Event)

structure World where
  table : Table Quarantine.id
  lock : Option ℕ
  hist : History

/-- How an effective statement is answered: properly, with an error, or with a
result whose row count is an error. -/
inductive Ack
  | ok
  | lost (err : GoError)
  | uncounted (err : GoError)

def Ack.result (ack : Ack) (count : ℕ) : ExecResult :=
  match ack with
  | .ok => .ok (.ok count)
  | .lost err => .error err
  | .uncounted err => .ok (.error err)

def Ack.answer {α : Type} (ack : Ack) (a : α) : Except GoError α :=
  match ack with
  | .ok => .ok a
  | .lost err => .error err
  | .uncounted err => .error err

/-- What decides how an operation ends. A claim skips rows that are locked, so any
approved rows within the limit may be claimed, and they are returned in any order. -/
inductive Choice
  | dropped (err : GoError)
  | done (now : Time) (ack : Ack)
  | inserted (id : UUID) (ack : Ack)
  | claimed (ids : List UUID) (ack : Ack)
  | clock (time : Time)
  | verdict (decision : Except GoError ProxyDecision)
  | context (err : Option GoError)
  | response (status : ℕ)

namespace World

def initial : World := ⟨.empty, none, []⟩

def record (s : World) (t : ℕ) (e : Event) : World := { s with hist := s.hist ++ [(t, e)] }

/-- The guarded update of a statement, with one event for every row it changes. -/
def update (s : World) (t : ℕ) (guard : Quarantine → Bool) (set : Quarantine → Quarantine)
    (hset : ∀ r, (set r).id = r.id) (event : Quarantine → Event) : World :=
  { s with
    table := s.table.update guard set hset
    hist := s.hist ++ (s.table.hits guard).map fun r => (t, event r) }

/-- Whether reviewers may decide on a row. -/
def undecided (r : Quarantine) : Bool := r.status = .pending || r.status = .replayFailed

def approve (s : World) (t : ℕ) (id : UUID) (resolvedAt : Time) (resolvedBy : Option Bytes) :
    World :=
  s.update t (fun r => r.id = id && undecided r)
    (fun r => { r with
      status := .approved, resolvedAt := some resolvedAt, resolvedBy := resolvedBy, attempts := 0 })
    (fun _ => rfl) fun r => .approved r.id resolvedBy

def deny (s : World) (t : ℕ) (id : UUID) (resolvedAt : Time) (resolvedBy reason : Option Bytes) :
    World :=
  s.update t (fun r => r.id = id && undecided r)
    (fun r => { r with
      status := .denied, resolvedAt := some resolvedAt, resolvedBy := resolvedBy,
      reason := reason })
    (fun _ => rfl) fun r => .denied r.id resolvedBy

def claimOf (r : Quarantine) : Quarantine := { r with status := .replaying }

lemma claimOf_id (r : Quarantine) : (claimOf r).id = r.id := rfl

def claim (s : World) (t : ℕ) (ids : List UUID) : World :=
  s.update t (fun r => r.id ∈ ids && r.status = .approved) claimOf claimOf_id
    fun r => .claimed (claimOf r)

def claimRows (s : World) (ids : List UUID) : List Quarantine :=
  (ids.filterMap s.table.find).map claimOf

/-- Whether a claim may choose these rows. -/
def claimable (s : World) (limit : ℕ) (ids : List UUID) : Bool :=
  ids.Nodup && ids.length ≤ limit &&
    ids.all fun id => (s.table.find id).any fun r => r.status = .approved

def replayed (s : World) (t : ℕ) (id : UUID) (now : Time) : World :=
  s.update t (fun r => r.id = id && r.status = .replaying)
    (fun r => { r with status := .replayed, replayedAt := some now, attempts := r.attempts + 1 })
    (fun _ => rfl) fun r => .replayed r.id

def parked (s : World) (t : ℕ) (id : UUID) (site : ParkSite) : World :=
  s.update t (fun r => r.id = id && r.status = .replaying)
    (fun r => { r with status := .replayFailed }) (fun _ => rfl) fun r => .parked r.id site

def releaseOf (r : Quarantine) : Quarantine :=
  { r with status := .approved, attempts := r.attempts + 1 }

def released (s : World) (t : ℕ) (id : UUID) : World :=
  s.update t (fun r => r.id = id && r.status = .replaying) releaseOf (fun _ => rfl)
    fun r => .released r.id

def recovered (s : World) (t : ℕ) : World :=
  s.update t (fun r => r.status = .replaying) releaseOf (fun _ => rfl) fun r => .released r.id

def heldRow (id : UUID) (arg : CreateQuarantineEntryParams) : Quarantine :=
  ⟨id, arg.agentID, arg.toolName, arg.payload, .pending, arg.createdAt, none, none, none, 0, none,
    arg.requestHeaders, arg.policyRule, arg.explanation⟩

def held (s : World) (t : ℕ) (id : UUID) (arg : CreateQuarantineEntryParams)
    (h : s.table.find (heldRow id arg).id = none) : World :=
  { s with
    table := s.table.insert (heldRow id arg) h
    hist := s.hist ++ [(t, .held (heldRow id arg))] }

def count (s s' : World) : ℕ := s'.hist.length - s.hist.length

/-- The end of the transaction of thread `t`. -/
def unlock (s : World) (t : ℕ) : World :=
  { s with lock := if s.lock = some t then none else s.lock }

variable (lib : UuidLib)

def answer (ch : Choice) (t : ℕ) (op : Op) (s : World) : Option (Res op × World) :=
  match op, ch with
  | .now, .clock time => some (time, s)
  | .ctxErr, .context err => some (err, s)
  | .evaluate _, .verdict decision => some (decision, s)
  | .append entry, .done _ .ok => some (none, s.record t (.appended entry none))
  | .append entry, .dropped err => some (some err, s.record t (.appended entry (some err)))
  | .forward agent out, .done _ .ok => some ((), s.record t (.forwarded agent out))
  | .createQuarantineEntry arg, .inserted id ack =>
    if h : s.table.find (heldRow id arg).id = none
      then some (ack.answer (lib.text id), s.held t id arg h) else none
  | .createQuarantineEntry _, .dropped err => some (.error err, s)
  | .getQuarantineEntry id, .done _ .ok =>
    match s.table.find id with
    | some row => some (.ok row, s)
    | none => some (.error .noRows, s)
  | .getQuarantineEntry _, .dropped err => some (.error err, s)
  | .approveQuarantineEntry id resolvedAt resolvedBy, .done _ ack =>
    let s' := s.approve t id resolvedAt resolvedBy
    some (ack.result (s.count s'), s')
  | .approveQuarantineEntry _ _ _, .dropped err => some (.error err, s)
  | .denyQuarantineEntry id resolvedAt resolvedBy reason, .done _ ack =>
    let s' := s.deny t id resolvedAt resolvedBy reason
    some (ack.result (s.count s'), s')
  | .denyQuarantineEntry _ _ _ _, .dropped err => some (.error err, s)
  | .claimApprovedForReplay limit, .claimed ids ack =>
    if s.claimable limit ids then some (ack.answer (s.claimRows ids), s.claim t ids) else none
  | .claimApprovedForReplay _, .dropped err => some (.error err, s)
  | .markReplayed id, .done now ack =>
    let s' := s.replayed t id now
    some (ack.result (s.count s'), s')
  | .markReplayed _, .dropped err => some (.error err, s)
  | .markReplayFailed id site, .done _ ack =>
    let s' := s.parked t id site
    some (ack.result (s.count s'), s')
  | .markReplayFailed _ _, .dropped err => some (.error err, s)
  | .returnToApproved id, .done _ ack =>
    let s' := s.released t id
    some (ack.result (s.count s'), s')
  | .returnToApproved _, .dropped err => some (.error err, s)
  | .recoverStuckReplays, .done _ ack =>
    let s' := s.recovered t
    some (ack.result (s.count s'), s')
  | .recoverStuckReplays, .dropped err => some (.error err, s)
  | .beginTx, .done _ .ok => some (none, s)
  | .beginTx, .dropped err => some (some err, s)
  | .tryReplayLock, .done _ ack =>
    if s.lock = none ∨ s.lock = some t then some (ack.answer true, { s with lock := some t })
    else some (ack.answer false, s)
  | .tryReplayLock, .dropped err => some (.error err, s)
  | .rollback, .done _ .ok => some ((), s.unlock t)
  | .httpDo entryID req, .response status =>
    some (.ok status, s.record t (.called entryID req))
  | .httpDo entryID req, .dropped err =>
    some (.error err, s.record t (.called entryID req))
  | _, _ => none

/-- The transaction with the lock of a pass lasts as long as the pass. A process that dies leaves
its rows as they are and ends its transaction. -/
def machine : Machine Op Res World Choice Empty where
  answer := answer lib
  fault := fun f _ => f.elim
  lose := fun t s => s.unlock t

end World

/-- A worker configured as the deployment says. -/
structure Deployed (cfg : Config) (wk : QuarantineWorker.Worker) : Prop where
  ledger : cfg.ledgered → wk.lStore = true
  target : cfg.targeted → ∃ url, wk.target = .ok url
  limit : wk.maxReplayAttempts = cfg.maxReplayAttempts

/-- The programs of a deployment: requests at the proxy, decisions of reviewers, and
replay passes of any number of replicas. -/
inductive Serves (lib : UuidLib) (cfg : Config) : Eff Unit → Prop
  | proxy (h : Proxy.Handler) (r : Proxy.Request) (hl : cfg.ledgered → h.ledgerStore = true) :
      Serves lib cfg (do
        let _ ← Proxy.serveHTTP h r
        return ())
  | approve (h : QuarantineHandler.Handler) (id reviewerID : Bytes) :
      Serves lib cfg (do
        let _ ← QuarantineHandler.approve lib h id reviewerID
        return ())
  | deny (h : QuarantineHandler.Handler) (id reviewerID reason : Bytes) :
      Serves lib cfg (do
        let _ ← QuarantineHandler.deny lib h id reviewerID reason
        return ())
  | pass (wk : QuarantineWorker.Worker) (hw : Deployed cfg wk) :
      Serves lib cfg (QuarantineWorker.processOnce lib wk)

end KiteRail.Replay
