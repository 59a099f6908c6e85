import KiteRail.ProxyHandler
import KiteRail.QuarantineHandler

namespace KiteRail.QuarantineWorker
open Bytes Header QuarantineStore QuarantineHandler

/-- `lStore` and `recheck` say whether a ledger and a policy re-check are
configured; `target` is what parsing the target URL gives. -/
structure Worker where
  lStore : Bool
  target : Except GoError URL
  targetAuthToken : Bytes
  maxReplayAttempts : ℕ
  batchSize : ℕ
  recheck : Bool

variable (lib : UuidLib) (wk : Worker)

def replayEntry (entry : QuarantineEntry) (approvedBy decision : Bytes) : Ledger :=
  ledgerEntry approvedBy entry.toolName decision (lit "hitl_approval") (payloadHash entry.payload)
    entry.id []

def appendLedger (entry : QuarantineEntry) (approvedBy decision : Bytes) : Eff (Option GoError) :=
  if wk.lStore then effect (.append (replayEntry entry approvedBy decision)) else return none

/-- Failure to record an outcome is only logged. -/
def recordLedger (entry : QuarantineEntry) (approvedBy decision : Bytes) : Eff Unit := do
  let _ ← appendLedger wk entry approvedBy decision
  return ()

/-- The request of a replay. The worker's own fields come after the stored ones. -/
def replayRequest (url : URL) (entry : QuarantineEntry) (approvedBy : Bytes)
    (replayHeaders : Header) : OutRequest :=
  let header := replayHeaders.entries.foldl (fun h e => h.insert e.1 e.2) (∅ : Header)
  let header := header.set (lit "Content-Type") (lit "application/json")
  let header := header.set (lit "X-Elodea-Agent") entry.agentID
  let header := header.set (lit "X-Elodea-Quarantine-ID") entry.id
  let header := header.set (lit "X-Elodea-Approved-By") approvedBy
  let header := header.set (lit "Idempotency-Key") (lit "kiterail-quarantine-" ++ entry.id)
  { method := lit "POST"
    url := url
    header := if wk.targetAuthToken = [] then header
      else header.set (lit "Authorization") (lit "Bearer " ++ wk.targetAuthToken)
    body := entry.payload }

/-- One upstream call, with the outcome that is recorded and the error, if any. -/
def doReplay (entry : QuarantineEntry) (approvedBy : Bytes) : Eff (Bytes × Option GoError) :=
  match wk.target with
  | .error err =>
    return (lit "replay_error", some (.wrap (msg "failed to build replay request: ") err))
  | .ok url =>
    match Mcp.decodeReplayHeaders (some entry.requestHeaders) with
    | .error err => return (lit "replay_error", some err)
    | .ok replayHeaders => do
      match ← effect (.httpDo entry.id (replayRequest wk url entry approvedBy replayHeaders)) with
      | .error err =>
        return (lit "replay_error", some (.wrap (msg "upstream request failed: ") err))
      | .ok status =>
        if status < 200 ∨ 300 ≤ status then
          return (lit "replay_upstream_" ++ decimalNat status,
            some (.text [.text (lit "upstream returned " ++ decimalNat status)]))
        else return (lit "approved_replayed", none)

/-- The decision of the policy in force; failing to evaluate denies. -/
def currentDecision (entry : QuarantineEntry) : Eff ProxyDecision := do
  let outcome ← match Mcp.decodeReplayHeaders (some entry.requestHeaders) with
    | .error err => pure (.error err)
    | .ok headers => Proxy.policyRecheck entry.agentID entry.payload headers
  match outcome with
  | .ok decision => return decision
  | .error err => return ⟨.deny, lit "replay_recheck_error", err.message, []⟩

/-- Park the entry if the policy in force denies it. -/
def blockedByCurrentPolicy (entry : QuarantineEntry) (approvedBy : Bytes) : Eff Bool := do
  let decision ← currentDecision entry
  if decision.action ≠ .deny then return false
  else
    match ← markReplayFailed lib entry.id .blocked with
    | some _ => return true
    | none =>
      if wk.lStore then
        let _ ← effect (.append (ledgerEntry approvedBy entry.toolName
          (lit "replay_blocked_by_policy") decision.rule (payloadHash entry.payload) entry.id
          decision.policyVersion))
        return true
      else return true

def settleReplay (entry : QuarantineEntry) (approvedBy : Bytes) :
    Bytes × Option GoError → Eff Unit
  | (_, none) => do
    match ← markReplayed lib entry.id with
    | some _ => return ()
    | none => recordLedger wk entry approvedBy (lit "approved_replayed")
  | (outcome, some _) => do
    recordLedger wk entry approvedBy outcome
    if wk.maxReplayAttempts ≤ entry.attempts then
      let _ ← markReplayFailed lib entry.id .failed
      return ()
    else
      let _ ← returnToApproved lib entry.id
      return ()

/-- The replay itself, after the write-ahead record. -/
def replayRecorded (entry : QuarantineEntry) (approvedBy : Bytes) : Eff Unit := do
  match ← appendLedger wk entry approvedBy (lit "replay_started") with
  | some _ =>
    let _ ← returnToApproved lib entry.id
    return ()
  | none =>
    let outcome ← doReplay wk entry approvedBy
    settleReplay lib wk entry approvedBy outcome

/-- The reviewer a replay is made in the name of. -/
def approver (entry : QuarantineEntry) : Bytes :=
  if entry.resolvedBy = [] then lit "unknown" else entry.resolvedBy

/-- One attempt at a claimed entry. -/
def processClaimed (entry : QuarantineEntry) : Eff Unit :=
  let approvedBy := approver entry
  if wk.maxReplayAttempts < entry.attempts then do
    match ← markReplayFailed lib entry.id .exhausted with
    | some _ => return ()
    | none => recordLedger wk entry approvedBy (lit "replay_exhausted")
  else if wk.recheck then do
    if ← blockedByCurrentPolicy lib wk entry approvedBy then return ()
    else replayRecorded lib wk entry approvedBy
  else replayRecorded lib wk entry approvedBy

/-- The claimed batch in order; a cancelled pass abandons the rest. -/
def processEach : List QuarantineEntry → Eff Unit
  | [] => return ()
  | entry :: entries => do
    match ← effect .ctxErr with
    | some _ => return ()
    | none =>
      processClaimed lib wk entry
      processEach entries

def drainOnce : Eff Unit := do
  match ← claimApproved lib wk.batchSize with
  | .error _ => return ()
  | .ok entries => processEach lib wk entries

/-- What a pass does while it holds the lock. -/
def replayPass : Eff (Option GoError) := do
  match ← recoverStuckReplays with
  | .error err => return some (.wrap (msg "recover stuck replays: ") err)
  | .ok _ =>
    drainOnce lib wk
    return none

def processOnce : Eff Unit := do
  let _ ← withReplayLock (replayPass lib wk)
  return ()

end KiteRail.QuarantineWorker
