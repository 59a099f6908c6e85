import KiteRail.Effects
import KiteRail.McpHeaders

namespace KiteRail.QuarantineStore
open Bytes

structure QuarantineEntry where
  id : Bytes
  agentID : Bytes
  toolName : Bytes
  payload : Bytes
  status : Status
  createdAt : Time
  resolvedAt : Option Time
  resolvedBy : Bytes
  reason : Bytes
  attempts : ℕ
  replayedAt : Option Time
  requestHeaders : Json
  policyRule : Bytes
  explanation : Message

def errAlreadyResolved : GoError := .sentinel (lit "quarantine item already resolved")

def errNotFound : GoError := .sentinel (lit "quarantine item not found")

def errStaleTransition : GoError :=
  .sentinel (lit "quarantine entry not in expected state for transition")

variable (lib : UuidLib)

def toQuarantineEntry (m : Quarantine) : QuarantineEntry :=
  ⟨lib.text m.id, m.agentID, m.toolName, m.payload, m.status, m.createdAt, m.resolvedAt,
    m.resolvedBy.getD [], m.reason.getD [], m.attempts, m.replayedAt, m.requestHeaders,
    m.policyRule, m.explanation⟩

def parseQuarantineID (id : Bytes) : Except GoError UUID :=
  match lib.parse id with
  | .ok qid => .ok qid
  | .error err => .error (.wrap [.text (lit "invalid quarantine id "), .quoted id,
      .text (lit ": ")] err)

/-- A string column that is null when the string is empty. -/
def nullString (s : Bytes) : Option Bytes := if s = [] then none else some s

def requireAffected (op : Bytes) : ExecResult → Option GoError
  | .error err => some (.wrap [.text (lit "failed to " ++ op ++ lit ": ")] err)
  | .ok (.error err) =>
    some (.wrap [.text (lit "failed to check rows affected for " ++ op ++ lit ": ")] err)
  | .ok (.ok 0) => some (.wrap [.text (op ++ lit ": ")] errStaleTransition)
  | .ok (.ok _) => none

/-- A decision that changed no row was made too late. -/
def requireDecided (op : Bytes) : ExecResult → Option GoError
  | .error err => some (.wrap [.text (lit "failed to " ++ op ++ lit " quarantine entry: ")] err)
  | .ok (.error err) => some (.wrap (msg "failed to check rows affected: ") err)
  | .ok (.ok 0) => some errAlreadyResolved
  | .ok (.ok _) => none

def create (agentID toolName payload : Bytes) (headers : Header) (rule : Bytes)
    (explanation : Message) : Eff (Except GoError Bytes) :=
  match Mcp.encodeHeaders (Mcp.captureReplayHeaders headers) with
  | .error err => return .error (.wrap (msg "encode replay headers: ") err)
  | .ok requestHeaders => do
    let createdAt ← effect .now
    effect (.createQuarantineEntry
      ⟨agentID, toolName, payload, createdAt, requestHeaders, rule, explanation⟩)

/-- Run one replay pass under the lock; the deferred rollback releases it. -/
def withReplayLock (replay : Eff (Option GoError)) : Eff (Bool × Option GoError) := do
  match ← effect .ctxErr with
  | some err => return (false, some err)
  | none =>
    match ← effect .beginTx with
    | some err => return (false, some (.wrap (msg "begin replay lock transaction: ") err))
    | none =>
      match ← effect .tryReplayLock with
      | .error err =>
        effect .rollback
        return (false, some (.wrap (msg "acquire replay lock: ") err))
      | .ok false =>
        effect .rollback
        return (false, none)
      | .ok true =>
        let err ← replay
        effect .rollback
        return (true, err)

def get (id : Bytes) : Eff (Except GoError QuarantineEntry) :=
  match parseQuarantineID lib id with
  | .error _ => return .error errNotFound
  | .ok qid => do
    match ← effect (.getQuarantineEntry qid) with
    | .error err => return .error (if GoError.is .noRows err then errNotFound else err)
    | .ok m => return .ok (toQuarantineEntry lib m)

def approve (id approvedBy : Bytes) : Eff (Option GoError) :=
  match parseQuarantineID lib id with
  | .error _ => return some errNotFound
  | .ok qid => do
    let resolvedAt ← effect .now
    let res ← effect (.approveQuarantineEntry qid resolvedAt (nullString approvedBy))
    return requireDecided (lit "approve") res

def deny (id deniedBy reason : Bytes) : Eff (Option GoError) :=
  match parseQuarantineID lib id with
  | .error _ => return some errNotFound
  | .ok qid => do
    let resolvedAt ← effect .now
    let res ← effect (.denyQuarantineEntry qid resolvedAt (nullString deniedBy) (nullString reason))
    return requireDecided (lit "deny") res

def claimApproved (limit : ℕ) : Eff (Except GoError (List QuarantineEntry)) := do
  match ← effect (.claimApprovedForReplay limit) with
  | .error err => return .error err
  | .ok models => return .ok (models.map (toQuarantineEntry lib))

def markReplayFailed (id : Bytes) (site : ParkSite) : Eff (Option GoError) :=
  match parseQuarantineID lib id with
  | .error err => return some err
  | .ok qid => do
    let res ← effect (.markReplayFailed qid site)
    return requireAffected (lit "mark replay failed") res

def markReplayed (id : Bytes) : Eff (Option GoError) :=
  match parseQuarantineID lib id with
  | .error err => return some err
  | .ok qid => do
    let res ← effect (.markReplayed qid)
    return requireAffected (lit "mark replayed") res

def returnToApproved (id : Bytes) : Eff (Option GoError) :=
  match parseQuarantineID lib id with
  | .error err => return some err
  | .ok qid => do
    let res ← effect (.returnToApproved qid)
    return requireAffected (lit "return to approved") res

def recoverStuckReplays : Eff (Except GoError ℕ) := do
  match ← effect .recoverStuckReplays with
  | .error err => return .error err
  | .ok count => return count

lemma parseQuarantineID_text (u : UUID) : parseQuarantineID lib (lib.text u) = .ok u := by
  rw [parseQuarantineID, lib.parse_text]

end KiteRail.QuarantineStore
