import KiteRail.QuarantineStore

namespace KiteRail.QuarantineHandler
open Bytes QuarantineStore

/-- `lStore` says whether a ledger is configured. -/
structure Handler where
  lStore : Bool

def errAuditUnavailable : GoError := .sentinel (lit "decision recorded but audit unavailable")

/-- The key that joins every ledger entry about one request. -/
def payloadHash (payload : Bytes) : Bytes := hexEncode (Sha256.sum256 payload)

/-- An entry with the zero time, which `Append` replaces by the clock. -/
def ledgerEntry (agent tool decision rule payloadHash requestID policyVersion : Bytes) : Ledger :=
  ⟨0, ⟨-62135596800000000000, 0⟩, agent, tool, decision, rule, payloadHash, [], [], requestID,
    policyVersion⟩

def decisionEntry (entry : QuarantineEntry) (reviewerID decision rule : Bytes) : Ledger :=
  ledgerEntry reviewerID entry.toolName decision rule (payloadHash entry.payload) entry.id []

def appendLedger (h : Handler) (entry : QuarantineEntry) (reviewerID decision rule : Bytes) :
    Eff (Option GoError) :=
  if h.lStore then do
    match ← effect (.append (decisionEntry entry reviewerID decision rule)) with
    | some _ => return some errAuditUnavailable
    | none => return none
  else return none

/-- Fetch, decide, record. -/
def decideWith (lib : UuidLib) (h : Handler) (id reviewerID : Bytes) (decide : Eff (Option GoError))
    (decision rule : Bytes) : Eff (Option GoError) := do
  match ← get lib id with
  | .error err => return some err
  | .ok entry =>
    match ← decide with
    | some err => return some err
    | none => appendLedger h entry reviewerID decision rule

def approve (lib : UuidLib) (h : Handler) (id reviewerID : Bytes) : Eff (Option GoError) :=
  decideWith lib h id reviewerID (QuarantineStore.approve lib id reviewerID) (lit "approved")
    (lit "hitl_approval")

def deny (lib : UuidLib) (h : Handler) (id reviewerID reason : Bytes) : Eff (Option GoError) :=
  decideWith lib h id reviewerID (QuarantineStore.deny lib id reviewerID reason) (lit "denied")
    (lit "hitl_denial")

end KiteRail.QuarantineHandler
