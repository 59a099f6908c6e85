import KiteRail.HttpMessage
import KiteRail.JsonText
import KiteRail.LedgerEntry
import KiteRail.Prog

namespace KiteRail
open Bytes

/-- The enforcement decision; any other text is invalid. -/
inductive Action
  | allow
  | deny
  | quarantine
  | other (text : Bytes) (h : text ≠ lit "allow" ∧ text ≠ lit "deny" ∧ text ≠ lit "quarantine")
  deriving DecidableEq

def Action.text : Action → Bytes
  | .allow => lit "allow"
  | .deny => lit "deny"
  | .quarantine => lit "quarantine"
  | .other text _ => text

/-- The document that policy evaluates. -/
structure EvalInput where
  protocol : Bytes
  protocolVersion : Bytes
  tool : Bytes
  arguments : Option (List (Bytes × Json))
  agent : Bytes
  timestamp : Time
  rawMethod : Bytes

structure ProxyDecision where
  action : Action
  rule : Bytes
  explanation : Message
  policyVersion : Bytes
  deriving DecidableEq

abbrev UUID := BitVec 128

/-- The UUID library: every id is read back from its text. -/
structure UuidLib where
  parse : Bytes → Except GoError UUID
  text : UUID → Bytes
  parse_text : ∀ u, parse (text u) = .ok u

lemma UuidLib.text_injective (lib : UuidLib) : Function.Injective lib.text := by
  intro u v h
  have hu := lib.parse_text u
  rw [h, lib.parse_text v] at hu
  exact (Except.ok.inj hu).symm

inductive Status
  | pending
  | approved
  | replaying
  | replayed
  | replayFailed
  | denied
  deriving DecidableEq

structure Quarantine where
  id : UUID
  agentID : Bytes
  toolName : Bytes
  payload : Bytes
  status : Status
  createdAt : Time
  resolvedAt : Option Time
  resolvedBy : Option Bytes
  reason : Option Bytes
  attempts : ℕ
  replayedAt : Option Time
  requestHeaders : Json
  policyRule : Bytes
  explanation : Message

structure CreateQuarantineEntryParams where
  agentID : Bytes
  toolName : Bytes
  payload : Bytes
  createdAt : Time
  requestHeaders : Json
  policyRule : Bytes
  explanation : Message

/-- Where the worker parks an entry: interrupted replays used up its attempts, the
policy in force blocks it, or the last allowed attempt failed. -/
inductive ParkSite
  | exhausted
  | blocked
  | failed
  deriving DecidableEq

/-- The effects. The agent of `forward` is the identity in the context of the
request. The site of `markReplayFailed` and the entry of `httpDo` are not sent
anywhere: they say which call of the source this is. -/
inductive Op
  | now
  | ctxErr
  | evaluate (input : EvalInput)
  | append (entry : Ledger)
  | forward (agent : Bytes) (out : OutRequest)
  | createQuarantineEntry (arg : CreateQuarantineEntryParams)
  | getQuarantineEntry (id : UUID)
  | approveQuarantineEntry (id : UUID) (resolvedAt : Time) (resolvedBy : Option Bytes)
  | denyQuarantineEntry (id : UUID) (resolvedAt : Time) (resolvedBy reason : Option Bytes)
  | claimApprovedForReplay (limit : ℕ)
  | markReplayed (id : UUID)
  | markReplayFailed (id : UUID) (site : ParkSite)
  | returnToApproved (id : UUID)
  | recoverStuckReplays
  | beginTx
  | tryReplayLock
  | rollback
  | httpDo (entryID : Bytes) (req : OutRequest)

/-- The answer to an `UPDATE`: an error, or a result whose row count may be an error. -/
abbrev ExecResult := Except GoError (Except GoError ℕ)

abbrev Res : Op → Type
  | .now => Time
  | .ctxErr => Option GoError
  | .evaluate _ => Except GoError ProxyDecision
  | .append _ => Option GoError
  | .forward _ _ => Unit
  | .createQuarantineEntry _ => Except GoError Bytes
  | .getQuarantineEntry _ => Except GoError Quarantine
  | .approveQuarantineEntry _ _ _ => ExecResult
  | .denyQuarantineEntry _ _ _ _ => ExecResult
  | .claimApprovedForReplay _ => Except GoError (List Quarantine)
  | .markReplayed _ => ExecResult
  | .markReplayFailed _ _ => ExecResult
  | .returnToApproved _ => ExecResult
  | .recoverStuckReplays => ExecResult
  | .beginTx => Option GoError
  | .tryReplayLock => Except GoError Bool
  | .rollback => Unit
  | .httpDo _ _ => Except GoError ℕ

abbrev Eff := Prog Op Res

abbrev effect (op : Op) : Eff (Res op) := Prog.perform op

end KiteRail
