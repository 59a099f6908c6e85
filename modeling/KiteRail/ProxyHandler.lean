import KiteRail.ProxyIngress
import KiteRail.QuarantineStore

namespace KiteRail.Proxy
open Bytes Header

inductive Role
  | agent
  | reviewer
  | admin

structure Identity where
  id : Bytes
  role : Role

/-- A request as it reaches the proxy, with the identity that authentication put
into its context. -/
structure Request where
  method : Bytes
  url : URL
  header : Header
  body : BodyReader
  identity : Option Identity

/-- `ledgerStore` says whether a ledger is configured. -/
structure Handler where
  target : URL
  targetAuthToken : Bytes
  ledgerStore : Bool
  maxBodyBytes : ℤ

inductive Reply
  | rejected (e : IngressError)
  | failed (status : ℕ) (text : Bytes)
  | denied (native : Bool) (inv : Invocation) (decision : ProxyDecision)
  | held (native : Bool) (inv : Invocation) (quarantineID : Bytes) (decision : ProxyDecision)
  | forwarded

def agentFromContext (identity : Option Identity) : Bytes :=
  match identity with
  | some i => i.id
  | none => lit "unknown"

/-- The headers an agent must never assert to the upstream. -/
def agentControlled (name : Bytes) : Bool :=
  let canonical := canonicalKey name
  canonical == lit "Authorization" || canonical == lit "Proxy-Authorization" ||
    canonical == lit "Cookie" || canonical == lit "Idempotency-Key" ||
    (lit "X-Elodea-").isPrefixOf canonical || (lit "X-Kiterail-").isPrefixOf canonical

def stripAgentControlledHeaders (header : Header) : Header := header.without agentControlled

/-- The hook of the reverse proxy. `SetURL` also joins paths and merges queries; both
are then pinned to the target's. -/
def rewrite (h : Handler) (r : Request) (body : Bytes) : OutRequest :=
  let header := (stripAgentControlledHeaders r.header.proxied).set (lit "X-Elodea-Agent")
    (agentFromContext r.identity)
  { method := r.method
    url := { r.url with
      scheme := h.target.scheme, host := h.target.host, path := h.target.path,
      rawPath := h.target.rawPath, rawQuery := h.target.rawQuery }
    header := if h.targetAuthToken = [] then header
      else header.set (lit "Authorization") (lit "Bearer " ++ h.targetAuthToken)
    body := body }

def nativeMCP (r : Request) : Bool := r.header.get (lit "MCP-Protocol-Version") != []

def evalInput (inv : Invocation) (agent : Bytes) (timestamp : Time) : EvalInput :=
  ⟨inv.protocol, inv.protocolVersion, inv.tool, inv.arguments, agent, timestamp, inv.method⟩

def payloadHash (body : Bytes) : Bytes := hexEncode (Sha256.sum256 body)

def auditEntry (input : EvalInput) (inv : Invocation) (decision : ProxyDecision) (body : Bytes)
    (timestamp : Time) : Ledger :=
  ⟨0, timestamp, input.agent, input.tool, decision.action.text, decision.rule, payloadHash body,
    [], [], inv.requestID, decision.policyVersion⟩

/-- `Append`, if a ledger is configured. -/
def record (h : Handler) (entry : Ledger) : Eff (Option GoError) :=
  if h.ledgerStore then effect (.append entry) else return none

/-- A held request that was not stored is recorded as such; failure to do so is only
logged. -/
def recordStoreFailure (h : Handler) (entry : Ledger) : Eff Unit :=
  if h.ledgerStore then do
    let timestamp ← effect .now
    let _ ← effect (.append { entry with
      timestamp := timestamp, decision := lit "quarantine_store_failed" })
    return ()
  else return ()

/-- What happens once the decision is recorded. -/
def enforce (h : Handler) (r : Request) (body : Bytes) (inv : Invocation) (input : EvalInput)
    (decision : ProxyDecision) (entry : Ledger) : Eff Reply :=
  match decision.action with
  | .allow => do
    effect (.forward (agentFromContext r.identity) (rewrite h r body))
    return .forwarded
  | .deny => return .denied (nativeMCP r) inv decision
  | .quarantine => do
    match ← QuarantineStore.create input.agent input.tool body (Mcp.captureReplayHeaders r.header)
        decision.rule decision.explanation with
    | .error _ =>
      recordStoreFailure h entry
      return .failed 500 (lit "Internal Server Error")
    | .ok id => return .held (nativeMCP r) inv id decision
  | .other _ _ => return .failed 500 (lit "Internal Server Error")

/-- Evaluate a parsed request, record the decision, enforce it. -/
def evaluateParsed (h : Handler) (r : Request) (body : Bytes) (inv : Invocation) : Eff Reply := do
  let timestamp ← effect .now
  let input := evalInput inv (agentFromContext r.identity) timestamp
  match ← effect (.evaluate input) with
  | .error _ => return .failed 500 (lit "Internal Server Error")
  | .ok decision =>
    let stamp ← effect .now
    let entry := auditEntry input inv decision body stamp
    match ← record h entry with
    | some _ => return .failed 503 (lit "audit unavailable")
    | none => enforce h r body inv input decision entry

def serveHTTP (h : Handler) (r : Request) : Eff Reply :=
  if r.method ≠ lit "POST" then
    return .rejected ⟨405, codeInvalidRequest, msg "only POST is accepted at the proxy endpoint",
      none⟩
  else match r.body.readAll h.maxBodyBytes with
    | .error .tooLarge =>
      return .rejected ⟨413, codeInvalidRequest, msg "request body exceeds limit", none⟩
    | .error (.failed _) =>
      return .rejected ⟨400, codeInvalidRequest, msg "failed to read request body", none⟩
    | .ok body =>
      match parse r.header body with
      | .error e => return .rejected e
      | .ok inv => evaluateParsed h r body inv

/-- `NewPolicyRecheck`: the stored request through the same parser and engine. -/
def policyRecheck (agentID payload : Bytes) (headers : Header) :
    Eff (Except GoError ProxyDecision) :=
  match parse headers payload with
  | .error e => return .error (.text (msg "stored request no longer parses: " ++ e.message))
  | .ok inv => do
    let timestamp ← effect .now
    effect (.evaluate (evalInput inv agentID timestamp))

end KiteRail.Proxy
