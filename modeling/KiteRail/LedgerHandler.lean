import KiteRail.LedgerPages

/-! The requests that read the whole ledger, and its head. An export sends the entries line by
line, as JSON, in the order of the chain; a verification reads them all before it answers. Only
one of them is served at a time. -/
namespace KiteRail.Ledger
open Bytes Json GoStrconv Prog
open Proxy (Request)

section Json

def zero : Ledger := ⟨0, ⟨-62135596800000000000, 0⟩, [], [], [], [], [], [], [], [], []⟩

def jsonFields : List (Bytes × Decoder Ledger) :=
  [(lit "seq_num", field seqNum (fun e v => { e with seqNum := v }) decodeInt64),
    (lit "timestamp", field timestamp (fun e v => { e with timestamp := v }) Time.decodeTime),
    (lit "agent", field agent (fun e v => { e with agent := v }) decodeString),
    (lit "tool", field tool (fun e v => { e with tool := v }) decodeString),
    (lit "decision", field decision (fun e v => { e with decision := v }) decodeString),
    (lit "policy_rule", field policyRule (fun e v => { e with policyRule := v }) decodeString),
    (lit "payload_hash", field payloadHash (fun e v => { e with payloadHash := v }) decodeString),
    (lit "prev_hash", field prevHash (fun e v => { e with prevHash := v }) decodeString),
    (lit "hash", field hash (fun e v => { e with hash := v }) decodeString),
    (lit "request_id", field requestID (fun e v => { e with requestID := v }) decodeString),
    (lit "policy_version", field policyVersion (fun e v => { e with policyVersion := v })
      decodeString)]

/-- `json.Unmarshal` into an entry, as a consumer of the export does it. -/
def unmarshalEntry (line : Bytes) : Option Ledger := unmarshal zero (decodeStruct jsonFields) line

/-- Fields with `omitempty` are left out where they are empty. -/
def VerifyReport.document (r : VerifyReport) : Json :=
  .obj ([(lit "valid", .bool r.valid), (lit "entries", .num (decimal r.entries)),
      (lit "head_seq", .num (decimal r.headSeq)), (lit "head_hash", .str r.headHash)] ++
    (if r.firstInvalidSeq = 0 then []
      else [(lit "first_invalid_seq", .num (decimal r.firstInvalidSeq))]) ++
    if r.reason = [] then [] else [(lit "reason", .str r.reason)])

end Json

structure GetLedgerHeadRow where
  seqNum : ℤ
  hash : Bytes
  timestamp : Time

/-- What the handlers do outside of their own memory. A query delivers its rows as they were when
it started; writing fails once the client has gone. -/
inductive DeskOp
  | acquireFullScan
  | releaseFullScan
  | selectRows (afterSeq : ℤ)
  | getLedgerHead
  | write (body : Bytes)

abbrev DeskRes : DeskOp → Type
  | .acquireFullScan => Bool
  | .releaseFullScan => Unit
  | .selectRows _ => RowsAnswer
  | .getLedgerHead => Except GoError GetLedgerHeadRow
  | .write _ => Option GoError

abbrev DeskProg := Prog DeskOp DeskRes

/-- An error response, or a body that was written as far as its error says. -/
inductive DeskResponse
  | failed (status : ℕ) (body : Bytes)
  | sent (err : Option GoError)

section Programs

def acquireFullScan : DeskProg Bool := perform DeskOp.acquireFullScan

def releaseFullScan : DeskProg Unit := perform DeskOp.releaseFullScan

def selectRows (afterSeq : ℤ) : DeskProg RowsAnswer := perform (DeskOp.selectRows afterSeq)

def getLedgerHead : DeskProg (Except GoError GetLedgerHeadRow) := perform DeskOp.getLedgerHead

def write (body : Bytes) : DeskProg (Option GoError) := perform (DeskOp.write body)

/-- `Encoder.Encode`: the document and a line break, in one write. -/
def writeDocument (v : Json) : DeskProg (Option GoError) := write (encode v ++ [10])

def RowsEnd.err : RowsEnd → Option GoError
  | .done => none
  | .scanFailed err => some (.wrap (msg "failed to scan ledger entry: ") err)
  | .iterFailed err => some (.wrap (msg "error iterating ledger rows: ") err)

/-- The callback of the export on an encoded entry, and what follows it. -/
def writeLine (encoded : Except GoError Bytes) (next : DeskProg (Option GoError)) :
    DeskProg (Option GoError) :=
  match encoded with
  | .error err => return some err
  | .ok line => do
    match ← write (line ++ [10]) with
    | some err => return some err
    | none => next

/-- The loop of `Stream` with the callback of the export. -/
def writeRows : List Ledger → RowsEnd → DeskProg (Option GoError)
  | [], fin => return fin.err
  | entry :: rows, fin => writeLine (marshalEntry entry) (writeRows rows fin)

def streamExport (afterSeq : ℤ) : DeskProg (Option GoError) := do
  match ← selectRows afterSeq with
  | .failed err => return some (.wrap (msg "failed to query ledger: ") err)
  | .delivered rows fin => writeRows rows fin

/-- One full scan at a time; the gate is opened again however the scan ends. -/
def fullScan (scan : DeskProg DeskResponse) : DeskProg DeskResponse := do
  match ← acquireFullScan with
  | false => return .failed 429 (lit ("\x7b\"error\": \"a ledger verification or export is " ++
      "already in progress\"\x7d"))
  | true =>
    let response ← scan
    releaseFullScan
    return response

def param (r : Request) (name : Bytes) : Bytes :=
  UrlQuery.get (UrlQuery.parseQuery r.url.rawQuery).1 name

def exportAfter (v : Bytes) : Option ℤ :=
  if v = [] then some 0 else (parseInt v).filter fun n => 0 ≤ n

/-- An error of the stream is only logged: the client sees its end. -/
def handleExport (r : Request) : DeskProg DeskResponse :=
  if r.method ≠ lit "GET" then return .failed 405 (lit "Method not allowed")
  else
    match exportAfter (param r (lit "after_seq")) with
    | none => return .failed 400 (lit ("\x7b\"error\": \"after_seq must be a non-negative " ++
        "sequence number\"\x7d"))
    | some after => fullScan (return .sent (← streamExport after))

def anchorFields : List (Bytes × Decoder Anchor) :=
  [(lit "seq_num", field Anchor.seqNum (fun a v => { a with seqNum := v }) decodeInt64),
    (lit "hash", field Anchor.hash (fun a v => { a with hash := v }) decodeString)]

def maxAnchorBytes : ℕ := 1024

/-- The anchor in a body, if it has one; `none` is an error. Only the first value is read. -/
def bodyAnchor (body : Bytes) : Option (Option Anchor) :=
  match decodeNext ⟨0, []⟩ (decodeStruct anchorFields) (body.take maxAnchorBytes) with
  | none => none
  | some a =>
    if a.seqNum = 0 ∧ a.hash = [] then some none
    else if a.seqNum < 1 ∨ a.hash = [] then none
    else some (some a)

def queryAnchor (r : Request) : Option (Option Anchor) :=
  let seq := param r (lit "anchor_seq")
  let hash := param r (lit "anchor_hash")
  if seq = [] ∧ hash = [] then some none
  else
    match parseInt seq with
    | none => none
    | some n => if n < 1 ∨ hash = [] then none else some (some ⟨n, hash⟩)

/-- A body that is announced to be empty is not read. -/
def parseAnchor (r : Request) (contentLength : ℤ) : Option (Option Anchor) :=
  if r.method = lit "POST" ∧ contentLength ≠ 0 then bodyAnchor r.body.bytes else queryAnchor r

/-- `Encode` into the response: its error is at most logged. -/
def sendJSON : Except GoError Json → DeskProg DeskResponse
  | .error err => return .sent (some err)
  | .ok v => do
    let err ← writeDocument v
    return .sent err

def writeReport : VerifyReport × Option GoError → DeskProg DeskResponse
  | (_, some _) => return .failed 500 (lit "Internal server error")
  | (report, none) => sendJSON (.ok report.document)

def handleVerify (r : Request) (contentLength : ℤ) : DeskProg DeskResponse :=
  if r.method ≠ lit "GET" ∧ r.method ≠ lit "POST" then
    return .failed 405 (lit "Method not allowed")
  else
    match parseAnchor r contentLength with
    | none => return .failed 400 (lit "\x7b\"error\": \"invalid anchor\"\x7d")
    | some anchor => fullScan do writeReport (verifyChain anchor (← selectRows 0))

/-- A head whose timestamp cannot be written leaves the body empty. -/
def GetLedgerHeadRow.document (head : GetLedgerHeadRow) : Except GoError Json :=
  (head.timestamp.marshalText.mapError marshalError).map fun timestamp =>
    .obj [(lit "seq_num", .num (decimal head.seqNum)), (lit "hash", .str head.hash),
      (lit "timestamp", .str timestamp)]

def emptyHead : Json := .obj [(lit "hash", .str []), (lit "seq_num", .num (lit "0"))]

def writeHead : Except GoError GetLedgerHeadRow → DeskProg DeskResponse
  | .error err =>
    if GoError.is .noRows err then sendJSON (.ok emptyHead)
    else return .failed 500 (lit "Internal server error")
  | .ok head => sendJSON head.document

def handleHead (r : Request) : DeskProg DeskResponse :=
  if r.method ≠ lit "GET" then return .failed 405 (lit "Method not allowed")
  else do writeHead (← getLedgerHead)

end Programs

end KiteRail.Ledger
