import KiteRail.GoTime
import KiteRail.LedgerVerify
import KiteRail.ProgInterleave

/-! `Store.Append`: the transaction that extends the chain, its bounded retry, and
the database it runs against. Every statement may fail, a transaction may be
aborted at any moment, and the answer to a `COMMIT` may be lost and the commit
still happen later, unless the database reports a serialization failure. -/
namespace KiteRail.Ledger
open Bytes GoStrconv Prog

inductive AppendOp
  | beginTx
  | lockChain
  | getLatestLedgerEntry
  | now
  | insertLedgerEntry (entry : Ledger)
  | commit
  | rollback
  | backoff (attempt : ℕ)

/-- The tip is its hash and sequence number; waiting ends with the timer or with
the context's error. -/
abbrev AppendRes : AppendOp → Type
  | .beginTx => Option GoError
  | .lockChain => Option GoError
  | .getLatestLedgerEntry => Except GoError (Bytes × ℤ)
  | .now => Time
  | .insertLedgerEntry _ => Option GoError
  | .commit => Option GoError
  | .rollback => Unit
  | .backoff _ => Option GoError

abbrev AppendProg := Prog AppendOp AppendRes

abbrev effect (op : AppendOp) : AppendProg (AppendRes op) := perform op

def isSerializationFailure (err : GoError) : Bool := err.code? == some (lit "40001")

/-- The entry as it is inserted after the given tip; its number is a 64-bit sum. -/
def sealEntry (entry : Ledger) (tip : Bytes × ℤ) (timestamp : Time) : Ledger :=
  let entry := { entry with
    prevHash := tip.1
    seqNum := GoTime.wrap64 (tip.2 + 1)
    timestamp := normalizeTimestamp timestamp }
  { entry with hash := entry.calculateHash }

def insertAfter (entry : Ledger) (tip : Bytes × ℤ) (timestamp : Time) :
    AppendProg (Option GoError) := do
  match ← effect (.insertLedgerEntry (sealEntry entry tip timestamp)) with
  | some err => return some (.wrap (msg "failed to insert ledger entry: ") err)
  | none => effect .commit

def stampAfter (entry : Ledger) (tip : Bytes × ℤ) : AppendProg (Option GoError) :=
  if entry.timestamp.isZero then do
    let now ← effect .now
    insertAfter entry tip now
  else insertAfter entry tip entry.timestamp

/-- The part of `appendOnce` between `BeginTx` and the deferred `Rollback`. -/
def appendInTx (entry : Ledger) : AppendProg (Option GoError) := do
  match ← effect .lockChain with
  | some err => return some (.wrap (msg "failed to lock ledger chain: ") err)
  | none =>
    match ← effect .getLatestLedgerEntry with
    | .ok tip => stampAfter entry tip
    | .error err =>
      if GoError.is .noRows err then stampAfter entry ([], 0)
      else return some (.wrap (msg "failed to get previous hash: ") err)

def appendOnce (entry : Ledger) : AppendProg (Option GoError) := do
  match ← effect .beginTx with
  | some err => return some (.wrap (msg "failed to begin tx: ") err)
  | none =>
    let err ← appendInTx entry
    effect .rollback
    return err

def maxRetries : ℕ := 8

/-- The retry loop from a given attempt on, with the attempts that are left. -/
def retryFrom (entry : Ledger) : ℕ → ℕ → AppendProg (Option GoError)
  | 0, _ => return some (.text (msg "ledger append failed after 8 attempts"))
  | left + 1, attempt => do
    match ← appendOnce entry with
    | none => return none
    | some err =>
      if isSerializationFailure err && attempt < maxRetries - 1 then
        match ← effect (.backoff attempt) with
        | some cause => return some (.wrap
            (msg "ledger append canceled while waiting to retry: ") cause)
        | none => retryFrom entry left (attempt + 1)
      else return some err

def appendWithRetry (entry : Ledger) : AppendProg (Option GoError) := retryFrom entry maxRetries 0

def append (entry : Ledger) : AppendProg (Option GoError) := appendWithRetry entry

/-- A transaction on the server: none, open with the rows it inserted, or asked to
commit with the answer lost. -/
inductive Tx
  | none
  | open (inserted : List Ledger)
  | closing (inserted : List Ledger)
  deriving DecidableEq

/-- The ledger's database: the rows present at the start, every row committed
since with the call that inserted it, the holder of the advisory lock, and the
transaction of every call. -/
structure DB where
  base : List Ledger
  log : List (ℕ × Ledger)
  lock : Option ℕ
  tx : ℕ → Tx

namespace DB

def rows (s : DB) : List Ledger := s.base ++ s.log.map Prod.snd

def contributed (s : DB) (t : ℕ) : ℕ := s.log.countP fun e => e.1 == t

def ofRows (rows : List Ledger) : DB := ⟨rows, [], none, fun _ => .none⟩

def released (s : DB) (t : ℕ) : Option ℕ := if s.lock = some t then none else s.lock

def setTx (s : DB) (t : ℕ) (x : Tx) : DB := { s with tx := Function.update s.tx t x }

def aborted (s : DB) (t : ℕ) : DB := { s.setTx t .none with lock := s.released t }

def committed (s : DB) (t : ℕ) (inserted : List Ledger) : DB :=
  { s.setTx t .none with lock := s.released t, log := s.log ++ inserted.map fun e => (t, e) }

/-- A row as the table stores it: timestamps are rounded to microseconds. -/
def stored (e : Ledger) : Ledger :=
  { e with timestamp := ⟨1000 * ((e.timestamp.unixNano + 500) / 1000), 0⟩ }

/-- `seq_num` is a `BIGINT` and the primary key. -/
def Admits (rows : List Ledger) (n : ℤ) : Prop :=
  -maxInt64 - 1 ≤ n ∧ n ≤ maxInt64 ∧ n ∉ rows.map seqNum

instance (rows : List Ledger) (n : ℤ) : Decidable (Admits rows n) := by
  unfold Admits
  infer_instance

/-- The row with the highest sequence number. -/
def latest (rows : List Ledger) : Except GoError (Bytes × ℤ) :=
  match (selectAfter 0 rows).getLast? with
  | some e => .ok (e.hash, e.seqNum)
  | none => .error .noRows

end DB

/-- How a statement ends: as asked, with an error and no effect, with its effect
and a lost answer, or at a reading of the clock. -/
inductive Choice
  | ok
  | fail (err : GoError)
  | lost (err : GoError)
  | clock (t : Time)

inductive Fault
  | abort (t : ℕ)
  | settle (t : ℕ)

namespace DB

def answer (ch : Choice) (t : ℕ) (op : AppendOp) (s : DB) : Option (AppendRes op × DB) :=
  match op, ch, s.tx t with
  | .beginTx, .ok, .none => some (none, s.setTx t (.open []))
  | .beginTx, .fail err, _ => some (some err, s)
  | .lockChain, .ok, .open _ =>
    if s.lock = none ∨ s.lock = some t then some (none, { s with lock := some t }) else none
  | .lockChain, .lost err, .open _ =>
    if s.lock = none ∨ s.lock = some t then some (some err, { s with lock := some t }) else none
  | .lockChain, .fail err, _ => some (some err, s)
  | .getLatestLedgerEntry, .ok, .open inserted => some (latest (s.rows ++ inserted), s)
  | .getLatestLedgerEntry, .fail err, _ =>
    if GoError.is .noRows err then none else some (.error err, s)
  | .now, .clock time, _ => some (time, s)
  | .insertLedgerEntry entry, .ok, .open inserted =>
    if Admits (s.rows ++ inserted) entry.seqNum then
      some (none, s.setTx t (.open (inserted ++ [stored entry])))
    else none
  | .insertLedgerEntry entry, .lost err, .open inserted =>
    if Admits (s.rows ++ inserted) entry.seqNum then
      some (some err, s.setTx t (.open (inserted ++ [stored entry])))
    else none
  | .insertLedgerEntry _, .fail err, _ => some (some err, s)
  | .commit, .ok, .open inserted => some (none, s.committed t inserted)
  | .commit, .lost err, .open inserted =>
    if isSerializationFailure err then none else some (some err, s.setTx t (.closing inserted))
  | .commit, .fail err, .open _ => some (some err, s.aborted t)
  | .commit, .fail err, .none => some (some err, s)
  | .rollback, .ok, .open _ => some ((), s.aborted t)
  | .rollback, .ok, _ => some ((), s)
  | .backoff _, .ok, _ => some (none, s)
  | .backoff _, .fail err, _ => some (some err, s)
  | _, _, _ => none

/-- Open transactions may be aborted; a commit with a lost answer happens or not. -/
def fault : Fault → DB → Option DB
  | .abort t, s =>
    match s.tx t with
    | .none => none
    | _ => some (s.aborted t)
  | .settle t, s =>
    match s.tx t with
    | .closing inserted => some (s.committed t inserted)
    | _ => none

/-- When a process dies its open transaction is aborted; a commit already sent is
left to the server. -/
def lose (t : ℕ) (s : DB) : DB :=
  match s.tx t with
  | .open _ => s.aborted t
  | _ => s

def machine : Machine AppendOp AppendRes DB Choice Fault := ⟨answer, fault, lose⟩

end DB

def AppendCall (p : AppendProg (Option GoError)) : Prop := ∃ entry, p = append entry

end KiteRail.Ledger
