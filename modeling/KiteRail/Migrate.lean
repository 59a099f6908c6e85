import KiteRail.MigrateOrder
import KiteRail.GoError
import KiteRail.ProgInterleave

/-! `Migrate`: one transaction that takes the advisory lock, runs every file that
`schema_migrations` does not list, and lists it. A script is a function of the database; any
statement may fail, a transaction may be aborted at any moment, and the answer to a `COMMIT` may
be lost and the commit still happen. -/
namespace KiteRail.Migrations
open Bytes Prog

/-- `path.Ext`. -/
def ext (name : Bytes) : Bytes :=
  match (name.reverse.takeWhile (· ≠ 47)).span (· ≠ 46) with
  | (tail, 46 :: _) => 46 :: tail.reverse
  | _ => []

structure File where
  name : Bytes
  isDir : Bool
  content : Bytes

structure Release where
  entries : List File
  nodup : (entries.map File.name).Nodup

/-- The migrations of a release, in no particular order. -/
def Release.names (r : Release) : List Bytes :=
  (r.entries.filter fun e => !e.isDir && ext e.name == lit ".sql").map File.name

def Release.readFile (r : Release) (name : Bytes) : Option Bytes :=
  (r.entries.find? fun e => !e.isDir && e.name == name).map File.content

/-- The effects of `Migrate`. A script goes to the database as its text; its name is kept for
the record of what ran. -/
inductive MigrateOp
  | beginTx
  | lock
  | createTable
  | applied (name : Bytes)
  | script (name content : Bytes)
  | record (name : Bytes)
  | commit
  | rollback

abbrev MigrateRes : MigrateOp → Type
  | .applied _ => Except GoError Bool
  | .rollback => Unit
  | _ => Option GoError

abbrev MigrateProg := Prog MigrateOp MigrateRes

abbrev effect (op : MigrateOp) : MigrateProg (MigrateRes op) := perform op

def about (what : String) (name : Bytes) : Message := msg what ++ [.text name] ++ msg ": "

/-- `fs.ErrNotExist`. -/
def notExist : GoError := .sentinel (lit "file does not exist")

/-- The loop of `Migrate` over the sorted names. -/
def applyPending (r : Release) : List Bytes → MigrateProg (Option GoError)
  | [] => return none
  | name :: names => do
    match ← effect (.applied name) with
    | .error err => return some (.wrap (about "failed to check migration status for " name) err)
    | .ok true => applyPending r names
    | .ok false =>
      match r.readFile name with
      | none => return some (.wrap (about "failed to read migration " name) notExist)
      | some content =>
        match ← effect (.script name content) with
        | some err => return some (.wrap (about "failed to apply migration " name) err)
        | none =>
          match ← effect (.record name) with
          | some err => return some (.wrap (about "failed to record migration " name) err)
          | none => applyPending r names

def applyAndCommit (r : Release) : MigrateProg (Option GoError) := do
  match ← applyPending r (sortMigrations r.names) with
  | some err => return some err
  | none =>
    match ← effect .commit with
    | some err => return some (.wrap (msg "failed to commit migrations: ") err)
    | none => return none

/-- The part of `Migrate` between `BeginTx` and the deferred `Rollback`. -/
def migrateInTx (r : Release) : MigrateProg (Option GoError) := do
  match ← effect .lock with
  | some err => return some (.wrap (msg "failed to acquire migration lock: ") err)
  | none =>
    match ← effect .createTable with
    | some err => return some (.wrap (msg "failed to create schema_migrations table: ") err)
    | none => applyAndCommit r

def migrate (r : Release) : MigrateProg (Option GoError) := do
  match ← effect .beginTx with
  | some err => return some (.wrap (msg "failed to begin migration transaction: ") err)
  | none =>
    let err ← migrateInTx r
    effect .rollback
    return err

/-- A database: what the scripts see and change, the versions of `schema_migrations` if there is
such a table, and the names of the scripts that ran, in order. -/
structure Base (σ : Type) where
  schema : σ
  versions : Option (List Bytes)
  ran : List Bytes
  deriving DecidableEq

namespace Base
variable {σ : Type}

def empty (schema : σ) : Base σ := ⟨schema, none, []⟩

def created (b : Base σ) : Base σ := { b with versions := some (b.versions.getD []) }

def scripted (b : Base σ) (name : Bytes) (schema : σ) : Base σ :=
  { b with schema := schema, ran := b.ran ++ [name] }

def recorded (b : Base σ) (name : Bytes) : Base σ :=
  { b with versions := b.versions.map (· ++ [name]) }

end Base

/-- A transaction on the server: none, open with the database as it has made it, or asked to
commit with the answer lost. -/
inductive Tx (σ : Type)
  | none
  | open (work : Option (Base σ))
  | closing (work : Base σ)

/-- The server: the committed database, the holder of the advisory lock, the transaction of
every call, and the calls that have committed and that have lost the answer to a `COMMIT`. -/
structure Server (σ : Type) where
  base : Base σ
  lock : Option ℕ
  tx : ℕ → Tx σ
  commits : List ℕ
  lost : List ℕ

/-- How a statement ends: as asked, with an error and no effect, or with its effect and a lost
answer. -/
inductive Choice
  | ok
  | fail (err : GoError)
  | lost (err : GoError)

inductive Fault
  | abort (t : ℕ)
  | settle (t : ℕ)

namespace Server
variable {σ : Type}

def ofBase (b : Base σ) : Server σ := ⟨b, none, fun _ => .none, [], []⟩

def released (s : Server σ) (t : ℕ) : Option ℕ := if s.lock = some t then none else s.lock

def setTx (s : Server σ) (t : ℕ) (x : Tx σ) : Server σ :=
  { s with tx := Function.update s.tx t x }

def aborted (s : Server σ) (t : ℕ) : Server σ := { s.setTx t .none with lock := s.released t }

def committed (s : Server σ) (t : ℕ) (work : Base σ) : Server σ :=
  { s.setTx t .none with lock := s.released t, base := work, commits := t :: s.commits }

/-- A `COMMIT` whose answer does not arrive. -/
def unsettled (s : Server σ) (t : ℕ) (work : Base σ) : Server σ :=
  { s.setTx t (.closing work) with lost := t :: s.lost }

/-- What a statement of a transaction sees. -/
def view (s : Server σ) (work : Option (Base σ)) : Base σ := work.getD s.base

/-- A write: its effect is lost only with the transaction. -/
def write (s : Server σ) (t : ℕ) (ch : Choice) (work : Base σ) :
    Option (Option GoError × Server σ) :=
  match ch with
  | .ok => some (none, s.setTx t (.open (some work)))
  | .lost err => some (some err, s.setTx t (.open (some work)))
  | .fail err => some (some err, s)

def undefinedTable : GoError := .sqlState (lit "42P01")

def uniqueViolation : GoError := .sqlState (lit "23505")

def answerLock (ch : Choice) (t : ℕ) (s : Server σ) : Option (Option GoError × Server σ) :=
  match ch with
  | .fail err => some (some err, s)
  | .ok =>
    if s.lock = none ∨ s.lock = some t then some (none, { s with lock := some t }) else none
  | .lost err =>
    if s.lock = none ∨ s.lock = some t then some (some err, { s with lock := some t }) else none

def answerApplied (ch : Choice) (name : Bytes) (work : Option (Base σ)) (s : Server σ) :
    Option (Except GoError Bool × Server σ) :=
  match ch with
  | .ok =>
    match (s.view work).versions with
    | none => some (.error undefinedTable, s)
    | some versions => some (.ok (decide (name ∈ versions)), s)
  | .fail err => some (.error err, s)
  | .lost err => some (.error err, s)

def answerScript (run : Bytes → Base σ → Except GoError σ) (ch : Choice) (t : ℕ)
    (name content : Bytes) (work : Option (Base σ)) (s : Server σ) :
    Option (Option GoError × Server σ) :=
  match ch, run content (s.view work) with
  | .fail err, _ => some (some err, s)
  | _, .error err => some (some err, s)
  | ch, .ok schema => s.write t ch ((s.view work).scripted name schema)

def answerRecord (ch : Choice) (t : ℕ) (name : Bytes) (work : Option (Base σ)) (s : Server σ) :
    Option (Option GoError × Server σ) :=
  match ch, (s.view work).versions with
  | .fail err, _ => some (some err, s)
  | _, none => some (some undefinedTable, s)
  | ch, some versions =>
    if name ∈ versions then some (some uniqueViolation, s)
    else s.write t ch ((s.view work).recorded name)

def answerCommit (ch : Choice) (t : ℕ) (work : Option (Base σ)) (s : Server σ) :
    Option (Option GoError × Server σ) :=
  match ch with
  | .ok => some (none, s.committed t (s.view work))
  | .lost err => some (some err, s.unsettled t (s.view work))
  | .fail err => some (some err, s.aborted t)

def answer (run : Bytes → Base σ → Except GoError σ) (ch : Choice) (t : ℕ) (op : MigrateOp)
    (s : Server σ) : Option (MigrateRes op × Server σ) :=
  match op, s.tx t with
  | .lock, .open _ => s.answerLock ch t
  | .createTable, .open work => s.write t ch (s.view work).created
  | .applied name, .open work => s.answerApplied ch name work
  | .script name content, .open work => s.answerScript run ch t name content work
  | .record name, .open work => s.answerRecord ch t name work
  | .commit, .open work => s.answerCommit ch t work
  | .rollback, .open _ => some ((), s.aborted t)
  | .rollback, _ => some ((), s)
  | .beginTx, .none =>
    match ch with
    | .ok => some (none, s.setTx t (.open none))
    | .fail err => some (some err, s)
    | .lost err => some (some err, s)
  -- The transaction is gone.
  | .applied _, _ =>
    match ch with
    | .fail err => some (.error err, s)
    | _ => none
  | .beginTx, _ => none
  | .lock, _ | .createTable, _ | .script _ _, _ | .record _, _ | .commit, _ =>
    match ch with
    | .fail err => some (some err, s)
    | _ => none

/-- Open transactions may be aborted; a commit with a lost answer happens or not. -/
def fault : Fault → Server σ → Option (Server σ)
  | .abort t, s =>
    match s.tx t with
    | .none => none
    | _ => some (s.aborted t)
  | .settle t, s =>
    match s.tx t with
    | .closing work => some (s.committed t work)
    | _ => none

/-- When a process dies its open transaction is aborted; a commit already sent is left to the
server. -/
def lose (t : ℕ) (s : Server σ) : Server σ :=
  match s.tx t with
  | .open _ => s.aborted t
  | _ => s

def machine (run : Bytes → Base σ → Except GoError σ) :
    Machine MigrateOp MigrateRes (Server σ) Choice Fault :=
  ⟨fun ch t op s => s.answer run ch t op, fault, lose⟩

end Server

/-- A replica of release `k`, as far as its migration: what it ran and how that ended. -/
def replica (fleet : ℕ → Release) (k : ℕ) : MigrateProg (ℕ × Option GoError) := do
  let err ← migrate (fleet k)
  return (k, err)

/-- The releases up to `newest`, started in any order and any number of times. -/
def Replica (fleet : ℕ → Release) (newest : ℕ) (p : MigrateProg (ℕ × Option GoError)) : Prop :=
  ∃ k ≤ newest, p = replica fleet k

/-- The migration of a release on an empty database, alone and without a failure. -/
def freshInstallation {σ : Type} (run : Bytes → Base σ → Except GoError σ) (schema : σ)
    (r : Release) : Option (Option GoError × Server σ) :=
  (migrate r).exec (fun op s => s.answer run .ok 0 op) (.ofBase (.empty schema))

/-- Every release keeps the files of the one before it and adds only files that sort after all
of them. -/
structure Upgrades (fleet : ℕ → Release) : Prop where
  keeps : ∀ k, ∀ name ∈ (fleet k).names, name ∈ (fleet (k + 1)).names ∧
    (fleet (k + 1)).readFile name = (fleet k).readFile name
  after : ∀ k, ∀ name ∈ (fleet (k + 1)).names, name ∉ (fleet k).names →
    ∀ old ∈ (fleet k).names, less old name = true

end KiteRail.Migrations
