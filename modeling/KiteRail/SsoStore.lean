import KiteRail.History
import KiteRail.KeyedTable
import KiteRail.ProgInterleave
import KiteRail.SsoService

/-! The tables of single sign-on, on one clock, under any interleaving of calls. Every
statement is atomic; it may fail, or take effect without its answer arriving. Login attempts
and sessions are numbered as they are inserted, and a history records what was done. -/
namespace KiteRail.Sso
open Bytes Startup

/-- A row of `auth_login_attempts`, with its number. -/
structure LoginAttempt where
  state : Bytes
  nonce : Bytes
  codeVerifier : Bytes
  returnTo : Bytes
  expiresAt : ℤ
  serial : ℕ

/-- A row of `sessions`, with its number. -/
structure Session where
  idHash : Bytes
  subject : Bytes
  email : Bytes
  role : Bytes
  createdAt : ℤ
  expiresAt : ℤ
  lastSeenAt : ℤ
  revokedAt : Option ℤ
  serial : ℕ

def LoginAttempt.row (a : LoginAttempt) : ConsumeLoginAttemptRow :=
  ⟨a.nonce, a.codeVerifier, a.returnTo⟩

def Session.row (x : Session) : GetActiveSessionRow :=
  ⟨x.idHash, x.subject, x.email, x.role, x.createdAt, x.expiresAt, x.lastSeenAt⟩

/-- What happened: thread `t` received a call, read the clock, inserted or deleted a login
attempt, had a token verified, inserted a session for the attempt it had deleted, or found an
active session; a session was touched or revoked. -/
inductive Event
  | received (t : ℕ) (call : Call)
  | read (t : ℕ) (time : ℤ)
  | attempted (t serial : ℕ) (state : Bytes)
  | consumed (t serial : ℕ) (state : Bytes)
  | verified (t : ℕ) (idToken : IDToken)
  | created (t : ℕ) (attempt : Option ℕ) (row : Session)
  | found (t : ℕ) (row : Session) (cutoff time : ℤ)
  | touched (serial : ℕ) (time : ℤ)
  | revoked (serial : ℕ)

/-- `ticket t` is the login attempt that thread `t` deleted and has not made a session of. -/
structure Store where
  clock : ℤ
  discovered : Bool
  attempts : Table LoginAttempt.state
  sessions : Table Session.idHash
  serial : ℕ
  ticket : ℕ → Option ℕ
  history : List Event

/-- How an operation ends: properly, with an error and no effect, with an error after it took
effect, with a random token, or with an answer of the provider or its library. -/
inductive Reply
  | works
  | fails (e : GoError)
  | lost (e : GoError)
  | draws (token : Bytes)
  | exchanges (answer : Except GoError Bytes)
  | verifies (answer : Except GoError IDToken)

/-- Time passes, and the provider is discovered. -/
inductive Disturbance
  | tick (d : ℕ)
  | discover

namespace Store

def start (clock : ℤ) (discovered : Bool) : Store :=
  ⟨clock, discovered, .empty, .empty, 0, fun _ => none, []⟩

def note (s : Store) (e : Event) : Store := { s with history := e :: s.history }

/-- The violation of a primary key. -/
def uniqueViolation : GoError := .sqlState (lit "23505")

section LoginAttempts

/-- `CreateLoginAttempt`; nothing is inserted under a state in use. -/
def attempted (s : Store) (t : ℕ) (arg : CreateLoginAttemptParams) : Store :=
  if h : s.attempts.find arg.state = none then
    { s with
      attempts := s.attempts.insert ⟨arg.state, arg.nonce, arg.codeVerifier, arg.returnTo,
        arg.expiresAt, s.serial⟩ h
      serial := s.serial + 1
      history := .attempted t s.serial arg.state :: s.history }
  else s

def insertError (taken : Bool) : Option GoError := if taken then some uniqueViolation else none

/-- The attempt that `ConsumeLoginAttempt` deletes. -/
def pending (s : Store) (state : Bytes) : Option LoginAttempt :=
  (s.attempts.find state).filter fun a => s.clock < a.expiresAt

def removed (s : Store) (state : Bytes) : Store :=
  { s with attempts := s.attempts.delete fun a => a.state = state && s.clock < a.expiresAt }

/-- The deletion of an attempt whose row is returned. -/
def consumed (s : Store) (t : ℕ) (a : LoginAttempt) : Store :=
  { s.removed a.state with
    ticket := Function.update s.ticket t (some a.serial)
    history := .consumed t a.serial a.state :: s.history }

def attemptsExpired (s : Store) : Store :=
  { s with attempts := s.attempts.delete fun a => a.expiresAt ≤ s.clock }

end LoginAttempts

section Sessions

def inserted (s : Store) (arg : CreateSessionParams) : Session :=
  ⟨arg.idHash, arg.subject, arg.email, arg.role, s.clock, arg.expiresAt, s.clock, none, s.serial⟩

/-- `CreateSession`; the thread has used its attempt. -/
def created (s : Store) (t : ℕ) (arg : CreateSessionParams) : Store :=
  if h : s.sessions.find arg.idHash = none then
    { s with
      sessions := s.sessions.insert (s.inserted arg) h
      serial := s.serial + 1
      ticket := Function.update s.ticket t none
      history := .created t (s.ticket t) (s.inserted arg) :: s.history }
  else s

/-- The session that `GetActiveSession` finds. -/
def active (s : Store) (idHash : Bytes) (cutoff : ℤ) : Option Session :=
  (s.sessions.find idHash).filter fun x =>
    x.revokedAt.isNone && s.clock < x.expiresAt && cutoff < x.lastSeenAt

/-- The sessions that `TouchSession` and `RevokeSession` change. -/
def unrevoked (idHash : Bytes) (x : Session) : Bool := x.idHash = idHash && x.revokedAt.isNone

def touched (s : Store) (idHash : Bytes) : Store :=
  { s with
    sessions := s.sessions.update (unrevoked idHash) (fun x => { x with lastSeenAt := s.clock })
      fun _ => rfl
    history := (s.sessions.hits (unrevoked idHash)).map (fun x => .touched x.serial s.clock) ++
      s.history }

def revoked (s : Store) (idHash : Bytes) : Store :=
  { s with
    sessions := s.sessions.update (unrevoked idHash)
      (fun x => { x with revokedAt := some s.clock }) fun _ => rfl
    history := (s.sessions.hits (unrevoked idHash)).map (fun x => .revoked x.serial) ++ s.history }

def retention : ℤ := 30 * 86400 * second

def sessionsExpired (s : Store) : Store :=
  { s with sessions := s.sessions.delete fun x => x.expiresAt ≤ s.clock - retention }

end Sessions

/-- An operation that cannot fail. -/
def quick {α : Type} (a : α) : Reply → Option α
  | .works => some a
  | _ => none

def draw (s : Store) : Reply → Option (Bytes × Store)
  | .draws token => some (token, s)
  | _ => none

def statement (err : Option GoError) (s' : Store) (s : Store) :
    Reply → Option (Option GoError × Store)
  | .works => some (err, s')
  | .fails e => some (some e, s)
  | .lost e => some (some e, s')
  | _ => none

def consume (t : ℕ) (state : Bytes) (s : Store) :
    Reply → Option (Except GoError ConsumeLoginAttemptRow × Store)
  | .works =>
    match s.pending state with
    | some a => some (.ok a.row, s.consumed t a)
    | none => some (.error .noRows, s)
  | .fails e => some (.error e, s)
  | .lost e => some (.error e, s.removed state)
  | _ => none

def tokenResponse (s : Store) : Reply → Option (Except GoError Bytes × Store)
  | .exchanges answer => some (answer, s)
  | _ => none

def verification (t : ℕ) (s : Store) : Reply → Option (Except GoError IDToken × Store)
  | .verifies (.ok idToken) => some (.ok idToken, s.note (.verified t idToken))
  | .verifies (.error e) => some (.error e, s)
  | _ => none

def lookup (t : ℕ) (idHash : Bytes) (cutoff : ℤ) (s : Store) :
    Reply → Option (Except GoError GetActiveSessionRow × Store)
  | .works =>
    match s.active idHash cutoff with
    | some x => some (.ok x.row, s.note (.found t x cutoff s.clock))
    | none => some (.error .noRows, s)
  | .fails e => some (.error e, s)
  | _ => none

def answer (reply : Reply) (t : ℕ) (op : SsoOp) (s : Store) : Option (SsoRes op × Store) :=
  match op with
  | .receive c => quick ((), s.note (.received t c)) reply
  | .client => quick (s.discovered, s) reply
  | .now => quick (s.clock, s.note (.read t s.clock)) reply
  | .randomToken => draw s reply
  | .createLoginAttempt arg =>
    statement (insertError (s.attempts.find arg.state).isSome) (s.attempted t arg) s reply
  | .consumeLoginAttempt state => consume t state s reply
  | .exchange _ _ => tokenResponse s reply
  | .verify _ => verification t s reply
  | .createSession arg =>
    statement (insertError (s.sessions.find arg.idHash).isSome) (s.created t arg) s reply
  | .getActiveSession idHash cutoff => lookup t idHash cutoff s reply
  | .touchSession idHash => statement none (s.touched idHash) s reply
  | .revokeSession idHash => statement none (s.revoked idHash) s reply
  | .deleteExpiredLoginAttempts => statement none s.attemptsExpired s reply
  | .deleteExpiredSessions => statement none s.sessionsExpired s reply

def disturb : Disturbance → Store → Option Store
  | .tick d, s => some { s with clock := s.clock + d }
  | .discover, s => some { s with discovered := true }

def machine : Machine SsoOp SsoRes Store Reply Disturbance where
  answer := answer
  fault := disturb
  lose _ s := s

end Store

abbrev SsoPool := Pool SsoOp SsoRes Store Outcome

/-- Any calls are served, each by a thread of its own. -/
def Serves (svc : Service) (p : SsoProg Outcome) : Prop := ∃ call, p = handle svc call

end KiteRail.Sso
