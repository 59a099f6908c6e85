import KiteRail.AuthChains
import KiteRail.Prog
import KiteRail.UrlQuery

/-! Single sign-on: the Authorization Code flow, the sessions it ends in and their cookies.
Requests see the database, the clock, the random source and the identity provider through
operations. -/
namespace KiteRail.Sso
open Bytes GoStrings Prog Startup
open Proxy (Identity Request Role)
open Auth (cookieName sessionCookie)

def loginAttemptTTL : ℤ := 600 * second

def touchInterval : ℤ := 60 * second

/-- What `validReturnTo` reads of a parsed URL. -/
structure ReturnURL where
  scheme : Bytes
  host : Bytes
  hasUser : Bool
  escapedPath : Bytes

/-- The service as `main` builds it, with the case tables and `url.Parse`. Validation leaves
it a positive idle time. -/
structure Service where
  cfg : OIDCConfig
  allowedOrigins : List Bytes
  table : CaseTable
  parseURL : Bytes → Option ReturnURL
  idle_pos : 0 < cfg.sessionIdleTTL

lemma orDefault_pos {value fallback : ℤ} (h : 0 < fallback) : 0 < orDefault value fallback := by
  rw [orDefault]
  split <;> omega

lemma idle_of_withDefaults {o o' : OIDCConfig} (h : o.withDefaults = .ok o')
    (henabled : o'.enabled = true) : 0 < o'.sessionIdleTTL := by
  rw [OIDCConfig.withDefaults] at h
  split at h
  · rename_i hdisabled
    obtain rfl := Except.ok.inj h
    simp [henabled] at hdisabled
  · obtain ⟨-, heq⟩ := seq_eq_ok.mp h
    obtain rfl := Except.ok.inj heq
    exact orDefault_pos (by decide)

lemma sessionIdleTTL_pos {env : Setting} {c c' : Config} (h : validate env c = .ok c')
    (henabled : c'.oidc.enabled = true) : 0 < c'.oidc.sessionIdleTTL := by
  simp only [validate, seq_eq_ok] at h
  obtain ⟨-, -, -, -, -, -, -, -, -, -, -, -, -, hrest⟩ := h
  obtain ⟨o, ho, -, rfl⟩ := complete_eq_ok.mp hrest
  exact idle_of_withDefaults ho henabled

/-- `New`, for a configuration that passed `Validate` and configures single sign-on. -/
def newService (env : Setting) (parseURL : Bytes → Option ReturnURL) (c c' : Config)
    (h : validate env c = .ok c') (henabled : c'.oidc.enabled = true) : Service where
  cfg := c'.oidc
  allowedOrigins := c'.allowedOrigins
  table := env.table
  parseURL := parseURL
  idle_pos := sessionIdleTTL_pos h henabled

/-- The claims of an ID token, `map[string]any`. -/
abbrev Claims := AList fun _ : Bytes => Json

/-- What `Verify` returns. -/
structure IDToken where
  nonce : Bytes
  subject : Bytes
  claims : Except GoError Claims

structure CreateLoginAttemptParams where
  state : Bytes
  nonce : Bytes
  codeVerifier : Bytes
  returnTo : Bytes
  expiresAt : ℤ

structure ConsumeLoginAttemptRow where
  nonce : Bytes
  codeVerifier : Bytes
  returnTo : Bytes

structure CreateSessionParams where
  idHash : Bytes
  subject : Bytes
  email : Bytes
  role : Bytes
  expiresAt : ℤ

structure GetActiveSessionRow where
  idHash : Bytes
  subject : Bytes
  email : Bytes
  role : Bytes
  createdAt : ℤ
  expiresAt : ℤ
  lastSeenAt : ℤ

/-- What the service is asked to do: the requests of browsers, the authentication of a
request by its session, and the hourly deletion of what has expired. -/
inductive Call
  | login (browser : ℕ) (r : Request)
  | callback (browser : ℕ) (r : Request)
  | logout (r : Request)
  | authenticate (r : Request)
  | sweep

/-- `receive` is where a call begins. -/
inductive SsoOp
  | receive (call : Call)
  | client
  | now
  | randomToken
  | createLoginAttempt (arg : CreateLoginAttemptParams)
  | consumeLoginAttempt (state : Bytes)
  | exchange (code codeVerifier : Bytes)
  | verify (rawIDToken : Bytes)
  | createSession (arg : CreateSessionParams)
  | getActiveSession (idHash : Bytes) (lastSeenAt : ℤ)
  | touchSession (idHash : Bytes)
  | revokeSession (idHash : Bytes)
  | deleteExpiredLoginAttempts
  | deleteExpiredSessions

/-- `client` says whether the provider has been discovered, `exchange` gives the `id_token`
of the response, empty if there is none. -/
def SsoRes : SsoOp → Type
  | .receive _ => Unit
  | .client => Bool
  | .now => ℤ
  | .randomToken => Bytes
  | .createLoginAttempt _ => Option GoError
  | .consumeLoginAttempt _ => Except GoError ConsumeLoginAttemptRow
  | .exchange _ _ => Except GoError Bytes
  | .verify _ => Except GoError IDToken
  | .createSession _ => Option GoError
  | .getActiveSession _ _ => Except GoError GetActiveSessionRow
  | .touchSession _ => Option GoError
  | .revokeSession _ => Option GoError
  | .deleteExpiredLoginAttempts => Option GoError
  | .deleteExpiredSessions => Option GoError

abbrev SsoProg := Prog SsoOp SsoRes

inductive SameSite
  | lax
  | strict
  | none

structure Cookie where
  name : Bytes
  value : Bytes
  path : Bytes
  maxAge : ℤ
  httpOnly : Bool
  secure : Bool
  sameSite : SameSite

/-- Where a response sends the browser: to the provider, with a state, a nonce and the
challenge of a verifier; back to the console; or back with an `sso_error`. -/
inductive Location
  | provider (state nonce codeVerifier : Bytes)
  | console (returnTo : Bytes)
  | refused (returnTo code : Bytes)

inductive Response
  | error (status : ℕ) (text : Bytes)
  | redirect (location : Location) (setCookie : Option Cookie)
  | noContent (setCookie : Cookie)

def Response.setCookie : Response → Option Cookie
  | .error _ _ => none
  | .redirect _ c => c
  | .noContent c => some c

def hashToken (token : Bytes) : Bytes := hexEncode (Sha256.sum256 token)

def roleText : Role → Bytes
  | .agent => lit "agent"
  | .reviewer => lit "reviewer"
  | .admin => lit "admin"

section Claims
variable (svc : Service)

def stringClaim (claims : Claims) (name : Bytes) : Bytes :=
  match claims.lookup name with
  | some (.str value) => value
  | _ => []

def boolClaim (claims : Claims) (name : Bytes) : Bool :=
  match claims.lookup name with
  | some (.bool value) => value
  | _ => false

/-- The identity recorded for a user, or the code of the failure. -/
def identityFrom (claims : Claims) : Except Bytes Bytes :=
  let value := trimSpace (stringClaim claims svc.cfg.identityClaim)
  if value = [] then .error (lit "no_identity")
  else if svc.cfg.identityClaim = lit "email" then
    if boolClaim claims (lit "email_verified") then .ok (toLower svc.table value)
    else .error (lit "unverified_email")
  else .ok value

def groupName : Json → Option Bytes
  | .str name => some name
  | _ => none

def groupsOf : Option Json → List Bytes
  | some (.str name) => [name]
  | some (.arr elements) => elements.filterMap groupName
  | _ => []

/-- The role of a user's groups; admin wins over reviewer. -/
def roleFrom (claims : Claims) : Option Role :=
  let groups := groupsOf (claims.lookup svc.cfg.groupsClaim)
  if groups.any svc.cfg.adminGroups.contains then some .admin
  else if groups.any svc.cfg.reviewerGroups.contains then some .reviewer
  else none

end Claims

section Responses
variable (svc : Service)

/-- An allowed origin and a path under it. -/
def validReturnTo (raw : Bytes) : Option Bytes :=
  if raw = [] then
    (svc.allowedOrigins.find? fun origin => origin != lit "*" && origin != []).map (· ++ lit "/")
  else do
    let u ← svc.parseURL raw
    let origin := u.scheme ++ lit "://" ++ u.host
    if !isHttp u.scheme || u.host == [] || u.hasUser || !svc.allowedOrigins.contains origin then
      none
    else if u.escapedPath.head? ≠ some 47 ∨ lit "//" <+: u.escapedPath then
      some (origin ++ lit "/")
    else some (origin ++ u.escapedPath)

def sameSite : SameSite :=
  let mode := toLower svc.table svc.cfg.cookieSameSite
  if mode = lit "strict" then .strict else if mode = lit "none" then .none else .lax

def cookie (value : Bytes) (maxAge : ℤ) : Cookie where
  name := cookieName svc.cfg
  value := value
  path := lit "/"
  maxAge := maxAge
  httpOnly := true
  secure := svc.cfg.secureCookies
  sameSite := sameSite svc

def param (r : Request) (name : Bytes) : Bytes :=
  UrlQuery.get (UrlQuery.parseQuery r.url.rawQuery).1 name

/-- `fail`. -/
def refuse (attempt : ConsumeLoginAttemptRow) (code : Bytes) : Response :=
  .redirect (.refused attempt.returnTo code) none

end Responses

section Programs

def client : SsoProg Bool := perform SsoOp.client

def now : SsoProg ℤ := perform SsoOp.now

def randomToken : SsoProg Bytes := perform SsoOp.randomToken

def createLoginAttempt (arg : CreateLoginAttemptParams) : SsoProg (Option GoError) :=
  perform (SsoOp.createLoginAttempt arg)

def consumeLoginAttempt (state : Bytes) : SsoProg (Except GoError ConsumeLoginAttemptRow) :=
  perform (SsoOp.consumeLoginAttempt state)

def exchange (code codeVerifier : Bytes) : SsoProg (Except GoError Bytes) :=
  perform (SsoOp.exchange code codeVerifier)

def verify (rawIDToken : Bytes) : SsoProg (Except GoError IDToken) :=
  perform (SsoOp.verify rawIDToken)

def createSession (arg : CreateSessionParams) : SsoProg (Option GoError) :=
  perform (SsoOp.createSession arg)

def getActiveSession (idHash : Bytes) (lastSeenAt : ℤ) :
    SsoProg (Except GoError GetActiveSessionRow) :=
  perform (SsoOp.getActiveSession idHash lastSeenAt)

def revokeSession (idHash : Bytes) : SsoProg (Option GoError) :=
  perform (SsoOp.revokeSession idHash)

/-- An error is logged. -/
def touchSession (idHash : Bytes) : SsoProg Unit := do
  let _ ← perform (SsoOp.touchSession idHash)
  return ()

variable (svc : Service)

def startAttempt (returnTo : Bytes) : SsoProg Response := do
  let state ← randomToken
  let nonce ← randomToken
  let verifier ← randomToken
  let time ← now
  match ← createLoginAttempt ⟨state, nonce, verifier, returnTo, time + loginAttemptTTL⟩ with
  | some _ => return .error 503 (lit "Sign-in is temporarily unavailable.")
  | none => return .redirect (.provider state nonce verifier) none

def login (r : Request) : SsoProg Response := do
  match ← client with
  | false => return .error 503 (lit ("Single sign-on is unavailable: " ++
      "the identity provider has not answered yet."))
  | true =>
    match validReturnTo svc (param r (lit "return_to")) with
    | none => return .error 400 (lit "return_to must be an allowed console origin.")
    | some returnTo => startAttempt returnTo

/-- The user of a verified token, who must have a role, or the code of the failure. -/
def admitUser (attempt : ConsumeLoginAttemptRow) (idToken : IDToken) : Except Bytes Identity :=
  if idToken.nonce ≠ attempt.nonce then .error (lit "failed")
  else
    match idToken.claims with
    | .error _ => .error (lit "failed")
    | .ok claims =>
      match identityFrom svc claims with
      | .error code => .error code
      | .ok identity =>
        match roleFrom svc claims with
        | none => .error (lit "no_role")
        | some role => .ok ⟨identity, role⟩

/-- The verified token of an attempt, or the code of the failure. -/
def verifiedToken (attempt : ConsumeLoginAttemptRow) (code : Bytes) :
    SsoProg (Except Bytes IDToken) := do
  match ← exchange code attempt.codeVerifier with
  | .error _ => return .error (lit "failed")
  | .ok rawIDToken =>
    if rawIDToken = [] then return .error (lit "failed")
    else
      match ← verify rawIDToken with
      | .error _ => return .error (lit "failed")
      | .ok idToken => return .ok idToken

def startSession (attempt : ConsumeLoginAttemptRow) (subject : Bytes) (user : Identity) :
    SsoProg Response := do
  let sessionToken ← randomToken
  let time ← now
  match ← createSession ⟨hashToken sessionToken, subject, user.id, roleText user.role,
      time + svc.cfg.sessionTTL⟩ with
  | some _ => return refuse attempt (lit "session_failed")
  | none =>
    let setCookie := cookie svc sessionToken (svc.cfg.sessionTTL.tdiv second)
    return .redirect (.console attempt.returnTo) (some setCookie)

/-- What follows the deletion of the attempt. -/
def finishAttempt (attempt : ConsumeLoginAttemptRow) (r : Request) : SsoProg Response := do
  if param r (lit "error") ≠ [] then return refuse attempt (lit "denied")
  else
    match ← client with
    | false => return refuse attempt (lit "unavailable")
    | true =>
      match ← verifiedToken attempt (param r (lit "code")) with
      | .error code => return refuse attempt code
      | .ok idToken =>
        match admitUser svc attempt idToken with
        | .error code => return refuse attempt code
        | .ok user => startSession svc attempt idToken.subject user

def callback (r : Request) : SsoProg Response := do
  match ← consumeLoginAttempt (param r (lit "state")) with
  | .error _ => return .error 400 (lit ("This sign-in link has expired or was already used. " ++
      "Start again from the console."))
  | .ok attempt => finishAttempt svc attempt r

def logout (r : Request) : SsoProg Response := do
  if r.header.get Auth.csrfHeader ≠ Auth.csrfHeaderValue then
    return .error 403 (lit "\x7b\"error\": \"cross-site request rejected\"\x7d")
  else
    match sessionCookie svc.cfg r with
    | none => return .noContent (cookie svc [] (-1))
    | some value =>
      match ← revokeSession (hashToken value) with
      | some _ => return .error 503 (lit "\x7b\"error\": \"sign-out failed, try again\"\x7d")
      | none => return .noContent (cookie svc [] (-1))

/-- The role of a session, which is that of a human. -/
def sessionRole (role : Bytes) : Option Role :=
  if role = roleText .reviewer then some .reviewer
  else if role = roleText .admin then some .admin
  else none

/-- The activity of a session is written at most once a minute. -/
def refresh (idHash : Bytes) (time lastSeenAt : ℤ) : SsoProg Unit :=
  if touchInterval < time - lastSeenAt then touchSession idHash else return ()

def authenticateSession (r : Request) : SsoProg (Option Identity) :=
  match sessionCookie svc.cfg r with
  | none => return none
  | some value => do
    let time ← now
    match ← getActiveSession (hashToken value) (time - svc.cfg.sessionIdleTTL) with
    | .error _ => return none
    | .ok row =>
      match sessionRole row.role with
      | none => return none
      | some role => do
        refresh (hashToken value) time row.lastSeenAt
        return some ⟨row.email, role⟩

/-- One tick of `Run`; errors are logged. -/
def deleteExpired : SsoProg Unit := do
  let _ ← perform SsoOp.deleteExpiredLoginAttempts
  let _ ← perform SsoOp.deleteExpiredSessions
  return ()

inductive Outcome
  | response (call : Call) (sent : Response)
  | session (r : Request) (identity : Option Identity)
  | swept

def serve : Call → SsoProg Outcome
  | .login b r => do return .response (.login b r) (← login svc r)
  | .callback b r => do return .response (.callback b r) (← callback svc r)
  | .logout r => do return .response (.logout r) (← logout svc r)
  | .authenticate r => do return .session r (← authenticateSession svc r)
  | .sweep => do
    deleteExpired
    return .swept

def handle (call : Call) : SsoProg Outcome := do
  perform (SsoOp.receive call)
  serve svc call

end Programs

end KiteRail.Sso
