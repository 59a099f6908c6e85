import KiteRail.ConfigDuties
import KiteRail.ProxyHandler

namespace KiteRail.Auth
open Bytes Header Startup
open Proxy (Identity Request Role)

/-- What comes of a request: an error response, the answer to a preflight, or the result
of the handler. -/
inductive Answer (α : Type)
  | error (status : ℕ) (text : Bytes)
  | preflight
  | served (result : α)

abbrev Handler (α : Type) := Request → Answer α

/-- A map from tokens to the identities that present them. -/
abbrev Identities := AList fun _ : Bytes => Identity

section Cookies

def isBlank (b : UInt8) : Bool := b == 32 || b == 9 || b == 10 || b == 13

/-- `textproto.TrimString`. -/
def trimString (s : Bytes) : Bytes := (s.dropWhile isBlank).rdropWhile isBlank

/-- The text before a separator and the text after it. -/
def cut (sep : UInt8) (s : Bytes) : Bytes × Bytes :=
  (s.takeWhile (· != sep), (s.dropWhile (· != sep)).drop 1)

def validCookieByte (b : UInt8) : Bool :=
  32 ≤ b && b < 127 && b != 34 && b != 59 && b != 92

def parseCookieValue (raw : Bytes) : Option Bytes :=
  let bare := if 1 < raw.length && raw.head? == some 34 && raw.getLast? == some 34 then
    (raw.drop 1).dropLast else raw
  if bare.all validCookieByte then some bare else none

def parsePart (name part : Bytes) : Option Bytes :=
  let pair := cut 61 (trimString part)
  let key := trimString pair.1
  if key ≠ [] ∧ key.all isToken = true ∧ key = name then parseCookieValue pair.2 else none

/-- `Request.Cookie`: the first cookie of the name. -/
def cookie (h : Header) (name : Bytes) : Option Bytes :=
  (((h.lookup (lit "Cookie")).getD []).flatMap fun line => line.splitOn 59).findSome?
    (parsePart name)

end Cookies

section Middlewares
variable {α : Type}

/-- All candidates are compared, and the last that matches is found. -/
def lookupIdentity (order : MapOrder) (identities : Identities) (token : Bytes) :
    Option Identity :=
  (order.visit 10 identities.entries).foldl
    (fun found candidate => if candidate.1 = token then some candidate.2 else found) none

def bearerPrefix : Bytes := lit "Bearer "

/-- Only a token in the `Authorization` header is accepted. -/
def middleware (order : MapOrder) (identities : Identities) (next : Handler α) : Handler α :=
  fun r =>
    let authHeader := r.header.get (lit "Authorization")
    if ¬ bearerPrefix <+: authHeader then
      .error 401 (lit ("\x7b\"error\": \"missing or malformed Authorization header, " ++
        "expected Bearer token\"\x7d"))
    else
      match lookupIdentity order identities (authHeader.drop bearerPrefix.length) with
      | none => .error 403 (lit "\x7b\"error\": \"invalid API key\"\x7d")
      | some identity => next { r with identity := some identity }

def safeMethod (method : Bytes) : Bool :=
  method == lit "GET" || method == lit "HEAD" || method == lit "OPTIONS"

def csrfHeader : Bytes := lit "X-Requested-With"

def csrfHeaderValue : Bytes := lit "elodea"

def originAdmitted (allowed : Bytes → Bool) (r : Request) : Bool :=
  r.header.get (lit "Origin") == [] || allowed (r.header.get (lit "Origin"))

/-- A token as for agents; without one, a session, with protection against requests that
another site made the browser send. -/
def humanMiddleware (order : MapOrder) (identities : Identities)
    (sessions : Option (Request → Option Identity)) (originAllowed : Bytes → Bool)
    (next : Handler α) : Handler α := fun r =>
  if r.header.get (lit "Authorization") ≠ [] then middleware order identities next r
  else
    match sessions with
    | none => middleware order identities next r
    | some authenticateSession =>
      match authenticateSession r with
      | none => .error 401 (lit "\x7b\"error\": \"sign-in required\"\x7d")
      | some identity =>
        if ¬ safeMethod r.method ∧ (r.header.get csrfHeader ≠ csrfHeaderValue ∨
            ¬ originAdmitted originAllowed r) then
          .error 403 (lit "\x7b\"error\": \"cross-site request rejected\"\x7d")
        else next { r with identity := some identity }

def requireRole (allowed : Role → Bool) (next : Handler α) : Handler α := fun r =>
  if r.identity.any fun identity => allowed identity.role then next r
  else .error 403 (lit "\x7b\"error\": \"insufficient role\"\x7d")

def isAgent : Role → Bool
  | .agent => true
  | _ => false

def isHuman : Role → Bool
  | .agent => false
  | _ => true

def originAllowed (allowedOrigins : List Bytes) (origin : Bytes) : Bool :=
  allowedOrigins.any fun allowed => allowed == lit "*" || allowed == origin

def corsMiddleware (allowedOrigins : List Bytes) (next : Handler α) : Handler α := fun r =>
  if ¬ originAdmitted (originAllowed allowedOrigins) r then
    .error 403 (lit "\x7b\"error\":\"origin is not allowed\"\x7d")
  else if r.method = lit "OPTIONS" then .preflight
  else next r

def drainMiddleware (ready : Bool) (next : Handler α) : Handler α := fun r =>
  if ready then next r else .error 503 (lit "\x7b\"error\":\"server is draining\"\x7d")

/-- `allow` says which identities are within their rates. -/
def rateLimiter (allow : Bytes → Bool) (next : Handler α) : Handler α := fun r =>
  match r.identity with
  | none =>
    .error 500 (lit "\x7b\"error\": \"authenticated identity required for rate limiting\"\x7d")
  | some identity =>
    if allow identity.id then next r
    else .error 429 (lit "\x7b\"error\": \"rate limit exceeded\"\x7d")

end Middlewares

structure Deps where
  order : MapOrder
  ready : Bool
  allow : Bytes → Bool
  identities : Identities
  allowedOrigins : List Bytes
  sessions : Option (Request → Option Identity)

section Chains
variable {α : Type} (d : Deps)

def agentChain (next : Handler α) : Handler α :=
  corsMiddleware d.allowedOrigins (drainMiddleware d.ready (middleware d.order d.identities
    (rateLimiter d.allow (requireRole isAgent next))))

def humanChain (next : Handler α) : Handler α :=
  corsMiddleware d.allowedOrigins (drainMiddleware d.ready (humanMiddleware d.order d.identities
    d.sessions (originAllowed d.allowedOrigins) (requireRole isHuman next)))

end Chains

section Main

/-- The owners of one map of keys, added with their role. -/
def addOwners (role : Role) (keys : List (Sigma fun _ : Bytes => Bytes))
    (identities : Identities) : Identities :=
  keys.foldl (fun identities k => identities.insert k.1 ⟨k.2, role⟩) identities

/-- The identities that `main` collects, the maps one after another. -/
def identities (order : MapOrder) (c : Config) : Identities :=
  addOwners .admin (order.visit 13 c.adminAPIKeys.entries)
    (addOwners .reviewer (order.visit 12 c.reviewerAPIKeys.entries)
      (addOwners .agent (order.visit 11 c.apiKeys.entries) ∅))

def cookieName (o : OIDCConfig) : Bytes :=
  if o.secureCookies then lit "__Host-elodea_session" else lit "elodea_session"

def sessionCookie (o : OIDCConfig) (r : Request) : Option Bytes :=
  (cookie r.header (cookieName o)).filter fun value => value != []

/-- `AuthenticateSession`, where `active` is what the store answers for a token. -/
def authenticateSession (o : OIDCConfig) (active : Bytes → Option Identity) (r : Request) :
    Option Identity :=
  (sessionCookie o r).bind active

/-- The server that `main` builds; sessions exist if single sign-on is configured. -/
def deps (order : MapOrder) (c : Config) (ready : Bool) (allow : Bytes → Bool)
    (active : Bytes → Option Identity) : Deps where
  order := order
  ready := ready
  allow := allow
  identities := identities order c
  allowedOrigins := c.allowedOrigins
  sessions := if c.oidc.enabled then some (authenticateSession c.oidc active) else none

end Main

section Routes

/-- What a human's request does. The reading of a denial's reason is left out. -/
inductive Call
  | read
  | approve (id reviewerID : Bytes)
  | deny (id reviewerID : Bytes)
  | reload (admin : Bytes)

/-- `http.StripPrefix`. -/
def stripPrefix (strip : Bytes) (next : Handler Call) : Handler Call := fun r =>
  if strip <+: r.url.path ∧ strip ≠ [] ∧ (r.url.rawPath = [] ∨ strip <+: r.url.rawPath) then
    next { r with url := { r.url with
      path := r.url.path.drop strip.length, rawPath := r.url.rawPath.drop strip.length } }
  else .error 404 (lit "404 page not found")

def trimPrefix (strip s : Bytes) : Bytes := if strip <+: s then s.drop strip.length else s

def trimSuffix (strip s : Bytes) : Bytes :=
  if strip <:+ s then s.take (s.length - strip.length) else s

def reviewerIdentity (r : Request) : Option Bytes :=
  (r.identity.filter fun identity => isHuman identity.role).map Identity.id

def decision (call : Bytes → Call) (r : Request) : Answer Call :=
  match reviewerIdentity r with
  | none => .error 403 (lit "\x7b\"error\": \"reviewer or admin role required\"\x7d")
  | some reviewerID => .served (call reviewerID)

def quarantineHandler : Handler Call := fun r =>
  let path := trimPrefix (lit "/") (trimPrefix (lit "/api/v1/quarantine") r.url.path)
  if r.method = lit "GET" then .served .read
  else if r.method = lit "POST" ∧ lit "/approve" <:+ path then
    decision (.approve (trimSuffix (lit "/approve") path)) r
  else if r.method = lit "POST" ∧ lit "/deny" <:+ path then
    decision (.deny (trimSuffix (lit "/deny") path)) r
  else .error 404 (lit "\x7b\"error\": \"not found\"\x7d")

/-- Only an admin may have the policies loaded again. -/
def handleReload (r : Request) : Answer Call :=
  match r.identity with
  | some ⟨id, .admin⟩ => .served (.reload id)
  | _ => .error 403 (lit "\x7b\"error\": \"admin role required\"\x7d")

def policyHandler : Handler Call := fun r =>
  if r.method = lit "POST" ∧ lit "/simulate" <:+ r.url.path then .served .read
  else if r.method = lit "POST" ∧ lit "/reload" <:+ r.url.path then handleReload r
  else if r.method = lit "GET" then .served .read
  else if r.method = lit "PATCH" ∨ r.method = lit "PUT" ∨ r.method = lit "POST" then
    .error 405 (lit ("\x7b\"error\": \"policies are immutable; " ++
      "modify via version control\"\x7d"))
  else .error 405 (lit "Method not allowed")

/-- The routes under which humans change something. -/
def quarantineRoute (d : Deps) : Handler Call :=
  humanChain d (stripPrefix (lit "/api/v1/quarantine") quarantineHandler)

def policiesRoute (d : Deps) : Handler Call :=
  humanChain d (stripPrefix (lit "/api/v1/policies") policyHandler)

end Routes

end KiteRail.Auth
