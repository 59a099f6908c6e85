import KiteRail.GoStrings
import KiteRail.GoTime
import KiteRail.HttpMessage
import KiteRail.JsonStruct
import KiteRail.Prog
import KiteRail.QuarantineHandler
import KiteRail.Sha256
import KiteRail.UrlQuery

/-! The Slack app's interactivity endpoint. A request is verified against the signing secret and
the clock, its form and its payload are decoded, the user is resolved to an email through a
cache, and a listed reviewer's click becomes one call of the decider. The decider is a program of
its own, so that the endpoint can be read alone and as part of a deployment. -/
namespace KiteRail.Slack
open Bytes GoStrings GoStrconv Prog

def actionApprove : Bytes := lit "elodea_approve"
def actionDeny : Bytes := lit "elodea_deny"

/-- Five minutes, in nanoseconds. -/
def maxSignatureAge : ℤ := 300000000000

def maxBody : ℤ := 262144

/-- Ten minutes, in nanoseconds. -/
def emailCacheTTL : ℕ := 600000000000

structure Config where
  signingSecret : Bytes
  teamID : Bytes
  reviewers : List Bytes

structure App where
  cfg : Config
  reviewers : List Bytes

/-- The emails that `New` keeps of the configured ones, in lower case and without the space
around them. -/
def newReviewers (table : CaseTable) (reviewers : List Bytes) : List Bytes :=
  (reviewers.map fun r => toLower table (trimSpace r)).filter fun r => r != []

/-- `New`, as far as the endpoint reads it. -/
def new (table : CaseTable) (cfg : Config) : App := ⟨cfg, newReviewers table cfg.reviewers⟩

structure Request where
  method : Bytes
  header : Header
  body : BodyReader

structure Action where
  actionID : Bytes
  value : Bytes
  deriving DecidableEq

/-- The payload. Of the actions only the first is read. -/
structure Interaction where
  type : Bytes
  teamID : Bytes
  userID : Bytes
  responseURL : Bytes
  action : Option Action
  deriving DecidableEq

def decodeAction : Json.Decoder Action :=
  Json.decodeStruct [
    (lit "action_id", Json.field Action.actionID (fun a s => { a with actionID := s })
      Json.decodeString),
    (lit "value", Json.field Action.value (fun a s => { a with value := s }) Json.decodeString)]

def decodeInteraction : Json.Decoder Interaction :=
  Json.decodeStruct [
    (lit "type", Json.field Interaction.type (fun i s => { i with type := s }) Json.decodeString),
    (lit "team", Json.field Interaction.teamID (fun i s => { i with teamID := s })
      (Json.decodeStruct [(lit "id", Json.decodeString)])),
    (lit "user", Json.field Interaction.userID (fun i s => { i with userID := s })
      (Json.decodeStruct [(lit "id", Json.decodeString)])),
    (lit "response_url", Json.field Interaction.responseURL
      (fun i s => { i with responseURL := s }) Json.decodeString),
    (lit "actions", Json.field Interaction.action (fun i a => { i with action := a })
      (Json.decodeFirst ⟨[], []⟩ decodeAction)),
    (lit "message", Json.decodeStruct [(lit "blocks", Json.skipSlice)])]

def unmarshalInteraction (bs : Bytes) : Option Interaction :=
  Json.unmarshal ⟨[], [], [], [], none⟩ decodeInteraction bs

structure UserInfo where
  ok : Bool
  error : Bytes
  deleted : Bool
  isBot : Bool
  email : Bytes

def decodeUserInfo : Json.Decoder UserInfo :=
  Json.decodeStruct [
    (lit "ok", Json.field UserInfo.ok (fun u b => { u with ok := b }) Json.decodeBool),
    (lit "error", Json.field UserInfo.error (fun u s => { u with error := s }) Json.decodeString),
    (lit "user", Json.decodeStruct [
      (lit "deleted", Json.field UserInfo.deleted (fun u b => { u with deleted := b })
        Json.decodeBool),
      (lit "is_bot", Json.field UserInfo.isBot (fun u b => { u with isBot := b })
        Json.decodeBool),
      (lit "profile", Json.field UserInfo.email (fun u s => { u with email := s })
        (Json.decodeStruct [(lit "email", Json.decodeString)]))])]

/-- An answer of the Slack API, read to its end. -/
structure ApiAnswer where
  status : ℕ
  body : Bytes

/-- The end of `callAPI` for `users.info`. -/
def ApiAnswer.userInfo (a : ApiAnswer) : Except GoError UserInfo :=
  if a.status ≠ 200 then .error (.text [.text (lit "slack users.info answered " ++
    decimalNat a.status)])
  else match Json.decodeNext ⟨false, [], false, false, []⟩ decodeUserInfo
      (a.body.take 1048576) with
    | some info => .ok info
    | none => .error (.sentinel (lit "json"))

structure CachedEmail where
  email : Bytes
  expires : ℕ

/-- The effects of the endpoint; `inner` are those of the decider. -/
inductive AppOp (Inner : Type)
  | accept
  | now
  | lookupEmail (user : Bytes)
  | usersInfo (user : Bytes)
  | storeEmail (user : Bytes) (entry : CachedEmail)
  | respond (status : ℕ)
  | inner (op : Inner)

/-- The clock counts nanoseconds from the Unix epoch. -/
abbrev AppRes {Inner : Type} (Res : Inner → Type) : AppOp Inner → Type
  | .accept => Request
  | .now => ℕ
  | .lookupEmail _ => Option CachedEmail
  | .usersInfo _ => Except GoError ApiAnswer
  | .storeEmail _ _ => Unit
  | .respond _ => Unit
  | .inner op => Res op

/-- `Decider`. -/
structure Decider (Inner : Type) (Res : Inner → Type) where
  approve : (id reviewerID : Bytes) → Prog Inner Res (Option GoError)
  deny : (id reviewerID reason : Bytes) → Prog Inner Res (Option GoError)

section Programs
variable {Inner : Type} {Res : Inner → Type}

abbrev AppProg (Res : Inner → Type) := Prog (AppOp Inner) (AppRes Res)

abbrev effect (op : AppOp Inner) : AppProg Res (AppRes Res op) := perform op

/-- A program of the decider as part of the endpoint. -/
def embed {α : Type} : Prog Inner Res α → AppProg Res α
  | .ret a => .ret a
  | .call op k => .call (.inner op) fun r => embed (k r)

def sign (secret timestamp body : Bytes) : Bytes :=
  lit "v0=" ++ hexEncode (Sha256.hmac secret (lit "v0:" ++ timestamp ++ lit ":" ++ body))

/-- Whether a signed time is close enough to the clock. -/
def fresh (now : ℕ) (ts : ℤ) : Bool :=
  let age := (GoTime.ofNanos now).sub (GoTime.unix ts)
  !(decide (age > maxSignatureAge) || decide (age < -maxSignatureAge))

def verify (app : App) (timestamp signature body : Bytes) : AppProg Res Bool :=
  match parseInt timestamp with
  | none => return false
  | some ts =>
    if app.cfg.signingSecret = [] then return false
    else do
      let now ← effect .now
      if fresh now ts then return sign app.cfg.signingSecret timestamp body == signature
      else return false

variable (table : CaseTable)

/-- The part of `email` after Slack's answer. -/
def keepEmail (user : Bytes) (info : UserInfo) : AppProg Res (Except GoError Bytes) :=
  if !info.ok then return .error (.text [.text (lit "slack users.info: "), .text info.error])
  else if info.deleted || info.isBot then
    return .error (.text (msg "deactivated or bot account"))
  else if info.email = [] then
    return .error (.text
      (msg "no email on the Slack profile (does the app have users:read.email?)"))
  else do
    let now ← effect .now
    effect (.storeEmail user ⟨toLower table info.email, now + emailCacheTTL⟩)
    return .ok (toLower table info.email)

/-- The part of `email` that asks Slack. -/
def fetchEmail (user : Bytes) : AppProg Res (Except GoError Bytes) := do
  let answer ← effect (.usersInfo user)
  match answer >>= ApiAnswer.userInfo with
  | .error err => return .error err
  | .ok info => keepEmail table user info

def email (user : Bytes) : AppProg Res (Except GoError Bytes) :=
  if user = [] then return .error (.text (msg "no user in payload"))
  else do
    match ← effect (.lookupEmail user) with
    | none => fetchEmail table user
    | some c => do
      let now ← effect .now
      if now < c.expires then return .ok c.email else fetchEmail table user

structure Outcome where
  text : Bytes
  resolved : Bool
  deriving DecidableEq

def escape (s : Bytes) : Bytes :=
  s.flatMap fun b =>
    if b = 38 then lit "&amp;" else if b = 60 then lit "&lt;" else if b = 62 then lit "&gt;"
    else [b]

/-- How the decider's answer is phrased. -/
def outcomeOf (approving : Bool) (email : Bytes) : Option GoError → Outcome
  | none =>
    if approving then ⟨lit ":white_check_mark: Approved by " ++ escape email ++
      lit ". Elodea re-checks current policy, then runs it once.", true⟩
    else ⟨lit ":x: Denied by " ++ escape email ++ lit ". It will not run.", true⟩
  | some err =>
    if GoError.is QuarantineStore.errAlreadyResolved err then
      ⟨lit ":information_source: Someone already decided this action. " ++
        lit "See the console for who and when.", true⟩
    else if GoError.is QuarantineStore.errNotFound err then
      ⟨lit ":information_source: This action no longer exists.", true⟩
    else if GoError.is QuarantineHandler.errAuditUnavailable err then
      ⟨lit ":warning: Your decision (" ++ (if approving then lit "approved" else lit "denied") ++
        lit ") was saved, but the audit log was unavailable. Tell your Elodea operator.", true⟩
    else
      ⟨lit ":warning: Elodea couldn't record that decision. " ++
        lit "Nothing was changed; try again or use the console.", false⟩

variable (dec : Decider Inner Res) (app : App)

def decide (user actionID id : Bytes) : AppProg Res Outcome := do
  match ← email table user with
  | .error _ =>
    return ⟨lit ":warning: Elodea couldn't confirm who you are in Slack, " ++
      lit "so nothing was changed. Try again, or use the console.", false⟩
  | .ok email =>
    if email ∉ app.reviewers then
      return ⟨lit ":no_entry: " ++ escape email ++
        lit " isn't on Elodea's reviewer list, so nothing was changed.", false⟩
    else if actionID = actionApprove then do
      let err ← embed (dec.approve id email)
      return outcomeOf true email err
    else do
      let err ← embed (dec.deny id email (lit "Denied in Slack"))
      return outcomeOf false email err

/-- The status of the answer, and what the message in Slack is updated with. -/
abbrev Response := ℕ × Option Outcome

/-- From the decoded payload on. -/
def serveInteraction (i : Interaction) : AppProg Res Response :=
  if app.cfg.teamID ≠ [] ∧ i.teamID ≠ app.cfg.teamID then return (403, none)
  else if i.type ≠ lit "block_actions" then return (200, none)
  else match i.action with
    | none => return (200, none)
    | some act =>
      if act.actionID ≠ actionApprove ∧ act.actionID ≠ actionDeny then return (200, none)
      else do
        let outcome ← decide table dec app i.userID act.actionID act.value
        return (200, some outcome)

def servePayload (raw : Bytes) : AppProg Res Response :=
  if (UrlQuery.parseQuery raw).2 = false then return (400, none)
  else match unmarshalInteraction (UrlQuery.get (UrlQuery.parseQuery raw).1 (lit "payload")) with
    | none => return (400, none)
    | some i => serveInteraction table dec app i

def serveHTTP (r : Request) : AppProg Res Response :=
  if r.method ≠ lit "POST" then return (405, none)
  else match r.body.readAll maxBody with
    | .error _ => return (413, none)
    | .ok raw => do
      if ← verify app (r.header.get (lit "X-Slack-Request-Timestamp"))
          (r.header.get (lit "X-Slack-Signature")) raw then servePayload table dec app raw
      else return (401, none)

/-- A request from its arrival to its answer. -/
def serve : AppProg Res (Option Outcome) := do
  let r ← effect .accept
  let response ← serveHTTP table dec app r
  effect (.respond response.1)
  return response.2

end Programs

end KiteRail.Slack
