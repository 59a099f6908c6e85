import KiteRail.GoError
import KiteRail.GoStrings

namespace KiteRail.Startup
open Bytes GoStrings

/-- A map from bearer tokens to the IDs of their owners. -/
abbrev Keys := AList fun _ : Bytes => Bytes

/-- Durations are in nanoseconds. -/
structure OIDCConfig where
  issuer : Bytes
  clientID : Bytes
  clientSecret : Bytes
  redirectURL : Bytes
  providerName : Bytes
  groupsClaim : Bytes
  identityClaim : Bytes
  scopes : List Bytes
  reviewerGroups : List Bytes
  adminGroups : List Bytes
  sessionTTL : ℤ
  sessionIdleTTL : ℤ
  cookieSameSite : Bytes

structure NotifyConfig where
  slackWebhookURL : Bytes
  webhookURL : Bytes
  webhookSecret : Bytes

structure SlackConfig where
  botToken : Bytes
  signingSecret : Bytes
  channelID : Bytes
  teamID : Bytes
  reviewers : List Bytes

structure Config where
  targetURL : Bytes
  postgresDSN : Bytes
  logLevel : Bytes
  apiKeys : Keys
  reviewerAPIKeys : Keys
  adminAPIKeys : Keys
  allowedOrigins : List Bytes
  environment : Bytes
  readTimeout : ℤ
  readHeaderTimeout : ℤ
  writeTimeout : ℤ
  idleTimeout : ℤ
  shutdownDrainDelay : ℤ
  maxRequestBodyBytes : ℤ
  pgMaxOpenConns : ℤ
  tlsCertFile : Bytes
  tlsKeyFile : Bytes
  tlsTerminatedUpstream : Bool
  policyReloadInterval : ℤ
  oidc : OIDCConfig
  consoleURL : Bytes
  notify : NotifyConfig
  slack : SlackConfig

/-- What the checks use beside the configuration: the case tables, `url.Parse` as far as
the scheme and the host, the variable that allows development credentials, and the orders
of the ranges over maps. -/
structure Setting where
  table : CaseTable
  parseURL : Bytes → Option (Bytes × Bytes)
  allowDevCredentials : Bytes
  order : MapOrder

def OIDCConfig.enabled (o : OIDCConfig) : Bool := o.issuer != []

/-- Cookies are secure if the provider redirects back over https. -/
def OIDCConfig.secureCookies (o : OIDCConfig) : Bool := (lit "https://").isPrefixOf o.redirectURL

def OIDCConfig.anySet (o : OIDCConfig) : Bool :=
  o.issuer != [] || o.clientID != [] || o.clientSecret != [] || o.redirectURL != [] ||
    !o.reviewerGroups.isEmpty || !o.adminGroups.isEmpty

def SlackConfig.enabled (s : SlackConfig) : Bool := s.botToken != []

def SlackConfig.anySet (s : SlackConfig) : Bool :=
  s.botToken != [] || s.signingSecret != [] || s.channelID != [] || s.teamID != [] ||
    !s.reviewers.isEmpty

def Config.production (c : Config) : Bool := c.environment == lit "production"

/-- `if bad { return err }`. -/
def failIf (bad : Bool) (m : Message) : Except Message Unit := if bad then .error m else .ok ()

def emDash : Bytes := [0xE2, 0x80, 0x94]

def minProductionTokenBytes : ℕ := 24

section Checks
variable (env : Setting) (c : Config)

def isHttp (scheme : Bytes) : Bool := scheme == lit "http" || scheme == lit "https"

/-- The text does not parse, is no http(s) URL or has no host. -/
def notAbsolute (raw : Bytes) : Bool :=
  match env.parseURL raw with
  | none => true
  | some (scheme, host) => !isHttp scheme || host == []

def notHttps (raw : Bytes) : Bool :=
  match env.parseURL raw with
  | none => true
  | some (scheme, _) => scheme != lit "https"

/-- The check of one URL setting; `label` is its name in the messages. -/
def checkURL (label raw : Bytes) : Except Message Unit := do
  failIf (notAbsolute env raw) [.text (label ++ lit " must be an absolute http(s) URL")]
  failIf (c.production && notHttps env raw) [.text (label ++ lit " must use https in production")]

def checkSameSite (o : OIDCConfig) : Except Message Unit :=
  let sameSite := toLower env.table o.cookieSameSite
  if sameSite == [] || sameSite == lit "lax" || sameSite == lit "strict" then .ok ()
  else if sameSite == lit "none" then
    failIf (!o.secureCookies) (msg "oidc: cookie_same_site none requires an https redirect_url")
  else .error (msg "oidc: cookie_same_site must be lax, strict, or none")

def validateOIDC : Except Message Unit :=
  let o := c.oidc
  if !o.anySet then .ok ()
  else do
    failIf (!o.enabled) (msg "oidc: issuer must be set when any other oidc setting is")
    failIf (o.clientID == [] || o.clientSecret == [] || o.redirectURL == [])
      (msg ("oidc: client_id, client secret (ELODEA_OIDC_CLIENT_SECRET or _FILE), " ++
        "and redirect_url are required"))
    (env.order.visit 0 [(lit "issuer", o.issuer), (lit "redirect_url", o.redirectURL)]).forM
      fun p => checkURL env c (lit "oidc: " ++ p.1) p.2
    failIf (o.reviewerGroups.length + o.adminGroups.length == 0)
      (msg ("oidc: set reviewer_groups and/or admin_groups; " ++
        "without them no one can be given a role"))
    checkSameSite env o
    failIf (!c.allowedOrigins.any fun origin => origin != lit "*" && origin != [])
      (msg ("oidc: allowed_origins must list the console's origin; " ++
        "sign-in only returns to an allowed origin"))

def validateNotify : Except Message Unit := do
  (env.order.visit 1 [(lit "console_url", c.consoleURL),
      (lit "notify slack webhook url", c.notify.slackWebhookURL),
      (lit "notify.webhook_url", c.notify.webhookURL)]).forM
    fun p => if p.2 == [] then .ok () else checkURL env c p.1 p.2
  failIf (c.production && c.notify.webhookURL != [] &&
      decide (c.notify.webhookSecret.length < minProductionTokenBytes))
    [.text (lit "notify.webhook_url requires ELODEA_NOTIFY_WEBHOOK_SECRET of at least " ++
      decimalNat minProductionTokenBytes ++
      lit " bytes in production, so receivers can verify events")]

def ids (keys : Keys) : List Bytes := keys.entries.map Sigma.snd

/-- One entry of `slack.reviewers`, as it is written, against the agents' IDs. -/
def checkReviewer (agentIDs : List Bytes) (r : Bytes) : Except Message Unit := do
  failIf (!r.contains 64) [.text (lit "slack: reviewer "), .quoted r,
    .text (lit " is not an email address")]
  failIf (agentIDs.contains (toLower env.table r)) [.text (lit "slack: "), .quoted r,
    .text (lit (" is configured as both an agent and a reviewer; " ++
      "separation of duties requires distinct identities"))]

def validateSlack : Except Message Unit :=
  let s := c.slack
  if !s.anySet then .ok ()
  else do
    failIf (s.botToken == [] || s.signingSecret == [] || s.channelID == [])
      (msg "slack: bot token, signing secret, and channel_id are all required")
    failIf s.reviewers.isEmpty
      (msg "slack: set reviewers (the emails allowed to approve or deny from Slack)")
    let agentIDs := (env.order.visit 2 (ids c.apiKeys)).map (toLower env.table)
    s.reviewers.forM (checkReviewer env agentIDs)
    failIf (c.production && s.teamID == [])
      (msg ("slack: team_id is required in production, " ++
        "so only your workspace can approve actions"))

/-- `seen` after the tokens of one role, unless one of them is in it already. -/
def claimKeys (role : Bytes) : List (Bytes × Bytes) → List (Bytes × Bytes) →
    Except Message (List (Bytes × Bytes))
  | seen, [] => .ok seen
  | seen, (tok, id) :: keys =>
    match seen.lookup tok with
    | some owner => .error [.text (role ++ lit " key for " ++ id ++ lit " duplicates " ++ owner ++
        lit " " ++ emDash ++ lit " trust domains must not share credentials")]
    | none => claimKeys role ((tok, role ++ lit ":" ++ id) :: seen) keys

def pairs (keys : Keys) : List (Bytes × Bytes) := keys.entries.map fun k => (k.1, k.2)

/-- No token of a reviewer or admin belongs to anyone else. -/
def checkTokens : Except Message Unit := do
  let seen := (env.order.visit 3 (pairs c.apiKeys)).map fun k => (k.1, lit "agent:" ++ k.2)
  let roles := [(lit "reviewer", c.reviewerAPIKeys), (lit "admin", c.adminAPIKeys)]
  let _ ← (env.order.visit 4 roles).foldlM
    (fun seen role => claimKeys role.1 seen (env.order.visit 5 (pairs role.2))) seen
  return ()

/-- No ID of a reviewer or admin is that of an agent. -/
def checkDuties : Except Message Unit :=
  let agentIDs := env.order.visit 6 (ids c.apiKeys)
  [c.reviewerAPIKeys, c.adminAPIKeys].forM fun keys =>
    (env.order.visit 7 (ids keys)).forM fun id =>
      failIf (agentIDs.contains id) [.text (lit "identity "), .quoted id,
        .text (lit " is configured as both an agent and a reviewer/admin " ++ emDash ++
          lit " separation of duties requires distinct identities")]

/-- In production, unless development credentials are allowed. -/
def checkProduction : Except Message Unit :=
  if !(c.production && env.allowDevCredentials != lit "1") then .ok ()
  else do
    failIf (decide (lit "sslmode=disable" <:+: c.postgresDSN ∧ lit "localhost" <:+: c.postgresDSN))
      (msg ("refusing production start with local/no-TLS postgres DSN; " ++
        "set ELODEA_ALLOW_DEV_CREDENTIALS=1 to override"))
    (env.order.visit 8 (pairs c.apiKeys)).forM fun k =>
      failIf ((lit "sk_dev_").isPrefixOf k.1)
        (msg ("refusing production start with development credential prefix sk_dev_; " ++
          "set ELODEA_ALLOW_DEV_CREDENTIALS=1 to override"))
    [c.apiKeys, c.reviewerAPIKeys, c.adminAPIKeys].forM fun keys =>
      (env.order.visit 9 (pairs keys)).forM fun k =>
        failIf (decide (k.1.length < minProductionTokenBytes)) [.text (lit "token for "),
          .quoted k.2, .text (lit " is shorter than " ++ decimalNat minProductionTokenBytes ++
            lit " bytes; use a high-entropy secret in production")]
    failIf ((c.tlsCertFile == [] || c.tlsKeyFile == []) && !c.tlsTerminatedUpstream)
      (msg ("production requires tls_cert_file/tls_key_file, or tls_terminated_upstream: true " ++
        "when TLS is terminated in front of Elodea"))

end Checks

def second : ℤ := 1000000000

def orDefault (value fallback : ℤ) : ℤ := if value ≤ 0 then fallback else value

/-- The settings of the server, with defaults for those that are not positive. -/
def Config.withDefaults (c : Config) : Config :=
  { c with
    maxRequestBodyBytes := orDefault c.maxRequestBodyBytes (2 ^ 20)
    readTimeout := orDefault c.readTimeout (10 * second)
    readHeaderTimeout := orDefault c.readHeaderTimeout (5 * second)
    writeTimeout := orDefault c.writeTimeout (30 * second)
    idleTimeout := orDefault c.idleTimeout (120 * second)
    shutdownDrainDelay := orDefault c.shutdownDrainDelay (5 * second) }

/-- The settings of single sign-on, completed if it is configured. -/
def OIDCConfig.withDefaults (o : OIDCConfig) : Except Message OIDCConfig :=
  if !o.enabled then .ok o
  else do
    let ttl := orDefault o.sessionTTL (8 * 3600 * second)
    let idle := orDefault o.sessionIdleTTL (3600 * second)
    failIf (decide (idle > ttl)) (msg "session_idle_ttl must not exceed session_ttl")
    let scopes := if o.scopes.isEmpty then [lit "openid", lit "email", lit "profile"] else o.scopes
    return { o with
      groupsClaim := if o.groupsClaim == [] then lit "groups" else o.groupsClaim
      identityClaim := if o.identityClaim == [] then lit "email" else o.identityClaim
      sessionTTL := ttl
      sessionIdleTTL := idle
      providerName := if o.providerName == [] then lit "SSO" else o.providerName
      scopes := if scopes.contains (lit "openid") then scopes else lit "openid" :: scopes }

/-- The end of `Validate`: the defaults, and the checks made after they are set. -/
def complete (c : Config) : Except Message Config := do
  let oidc ← c.oidc.withDefaults
  failIf (decide (0 < c.pgMaxOpenConns ∧ c.pgMaxOpenConns < 2))
    (msg ("pg_max_open_conns must be at least 2: the replay advisory-lock connection " ++
      "must not starve normal database work"))
  return { c.withDefaults with oidc := oidc }

def logLevels : List Bytes := [[], lit "debug", lit "info", lit "warn", lit "error"]

/-- The configuration with its defaults, if it is safe to run. -/
def validate (env : Setting) (c : Config) : Except Message Config := do
  failIf (c.targetURL == []) (msg "target_url must be set")
  failIf (notAbsolute env c.targetURL) (msg "target_url must be an absolute http(s) URL")
  failIf (!(logLevels.contains (toLower env.table c.logLevel)))
    (msg "log_level must be one of debug, info, warn, error")
  failIf (decide (c.policyReloadInterval < 0)) (msg "policy_reload_interval must not be negative")
  failIf (c.apiKeys.entries.length == 0) (msg "at least one agent api key must be configured")
  failIf (c.reviewerAPIKeys.entries.length + c.adminAPIKeys.entries.length == 0 &&
      !c.oidc.enabled)
    [.text (lit "at least one reviewer or admin key, or SSO (oidc), must be configured " ++
      emDash ++ lit " agents must not be able to approve their own quarantined actions")]
  validateOIDC env c
  validateNotify env c
  validateSlack env c
  checkTokens env c
  checkDuties env c
  failIf (c.production && c.allowedOrigins.contains (lit "*"))
    (msg "production must not use wildcard allowed_origins")
  checkProduction env c
  complete c

section Rules
variable {ε α : Type}

@[simp] lemma failIf_eq_ok {bad : Bool} {m : Message} : failIf bad m = .ok () ↔ bad = false := by
  cases bad <;> simp [failIf]

lemma seq_eq_ok {x : Except ε Unit} {y : Except ε α} {a : α} :
    (x >>= fun _ => y) = .ok a ↔ x = .ok () ∧ y = .ok a := by
  cases x with
  | error e => simp [bind, Except.bind]
  | ok u => simp [bind, Except.bind]

lemma forM_eq_ok {β : Type} {l : List β} {f : β → Except ε Unit} :
    l.forM f = .ok () ↔ ∀ b ∈ l, f b = .ok () := by
  induction l with
  | nil => simp [pure, Except.pure]
  | cons b l ih =>
    have hcons : (b :: l).forM f = f b >>= fun _ => l.forM f := rfl
    rw [hcons, seq_eq_ok, ih, List.forall_mem_cons]

end Rules

end KiteRail.Startup
