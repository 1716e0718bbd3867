import FirecrawlLb.Core.RequestLocality
import FirecrawlLb.DashboardAuth.Sessions

/-!
# Access to the dashboard

`validate_dashboard_session` guards the routes of the dashboard; `GET /api/dashboard-auth/session`
tells the browser what to expect of it.  `Response.outcome` reads from that answer how a guarded
route will answer: the two agree exactly when no second factor is required without a password.
-/

namespace FirecrawlLb.DashboardAuth.Access

open FirecrawlLb.Lib FirecrawlLb.Python FirecrawlLb.Db.Models FirecrawlLb.Core
open FirecrawlLb.DashboardAuth
open FirecrawlLb.Core.ForwardedFor FirecrawlLb.Core.RequestLocality FirecrawlLb.Core.Bootstrap
open FirecrawlLb.DashboardAuth.Repository FirecrawlLb.DashboardAuth.Service
open FirecrawlLb.DashboardAuth.Sessions (seconds Tokens SessionFailure)

/-- The settings of the deployment that concern proxies. -/
structure ProxySettings extends RequestLocality.Settings where
  dashboardAuthProxyHeader : String

/-- A request, with the session cookie it carries. -/
structure Request extends RequestLocality.Request where
  sessionId : Option String

structure DashboardRequestAuth where
  mode : DashboardAuthMode
  actor : Option String := none
  deriving DecidableEq

/-- `_get_trusted_header_auth`: the proxy names the user. -/
def getTrustedHeaderAuth (settings : ProxySettings) (request : Request) :
    Option DashboardRequestAuth :=
  match nonEmpty request.clientHost with
  | none => none
  | some clientHost =>
    if !settings.firewallTrustProxyHeaders then none
    else if !isTrustedProxySource clientHost settings.firewallTrustedProxyNetworks then none
    else
      match request.headers.get (lower settings.dashboardAuthProxyHeader) with
      | none => none
      | some rawActor =>
        if strip rawActor = "" then none else some ⟨.trustedHeader, some (strip rawActor)⟩

/-- `get_dashboard_request_auth`: what lets a request in without a session. -/
def getDashboardRequestAuth (env : Env) (settings : ProxySettings) (request : Request) :
    Option DashboardRequestAuth :=
  match env.dashboardAuthMode with
  | .disabled => some { mode := .disabled }
  | .trustedHeader => getTrustedHeaderAuth settings request
  | .standard => none

/-! ### The guard -/

def needsSession : SessionFailure :=
  .failure (.auth "Authentication is required" "authentication_required")

def needsTotp : SessionFailure :=
  .failure (.auth "TOTP verification is required for dashboard access" "totp_required")

def needsProxy : SessionFailure :=
  .failure (.auth "Reverse proxy authentication is required" "proxy_auth_required")

def needsBootstrap : SessionFailure :=
  .failure (.auth "Remote bootstrap is required before dashboard access is allowed"
    "bootstrap_required")

/-- `bool(settings.password_hash)` -/
def hasPassword (row : DashboardSettings) : Bool := (nonEmpty row.passwordHash).isSome

/-- The checks of a session, where one is needed. -/
def checkSession (row : DashboardSettings) (session : Option DashboardSessionState) :
    Except SessionFailure Unit :=
  match session with
  | none => .error needsSession
  | some state =>
    if hasPassword row && !state.passwordVerified then .error needsSession
    else if row.totpRequiredOnLogin && !state.totpVerified then .error needsTotp
    else .ok ()

/-- `validate_dashboard_session`, with the settings row that the cache returns. -/
def validateDashboardSession (env : Env) (settings : ProxySettings) (tokens : Tokens)
    (row : DashboardSettings) (request : Request) (now : ℚ) : Except SessionFailure Unit :=
  let requiresAuth := hasPassword row || row.totpRequiredOnLogin
  if (getDashboardRequestAuth env settings request).isSome then .ok ()
  else if env.dashboardAuthMode = .trustedHeader && !requiresAuth then .error needsProxy
  else if !requiresAuth then
    if isLocalRequest settings.toSettings request.toRequest then .ok () else .error needsBootstrap
  else
    match Sessions.get tokens request.sessionId now with
    | none => .error .attributeError
    | some session => checkSession row session

/-! ### The session endpoint -/

structure DashboardAuthSessionResponse where
  authenticated : Bool
  passwordRequired : Bool
  totpRequiredOnLogin : Bool
  totpConfigured : Bool
  bootstrapRequired : Bool := false
  bootstrapTokenConfigured : Bool := false
  authMode : DashboardAuthMode := .standard
  passwordManagementEnabled : Bool := true
  passwordSessionActive : Bool := false
  deriving DecidableEq

/-- `password_management_enabled` -/
def passwordManagementEnabled (mode : DashboardAuthMode) : Bool := mode ≠ .disabled

/-- `DashboardAuthService.get_session_state` -/
def getSessionState (tokens : Tokens) (row : DashboardSettings) (sessionId : Option String)
    (now : ℚ) : Except SessionFailure DashboardAuthSessionResponse :=
  let passwordRequired := row.passwordHash.isSome
  let totpRequired := passwordRequired && row.totpRequiredOnLogin
  match if passwordRequired then Sessions.get tokens sessionId now else some none with
  | none => .error .attributeError
  | some state =>
    let passwordAuthenticated := state.any (·.passwordVerified)
    .ok {
      authenticated :=
        if !passwordRequired then true
        else if totpRequired then state.any fun s => s.passwordVerified && s.totpVerified
        else passwordAuthenticated
      passwordRequired := passwordRequired
      totpRequiredOnLogin := totpRequired && passwordAuthenticated
      totpConfigured := row.totpSecretEncrypted.isSome }

/-- `_decorate_session_response`, with the session that its cookie decodes to. -/
def decorateSessionResponse (env : Env) (requestAuth : Option DashboardRequestAuth)
    (session : Option DashboardSessionState) (forceAuthenticated : Bool)
    (response : DashboardAuthSessionResponse) : DashboardAuthSessionResponse :=
  let hasPwd := session.any (·.passwordVerified)
  let totpPending :=
    hasPwd && response.totpRequiredOnLogin && !session.any (·.totpVerified)
  let fullyAuthorized := hasPwd && !totpPending && response.passwordRequired
  match requestAuth with
  | none =>
    let authMode := env.dashboardAuthMode
    { response with
      authMode := authMode
      passwordManagementEnabled := passwordManagementEnabled authMode
      passwordSessionActive := fullyAuthorized
      authenticated :=
        if authMode = .trustedHeader && !response.passwordRequired && !response.totpRequiredOnLogin
        then false else response.authenticated }
  | some requestAuth =>
    { response with
      authenticated := forceAuthenticated || response.authenticated
      totpRequiredOnLogin := totpPending
      authMode := requestAuth.mode
      passwordManagementEnabled := passwordManagementEnabled requestAuth.mode
      passwordSessionActive := fullyAuthorized }

/-- `has_active_bootstrap_token` -/
def hasActiveBootstrapToken (env : Env) (row : DashboardSettings) : Bool :=
  (getManualBootstrapToken env).isSome ||
    (row.passwordHash.isNone && row.bootstrapTokenHash.isSome)

/-- What a remote client is told before there is a password. -/
def awaitingBootstrap (bootstrapTokenConfigured : Bool) (response : DashboardAuthSessionResponse) :
    DashboardAuthSessionResponse :=
  { response with
    authenticated := false
    bootstrapRequired := true
    bootstrapTokenConfigured := bootstrapTokenConfigured }

/-- `get_dashboard_auth_session`.  The clock is read twice, and the row is read again for the
bootstrap token, as `current`. -/
def getDashboardAuthSession (env : Env) (settings : ProxySettings) (tokens : Tokens)
    (row current : DashboardSettings) (request : Request) (now later : ℚ) :
    Except SessionFailure DashboardAuthSessionResponse := do
  let response ← getSessionState tokens row request.sessionId now
  let session ← (Sessions.get tokens request.sessionId later).elim (.error .attributeError) .ok
  let decorated :=
    decorateSessionResponse env (getDashboardRequestAuth env settings request) session true response
  if decorated.authMode ≠ .standard then return decorated
  else if decorated.passwordRequired || isLocalRequest settings.toSettings request.toRequest then
    return decorated
  else
    return awaitingBootstrap (hasActiveBootstrapToken env current) decorated

/-- How a guarded route will answer, as far as the session endpoint tells. -/
def DashboardAuthSessionResponse.outcome (response : DashboardAuthSessionResponse) :
    Except SessionFailure Unit :=
  if response.authenticated then .ok ()
  else if response.bootstrapRequired then .error needsBootstrap
  else if response.authMode = .trustedHeader && !response.passwordRequired then
    .error needsProxy
  else if response.totpRequiredOnLogin then .error needsTotp
  else .error needsSession

section Agreement

variable {env : Env} {settings : ProxySettings} {tokens : Tokens} {row current : DashboardSettings}
  {request : Request} {now later : ℚ} {response read : DashboardAuthSessionResponse}
  {auth : DashboardRequestAuth} {session : Option DashboardSessionState}

/-- What lets a request in without a session is the mode of the deployment. -/
theorem mode_of_requestAuth (h : getDashboardRequestAuth env settings request = some auth) :
    auth.mode = env.dashboardAuthMode ∧ auth.mode ≠ .standard := by
  unfold getDashboardRequestAuth at h
  split at h
  · rename_i hmode
    cases h
    exact ⟨hmode.symm, DashboardAuthMode.noConfusion⟩
  · rename_i hmode
    unfold getTrustedHeaderAuth at h
    repeat' split at h
    all_goals cases h
    exact ⟨hmode.symm, DashboardAuthMode.noConfusion⟩
  · cases h

theorem getDashboardAuthSession_eq_ok
    (h : getDashboardAuthSession env settings tokens row current request now later =
      .ok response) :
    ∃ read session, getSessionState tokens row request.sessionId now = .ok read ∧
      ∃ decorated,
        decorateSessionResponse env (getDashboardRequestAuth env settings request) session true
          read = decorated ∧
        response = if decorated.authMode ≠ .standard ∨ decorated.passwordRequired = true ∨
            isLocalRequest settings.toSettings request.toRequest = true then decorated
          else awaitingBootstrap (hasActiveBootstrapToken env current) decorated := by
  obtain ⟨read, hread, h⟩ := bind_eq_ok.1 h
  obtain ⟨session, -, h⟩ := bind_eq_ok.1 h
  refine ⟨read, session, hread, _, rfl, ?_⟩
  dsimp only at h
  split_ifs at h with hmode hopen
  · rw [if_pos (Or.inl hmode), pure_eq_ok.1 h]
  · rw [if_pos (Or.inr (by simpa using hopen)), pure_eq_ok.1 h]
  · rw [if_neg, pure_eq_ok.1 h]
    rintro (hmode' | hopen')
    · exact hmode hmode'
    · exact hopen (by simpa using hopen')

theorem outcome_of_requestAuth (hauth : getDashboardRequestAuth env settings request = some auth)
    (h : getDashboardAuthSession env settings tokens row current request now later =
      .ok response) : response.outcome = .ok () := by
  obtain ⟨read, session, -, decorated, rfl, rfl⟩ := getDashboardAuthSession_eq_ok h
  rw [hauth]
  have hmode : (decorateSessionResponse env (some auth) session true read).authMode ≠ .standard :=
    (mode_of_requestAuth hauth).2
  rw [if_pos (Or.inl hmode)]
  rfl

/-- Without a password and a second factor, only local requests are let in. -/
theorem outcome_of_open (hauth : getDashboardRequestAuth env settings request = none)
    (hpassword : row.passwordHash = none) (htotp : row.totpRequiredOnLogin = false)
    (h : getDashboardAuthSession env settings tokens row current request now later =
      .ok response) :
    validateDashboardSession env settings tokens row request now = response.outcome := by
  obtain ⟨read, session, hread, decorated, rfl, rfl⟩ := getDashboardAuthSession_eq_ok h
  simp only [getSessionState, hpassword] at hread
  obtain rfl := Except.ok.inj hread
  simp only [validateDashboardSession, hauth, hasPassword, hpassword, htotp,
    decorateSessionResponse]
  cases hmode : env.dashboardAuthMode with
  | disabled => simp [getDashboardRequestAuth, hmode] at hauth
  | trustedHeader => simp [DashboardAuthSessionResponse.outcome, nonEmpty]
  | standard =>
    cases hlocal : isLocalRequest settings.toSettings request.toRequest <;>
      simp [DashboardAuthSessionResponse.outcome, awaitingBootstrap, nonEmpty]

theorem outcome_of_password (hauth : getDashboardRequestAuth env settings request = none)
    {passwordHash : String} (hpassword : row.passwordHash = some passwordHash)
    (hne : passwordHash ≠ "")
    (h : getDashboardAuthSession env settings tokens row current request now later =
      .ok response) :
    validateDashboardSession env settings tokens row request now = response.outcome := by
  obtain ⟨read, session, hread, decorated, hdecorated, rfl⟩ := getDashboardAuthSession_eq_ok h
  have hhas : hasPassword row = true := by simp [hasPassword, nonEmpty, hpassword, hne]
  simp only [getSessionState, hpassword, Option.isSome_some, if_true] at hread
  split at hread
  · cases hread
  · rename_i state hstate
    obtain rfl := Except.ok.inj hread
    rw [hauth] at hdecorated
    have hrequired : decorated.passwordRequired = true := hdecorated ▸ rfl
    rw [if_pos (Or.inr (Or.inl hrequired))]
    subst hdecorated
    simp only [validateDashboardSession, hauth, hhas, hstate, decorateSessionResponse]
    rcases state with _ | ⟨expiresAt, passwordVerified, totpVerified⟩
    · cases row.totpRequiredOnLogin <;>
        simp [DashboardAuthSessionResponse.outcome, checkSession]
    · cases htotp : row.totpRequiredOnLogin <;> cases passwordVerified <;> cases totpVerified <;>
        simp [DashboardAuthSessionResponse.outcome, checkSession, htotp, hhas]

/-- **The session endpoint tells how a guarded route answers**, to every request and for every
settings row with a hash that is not empty, if and only if the deployment needs no session or no
second factor is required without a password. -/
theorem session_endpoint_agrees_iff (env : Env) (settings : ProxySettings) (tokens : Tokens)
    (row : DashboardSettings) (hhash : row.passwordHash ≠ some "") :
    (∀ current request now later response,
      getDashboardAuthSession env settings tokens row current request now later = .ok response →
        validateDashboardSession env settings tokens row request now = response.outcome) ↔
    (env.dashboardAuthMode = .disabled ∨
      (row.passwordHash = none → row.totpRequiredOnLogin = false)) := by
  constructor
  · intro hagree
    by_contra hnot
    obtain ⟨hmode, hpassword, htotp⟩ : env.dashboardAuthMode ≠ .disabled ∧
        row.passwordHash = none ∧ row.totpRequiredOnLogin = true := by simpa using hnot
    -- a local request without a session, which no proxy vouches for
    have hauth : getDashboardRequestAuth env settings ⟨⟨[], none, some "testserver"⟩, none⟩ =
        none := by
      cases hmode' : env.dashboardAuthMode <;>
        simp [getDashboardRequestAuth, hmode', getTrustedHeaderAuth, nonEmpty]
      exact hmode hmode'
    have hlocal : isLocalRequest settings.toSettings ⟨[], none, some "testserver"⟩ = true :=
      if_pos (by decide +kernel)
    have hguard : validateDashboardSession env settings tokens row
        ⟨⟨[], none, some "testserver"⟩, none⟩ 0 = .error needsSession := by
      simp [validateDashboardSession, hauth, htotp, Sessions.get, checkSession]
    obtain ⟨response, hresponse, houtcome⟩ : ∃ response,
        getDashboardAuthSession env settings tokens row row
          ⟨⟨[], none, some "testserver"⟩, none⟩ 0 0 = .ok response ∧
        response.outcome ≠ .error needsSession := by
      cases hmode' : env.dashboardAuthMode with
      | disabled => exact absurd hmode' hmode
      | standard =>
        refine ⟨_, by simp [getDashboardAuthSession, getSessionState, hpassword, Sessions.get,
          decorateSessionResponse, hauth, hmode', hlocal]; rfl, ?_⟩
        simp [DashboardAuthSessionResponse.outcome]
      | trustedHeader =>
        refine ⟨_, by simp [getDashboardAuthSession, getSessionState, hpassword, Sessions.get,
          decorateSessionResponse, hauth, hmode']; rfl, ?_⟩
        simp [DashboardAuthSessionResponse.outcome, needsProxy, needsSession, Failure.auth]
    exact houtcome ((hagree row _ 0 0 response hresponse).symm.trans hguard)
  · intro hcondition current request now later response h
    cases hauth : getDashboardRequestAuth env settings request with
    | some auth =>
      rw [outcome_of_requestAuth hauth h]
      simp [validateDashboardSession, hauth]
    | none =>
      cases hpassword : row.passwordHash with
      | some passwordHash =>
        exact outcome_of_password hauth hpassword (fun hempty => hhash (hempty ▸ hpassword)) h
      | none =>
        rcases hcondition with hdisabled | htotp
        · simp [getDashboardRequestAuth, hdisabled] at hauth
        · exact outcome_of_open hauth hpassword (htotp hpassword) h

/-- A password with a second factor. -/
theorem session_endpoint_agrees_sample :
    let row : DashboardSettings := { passwordHash := some "password", totpRequiredOnLogin := true }
    ∀ current request now later response,
      getDashboardAuthSession System.sampleEnv ⟨⟨false, []⟩, "remote-user"⟩ Sessions.sampleTokens
        row current request now later = .ok response →
      validateDashboardSession System.sampleEnv ⟨⟨false, []⟩, "remote-user"⟩
        Sessions.sampleTokens row request now = response.outcome :=
  (session_endpoint_agrees_iff _ _ _ _ (by decide)).2 (Or.inr fun hnone => by cases hnone)

end Agreement

end FirecrawlLb.DashboardAuth.Access
