import FirecrawlLb.Core.Bootstrap

/-!
# Dashboard authentication

What the calls of `DashboardAuthService` and its routes check before they write, and the errors they
answer with.  A call is given the settings row as the service reads it, and the session that its
cookie decodes to.  The rate limits, and the checks a route makes of a row it has read earlier, only
refuse more calls.
-/

namespace FirecrawlLb.DashboardAuth.Service

open FirecrawlLb.Lib FirecrawlLb.Python FirecrawlLb.Db.Models FirecrawlLb.Core.Totp
open FirecrawlLb.Core.Bootstrap FirecrawlLb.DashboardAuth.Repository

/-! ### Errors -/

/-- The answer to a refused call. -/
structure DashboardError where
  statusCode : ℕ
  message : String
  code : String
  deriving DecidableEq

/-- A call is refused, or ends with an exception that no route expects. -/
inductive Failure where
  | refused (error : DashboardError)
  | raised (exception : Raised)
  deriving DecidableEq

namespace Failure

/-- `DashboardAuthError` -/
def auth (message code : String) : Failure := .refused ⟨401, message, code⟩

def badRequest (message code : String) : Failure := .refused ⟨400, message, code⟩

def conflict (message code : String) : Failure := .refused ⟨409, message, code⟩

def validation (message code : String) : Failure := .refused ⟨422, message, code⟩

def passwordAlreadyConfigured : Failure :=
  conflict "Password is already configured" "password_already_configured"

def passwordNotConfigured : Failure :=
  badRequest "Password is not configured" "password_not_configured"

def invalidCredentials : Failure := auth "Invalid credentials" "invalid_credentials"

def passwordSessionRequired : Failure :=
  auth "Password-authenticated session is required" "authentication_required"

def totpSessionRequired : Failure :=
  auth "TOTP-verified session is required" "authentication_required"

def totpAlreadyConfigured : Failure :=
  badRequest "TOTP is already configured. Disable it before setting a new secret"
    "invalid_totp_setup"

def totpInvalidSetup : Failure := badRequest "Invalid TOTP setup payload" "invalid_totp_setup"

def totpNotConfigured : Failure := badRequest "TOTP is not configured" "invalid_totp_code"

def totpInvalidCode : Failure := badRequest "Invalid TOTP code" "invalid_totp_code"

end Failure

/-! ### Sessions -/

structure DashboardSessionState where
  expiresAt : ℤ
  passwordVerified : Bool
  totpVerified : Bool
  deriving DecidableEq

/-- `_require_active_password_session` -/
def requireActivePasswordSession (settings : DashboardSettings)
    (session : Option DashboardSessionState) : Except Failure Unit :=
  if settings.passwordHash.isSome && session.any (·.passwordVerified) then .ok ()
  else .error .passwordSessionRequired

/-- `_require_totp_verified_session` -/
def requireTotpVerifiedSession (settings : DashboardSettings)
    (session : Option DashboardSessionState) : Except Failure Unit := do
  requireActivePasswordSession settings session
  if session.any (·.totpVerified) then .ok () else .error .totpSessionRequired

/-- `_ensure_password_management_enabled` -/
def ensurePasswordManagementEnabled (env : Env) : Except Failure Unit :=
  if env.dashboardAuthMode = .disabled then
    .error (.badRequest
      "Password and TOTP management is disabled while dashboard auth is bypassed"
      "password_management_disabled")
  else .ok ()

/-- `_validate_password_management_session`, with the settings that the cache returns. -/
def validatePasswordManagementSession (env : Env) (cached : DashboardSettings)
    (session : Option DashboardSessionState) : Except Failure Unit := do
  ensurePasswordManagementEnabled env
  if !session.any (·.passwordVerified) then
    .error (.auth "Authentication is required" "authentication_required")
  else if cached.totpRequiredOnLogin && !session.any (·.totpVerified) then
    .error (.auth "TOTP verification is required for dashboard access" "totp_required")
  else .ok ()

/-! ### Passwords -/

/-- `_validate_password_length` -/
def validatePasswordLength (password : String) : Except Failure Unit :=
  if password.length < 8 then
    .error (.validation "Password must be at least 8 characters" "validation_error")
  else if 72 < password.utf8ByteSize then
    .error (.validation ("Password must be at most 72 bytes when encoded as UTF-8. " ++
      "Note that multi-byte characters (e.g. emoji, non-ASCII letters) count for more than one " ++
      "byte.") "password_too_long")
  else .ok ()

def verifyPassword (env : Env) (settings : DashboardSettings) (password : String) :
    Except Failure Unit :=
  match settings.passwordHash with
  | none => .error .passwordNotConfigured
  | some current =>
    if env.checkPassword password current then .ok () else .error .invalidCredentials

/-- A request of `POST /password/setup`, with the salt of the hash it writes. -/
structure PasswordSetup where
  isLocal : Bool
  /-- a trusted proxy vouches for the client -/
  proxyAuthenticated : Bool
  password : String
  bootstrapToken : Option String
  salt : ℕ
  deriving DecidableEq

/-- What `setup_password` checks first, and whether a bootstrap token has to be validated next. -/
def setupPasswordChecks (env : Env) (setup : PasswordSetup) (current : DashboardSettings) :
    Except Failure Bool :=
  if env.dashboardAuthMode = .disabled then
    .error (.badRequest "Password management is disabled while dashboard auth is bypassed"
      "password_management_disabled")
  else if env.dashboardAuthMode = .trustedHeader && !setup.proxyAuthenticated &&
      current.passwordHash.isNone then
    .error (.auth "Reverse proxy authentication is required" "proxy_auth_required")
  else .ok (current.passwordHash.isNone && env.dashboardAuthMode ≠ .trustedHeader && !setup.isLocal)

/-- What `setup_password` makes of the status of the submitted token. -/
def checkValidationStatus : ValidationStatus → Except Failure Unit
  | .unavailable =>
    .error (.auth ("Remote bootstrap is disabled until " ++
      "FIRECRAWL_LB_DASHBOARD_BOOTSTRAP_TOKEN is configured.") "bootstrap_unavailable")
  | .passwordAlreadyConfigured => .error .passwordAlreadyConfigured
  | .invalid => .error (.auth "Invalid dashboard bootstrap token." "invalid_bootstrap_token")
  | .valid => .ok ()

/-- What `login_password` checks. -/
def loginPassword (env : Env) (cached settings : DashboardSettings) (password : String) :
    Except Failure Unit :=
  if env.dashboardAuthMode = .disabled then
    .error (.badRequest "Password login is disabled while dashboard auth is bypassed"
      "password_management_disabled")
  else if cached.passwordHash.isNone then .error .passwordNotConfigured
  else verifyPassword env settings password

/-! ### One-time passwords -/

/-- What `confirm_totp_setup` checks; the step that the code matches. -/
def confirmTotpSetup (env : Env) (settings : DashboardSettings)
    (session : Option DashboardSessionState) (secret code : String) (now : ℤ) :
    Except Failure (Option ℤ) := do
  ensurePasswordManagementEnabled env
  requireActivePasswordSession settings session
  if settings.totpSecretEncrypted.isSome then .error .totpAlreadyConfigured
  else
    match verifyTotpCode env.totpAt secret code 1 now none with
    | .error .valueError => .error .totpInvalidSetup
    | .error e => .error (.raised e)
    | .ok verification =>
      if verification.isValid then .ok verification.matchedStep else .error .totpInvalidCode

/-- The step that a code matches, as `verify_totp` and `disable_totp` find it. -/
def matchTotpStep (env : Env) (settings : DashboardSettings) (code : String) (now : ℤ) :
    Except Failure ℤ :=
  match settings.totpSecretEncrypted with
  | none => .error .totpNotConfigured
  | some secretEncrypted =>
    match env.decrypt secretEncrypted with
    | none => .error (.raised .invalidToken)
    | some secret =>
      match verifyTotpCode env.totpAt secret code 1 now settings.totpLastVerifiedStep with
      | .error e => .error (.raised e)
      | .ok ⟨true, some matchedStep⟩ => .ok matchedStep
      | .ok _ => .error .totpInvalidCode

def verifyTotp (env : Env) (settings : DashboardSettings)
    (session : Option DashboardSessionState) (code : String) (now : ℤ) : Except Failure ℤ := do
  ensurePasswordManagementEnabled env
  requireActivePasswordSession settings session
  matchTotpStep env settings code now

def disableTotp (env : Env) (settings : DashboardSettings)
    (session : Option DashboardSessionState) (code : String) (now : ℤ) : Except Failure ℤ := do
  ensurePasswordManagementEnabled env
  requireTotpVerifiedSession settings session
  matchTotpStep env settings code now

end FirecrawlLb.DashboardAuth.Service
