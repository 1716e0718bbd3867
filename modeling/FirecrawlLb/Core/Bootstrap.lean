import FirecrawlLb.DashboardAuth.Repository

/-!
# The bootstrap token

A client that is not local sets the first password with a bootstrap token: the one the deployment
configures, or else one that a replica generates, whose hash is in the settings row.
-/

namespace FirecrawlLb.Core.Bootstrap

open FirecrawlLb.Python FirecrawlLb.Db.Models FirecrawlLb.DashboardAuth.Repository

/-- What `get_bootstrap_validation_status` returns. -/
inductive ValidationStatus where
  | valid
  | invalid
  | unavailable
  | passwordAlreadyConfigured
  deriving DecidableEq

/-- `_get_manual_bootstrap_token` -/
def getManualBootstrapToken (env : Env) : Option String :=
  let manual := strip (env.dashboardBootstrapToken.getD "")
  if manual = "" then none else some manual

/-- `get_bootstrap_validation_status`; the settings are read only without a configured token. -/
def getBootstrapValidationStatus (env : Env) (settings : DashboardSettings)
    (submittedToken : String) : ValidationStatus :=
  match getManualBootstrapToken env with
  | some manual => if submittedToken = manual then .valid else .invalid
  | none =>
    match settings.bootstrapTokenHash with
    | none => if settings.passwordHash.isSome then .passwordAlreadyConfigured else .unavailable
    | some tokenHash =>
      if env.sha256 submittedToken = tokenHash then .valid
      else if settings.passwordHash.isSome then .passwordAlreadyConfigured
      else .invalid

/-- What a replica draws at random: a token, and the nonce of its encryption. -/
structure GeneratedToken where
  token : String
  nonce : ℕ
  deriving DecidableEq

/-- How `ensure_auto_bootstrap_token` goes on from the settings it has read. -/
inductive Ensured where
  | clear
  | store
  | token (token : Option String)
  deriving DecidableEq

/-- `ensure_auto_bootstrap_token`, up to the `UPDATE` it may end with. -/
def ensureAutoBootstrapToken (env : Env) (settings : DashboardSettings) : Ensured :=
  if (getManualBootstrapToken env).isSome || settings.passwordHash.isSome then
    if settings.bootstrapTokenHash.isSome then .clear else .token none
  else if settings.bootstrapTokenHash.isSome then
    .token (settings.bootstrapTokenEncrypted.bind env.decrypt)
  else .store

end FirecrawlLb.Core.Bootstrap
