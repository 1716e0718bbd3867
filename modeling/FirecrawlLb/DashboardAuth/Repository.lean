import FirecrawlLb.Core.Totp
import FirecrawlLb.Db.Models

/-!
# The dashboard settings row

The methods of `DashboardAuthRepository`.  Some change an object that was loaded, and a commit
writes its changed columns later; the others are one conditional `UPDATE` and change the row at
once, if it still meets the condition.  A missing row is inserted with its defaults before it is
read, so the methods always find one.
-/

namespace FirecrawlLb.DashboardAuth.Repository

open FirecrawlLb.Lib FirecrawlLb.Db.Models

inductive DashboardAuthMode where
  | standard
  | trustedHeader
  | disabled
  deriving DecidableEq

/-- The deployment's settings, and what bcrypt, Fernet, SHA-256 and the TOTP library compute.  A
salt or a nonce stands for what a call draws at random. -/
structure Env where
  dashboardAuthMode : DashboardAuthMode
  dashboardBootstrapToken : Option String
  /-- `bcrypt.hashpw`; none when it raises -/
  hashPassword : ℕ → String → Option String
  checkPassword : String → String → Bool
  encrypt : ℕ → String → List UInt8
  decrypt : List UInt8 → Option String
  sha256 : String → List UInt8
  totpAt : String → ℤ → String

/-! ### Methods that change a loaded object -/

def setTotpSecret (secretEncrypted : Option (List UInt8)) (row : DashboardSettings) :
    DashboardSettings :=
  let row := { row with totpSecretEncrypted := secretEncrypted, totpLastVerifiedStep := none }
  if secretEncrypted = none then { row with totpRequiredOnLogin := false } else row

def setPasswordHash (passwordHash : String) (row : DashboardSettings) : DashboardSettings :=
  { row with
    passwordHash := some passwordHash
    bootstrapTokenEncrypted := none
    bootstrapTokenHash := none }

def clearPasswordAndTotp (row : DashboardSettings) : DashboardSettings :=
  { row with
    passwordHash := none
    bootstrapTokenEncrypted := none
    bootstrapTokenHash := none
    totpRequiredOnLogin := false
    totpSecretEncrypted := none
    totpLastVerifiedStep := none }

/-! ### Conditional updates -/

section Updates

variable (row : DashboardSettings)

/-- The row after `try_set_password_hash`; none when the condition fails. -/
def trySetPasswordHash (passwordHash : String) : Option DashboardSettings :=
  if row.passwordHash = none then some (setPasswordHash passwordHash row) else none

def storeBootstrapTokenIfAbsent (tokenEncrypted tokenHash : List UInt8) :
    Option DashboardSettings :=
  if row.passwordHash = none ∧ row.bootstrapTokenHash = none then
    some { row with
      bootstrapTokenEncrypted := some tokenEncrypted
      bootstrapTokenHash := some tokenHash }
  else none

def clearBootstrapToken : Option DashboardSettings :=
  if row.bootstrapTokenHash ≠ none then
    some { row with bootstrapTokenEncrypted := none, bootstrapTokenHash := none }
  else none

def tryAdvanceTotpLastVerifiedStep (step : ℤ) : Option DashboardSettings :=
  if ∀ last ∈ row.totpLastVerifiedStep, last < step then
    some { row with totpLastVerifiedStep := some step }
  else none

end Updates

section Rules

variable {row row' : DashboardSettings} {step : ℤ}

theorem trySetPasswordHash_eq_some {passwordHash : String} :
    trySetPasswordHash row passwordHash = some row' ↔
      row.passwordHash = none ∧ row' = setPasswordHash passwordHash row := by
  simp [trySetPasswordHash, eq_comm]

theorem storeBootstrapTokenIfAbsent_eq_some {tokenEncrypted tokenHash : List UInt8} :
    storeBootstrapTokenIfAbsent row tokenEncrypted tokenHash = some row' ↔
      (row.passwordHash = none ∧ row.bootstrapTokenHash = none) ∧ row' = { row with
        bootstrapTokenEncrypted := some tokenEncrypted, bootstrapTokenHash := some tokenHash } := by
  simp [storeBootstrapTokenIfAbsent, eq_comm]

theorem getD_clearBootstrapToken (row : DashboardSettings) :
    (clearBootstrapToken row).getD row = row ∨ (clearBootstrapToken row).getD row =
      { row with bootstrapTokenEncrypted := none, bootstrapTokenHash := none } := by
  unfold clearBootstrapToken
  split_ifs
  · exact Or.inr rfl
  · exact Or.inl rfl

theorem tryAdvance_eq_some : tryAdvanceTotpLastVerifiedStep row step = some row' ↔
    (∀ last ∈ row.totpLastVerifiedStep, last < step) ∧
      row' = { row with totpLastVerifiedStep := some step } := by
  simp [tryAdvanceTotpLastVerifiedStep, eq_comm]

end Rules

end FirecrawlLb.DashboardAuth.Repository
