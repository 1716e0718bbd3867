import FirecrawlLb.DashboardAuth.Service
import FirecrawlLb.Lib.Tasks

/-!
# The dashboard settings under concurrent calls

Calls of the dashboard and starting replicas run as tasks over the settings row.  A task stops
between any two accesses of the row: a call checks the row it has read, and writes it later.
-/

namespace FirecrawlLb.DashboardAuth.System

open FirecrawlLb.Lib FirecrawlLb.Lib.Tasks FirecrawlLb.Python FirecrawlLb.Db.Models
open FirecrawlLb.Core.Bootstrap FirecrawlLb.DashboardAuth.Repository
open FirecrawlLb.DashboardAuth.Service

/-- A call of `verify_totp` or `disable_totp`, and the clock when it checks the code. -/
structure TotpCall where
  disables : Bool
  session : Option DashboardSessionState
  code : String
  now : ℤ
  deriving DecidableEq

/-- A call of the dashboard, or the start of a replica. -/
inductive Request where
  | setupPassword (setup : PasswordSetup)
  | loginPassword (cached : DashboardSettings) (password : String)
  | changePassword (cached : DashboardSettings) (session : Option DashboardSessionState)
      (currentPassword newPassword : String) (salt : ℕ)
  | removePassword (cached : DashboardSettings) (session : Option DashboardSessionState)
      (password : String) (generated : GeneratedToken)
  | ensureAutoBootstrapToken (generated : GeneratedToken)
  | confirmTotpSetup (session : Option DashboardSessionState) (secret code : String) (now : ℤ)
      (nonce : ℕ)
  | totp (call : TotpCall)

/-- What a call assigns to the object it has loaded. -/
inductive SettingsWrite where
  | changePassword (passwordHash : String)
  | removePassword (generated : GeneratedToken)
  | confirmTotpSetup (secretEncrypted : List UInt8) (matchedStep : Option ℤ)
  | disableTotp
  deriving DecidableEq

namespace SettingsWrite

def apply : SettingsWrite → DashboardSettings → DashboardSettings
  | .changePassword passwordHash => setPasswordHash passwordHash
  | .removePassword _ => clearPasswordAndTotp
  | .confirmTotpSetup secretEncrypted _ => setTotpSecret (some secretEncrypted)
  | .disableTotp => setTotpSecret none

end SettingsWrite

/-- Where a call is. -/
inductive Task where
  /-- The setup waits for the status of its bootstrap token. -/
  | validating (setup : PasswordSetup) (current : DashboardSettings)
  /-- The setup has passed its checks; `try_set_password_hash` is next. -/
  | settingPassword (setup : PasswordSetup) (current : DashboardSettings)
      (validationStatus : Option ValidationStatus)
  /-- The setup has written the password. -/
  | passwordSet (setup : PasswordSetup) (validationStatus : Option ValidationStatus)
  /-- The password is verified, and the row is loaded next. -/
  | loading (write : SettingsWrite)
  | committing (o : Loaded DashboardSettings) (write : SettingsWrite)
  /-- The settings are read next, to offer a bootstrap token. -/
  | bootstrapping (generated : GeneratedToken)
  | clearingToken
  | storingToken (generated : GeneratedToken)
  /-- The code has matched a step; `try_advance_totp_last_verified_step` is next. -/
  | advancing (call : TotpCall) (settings : DashboardSettings) (matchedStep : ℤ)
  /-- The call has returned; a start of a replica returns the token it offers. -/
  | returned (token : Option String)
  | ended (failure : Failure)
  | failed

/-- What lets a task go on. -/
inductive Action where
  | resume
  /-- the database fails, or the caller goes away -/
  | fail
  deriving DecidableEq

/-- A call goes on after a check, or ends with its failure. -/
def after {α : Type} (check : Except Failure α) (next : α → Task) : Task :=
  match check with
  | .ok a => next a
  | .error failure => .ended failure

/-- The rest of `setup_password` up to its `UPDATE`. -/
def settingPassword (setup : PasswordSetup) (current : DashboardSettings)
    (validationStatus : Option ValidationStatus) : Task :=
  after (validatePasswordLength (strip setup.password)) fun _ =>
    .settingPassword setup current validationStatus

/-- The hash that `_hash_password` returns. -/
def hashPassword (env : Env) (salt : ℕ) (password : String) : Except Failure String :=
  match env.hashPassword salt password with
  | some passwordHash => .ok passwordHash
  | none => .error (.raised .valueError)

/-- A task up to its first await after it has read the row. -/
def spawn (env : Env) (row : DashboardSettings) : Request → Task
  | .setupPassword setup =>
    after (setupPasswordChecks env setup row) fun needsToken =>
      if needsToken then .validating setup row else settingPassword setup row none
  | .loginPassword cached password =>
    after (loginPassword env cached row password) fun _ => .returned none
  | .changePassword cached session currentPassword newPassword salt =>
    after (do
      validatePasswordManagementSession env cached session
      validatePasswordLength (strip newPassword)
      verifyPassword env row currentPassword
      hashPassword env salt (strip newPassword)) fun passwordHash =>
        .loading (.changePassword passwordHash)
  | .removePassword cached session password generated =>
    after (do
      validatePasswordManagementSession env cached session
      verifyPassword env row password) fun _ => .loading (.removePassword generated)
  | .ensureAutoBootstrapToken generated => .bootstrapping generated
  | .confirmTotpSetup session secret code now nonce =>
    after (confirmTotpSetup env row session secret code now) fun matchedStep =>
      let write := .confirmTotpSetup (env.encrypt nonce secret) matchedStep
      .committing ⟨row, write.apply row⟩ write
  | .totp call =>
    after (if call.disables then disableTotp env row call.session call.code call.now
      else verifyTotp env row call.session call.code call.now) fun matchedStep =>
        .advancing call row matchedStep

/-- What follows a commit. -/
def committed : SettingsWrite → Task
  | .removePassword generated => .bootstrapping generated
  | _ => .returned none

/-- What follows an advance.  The `UPDATE` has set the step of the loaded settings too. -/
def advanced (call : TotpCall) (settings : DashboardSettings) (matchedStep : ℤ) : Task :=
  if call.disables then
    let settings := { settings with totpLastVerifiedStep := some matchedStep }
    .committing ⟨settings, SettingsWrite.disableTotp.apply settings⟩ .disableTotp
  else .returned none

/-- A task up to its next await. -/
def resume (env : Env) (row : DashboardSettings) : Task → Option (DashboardSettings × Task)
  | .validating setup current =>
    let validationStatus :=
      getBootstrapValidationStatus env row (strip (setup.bootstrapToken.getD ""))
    some (row, after (checkValidationStatus validationStatus) fun _ =>
      settingPassword setup current (some validationStatus))
  | .settingPassword setup _ validationStatus =>
    match hashPassword env setup.salt (strip setup.password) with
    | .error failure => some (row, .ended failure)
    | .ok passwordHash =>
      match trySetPasswordHash row passwordHash with
      | some row' => some (row', .passwordSet setup validationStatus)
      | none => some (row, .ended .passwordAlreadyConfigured)
  | .loading write => some (row, .committing ⟨row, write.apply row⟩ write)
  | .committing o write => some (row.flush o, committed write)
  | .bootstrapping generated =>
    match ensureAutoBootstrapToken env row with
    | .clear => some (row, .clearingToken)
    | .store => some (row, .storingToken generated)
    | .token token => some (row, .returned token)
  | .clearingToken => some ((clearBootstrapToken row).getD row, .returned none)
  | .storingToken generated =>
    match storeBootstrapTokenIfAbsent row (env.encrypt generated.nonce generated.token)
        (env.sha256 generated.token) with
    | some row' => some (row', .returned (some generated.token))
    | none => some (row, .returned none)
  | .advancing call settings matchedStep =>
    match tryAdvanceTotpLastVerifiedStep row matchedStep with
    | some row' => some (row', advanced call settings matchedStep)
    | none => some (row, .ended .totpInvalidCode)
  | .passwordSet _ _ | .returned _ | .ended _ | .failed => none

/-- One step of a task; the steps of a task that has ended are none. -/
def act (env : Env) (row : DashboardSettings) (t : Task) :
    Action → Option (DashboardSettings × Task)
  | .resume => resume env row t
  | .fail => (resume env row t).map fun _ => (row, .failed)

def program (env : Env) : Program DashboardSettings Task Request Action where
  spawn := spawn env
  act := act env

abbrev State := Pool DashboardSettings Task

abbrev Event := Move Request Action

/-- One step of the system. -/
def step (env : Env) : State → Event → Option State := (program env).step

/-! ### What a step can do -/

/-- **How tasks start**, one rule for each request. -/
inductive Starts (env : Env) (row : DashboardSettings) : Request → Task → Prop
  | validate {setup} (h : setupPasswordChecks env setup row = .ok true) :
      Starts env row (.setupPassword setup) (.validating setup row)
  | setPassword {setup} (h : setupPasswordChecks env setup row = .ok false) :
      Starts env row (.setupPassword setup) (.settingPassword setup row none)
  | login {cached password} (h : loginPassword env cached row password = .ok ()) :
      Starts env row (.loginPassword cached password) (.returned none)
  | change {cached session currentPassword newPassword salt passwordHash}
      (h : verifyPassword env row currentPassword = .ok ()) :
      Starts env row (.changePassword cached session currentPassword newPassword salt)
        (.loading (.changePassword passwordHash))
  | remove {cached session password generated} (h : verifyPassword env row password = .ok ()) :
      Starts env row (.removePassword cached session password generated)
        (.loading (.removePassword generated))
  | ensure {generated} :
      Starts env row (.ensureAutoBootstrapToken generated) (.bootstrapping generated)
  | confirm {session secret code now nonce matchedStep write}
      (h : confirmTotpSetup env row session secret code now = .ok matchedStep)
      (hwrite : write = .confirmTotpSetup (env.encrypt nonce secret) matchedStep) :
      Starts env row (.confirmTotpSetup session secret code now nonce)
        (.committing ⟨row, write.apply row⟩ write)
  | totp {call matchedStep} (h : matchTotpStep env row call.code call.now = .ok matchedStep) :
      Starts env row (.totp call) (.advancing call row matchedStep)
  | refuse {r failure} : Starts env row r (.ended failure)

/-- **How a task goes on**, one rule for each thing it can do to the row. -/
inductive Steps (env : Env) (row : DashboardSettings) :
    Task → Action → DashboardSettings → Task → Prop
  | validate {setup current}
      (h : getBootstrapValidationStatus env row (strip (setup.bootstrapToken.getD "")) = .valid) :
      Steps env row (.validating setup current) .resume row
        (.settingPassword setup current (some .valid))
  | setPassword {setup current validationStatus passwordHash}
      (hhash : env.hashPassword setup.salt (strip setup.password) = some passwordHash)
      (h : row.passwordHash = none) :
      Steps env row (.settingPassword setup current validationStatus) .resume
        (setPasswordHash passwordHash row) (.passwordSet setup validationStatus)
  | load {write} : Steps env row (.loading write) .resume row
      (.committing ⟨row, write.apply row⟩ write)
  | commit {o write} : Steps env row (.committing o write) .resume (row.flush o) (committed write)
  | clear {generated} (h : ensureAutoBootstrapToken env row = .clear) :
      Steps env row (.bootstrapping generated) .resume row .clearingToken
  | store {generated} (h : ensureAutoBootstrapToken env row = .store) :
      Steps env row (.bootstrapping generated) .resume row (.storingToken generated)
  | offer {generated token} (h : ensureAutoBootstrapToken env row = .token token) :
      Steps env row (.bootstrapping generated) .resume row (.returned token)
  | clearToken : Steps env row .clearingToken .resume ((clearBootstrapToken row).getD row)
      (.returned none)
  | storeToken {generated row'}
      (h : storeBootstrapTokenIfAbsent row (env.encrypt generated.nonce generated.token)
        (env.sha256 generated.token) = some row') :
      Steps env row (.storingToken generated) .resume row' (.returned (some generated.token))
  | keepToken {generated}
      (h : storeBootstrapTokenIfAbsent row (env.encrypt generated.nonce generated.token)
        (env.sha256 generated.token) = none) :
      Steps env row (.storingToken generated) .resume row (.returned none)
  | advance {call settings matchedStep}
      (h : ∀ last ∈ row.totpLastVerifiedStep, last < matchedStep) :
      Steps env row (.advancing call settings matchedStep) .resume
        { row with totpLastVerifiedStep := some matchedStep } (advanced call settings matchedStep)
  | refuse {t failure} : Steps env row t .resume row (.ended failure)
  | fail {t} : Steps env row t .fail row .failed

section Inversion

variable {env : Env} {row row' : DashboardSettings} {t t' : Task} {a : Action}

theorem starts_after {r : Request} {α : Type} {check : Except Failure α} {next : α → Task}
    (h : ∀ a, check = .ok a → Starts env row r (next a)) : Starts env row r (after check next) := by
  cases check with
  | error failure => exact .refuse
  | ok a => exact h a rfl

theorem steps_after {α : Type} {check : Except Failure α} {next : α → Task}
    (h : ∀ a, check = .ok a → Steps env row t .resume row (next a)) :
    Steps env row t .resume row (after check next) := by
  cases check with
  | error failure => exact .refuse
  | ok a => exact h a rfl

theorem eq_valid_of_check {validationStatus : ValidationStatus}
    (h : checkValidationStatus validationStatus = .ok ()) : validationStatus = .valid := by
  cases validationStatus <;> first | rfl | cases h

theorem hashPassword_eq_ok {salt : ℕ} {password passwordHash : String}
    (h : hashPassword env salt password = .ok passwordHash) :
    env.hashPassword salt password = some passwordHash := by
  unfold hashPassword at h
  split at h
  · rename_i hhash
    rw [hhash, Except.ok.inj h]
  · cases h

theorem matchTotpStep_of_checks {call : TotpCall} {matchedStep : ℤ}
    (h : (if call.disables then disableTotp env row call.session call.code call.now
      else verifyTotp env row call.session call.code call.now) = .ok matchedStep) :
    matchTotpStep env row call.code call.now = .ok matchedStep := by
  split at h
  · obtain ⟨-, -, h⟩ := bind_eq_ok.1 h
    obtain ⟨-, -, h⟩ := bind_eq_ok.1 h
    exact h
  · obtain ⟨-, -, h⟩ := bind_eq_ok.1 h
    obtain ⟨-, -, h⟩ := bind_eq_ok.1 h
    exact h

theorem starts_spawn (env : Env) (row : DashboardSettings) (r : Request) :
    Starts env row r (spawn env row r) := by
  cases r with
  | setupPassword setup =>
    refine starts_after fun needsToken hchecks => ?_
    cases needsToken with
    | true => exact .validate hchecks
    | false =>
      simp only [Bool.false_eq_true, if_false, settingPassword]
      exact starts_after fun _ _ => .setPassword hchecks
  | loginPassword cached password => exact starts_after fun _ hchecks => .login hchecks
  | changePassword cached session currentPassword newPassword salt =>
    refine starts_after fun passwordHash hchecks => ?_
    obtain ⟨-, -, hchecks⟩ := bind_eq_ok.1 hchecks
    obtain ⟨-, -, hchecks⟩ := bind_eq_ok.1 hchecks
    obtain ⟨_, hverify, -⟩ := bind_eq_ok.1 hchecks
    exact .change hverify
  | removePassword cached session password generated =>
    refine starts_after fun _ hchecks => ?_
    obtain ⟨-, -, hverify⟩ := bind_eq_ok.1 hchecks
    exact .remove hverify
  | ensureAutoBootstrapToken generated => exact .ensure
  | confirmTotpSetup session secret code now nonce =>
    exact starts_after fun matchedStep hchecks => .confirm hchecks rfl
  | totp call =>
    exact starts_after fun matchedStep hchecks => .totp (matchTotpStep_of_checks hchecks)

theorem steps_of_resume (h : resume env row t = some (row', t')) :
    Steps env row t .resume row' t' := by
  unfold resume at h
  split at h
  · rename_i setup current
    obtain ⟨rfl, rfl⟩ := Prod.mk.inj (Option.some.inj h)
    refine steps_after fun _ hcheck => ?_
    have hvalid := eq_valid_of_check hcheck
    rw [hvalid]
    exact steps_after fun _ _ => .validate hvalid
  · split at h
    · cases h
      exact .refuse
    · rename_i hhash
      split at h
      · rename_i hset
        obtain ⟨hnone, rfl⟩ := trySetPasswordHash_eq_some.1 hset
        cases h
        exact .setPassword (hashPassword_eq_ok hhash) hnone
      · cases h
        exact .refuse
  · cases h
    exact .load
  · cases h
    exact .commit
  · split at h <;> rename_i hensure <;> cases h
    exacts [.clear hensure, .store hensure, .offer hensure]
  · cases h
    exact .clearToken
  · split at h <;> cases h
    exacts [.storeToken ‹_›, .keepToken ‹_›]
  · split at h
    · rename_i hadvance
      obtain ⟨hlast, rfl⟩ := tryAdvance_eq_some.1 hadvance
      cases h
      exact .advance hlast
    · cases h
      exact .refuse
  all_goals cases h

theorem steps_of_act (h : act env row t a = some (row', t')) : Steps env row t a row' t' := by
  cases a with
  | resume => exact steps_of_resume h
  | fail =>
    obtain ⟨-, -, h⟩ := Option.map_eq_some_iff.1 h
    cases h
    exact .fail

/-- **An assertion on every task**, which a task starts with and keeps on its way. -/
theorem forall_tasks_step {J : Task → Prop} {p p' : State} {m : Event}
    (hstarts : ∀ row r t, Starts env row r t → J t)
    (hsteps : ∀ row t a row' t', J t → Steps env row t a row' t' → J t')
    (h : ∀ t ∈ p.tasks, J t) (hs : step env p m = some p') : ∀ t ∈ p'.tasks, J t := by
  have hall : Asserts (fun _ => True) (fun _ => J) p' := by
    refine Program.inv_step_local (C := fun _ _ => True) (fun p r _ _ => ?_)
      (fun p tid a t row t' _ ht _ _ ha => ?_) ⟨trivial, h⟩ trivial hs
    · exact hstarts p.store r _ (starts_spawn env p.store r)
    · exact ⟨trivial, hsteps p.store t a row t' ht (steps_of_act ha)⟩
  exact hall.2

end Inversion

/-! ### A sample deployment -/

/-- Stand-ins for the libraries: a password is its own hash, and the code of a time step is its last
digit, six times. -/
def sampleEnv : Env where
  dashboardAuthMode := .standard
  dashboardBootstrapToken := none
  hashPassword := fun _ password => some password
  checkPassword := fun password passwordHash => password = passwordHash
  encrypt := fun _ token => token.toList.map fun c => UInt8.ofNat c.toNat
  decrypt := fun bytes => some (String.ofList (bytes.map fun b => Char.ofNat b.toNat))
  sha256 := fun token => token.toList.map fun c => UInt8.ofNat c.toNat
  totpAt := fun _ time =>
    String.ofList (List.replicate 6 (Char.ofNat (48 + (time / 30 % 10).toNat)))

/-- A session of a user who has given the password. -/
def sampleSession : DashboardSessionState := ⟨1800000000, true, false⟩

/-- A client that is not local, with or without a token. -/
def remoteSetup (bootstrapToken : Option String) : PasswordSetup where
  isLocal := false
  proxyAuthenticated := false
  password := "remote-password"
  bootstrapToken := bootstrapToken
  salt := 1

end FirecrawlLb.DashboardAuth.System
