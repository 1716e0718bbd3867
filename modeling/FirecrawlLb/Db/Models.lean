import FirecrawlLb.Lib.UnitOfWork
import FirecrawlLb.Python.Json

/-!
# The tables

The records of the tables with their columns, the values a backend takes for a column, and
the flush of a record: the columns that differ from what was read are written.  A `DateTime` column
has no time zone: SQLite keeps the wall-clock fields, asyncpg refuses an aware value.
-/

namespace FirecrawlLb.Db.Models

open FirecrawlLb.Lib FirecrawlLb.Python

inductive Backend where
  | sqlite
  | postgresql
  deriving DecidableEq

/-- The greatest value of an `Integer` column. -/
def Backend.maxInteger : Backend → ℤ
  | .sqlite => 9223372036854775807
  | .postgresql => 2147483647

def Backend.bindsInteger (b : Backend) : Option ℤ → Bool
  | none => true
  | some n => -(b.maxInteger + 1) ≤ n && n ≤ b.maxInteger

def Backend.bindsDateTime (b : Backend) : Option DateTime → Bool
  | none => true
  | some d => b = .sqlite || d.isNaive

/-- PostgreSQL refuses a text that contains a null character. -/
def Backend.bindsText (b : Backend) : Option String → Bool
  | none => true
  | some s => b = .sqlite || !s.toList.contains (Char.ofNat 0)

/-- What an `Integer` or `String` column holds of a value. -/
def asIs {γ : Type*} (value : γ) : γ := value

/-- What a `DateTime` column holds of a value. -/
def storeDateTime (d : Option DateTime) : Option DateTime := d.map DateTime.dropTzinfo

structure FirecrawlAccountRecord where
  id : String
  teamLabel : String
  planType : String
  /-- `NOT NULL` in the table; an attribute may still be `None` before the flush. -/
  status : Option String := some "active"
  monthlyBudgetCredits : Option ℤ := none
  remainingCreditsLive : Option ℤ := none
  planCreditsLive : Option ℤ := none
  rpmLimit : Option ℤ := none
  billingPeriodStart : Option DateTime := none
  billingPeriodEnd : Option DateTime := none
  queueActiveJobs : Option ℤ := none
  queueMaxConcurrency : Option ℤ := none
  cooldownUntil : Option DateTime := none
  lastUsageRefreshAt : Option DateTime := none
  lastQueueRefreshAt : Option DateTime := none
  lastRefreshErrorAt : Option DateTime := none
  lastRefreshErrorMessage : Option String := none
  deriving DecidableEq

structure FirecrawlCredentialRecord where
  id : String
  accountId : String
  name : Option String
  apiKeyEncrypted : List UInt8
  status : String := "active"
  lastErrorAt : Option DateTime := none
  lastErrorMessage : Option String := none
  deriving DecidableEq

structure FirecrawlJobRecord where
  id : ℕ
  accountId : Option String
  credentialId : Option String
  endpoint : String
  upstreamJobId : Option String
  status : String
  estimatedCreditsReserved : Option ℤ
  creditsUsedFinal : Option ℤ := none
  createdAt : DateTime
  completedAt : Option DateTime := none
  lastPolledAt : Option DateTime := none
  deriving DecidableEq

structure FirecrawlRequestLogRecord where
  id : ℕ
  accountId : Option String
  credentialId : Option String
  endpoint : String
  upstreamJobId : Option String
  requestedAt : DateTime
  status : String
  upstreamStatusCode : Option ℤ
  estimatedCreditsPre : Option ℤ
  creditsUsedFinal : Option ℤ
  latencyMs : Option ℤ
  errorCode : Option String
  errorMessage : Option String
  deriving DecidableEq

/-- The one row of its table; the defaults are those `get_or_create` inserts. -/
structure DashboardSettings where
  totpRequiredOnLogin : Bool := false
  passwordHash : Option String := none
  bootstrapTokenEncrypted : Option (List UInt8) := none
  bootstrapTokenHash : Option (List UInt8) := none
  totpSecretEncrypted : Option (List UInt8) := none
  totpLastVerifiedStep : Option ℤ := none
  deriving DecidableEq

/-- `attempted_at` is an instant in microseconds. -/
structure RateLimitAttempt where
  key : String
  attemptedAt : ℤ
  type : String
  deriving DecidableEq

/-- The one row of its table; its times are instants in microseconds. -/
structure SchedulerLeader where
  leaderId : String
  acquiredAt : ℤ
  expiresAt : ℤ
  deriving DecidableEq

structure Database where
  accounts : List FirecrawlAccountRecord
  credentials : List FirecrawlCredentialRecord
  jobs : List FirecrawlJobRecord
  requestLogs : List FirecrawlRequestLogRecord
  deriving DecidableEq

namespace Database

def empty : Database := ⟨[], [], [], []⟩

def account? (db : Database) (id : String) : Option FirecrawlAccountRecord :=
  db.accounts.find? (·.id = id)

def credential? (db : Database) (id : String) : Option FirecrawlCredentialRecord :=
  db.credentials.find? (·.id = id)

/-- The job with a primary key. -/
def job? (db : Database) (id : ℕ) : Option FirecrawlJobRecord := db.jobs.find? (·.id = id)

/-- `record.credentials` -/
def credentialsOf (db : Database) (accountId : String) : List FirecrawlCredentialRecord :=
  db.credentials.filter (·.accountId = accountId)

end Database

theorem id_of_account? {db : Database} {id : String} {row : FirecrawlAccountRecord}
    (h : db.account? id = some row) : row.id = id := by
  simpa using List.find?_some h

theorem id_of_job? {db : Database} {id : ℕ} {row : FirecrawlJobRecord}
    (h : db.job? id = some row) : row.id = id := by
  simpa using List.find?_some h

/-! ### Flushing a record -/

namespace FirecrawlAccountRecord

/-- The row after an `UPDATE` of the columns that differ between `o.read` and `o.value`. -/
def flush (o : Loaded FirecrawlAccountRecord) (row : FirecrawlAccountRecord) :
    FirecrawlAccountRecord where
  id := row.id
  teamLabel := row.teamLabel
  planType := row.planType
  status := column asIs o.read.status o.value.status row.status
  monthlyBudgetCredits :=
    column asIs o.read.monthlyBudgetCredits o.value.monthlyBudgetCredits row.monthlyBudgetCredits
  remainingCreditsLive :=
    column asIs o.read.remainingCreditsLive o.value.remainingCreditsLive row.remainingCreditsLive
  planCreditsLive := column asIs o.read.planCreditsLive o.value.planCreditsLive row.planCreditsLive
  rpmLimit := column asIs o.read.rpmLimit o.value.rpmLimit row.rpmLimit
  billingPeriodStart := column storeDateTime o.read.billingPeriodStart o.value.billingPeriodStart
    row.billingPeriodStart
  billingPeriodEnd :=
    column storeDateTime o.read.billingPeriodEnd o.value.billingPeriodEnd row.billingPeriodEnd
  queueActiveJobs := column asIs o.read.queueActiveJobs o.value.queueActiveJobs row.queueActiveJobs
  queueMaxConcurrency :=
    column asIs o.read.queueMaxConcurrency o.value.queueMaxConcurrency row.queueMaxConcurrency
  cooldownUntil := column storeDateTime o.read.cooldownUntil o.value.cooldownUntil row.cooldownUntil
  lastUsageRefreshAt := column storeDateTime o.read.lastUsageRefreshAt o.value.lastUsageRefreshAt
    row.lastUsageRefreshAt
  lastQueueRefreshAt := column storeDateTime o.read.lastQueueRefreshAt o.value.lastQueueRefreshAt
    row.lastQueueRefreshAt
  lastRefreshErrorAt := column storeDateTime o.read.lastRefreshErrorAt o.value.lastRefreshErrorAt
    row.lastRefreshErrorAt
  lastRefreshErrorMessage := column asIs o.read.lastRefreshErrorMessage
    o.value.lastRefreshErrorMessage row.lastRefreshErrorMessage

/-- The database takes every value the `UPDATE` binds. -/
def binds (b : Backend) (o : Loaded FirecrawlAccountRecord) : Bool :=
  columnBinds Option.isSome o.read.status o.value.status &&
  columnBinds b.bindsInteger o.read.monthlyBudgetCredits o.value.monthlyBudgetCredits &&
  columnBinds b.bindsInteger o.read.remainingCreditsLive o.value.remainingCreditsLive &&
  columnBinds b.bindsInteger o.read.planCreditsLive o.value.planCreditsLive &&
  columnBinds b.bindsInteger o.read.rpmLimit o.value.rpmLimit &&
  columnBinds b.bindsDateTime o.read.billingPeriodStart o.value.billingPeriodStart &&
  columnBinds b.bindsDateTime o.read.billingPeriodEnd o.value.billingPeriodEnd &&
  columnBinds b.bindsInteger o.read.queueActiveJobs o.value.queueActiveJobs &&
  columnBinds b.bindsInteger o.read.queueMaxConcurrency o.value.queueMaxConcurrency &&
  columnBinds b.bindsDateTime o.read.cooldownUntil o.value.cooldownUntil &&
  columnBinds b.bindsDateTime o.read.lastUsageRefreshAt o.value.lastUsageRefreshAt &&
  columnBinds b.bindsDateTime o.read.lastQueueRefreshAt o.value.lastQueueRefreshAt &&
  columnBinds b.bindsDateTime o.read.lastRefreshErrorAt o.value.lastRefreshErrorAt &&
  columnBinds b.bindsText o.read.lastRefreshErrorMessage o.value.lastRefreshErrorMessage

/-- The database takes every value the `INSERT` of a new record binds. -/
def insertBinds (b : Backend) (r : FirecrawlAccountRecord) : Bool :=
  b.bindsText r.id && b.bindsText r.teamLabel && b.bindsText r.planType &&
  r.status.isSome && b.bindsInteger r.monthlyBudgetCredits &&
  b.bindsInteger r.remainingCreditsLive && b.bindsInteger r.planCreditsLive &&
  b.bindsInteger r.rpmLimit && b.bindsInteger r.queueMaxConcurrency

end FirecrawlAccountRecord

namespace FirecrawlCredentialRecord

def flush (o : Loaded FirecrawlCredentialRecord) (row : FirecrawlCredentialRecord) :
    FirecrawlCredentialRecord where
  id := row.id
  accountId := row.accountId
  name := row.name
  apiKeyEncrypted := row.apiKeyEncrypted
  status := column asIs o.read.status o.value.status row.status
  lastErrorAt := column storeDateTime o.read.lastErrorAt o.value.lastErrorAt row.lastErrorAt
  lastErrorMessage :=
    column asIs o.read.lastErrorMessage o.value.lastErrorMessage row.lastErrorMessage

def binds (b : Backend) (o : Loaded FirecrawlCredentialRecord) : Bool :=
  columnBinds b.bindsDateTime o.read.lastErrorAt o.value.lastErrorAt &&
  columnBinds b.bindsText o.read.lastErrorMessage o.value.lastErrorMessage

def insertBinds (b : Backend) (r : FirecrawlCredentialRecord) : Bool :=
  b.bindsText r.id && b.bindsText r.name

end FirecrawlCredentialRecord

namespace FirecrawlJobRecord

def flush (o : Loaded FirecrawlJobRecord) (row : FirecrawlJobRecord) : FirecrawlJobRecord where
  id := row.id
  accountId := row.accountId
  credentialId := row.credentialId
  endpoint := row.endpoint
  upstreamJobId := row.upstreamJobId
  status := column asIs o.read.status o.value.status row.status
  estimatedCreditsReserved := row.estimatedCreditsReserved
  creditsUsedFinal :=
    column asIs o.read.creditsUsedFinal o.value.creditsUsedFinal row.creditsUsedFinal
  createdAt := row.createdAt
  completedAt := column storeDateTime o.read.completedAt o.value.completedAt row.completedAt
  lastPolledAt := column storeDateTime o.read.lastPolledAt o.value.lastPolledAt row.lastPolledAt

def binds (b : Backend) (o : Loaded FirecrawlJobRecord) : Bool :=
  columnBinds b.bindsText o.read.status o.value.status &&
  columnBinds b.bindsInteger o.read.creditsUsedFinal o.value.creditsUsedFinal &&
  columnBinds b.bindsDateTime o.read.completedAt o.value.completedAt &&
  columnBinds b.bindsDateTime o.read.lastPolledAt o.value.lastPolledAt

def insertBinds (b : Backend) (r : FirecrawlJobRecord) : Bool :=
  b.bindsText r.endpoint && b.bindsText r.upstreamJobId &&
  b.bindsInteger r.estimatedCreditsReserved

end FirecrawlJobRecord

def DashboardSettings.flush (o : Loaded DashboardSettings) (row : DashboardSettings) :
    DashboardSettings where
  totpRequiredOnLogin :=
    column asIs o.read.totpRequiredOnLogin o.value.totpRequiredOnLogin row.totpRequiredOnLogin
  passwordHash := column asIs o.read.passwordHash o.value.passwordHash row.passwordHash
  bootstrapTokenEncrypted := column asIs o.read.bootstrapTokenEncrypted
    o.value.bootstrapTokenEncrypted row.bootstrapTokenEncrypted
  bootstrapTokenHash :=
    column asIs o.read.bootstrapTokenHash o.value.bootstrapTokenHash row.bootstrapTokenHash
  totpSecretEncrypted :=
    column asIs o.read.totpSecretEncrypted o.value.totpSecretEncrypted row.totpSecretEncrypted
  totpLastVerifiedStep :=
    column asIs o.read.totpLastVerifiedStep o.value.totpLastVerifiedStep row.totpLastVerifiedStep

def FirecrawlRequestLogRecord.insertBinds (b : Backend) (r : FirecrawlRequestLogRecord) : Bool :=
  b.bindsText r.endpoint && b.bindsText r.upstreamJobId && b.bindsText r.errorMessage &&
  b.bindsInteger r.upstreamStatusCode && b.bindsInteger r.estimatedCreditsPre &&
  b.bindsInteger r.creditsUsedFinal && b.bindsInteger r.latencyMs

end FirecrawlLb.Db.Models
