import FirecrawlLb.Firecrawl.Models
import FirecrawlLb.Firecrawl.Schemas
import FirecrawlLb.Lib.Results
import Mathlib.Data.List.Sort
import Mathlib.Data.String.Basic

/-!
# The repository and its session

The methods that change a record are functions on the record.  An edit of an account keeps the row
that was read and the method applied to it; a session holds the edits and the new records of one
call, and a commit flushes them together.
-/

namespace FirecrawlLb.Firecrawl.Repository

open FirecrawlLb.Lib FirecrawlLb.Python FirecrawlLb.Db.Models
open FirecrawlLb.Firecrawl.Models FirecrawlLb.Firecrawl.Schemas

/-- What the process runs with: the database backend, the two directions of the Fernet key, and
the parser of ISO datetimes. -/
structure Env where
  backend : Backend
  encrypt : ℕ → String → List UInt8
  decrypt : List UInt8 → Option String
  fromisoformat : String → Option DateTime

/-! ### Methods on an account record -/

def applySuccess (creditsUsed : ℤ) (account : FirecrawlAccountRecord) : FirecrawlAccountRecord :=
  let account :=
    match account.remainingCreditsLive with
    | some live => { account with remainingCreditsLive := some (max 0 (live - creditsUsed)) }
    | none => account
  if account.status = some FirecrawlAccountStatus.rateLimited.value then
    { account with status := some FirecrawlAccountStatus.active.value, cooldownUntil := none }
  else account

def markAccountCreditExhausted (account : FirecrawlAccountRecord) : FirecrawlAccountRecord :=
  { account with status := some FirecrawlAccountStatus.creditExhausted.value }

def markAccountRateLimited (cooldownUntil : DateTime) (account : FirecrawlAccountRecord) :
    FirecrawlAccountRecord :=
  { account with
    status := some FirecrawlAccountStatus.rateLimited.value
    cooldownUntil := some cooldownUntil }

/-- The arguments of `update_account_refresh_success`. -/
structure RefreshSuccess where
  remainingCredits : Option ℤ
  planCredits : Option ℤ
  billingPeriodStart : Option DateTime
  billingPeriodEnd : Option DateTime
  queueActiveJobs : Option ℤ
  queueMaxConcurrency : Option ℤ
  refreshedAt : DateTime

def updateAccountRefreshSuccess (r : RefreshSuccess) (account : FirecrawlAccountRecord) :
    FirecrawlAccountRecord :=
  { account with
    remainingCreditsLive := r.remainingCredits <|> account.remainingCreditsLive
    planCreditsLive := r.planCredits <|> account.planCreditsLive
    billingPeriodStart := r.billingPeriodStart <|> account.billingPeriodStart
    billingPeriodEnd := r.billingPeriodEnd <|> account.billingPeriodEnd
    queueActiveJobs := r.queueActiveJobs <|> account.queueActiveJobs
    queueMaxConcurrency := r.queueMaxConcurrency <|> account.queueMaxConcurrency
    lastUsageRefreshAt := some r.refreshedAt
    lastQueueRefreshAt := some r.refreshedAt
    lastRefreshErrorAt := none
    lastRefreshErrorMessage := none }

def markAccountRefreshError (message : String) (errorAt : DateTime)
    (account : FirecrawlAccountRecord) : FirecrawlAccountRecord :=
  { account with lastRefreshErrorAt := some errorAt, lastRefreshErrorMessage := some message }

/-- The loop of `update_account` over the fields that were set. -/
def setFields (payload : FirecrawlAccountUpdateRequest) (account : FirecrawlAccountRecord) :
    FirecrawlAccountRecord :=
  { account with
    status := payload.status.getD account.status
    monthlyBudgetCredits := payload.monthlyBudgetCredits.getD account.monthlyBudgetCredits
    remainingCreditsLive := payload.remainingCreditsLive.getD account.remainingCreditsLive
    planCreditsLive := payload.planCreditsLive.getD account.planCreditsLive
    rpmLimit := payload.rpmLimit.getD account.rpmLimit
    queueMaxConcurrency := payload.maxConcurrency.getD account.queueMaxConcurrency
    cooldownUntil := payload.cooldownUntil.getD account.cooldownUntil }

/-- A method applied to an account record. -/
inductive AccountWrite where
  | applySuccess (creditsUsed : ℤ)
  | markCreditExhausted
  | markRateLimited (cooldownUntil : DateTime)
  | refreshSuccess (r : RefreshSuccess)
  | refreshError (message : String) (errorAt : DateTime)
  | operatorUpdate (payload : FirecrawlAccountUpdateRequest)

def AccountWrite.apply : AccountWrite → FirecrawlAccountRecord → FirecrawlAccountRecord
  | .applySuccess creditsUsed => Repository.applySuccess creditsUsed
  | .markCreditExhausted => markAccountCreditExhausted
  | .markRateLimited cooldownUntil => markAccountRateLimited cooldownUntil
  | .refreshSuccess r => updateAccountRefreshSuccess r
  | .refreshError message errorAt => markAccountRefreshError message errorAt
  | .operatorUpdate payload => setFields payload

section ApplySuccess

variable (creditsUsed : ℤ) (account : FirecrawlAccountRecord)

/-- **What `apply_success` writes**: the balance, and the status and cooldown of a rate limited
account. -/
theorem applySuccess_eq : applySuccess creditsUsed account =
    { account with
      remainingCreditsLive :=
        account.remainingCreditsLive.map fun live => max 0 (live - creditsUsed)
      status := if account.status = some FirecrawlAccountStatus.rateLimited.value then
          some FirecrawlAccountStatus.active.value
        else account.status
      cooldownUntil := if account.status = some FirecrawlAccountStatus.rateLimited.value then none
        else account.cooldownUntil } := by
  obtain ⟨_, _, _, _, _, live⟩ := account
  cases live <;> simp only [applySuccess] <;> split_ifs <;> rfl

theorem applySuccess_remainingCreditsLive :
    (applySuccess creditsUsed account).remainingCreditsLive =
      account.remainingCreditsLive.map fun live => max 0 (live - creditsUsed) := by
  rw [applySuccess_eq]

theorem applySuccess_status : (applySuccess creditsUsed account).status =
    if account.status = some FirecrawlAccountStatus.rateLimited.value then
      some FirecrawlAccountStatus.active.value
    else account.status := by
  rw [applySuccess_eq]

theorem applySuccess_cooldownUntil : (applySuccess creditsUsed account).cooldownUntil =
    if account.status = some FirecrawlAccountStatus.rateLimited.value then none
    else account.cooldownUntil := by
  rw [applySuccess_eq]

theorem applySuccess_queueMaxConcurrency :
    (applySuccess creditsUsed account).queueMaxConcurrency = account.queueMaxConcurrency := by
  rw [applySuccess_eq]

theorem applySuccess_rpmLimit : (applySuccess creditsUsed account).rpmLimit = account.rpmLimit := by
  rw [applySuccess_eq]

end ApplySuccess

/-! ### Methods on a credential record -/

def markCredentialInvalid (message : Option String) (errorAt : DateTime)
    (credential : FirecrawlCredentialRecord) : FirecrawlCredentialRecord :=
  { credential with
    status := FirecrawlCredentialStatus.invalid.value
    lastErrorAt := some errorAt
    lastErrorMessage := message }

/-- A method applied to a credential record. -/
inductive CredentialWrite where
  | markInvalid (message : Option String) (errorAt : DateTime)
  | operatorUpdate (payload : FirecrawlCredentialUpdateRequest)

def CredentialWrite.apply : CredentialWrite → FirecrawlCredentialRecord → FirecrawlCredentialRecord
  | .markInvalid message errorAt => markCredentialInvalid message errorAt
  | .operatorUpdate payload => fun credential => { credential with status := payload.status }

/-! ### The session -/

/-- An account object: the row it was read from, and the method applied to it. -/
structure AccountEdit where
  read : FirecrawlAccountRecord
  write : AccountWrite

def AccountEdit.object (e : AccountEdit) : Loaded FirecrawlAccountRecord :=
  ⟨e.read, e.write.apply e.read⟩

structure CredentialEdit where
  read : FirecrawlCredentialRecord
  write : CredentialWrite

def CredentialEdit.object (e : CredentialEdit) : Loaded FirecrawlCredentialRecord :=
  ⟨e.read, e.write.apply e.read⟩

/-- The objects a call changed or created, until it commits. -/
structure Session where
  accounts : List AccountEdit := []
  credential : Option CredentialEdit := none
  job : Option (Loaded FirecrawlJobRecord) := none
  newAccount : Option FirecrawlAccountRecord := none
  newCredential : Option FirecrawlCredentialRecord := none
  newJob : Option FirecrawlJobRecord := none
  newLog : Option FirecrawlRequestLogRecord := none

/-- A method that first gets its record from the session by id. -/
inductive RowWrite where
  | account (id : String) (write : AccountWrite)
  | credential (id : String) (write : CredentialWrite)

namespace Session

/-- `session.get` of the record, and the method on it; nothing when there is no such row. -/
def perform (s : Session) (db : Database) : RowWrite → Session
  | .account id write =>
    match db.account? id with
    | some row => { s with accounts := s.accounts ++ [⟨row, write⟩] }
    | none => s
  | .credential id write =>
    match db.credential? id with
    | some row => { s with credential := some ⟨row, write⟩ }
    | none => s

/-- The method on the row an answer is about, if there is one. -/
def perform? (s : Session) (db : Database) (target : Option RowWrite) : Session :=
  target.elim s (s.perform db)

/-- The edit of an account. -/
def edit? (s : Session) (id : String) : Option AccountEdit := s.accounts.find? (·.read.id = id)

/-- The credits the session charges to an account. -/
def charge? (s : Session) (id : String) : Option ℤ :=
  match s.edit? id with
  | some ⟨_, .applySuccess creditsUsed⟩ => some creditsUsed
  | _ => none

def flushAccount (s : Session) (row : FirecrawlAccountRecord) : FirecrawlAccountRecord :=
  match s.edit? row.id with
  | some e => FirecrawlAccountRecord.flush e.object row
  | none => row

def flushCredential (s : Session) (row : FirecrawlCredentialRecord) : FirecrawlCredentialRecord :=
  match s.credential with
  | some e => if e.read.id = row.id then FirecrawlCredentialRecord.flush e.object row else row
  | none => row

def flushJob (s : Session) (row : FirecrawlJobRecord) : FirecrawlJobRecord :=
  match s.job with
  | some o => if o.read.id = row.id then FirecrawlJobRecord.flush o row else row
  | none => row

/-- The primary key and the `created_at` the database gives a new job. -/
def insertJob (dbNow : ℤ) (db : Database) (job : FirecrawlJobRecord) : FirecrawlJobRecord :=
  { job with id := db.jobs.length + 1, createdAt := .naive dbNow }

/-- The primary key and the `requested_at` the database gives a new log. -/
def insertLog (dbNow : ℤ) (db : Database) (log : FirecrawlRequestLogRecord) :
    FirecrawlRequestLogRecord :=
  { log with id := db.requestLogs.length + 1, requestedAt := .naive dbNow }

/-- The database after the flush. -/
def flush (s : Session) (dbNow : ℤ) (db : Database) : Database where
  accounts := db.accounts.map s.flushAccount ++ s.newAccount.toList
  credentials := db.credentials.map s.flushCredential ++ s.newCredential.toList
  jobs := db.jobs.map s.flushJob ++ (s.newJob.map (insertJob dbNow db)).toList
  requestLogs := db.requestLogs ++ (s.newLog.map (insertLog dbNow db)).toList

/-- The database takes every value, and no key or unique column collides. -/
def binds (s : Session) (b : Backend) (db : Database) : Bool :=
  s.accounts.all (fun e => FirecrawlAccountRecord.binds b e.object) &&
  s.credential.all (fun e => FirecrawlCredentialRecord.binds b e.object) &&
  s.job.all (FirecrawlJobRecord.binds b) &&
  s.newAccount.all (fun r => r.insertBinds b &&
    db.accounts.all fun r' => r'.id ≠ r.id && r'.teamLabel ≠ r.teamLabel) &&
  s.newCredential.all (fun r => r.insertBinds b && db.credentials.all fun r' => r'.id ≠ r.id) &&
  s.newJob.all (FirecrawlJobRecord.insertBinds b) &&
  s.newLog.all (FirecrawlRequestLogRecord.insertBinds b)

/-- `session.commit()`: everything is flushed, or nothing. -/
def commit (s : Session) (b : Backend) (dbNow : ℤ) (db : Database) : Except Raised Database :=
  if s.binds b db then .ok (s.flush dbNow db) else .error .databaseError

end Session

/-! ### What a commit leaves -/

section Commit

variable {s : Session} {db db' : Database} {b : Backend} {dbNow : ℤ} {id : String}
  {row : FirecrawlAccountRecord}

theorem commit_eq_ok : s.commit b dbNow db = .ok db' ↔ s.binds b db = true ∧
    db' = s.flush dbNow db := by
  unfold Session.commit
  by_cases h : s.binds b db = true
  · simp [h, eq_comm]
  · simp [h]

theorem perform_cases (s : Session) (db : Database) (target : RowWrite) :
    s.perform db target = s ∨
    (∃ id write row, target = .account id write ∧ db.account? id = some row ∧
      s.perform db target = { s with accounts := s.accounts ++ [⟨row, write⟩] }) ∨
    ∃ e, s.perform db target = { s with credential := some e } := by
  cases target with
  | account id write =>
    cases h : db.account? id with
    | none => exact Or.inl (by simp [Session.perform, h])
    | some row => exact Or.inr (Or.inl ⟨id, write, row, rfl, h, by simp [Session.perform, h]⟩)
  | credential id write =>
    cases h : db.credential? id with
    | none => exact Or.inl (by simp [Session.perform, h])
    | some row => exact Or.inr (Or.inr ⟨⟨row, write⟩, by simp [Session.perform, h]⟩)

theorem perform?_keeps (s : Session) (db : Database) (target : Option RowWrite) :
    (s.perform? db target).job = s.job ∧ (s.perform? db target).newJob = s.newJob ∧
      (s.perform? db target).newAccount = s.newAccount := by
  cases target with
  | none => exact ⟨rfl, rfl, rfl⟩
  | some target =>
    change (s.perform db target).job = s.job ∧ (s.perform db target).newJob = s.newJob ∧
      (s.perform db target).newAccount = s.newAccount
    rcases perform_cases s db target with h | ⟨_, _, _, -, -, h⟩ | ⟨e, h⟩ <;> rw [h] <;>
      exact ⟨rfl, rfl, rfl⟩

theorem flushAccount_cases (s : Session) (row : FirecrawlAccountRecord) :
    (s.edit? row.id = none ∧ s.flushAccount row = row) ∨
    ∃ e ∈ s.accounts, s.edit? row.id = some e ∧ e.read.id = row.id ∧
      s.flushAccount row = FirecrawlAccountRecord.flush e.object row := by
  unfold Session.flushAccount
  cases he : s.edit? row.id with
  | none => exact Or.inl ⟨rfl, rfl⟩
  | some e => exact Or.inr ⟨e, List.mem_of_find?_eq_some he, rfl,
      by simpa using List.find?_some he, rfl⟩

theorem flushAccount_id (s : Session) (row : FirecrawlAccountRecord) :
    (s.flushAccount row).id = row.id := by
  obtain ⟨-, h⟩ | ⟨e, -, -, -, h⟩ := flushAccount_cases s row <;> rw [h]
  rfl

theorem flushCredential_cases (s : Session) (row : FirecrawlCredentialRecord) :
    s.flushCredential row = row ∨ ∃ e, s.credential = some e ∧ e.read.id = row.id ∧
      s.flushCredential row = FirecrawlCredentialRecord.flush e.object row := by
  unfold Session.flushCredential
  split
  · split_ifs with h
    · exact Or.inr ⟨_, by assumption, h, rfl⟩
    · exact Or.inl rfl
  · exact Or.inl rfl

theorem flushCredential_key (s : Session) (row : FirecrawlCredentialRecord) :
    (s.flushCredential row).id = row.id ∧ (s.flushCredential row).accountId = row.accountId ∧
      (s.flushCredential row).apiKeyEncrypted = row.apiKeyEncrypted := by
  obtain h | ⟨e, -, -, h⟩ := flushCredential_cases s row <;> rw [h] <;> exact ⟨rfl, rfl, rfl⟩

theorem flushJob_cases (s : Session) (row : FirecrawlJobRecord) :
    ((∀ o, s.job = some o → o.read.id ≠ row.id) ∧ s.flushJob row = row) ∨
    ∃ o, s.job = some o ∧ o.read.id = row.id ∧
      s.flushJob row = FirecrawlJobRecord.flush o row := by
  unfold Session.flushJob
  cases hj : s.job with
  | none => exact Or.inl ⟨by simp, rfl⟩
  | some o =>
    by_cases h : o.read.id = row.id
    · exact Or.inr ⟨o, rfl, h, by simp [h]⟩
    · exact Or.inl ⟨by simpa using h, by simp [h]⟩

theorem flushJob_id (s : Session) (row : FirecrawlJobRecord) :
    (s.flushJob row).id = row.id := by
  obtain ⟨-, h⟩ | ⟨o, -, -, h⟩ := flushJob_cases s row <;> rw [h]
  rfl

theorem flushJob_key (s : Session) (row : FirecrawlJobRecord) :
    (s.flushJob row).accountId = row.accountId ∧ (s.flushJob row).endpoint = row.endpoint ∧
      (s.flushJob row).upstreamJobId = row.upstreamJobId := by
  obtain ⟨-, h⟩ | ⟨o, -, -, h⟩ := flushJob_cases s row <;> rw [h] <;> exact ⟨rfl, rfl, rfl⟩

/-- **The row of an account after a commit.** -/
theorem account?_flush (h : db.account? id = some row) :
    (s.flush dbNow db).account? id = some (s.flushAccount row) := by
  have hmap := find?_map_of_key FirecrawlAccountRecord.id (flushAccount_id s) db.accounts id
  unfold Database.account? Session.flush at *
  rw [List.find?_append, hmap, h]
  rfl

theorem account?_flush_of_none (hnew : s.newAccount = none) (h : db.account? id = none) :
    (s.flush dbNow db).account? id = none := by
  have hmap := find?_map_of_key FirecrawlAccountRecord.id (flushAccount_id s) db.accounts id
  unfold Database.account? Session.flush at *
  rw [List.find?_append, hmap, h, hnew]
  rfl

theorem credential?_flush {credential : FirecrawlCredentialRecord}
    (h : db.credential? id = some credential) :
    (s.flush dbNow db).credential? id = some (s.flushCredential credential) := by
  have hmap := find?_map_of_key FirecrawlCredentialRecord.id (fun r => (flushCredential_key s r).1)
    db.credentials id
  unfold Database.credential? Session.flush at *
  rw [List.find?_append, hmap, h]
  rfl

theorem job?_flush {id : ℕ} {job : FirecrawlJobRecord} (h : db.job? id = some job) :
    (s.flush dbNow db).job? id = some (s.flushJob job) := by
  have hmap := find?_map_of_key FirecrawlJobRecord.id (flushJob_id s) db.jobs id
  unfold Database.job? Session.flush at *
  rw [List.find?_append, hmap, h]
  rfl

theorem mem_flush_accounts : row ∈ (s.flush dbNow db).accounts ↔
    (∃ r ∈ db.accounts, s.flushAccount r = row) ∨ s.newAccount = some row := by
  simp [Session.flush, eq_comm]

theorem mem_flush_credentials {row : FirecrawlCredentialRecord} :
    row ∈ (s.flush dbNow db).credentials ↔
      (∃ r ∈ db.credentials, s.flushCredential r = row) ∨ s.newCredential = some row := by
  simp [Session.flush, eq_comm]

theorem mem_flush_jobs {row : FirecrawlJobRecord} : row ∈ (s.flush dbNow db).jobs ↔
    (∃ r ∈ db.jobs, s.flushJob r = row) ∨ ∃ r, s.newJob = some r ∧
      Session.insertJob dbNow db r = row := by
  simp [Session.flush, eq_comm]

theorem mem_flush_requestLogs {row : FirecrawlRequestLogRecord} :
    row ∈ (s.flush dbNow db).requestLogs ↔ row ∈ db.requestLogs ∨ ∃ r, s.newLog = some r ∧
      Session.insertLog dbNow db r = row := by
  simp [Session.flush, eq_comm]

theorem flush_accounts_ids : (s.flush dbNow db).accounts.map (·.id) =
    db.accounts.map (·.id) ++ s.newAccount.toList.map (·.id) := by
  simp [Session.flush, Function.comp_def, flushAccount_id]

theorem binds_accounts (h : s.binds b db = true) {e : AccountEdit} (he : e ∈ s.accounts) :
    FirecrawlAccountRecord.binds b e.object = true := by
  simp only [Session.binds, Bool.and_eq_true] at h
  exact List.all_eq_true.1 h.1.1.1.1.1.1 e he

theorem binds_newAccount (h : s.binds b db = true) (hs : s.newAccount = some row) :
    ∀ r ∈ db.accounts, r.id ≠ row.id := by
  simp only [Session.binds, Bool.and_eq_true] at h
  have h := h.1.1.1.2
  rw [hs, Option.all_some, Bool.and_eq_true] at h
  intro r hr
  have := List.all_eq_true.1 h.2 r hr
  simp only [Bool.and_eq_true, decide_eq_true_eq] at this
  exact this.1

theorem nodup_flush (hids : (db.accounts.map (·.id)).Nodup) (h : s.binds b db = true) :
    ((s.flush dbNow db).accounts.map (·.id)).Nodup := by
  rw [flush_accounts_ids]
  cases hn : s.newAccount with
  | none => simpa using hids
  | some new =>
    refine List.nodup_append.2 ⟨hids, by simp, ?_⟩
    simp only [Option.toList_some, List.map_cons, List.map_nil, List.mem_singleton, List.mem_map]
    rintro _ ⟨r, hr, rfl⟩ _ rfl
    exact binds_newAccount h hn r hr

theorem nodup_flush_credentials (hids : (db.credentials.map (·.id)).Nodup)
    (h : s.binds b db = true) : ((s.flush dbNow db).credentials.map (·.id)).Nodup := by
  have hsame : (s.flush dbNow db).credentials.map (·.id) =
      db.credentials.map (·.id) ++ s.newCredential.toList.map (·.id) := by
    simp [Session.flush, Function.comp_def, flushCredential_key]
  rw [hsame]
  cases hn : s.newCredential with
  | none => simpa using hids
  | some new =>
    simp only [Session.binds, Bool.and_eq_true] at h
    have hfresh := h.1.1.2
    rw [hn, Option.all_some, Bool.and_eq_true] at hfresh
    refine List.nodup_append.2 ⟨hids, by simp, ?_⟩
    simp only [Option.toList_some, List.map_cons, List.map_nil, List.mem_singleton, List.mem_map]
    rintro _ ⟨r, hr, rfl⟩ _ rfl
    simpa using List.all_eq_true.1 hfresh.2 r hr

end Commit

/-! ### Queries -/

/-- `ORDER BY id` -/
def orderById (accounts : List FirecrawlAccountRecord) : List FirecrawlAccountRecord :=
  accounts.insertionSort fun a b => a.id ≤ b.id

/-- One credential of `_to_domain_account`. -/
def toDomainCredential (env : Env) (record : FirecrawlCredentialRecord) :
    Except Raised FirecrawlCredential := do
  let apiKey ← (env.decrypt record.apiKeyEncrypted).elim (.error .invalidToken) .ok
  let status ← FirecrawlCredentialStatus.ofValue record.status
  return {
    id := record.id
    apiKey := apiKey
    status := status
    name := record.name
    lastErrorAt := record.lastErrorAt
    lastErrorMessage := record.lastErrorMessage }

/-- An optional number on the left of `or`: zero counts as missing. -/
def nonzero (x : Option ℤ) : Option ℤ := x.filter (· ≠ 0)

/-- `_to_domain_account` -/
def toDomainAccount (env : Env) (record : FirecrawlAccountRecord)
    (credentials : List FirecrawlCredentialRecord) : Except Raised FirecrawlAccount := do
  let credentials ← credentials.mapM (toDomainCredential env)
  let status ← record.status.elim (.error .valueError) FirecrawlAccountStatus.ofValue
  return {
    id := record.id
    teamLabel := record.teamLabel
    planType := record.planType
    remainingCredits := record.remainingCreditsLive.getD 0
    planCredits := (nonzero record.planCreditsLive <|> nonzero record.monthlyBudgetCredits).getD 1
    status := status
    credentials := credentials
    cooldownUntil := record.cooldownUntil
    queueActiveJobs := record.queueActiveJobs.getD 0
    queueMaxConcurrency := record.queueMaxConcurrency }

/-- `list_accounts` -/
def listAccounts (env : Env) (db : Database) : Except Raised (List FirecrawlAccount) :=
  (orderById db.accounts).mapM fun record =>
    toDomainAccount env record (db.credentialsOf record.id)

section Listing

variable {env : Env} {db : Database} {accounts : List FirecrawlAccount} {id : String}

theorem mem_orderById {row : FirecrawlAccountRecord} {rows : List FirecrawlAccountRecord} :
    row ∈ orderById rows ↔ row ∈ rows :=
  (List.perm_insertionSort _ rows).mem_iff

/-- **What the router sees of a row.** -/
theorem toDomainAccount_eq_ok {record : FirecrawlAccountRecord}
    {records : List FirecrawlCredentialRecord} {a : FirecrawlAccount} :
    toDomainAccount env record records = .ok a ↔ ∃ credentials status,
      records.mapM (toDomainCredential env) = .ok credentials ∧
      record.status = some status.value ∧
      a = { id := record.id, teamLabel := record.teamLabel, planType := record.planType
            remainingCredits := record.remainingCreditsLive.getD 0
            planCredits :=
              (nonzero record.planCreditsLive <|> nonzero record.monthlyBudgetCredits).getD 1
            status := status, credentials := credentials, cooldownUntil := record.cooldownUntil
            queueActiveJobs := record.queueActiveJobs.getD 0
            queueMaxConcurrency := record.queueMaxConcurrency } := by
  unfold toDomainAccount
  rw [bind_eq_ok]
  constructor
  · rintro ⟨credentials, hc, h⟩
    obtain ⟨status, hs, h⟩ := bind_eq_ok.1 h
    cases hst : record.status with
    | none =>
      rw [hst] at hs
      cases hs
    | some value =>
      rw [hst] at hs
      exact ⟨credentials, status, hc, by rw [FirecrawlAccountStatus.ofValue_eq_ok.1 hs],
        (pure_eq_ok.1 h).symm⟩
  · rintro ⟨credentials, status, hc, hs, rfl⟩
    refine ⟨credentials, hc, bind_eq_ok.2 ⟨status, ?_, rfl⟩⟩
    rw [hs]
    exact FirecrawlAccountStatus.ofValue_eq_ok.2 rfl

theorem toDomainCredential_isOk {record : FirecrawlCredentialRecord}
    (hkey : ∃ key, env.decrypt record.apiKeyEncrypted = some key)
    (hstatus : ∃ st : FirecrawlCredentialStatus, record.status = st.value) :
    ∃ c, toDomainCredential env record = .ok c := by
  obtain ⟨key, hkey⟩ := hkey
  obtain ⟨st, hst⟩ := hstatus
  refine ⟨_, bind_eq_ok.2 ⟨key, by rw [hkey]; rfl, bind_eq_ok.2 ⟨st, ?_, rfl⟩⟩⟩
  exact FirecrawlCredentialStatus.ofValue_eq_ok.2 hst

theorem exists_row_of_mem_listAccounts (h : listAccounts env db = .ok accounts)
    {a : FirecrawlAccount} (ha : a ∈ accounts) :
    ∃ row ∈ db.accounts, toDomainAccount env row (db.credentialsOf row.id) = .ok a := by
  obtain ⟨row, hrow, hr⟩ := exists_of_mem_mapM h ha
  exact ⟨row, mem_orderById.1 hrow, hr⟩

theorem toDomainAccount_id {record : FirecrawlAccountRecord}
    {records : List FirecrawlCredentialRecord} {a : FirecrawlAccount}
    (h : toDomainAccount env record records = .ok a) : a.id = record.id := by
  obtain ⟨credentials, status, -, -, rfl⟩ := toDomainAccount_eq_ok.1 h
  rfl

theorem listAccounts_ids (h : listAccounts env db = .ok accounts) :
    (accounts.map (·.id)).Perm (db.accounts.map (·.id)) := by
  rw [map_eq_of_mapM h fun row a ha => toDomainAccount_id ha]
  exact (List.perm_insertionSort _ _).map _

end Listing

/-! ### The row with an id, when ids differ -/

section Ids

variable {db : Database}

theorem account?_of_mem {row : FirecrawlAccountRecord} (hids : (db.accounts.map (·.id)).Nodup)
    (hrow : row ∈ db.accounts) : db.account? row.id = some row :=
  find?_of_key FirecrawlAccountRecord.id hids hrow

theorem credential?_of_mem {row : FirecrawlCredentialRecord}
    (hids : (db.credentials.map (·.id)).Nodup) (hrow : row ∈ db.credentials) :
    db.credential? row.id = some row :=
  find?_of_key FirecrawlCredentialRecord.id hids hrow

theorem job?_of_mem {job : FirecrawlJobRecord} (hids : (db.jobs.map (·.id)).Nodup)
    (hjob : job ∈ db.jobs) : db.job? job.id = some job :=
  find?_of_key FirecrawlJobRecord.id hids hjob

end Ids

/-- `get_job_record`, with `one_or_none`. -/
def getJobRecord (db : Database) (endpoint upstreamJobId : String) :
    Except Raised (Option FirecrawlJobRecord) :=
  match db.jobs.filter fun j => j.endpoint = endpoint ∧ j.upstreamJobId = some upstreamJobId with
  | [] => .ok none
  | [job] => .ok (some job)
  | _ => .error .multipleResultsFound

theorem mem_of_getJobRecord {db : Database} {endpoint upstreamJobId : String}
    {job : FirecrawlJobRecord} (h : getJobRecord db endpoint upstreamJobId = .ok (some job)) :
    (job ∈ db.jobs ∧ job.endpoint = endpoint ∧ job.upstreamJobId = some upstreamJobId) ∧
    ∀ row ∈ db.jobs, row.endpoint = endpoint → row.upstreamJobId = some upstreamJobId →
      row = job := by
  unfold getJobRecord at h
  split at h
  · cases h
  · rename_i j hj
    cases h
    have hmem := hj ▸ List.mem_singleton_self job
    refine ⟨by simpa using List.mem_filter.1 hmem, fun row hrow he hu => ?_⟩
    have hrow : row ∈ [job] := hj ▸ List.mem_filter.2 ⟨hrow, by simp [he, hu]⟩
    exact List.mem_singleton.1 hrow
  · cases h

end FirecrawlLb.Firecrawl.Repository
