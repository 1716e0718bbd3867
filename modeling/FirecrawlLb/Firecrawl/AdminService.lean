import FirecrawlLb.Firecrawl.Stored
import FirecrawlLb.Lib.Paging

/-!
# The admin listings

A listing turns every row the database returns into a response, and fails when the value of a row
does not match the pattern of its response model.  The accounts and the jobs always match; a log
matches unless the submission of a job has written it (`listings_valid_iff`).
-/

namespace FirecrawlLb.Firecrawl.AdminService

open FirecrawlLb.Lib FirecrawlLb.Lib.Paging FirecrawlLb.Lib.Tasks FirecrawlLb.Lib.Run
open FirecrawlLb.Python
open FirecrawlLb.Db.Models FirecrawlLb.Firecrawl.Models FirecrawlLb.Firecrawl.Schemas
open FirecrawlLb.Firecrawl.Routing FirecrawlLb.Firecrawl.Service FirecrawlLb.Firecrawl.System
open FirecrawlLb.Firecrawl.Stored
open FirecrawlLb.Firecrawl.Repository hiding listAccounts

/-! ### Responses -/

/-- `_credential_response` -/
def credentialResponse (credential : FirecrawlCredentialRecord) :
    Except Raised FirecrawlCredentialResponse :=
  if h : credential.status ∈ credentialStatusPattern then
    .ok {
      id := credential.id
      name := credential.name
      status := credential.status
      status_pattern := h }
  else .error .validationError

/-- `_account_response`, of an account whose credentials are loaded. -/
def accountResponse (account : FirecrawlAccountRecord)
    (credentials : List FirecrawlCredentialRecord) : Except Raised FirecrawlAccountResponse := do
  let credentials ← credentials.mapM credentialResponse
  match account.status with
  | none => .error .validationError
  | some status =>
    if h : status ∈ accountStatusPattern then
      return {
        id := account.id
        teamLabel := account.teamLabel
        planType := account.planType
        status := status
        monthlyBudgetCredits := account.monthlyBudgetCredits
        remainingCreditsLive := account.remainingCreditsLive
        planCreditsLive := account.planCreditsLive
        rpmLimit := account.rpmLimit
        maxConcurrency := account.queueMaxConcurrency
        cooldownUntil := account.cooldownUntil
        credentials := credentials
        status_pattern := h }
    else .error .validationError

/-- `_job_response` -/
def jobResponse (job : FirecrawlJobRecord) : Except Raised FirecrawlJobResponse :=
  if h : job.endpoint ∈ jobEndpointPattern then
    .ok {
      id := job.id
      accountId := job.accountId
      credentialId := job.credentialId
      endpoint := job.endpoint
      upstreamJobId := job.upstreamJobId
      status := job.status
      estimatedCreditsReserved := job.estimatedCreditsReserved
      creditsUsedFinal := job.creditsUsedFinal
      createdAt := job.createdAt
      completedAt := job.completedAt
      lastPolledAt := job.lastPolledAt
      endpoint_pattern := h }
  else .error .validationError

/-- `_request_log_response` -/
def requestLogResponse (log : FirecrawlRequestLogRecord) :
    Except Raised FirecrawlRequestLogResponse :=
  if h : log.endpoint ∈ requestLogEndpointPattern then
    .ok {
      id := log.id
      accountId := log.accountId
      credentialId := log.credentialId
      endpoint := log.endpoint
      upstreamJobId := log.upstreamJobId
      status := log.status
      upstreamStatusCode := log.upstreamStatusCode
      estimatedCreditsPre := log.estimatedCreditsPre
      creditsUsedFinal := log.creditsUsedFinal
      latencyMs := log.latencyMs
      errorCode := log.errorCode
      errorMessage := log.errorMessage
      createdAt := log.requestedAt
      endpoint_pattern := h }
  else .error .validationError

/-! ### Listings -/

/-- The keyword arguments of `list_job_records` and `list_request_logs`. -/
structure ListArgs where
  endpoint : Option String := none
  status : Option String := none
  limit : ℕ := 50
  offset : ℕ := 0

namespace ListArgs

/-- The `WHERE` clauses. -/
def keeps (args : ListArgs) (endpoint status : String) : Bool :=
  args.endpoint.all (· = endpoint) && args.status.all (· = status)

/-- The database takes the arguments: a limit and an offset are 64-bit integers. -/
def binds (args : ListArgs) (b : Backend) : Bool :=
  b.bindsText args.endpoint && b.bindsText args.status &&
  args.limit ≤ 9223372036854775807 && args.offset ≤ 9223372036854775807

/-- The arguments for page `k`. -/
def page (args : ListArgs) (k : ℕ) : ListArgs := { args with offset := k * args.limit }

end ListArgs

/-- The query parameters of a listing; `endpoints` are the literals its endpoint filter takes. -/
structure ListQuery (endpoints : List String) extends ListArgs where
  endpoint_literal : ∀ e, endpoint = some e → e ∈ endpoints := by simp
  limit_ge : 1 ≤ limit := by decide
  limit_le : limit ≤ 500 := by decide

namespace ListQuery

variable {endpoints : List String} {α : Type}

/-- The page is one the query may return: the newest rows come first, and rows with one timestamp
come in any order. -/
def Selects (q : ListQuery endpoints) (endpoint status : α → String) (time : α → DateTime)
    (table page : List α) : Prop :=
  IsPage (fun row => (time row).wall) (table.filter fun r => q.keeps (endpoint r) (status r))
    q.limit q.offset page

theorem Selects.mem {q : ListQuery endpoints} {endpoint status : α → String} {time : α → DateTime}
    {table page : List α} (h : q.Selects endpoint status time table page) {row : α}
    (hrow : row ∈ page) : row ∈ table := by
  obtain ⟨rows, hrows, rfl⟩ := h
  have hmem := hrows.perm.mem_iff.1 (List.mem_of_mem_drop (List.mem_of_mem_take hrow))
  exact List.mem_of_mem_filter hmem

end ListQuery

/-- `list_accounts` -/
def listAccounts (db : Database) : Except Raised (List FirecrawlAccountResponse) :=
  (orderById db.accounts).mapM fun account => accountResponse account (db.credentialsOf account.id)

/-- `list_jobs`, when the database answers the query with the page. -/
def listJobs (env : Env) (q : ListQuery jobEndpointPattern) (page : List FirecrawlJobRecord) :
    Except Raised (List FirecrawlJobResponse) :=
  if q.binds env.backend then page.mapM jobResponse else .error .databaseError

/-- `list_logs`, when the database answers the query with the page. -/
def listLogs (env : Env) (q : ListQuery requestLogEndpointPattern)
    (page : List FirecrawlRequestLogRecord) : Except Raised (List FirecrawlRequestLogResponse) :=
  if q.binds env.backend then page.mapM requestLogResponse else .error .databaseError

section Listings

variable {env : Env} {db : Database}

theorem exists_jobResponse_iff {job : FirecrawlJobRecord} :
    (∃ r, jobResponse job = .ok r) ↔ job.endpoint ∈ jobEndpointPattern := by
  unfold jobResponse
  split_ifs with h <;> simp [h]

theorem exists_requestLogResponse_iff {log : FirecrawlRequestLogRecord} :
    (∃ r, requestLogResponse log = .ok r) ↔ log.endpoint ∈ requestLogEndpointPattern := by
  unfold requestLogResponse
  split_ifs with h <;> simp [h]

theorem jobResponse_id {job : FirecrawlJobRecord} {r : FirecrawlJobResponse}
    (h : jobResponse job = .ok r) : r.id = job.id := by
  unfold jobResponse at h
  split_ifs at h
  cases h
  rfl

theorem requestLogResponse_id {log : FirecrawlRequestLogRecord} {r : FirecrawlRequestLogResponse}
    (h : requestLogResponse log = .ok r) : r.id = log.id := by
  unfold requestLogResponse at h
  split_ifs at h
  cases h
  rfl

theorem accountResponse_id {account : FirecrawlAccountRecord}
    {credentials : List FirecrawlCredentialRecord} {r : FirecrawlAccountResponse}
    (h : accountResponse account credentials = .ok r) : r.id = account.id := by
  unfold accountResponse at h
  obtain ⟨responses, -, h⟩ := bind_eq_ok.1 h
  split at h
  · cases h
  · split_ifs at h
    obtain rfl := pure_eq_ok.1 h
    rfl

/-- **The listing of a well-formed database** shows every account. -/
theorem listAccounts_ok (h : WellFormed env db) : ∃ accounts, listAccounts db = .ok accounts ∧
    accounts.map (·.id) = (orderById db.accounts).map (·.id) := by
  obtain ⟨accounts, haccounts⟩ : ∃ accounts, listAccounts db = .ok accounts := by
    refine mapM_isOk fun row hrow => ?_
    obtain ⟨status, hstatus⟩ := (h.accounts row (mem_orderById.1 hrow)).status
    obtain ⟨credentials, hc⟩ := mapM_isOk (f := credentialResponse)
      (l := db.credentialsOf row.id) fun r hr => by
        have hr := (h.credentials r (List.mem_of_mem_filter hr)).status
        exact ⟨_, dif_pos (mem_credentialStatusPattern.2 hr)⟩
    have hpattern : status.value ∈ accountStatusPattern := mem_accountStatusPattern.2 ⟨status, rfl⟩
    exact ⟨_, bind_eq_ok.2 ⟨credentials, hc, by rw [hstatus]; exact dif_pos hpattern⟩⟩
  exact ⟨accounts, haccounts, map_eq_of_mapM haccounts fun row r hr => accountResponse_id hr⟩

end Listings

/-! ### The endpoints of the stored rows -/

/-- The POST is one of those the router has a path for. -/
def routed (p : Post) : Bool :=
  match p.kind with
  | .proxy => p.endpoint ∈ ["scrape", "map", "search"] && p.path = "/v2/" ++ p.endpoint
  | .submitJob =>
    (p.endpoint, p.path) ∈ [("crawl", "/v2/crawl"), ("batch_scrape", "/v2/batch/scrape")]

/-- The event starts a call the router has a path for, or is a step of a task. -/
def fromRouter : Event → Bool
  | .spawn (.post p) => routed p
  | .spawn (.jobOperation endpoint _ _) => endpoint ∈ ["crawl", "batch_scrape"]
  | _ => true

/-- The endpoint of a log, which any POST has written. -/
def LogEndpoint (endpoint : String) : Prop :=
  endpoint ∈ requestLogEndpointPattern ∨ endpoint ∈ jobEndpointPattern

structure Endpoints (db : Database) : Prop where
  jobs : ∀ job ∈ db.jobs, job.endpoint ∈ jobEndpointPattern
  requestLogs : ∀ log ∈ db.requestLogs, LogEndpoint log.endpoint

structure SessionEndpoints (s : Session) : Prop where
  newJob : ∀ job, s.newJob = some job → job.endpoint ∈ jobEndpointPattern
  newLog : ∀ log, s.newLog = some log → LogEndpoint log.endpoint

/-- What a task holds of endpoints. -/
def TaskEndpoints : Task → Prop
  | .listing p _ _ => routed p = true
  | .forwarding p _ => routed p = true
  | .refreshing _ _ session => SessionEndpoints session
  | .writing session _ => SessionEndpoints session
  | .committing session => SessionEndpoints session
  | .committed session => SessionEndpoints session
  | _ => True

section Reachable

variable {env : Env} {db db' : Database} {p p' : State} {m : Event} {ms : List Event} {t t' : Task}
  {a : Action} {s : Session} {dbNow : ℤ}

theorem Endpoints.flush (h : Endpoints db) (hs : SessionEndpoints s) :
    Endpoints (s.flush dbNow db) where
  jobs := by
    intro job hjob
    rcases mem_flush_jobs.1 hjob with ⟨r, hr, rfl⟩ | ⟨r, hr, rfl⟩
    · rw [(flushJob_key s r).2.1]
      exact h.jobs r hr
    · exact hs.newJob r hr
  requestLogs := by
    intro log hlog
    rcases mem_flush_requestLogs.1 hlog with hlog | ⟨r, hr, rfl⟩
    · exact h.requestLogs log hlog
    · exact hs.newLog r hr

theorem logEndpoint_of_routed {post : Post} (h : routed post = true) :
    LogEndpoint post.endpoint := by
  unfold routed at h
  cases hk : post.kind <;> simp only [hk, Bool.and_eq_true, decide_eq_true_eq] at h
  · exact Or.inl h.1
  · simp only [List.mem_cons, Prod.mk.injEq, List.not_mem_nil, or_false] at h
    rcases h with ⟨h, -⟩ | ⟨h, -⟩ <;> rw [h] <;> exact Or.inr (by decide)

theorem jobEndpoint_of_routed {post : Post} (h : routed post = true)
    (hk : post.kind = .submitJob) : post.endpoint ∈ jobEndpointPattern := by
  unfold routed at h
  simp only [hk, decide_eq_true_eq, List.mem_cons, Prod.mk.injEq, List.not_mem_nil, or_false] at h
  rcases h with ⟨h, -⟩ | ⟨h, -⟩ <;> rw [h] <;> decide

/-- **What an answered POST writes** has the endpoint of the POST. -/
theorem sessionEndpoints_answered {post : Post} {selected : FirecrawlSelectedAccount}
    {response : FirecrawlUpstreamResponse} {now : DateTime} {latencyMs : ℤ}
    {target : Option RowWrite} (hpost : routed post = true)
    (h : post.answered selected response now latencyMs = .ok (s, target)) : SessionEndpoints s := by
  obtain ⟨⟨log, rfl, hlog⟩, -⟩ := Post.answered_eq_ok h
  constructor
  · intro job hjob
    change post.newJob? selected response now = some job at hjob
    unfold Post.newJob? at hjob
    split_ifs at hjob with hk
    obtain ⟨upstreamId, -, rfl⟩ := Option.map_eq_some_iff.1 hjob
    exact jobEndpoint_of_routed hpost hk.1
  · intro log' hlog'
    obtain rfl : log = log' := Option.some.inj hlog'
    rw [hlog]
    exact logEndpoint_of_routed hpost

theorem sessionEndpoints_of_none (hjob : s.newJob = none) (hlog : s.newLog = none) :
    SessionEndpoints s := ⟨by simp [hjob], by simp [hlog]⟩

theorem taskEndpoints_starts {r : Request} (hr : fromRouter (.spawn r) = true)
    (h : Starts env db r t) : TaskEndpoints t := by
  cases h with
  | post => exact hr
  | createAccount | updateAccount | createCredential | updateCredential =>
    exact sessionEndpoints_of_none rfl rfl
  | jobOperation | refreshOnce | refused => trivial

theorem taskEndpoints_nextRound {now : ℤ}
    {todo : List (FirecrawlAccountRecord × FirecrawlCredentialRecord)} (h : SessionEndpoints s) :
    TaskEndpoints (nextRound now todo s) := by
  unfold nextRound
  split_ifs <;> exact h

theorem taskEndpoints_steps (hdb : Endpoints db) (ht : TaskEndpoints t)
    (h : Steps env db t a db' t') : Endpoints db' ∧ TaskEndpoints t' := by
  cases h with
  | refreshCredentials | select => exact ⟨hdb, ht⟩
  | @answer p selected response now latencyMs session target h =>
    have hsession := sessionEndpoints_answered ht h
    exact ⟨hdb, by cases target <;> exact hsession⟩
  | @jobAnswer method job response now latencyMs =>
    refine ⟨hdb, ?_⟩
    cases (jobAnswered method response (.utc now) job).2 <;> exact sessionEndpoints_of_none rfl rfl
  | selectCredentials =>
    exact ⟨hdb, taskEndpoints_nextRound (sessionEndpoints_of_none rfl rfl)⟩
  | refreshAccount => exact ⟨hdb, taskEndpoints_nextRound ⟨ht.newJob, ht.newLog⟩⟩
  | @get session target =>
    refine ⟨hdb, ?_⟩
    rcases perform_cases session db target with h | ⟨_, _, _, -, -, h⟩ | ⟨e, h⟩ <;>
      rw [h] <;> exact ⟨ht.newJob, ht.newLog⟩
  | commit => exact ⟨hdb.flush ht, ht⟩
  | fail => exact ⟨hdb, trivial⟩

theorem endpoints_run (hms : Meets (step env) (fun _ m => fromRouter m = true)
      ⟨Database.empty, []⟩ ms)
    (hrun : Run.run (step env) ⟨Database.empty, []⟩ ms = some p) : Endpoints p.store := by
  have hstart : Asserts Endpoints (fun _ => TaskEndpoints) (⟨Database.empty, []⟩ : State) :=
    ⟨⟨by simp [Database.empty], by simp [Database.empty]⟩, by simp⟩
  have hstep : ∀ p m p', Asserts Endpoints (fun _ => TaskEndpoints) p → fromRouter m = true →
      step env p m = some p' → Asserts Endpoints (fun _ => TaskEndpoints) p' := by
    intro p m p' hI hm hs
    exact Program.inv_step_local (C := fun _ m => fromRouter m = true)
      (fun p r _ hr => taskEndpoints_starts hr (starts_spawn env p.store r))
      (fun _ _ _ _ _ _ hdb ht _ _ ha => taskEndpoints_steps hdb ht (steps_of_act ha)) hI hm hs
  exact (invariant_of_meets hstep hstart hms hrun).1

theorem not_mem_jobEndpointPattern {endpoint : String} (h : endpoint ∈ requestLogEndpointPattern) :
    endpoint ∉ jobEndpointPattern := by
  simp only [requestLogEndpointPattern, List.mem_cons, List.not_mem_nil, or_false] at h
  rcases h with rfl | rfl | rfl <;> decide

/-- **The admin listings** show every account, every job the query returns, and every log it
returns, as long as the database takes the parameters and no log is that of a submitted job. -/
theorem listings_valid_iff (hf : RoundTrips env)
    (hms : Meets (step env) (fun _ m => fromRouter m = true) ⟨Database.empty, []⟩ ms)
    (hrun : Run.run (step env) ⟨Database.empty, []⟩ ms = some p) :
    (∃ accounts, listAccounts p.store = .ok accounts ∧
      accounts.map (·.id) = (orderById p.store.accounts).map (·.id)) ∧
    (∀ (q : ListQuery jobEndpointPattern) page,
      q.Selects (·.endpoint) (·.status) (·.createdAt) p.store.jobs page →
      ((∃ jobs, listJobs env q page = .ok jobs ∧ jobs.map (·.id) = page.map (·.id)) ↔
        q.binds env.backend = true)) ∧
    ∀ (q : ListQuery requestLogEndpointPattern) page,
      q.Selects (·.endpoint) (·.status) (·.requestedAt) p.store.requestLogs page →
      ((∃ logs, listLogs env q page = .ok logs ∧ logs.map (·.id) = page.map (·.id)) ↔
        q.binds env.backend = true ∧ ∀ log ∈ page, log.endpoint ∉ jobEndpointPattern) := by
  have hwell : WellFormed env p.store := (Reachable.sound hf ⟨_, ms, rfl, hrun⟩).1
  have hends := endpoints_run hms hrun
  refine ⟨listAccounts_ok hwell, fun q page hsel => ?_, fun q page hsel => ?_⟩
  · unfold listJobs
    split_ifs with hb
    · obtain ⟨jobs, hjobs⟩ := mapM_isOk fun job hjob =>
        exists_jobResponse_iff.2 (hends.jobs job (hsel.mem hjob))
      simp only [hb, iff_true]
      exact ⟨jobs, hjobs, map_eq_of_mapM hjobs fun job r hr => jobResponse_id hr⟩
    · simp [hb]
  · unfold listLogs
    split_ifs with hb
    · simp only [hb, true_and]
      constructor
      · rintro ⟨logs, hlogs, -⟩ log hlog
        obtain ⟨r, -, hr⟩ := forall₂_mem_left (mapM_eq_ok.1 hlogs) hlog
        exact not_mem_jobEndpointPattern (exists_requestLogResponse_iff.1 ⟨r, hr⟩)
      · intro hnot
        obtain ⟨logs, hlogs⟩ := mapM_isOk fun log hlog => exists_requestLogResponse_iff.2
          ((hends.requestLogs log (hsel.mem hlog)).resolve_right (hnot log hlog))
        exact ⟨logs, hlogs, map_eq_of_mapM hlogs fun log r hr => requestLogResponse_id hr⟩
    · simp [hb]

/-- A crawl is submitted, and from then on the listing of all logs fails. -/
theorem crawl_log_invalid : let env := sampleEnv .sqlite
    let ms := sampleSetup ++ submitCrawl 2
    let p := after env ⟨Database.empty, []⟩ ms
    let q : ListQuery requestLogEndpointPattern := {}
    Meets (step env) (fun _ m => fromRouter m = true) ⟨Database.empty, []⟩ ms ∧
    Run.run (step env) ⟨Database.empty, []⟩ ms = some p ∧
    p.store.requestLogs.map (·.endpoint) = ["crawl"] ∧
    q.Selects (·.endpoint) (·.status) (·.requestedAt) p.store.requestLogs p.store.requestLogs ∧
    listLogs env q p.store.requestLogs = .error .validationError :=
  ⟨by decide, run_after (by decide), by decide, ⟨_, ⟨.refl _, by decide⟩, rfl⟩, rfl⟩

/-- A synchronous call of the sample account, from the empty database on. -/
def listedRun : List Event :=
  sampleSetup ++ sendPost 2 mapPost 0 ++ settle 2 { status := 200 } 0

/-- Its log is listed. -/
theorem listings_valid_sample : let env := sampleEnv .sqlite
    let p := after env ⟨Database.empty, []⟩ listedRun
    ∃ logs, listLogs env {} p.store.requestLogs = .ok logs ∧
      logs.map (·.id) = p.store.requestLogs.map (·.id) := by
  intro env p
  have hms : Meets (step env) (fun _ m => fromRouter m = true) ⟨Database.empty, []⟩ listedRun := by
    decide
  have hrun : Run.run (step env) ⟨Database.empty, []⟩ listedRun = some p := run_after (by decide)
  have hlogs := (listings_valid_iff (roundTrips_sampleEnv _) hms hrun).2.2 {} p.store.requestLogs
    ⟨_, ⟨.refl _, by decide⟩, rfl⟩
  exact hlogs.2 ⟨by decide, by decide⟩

end Reachable

end FirecrawlLb.Firecrawl.AdminService
