import FirecrawlLb.Firecrawl.AdminService

/-!
# The overview

The aggregates over the accounts and over the newest jobs and logs.  Each counts the values of its
own list: the statuses of accounts without `invalid`, one of the statuses a job can have before its
end, and two of the five statuses of a log.
-/

namespace FirecrawlLb.Firecrawl.Overview

open FirecrawlLb.Lib FirecrawlLb.Lib.Run FirecrawlLb.Python FirecrawlLb.Db.Models
open FirecrawlLb.Firecrawl.Models FirecrawlLb.Firecrawl.Schemas FirecrawlLb.Firecrawl.Repository
open FirecrawlLb.Firecrawl.Service FirecrawlLb.Firecrawl.System FirecrawlLb.Firecrawl.Stored
open FirecrawlLb.Firecrawl.AdminService (fromRouter LogEndpoint endpoints_run
  not_mem_jobEndpointPattern)

/-! ### The aggregates -/

/-- `ACCOUNT_STATUSES` -/
def accountStatuses : List String := ["active", "rate_limited", "credit_exhausted", "paused"]

/-- `SYNC_ENDPOINTS` -/
def syncEndpoints : List String := ["scrape", "map", "search"]

/-- `JOB_ENDPOINTS` -/
def jobEndpoints : List String := ["crawl", "batch_scrape"]

/-- `ACTIVE_JOB_STATUSES` -/
def activeJobStatuses : List String := ["submitted"]

/-- `_count_by_endpoint`, of the endpoints of the records. -/
def countByEndpoint (records endpoints : List String) : Dict String ℕ :=
  (Dict.zeros endpoints).tally records

/-- `get_overview`, of the rows its three queries return. -/
def getOverview (accounts : List FirecrawlAccountRecord) (jobs : List FirecrawlJobRecord)
    (logs : List FirecrawlRequestLogRecord) : FirecrawlOverviewResponse :=
  let accountsByStatus := (Dict.zeros accountStatuses).tally (accounts.filterMap (·.status))
  let syncCounts := countByEndpoint (logs.map (·.endpoint)) syncEndpoints
  let jobCounts := countByEndpoint (jobs.map (·.endpoint)) jobEndpoints
  { totalAccounts := accounts.length
    activeAccounts := accountsByStatus.getD "active" 0
    totalRemainingCredits := (accounts.map (·.remainingCreditsLive.getD 0)).sum
    totalBudgetCredits := (accounts.map fun account => (nonzero account.monthlyBudgetCredits <|>
      nonzero account.planCreditsLive).getD 0).sum
    accountsByStatus := {
      active := accountsByStatus.getD "active" 0
      rateLimited := accountsByStatus.getD "rate_limited" 0
      creditExhausted := accountsByStatus.getD "credit_exhausted" 0
      paused := accountsByStatus.getD "paused" 0 }
    activeJobs := (jobs.filter (·.status ∈ activeJobStatuses)).length
    recentRequests := {
      total := logs.length
      success := (logs.filter (·.status = "success")).length
      error := (logs.filter (·.status = "error")).length }
    endpointBreakdown := {
      scrape := syncCounts.getD "scrape" 0
      map := syncCounts.getD "map" 0
      search := syncCounts.getD "search" 0
      crawl := jobCounts.getD "crawl" 0
      batchScrape := jobCounts.getD "batch_scrape" 0 } }

/-- What the query of the overview may return: at most ten thousand rows, the newest ones. -/
def Newest {α : Type} (time : α → DateTime) (table page : List α) : Prop :=
  ∃ rows : List α, rows.Perm table ∧
    rows.Pairwise (fun a b => (time b).wall ≤ (time a).wall) ∧ page = rows.take 10000

/-- The overview of a database, whichever way the database orders rows of one time. -/
inductive Returned (db : Database) : FirecrawlOverviewResponse → Prop
  | page {jobs : List FirecrawlJobRecord} {logs : List FirecrawlRequestLogRecord}
      (hjobs : Newest (·.createdAt) db.jobs jobs)
      (hlogs : Newest (·.requestedAt) db.requestLogs logs) :
      Returned db (getOverview (orderById db.accounts) jobs logs)

/-- **The overview is consistent with the records.** -/
structure Consistent (db : Database) (o : FirecrawlOverviewResponse) : Prop where
  accounts : o.accountsByStatus.active + o.accountsByStatus.rateLimited +
    o.accountsByStatus.creditExhausted + o.accountsByStatus.paused = o.totalAccounts
  jobs : o.activeJobs = (db.jobs.filter fun job => !isTerminalJobStatus job.status).length
  requests : o.recentRequests.success + o.recentRequests.error = o.recentRequests.total
  endpoints : o.endpointBreakdown.scrape + o.endpointBreakdown.map + o.endpointBreakdown.search +
    (db.requestLogs.filter (·.endpoint ∈ jobEndpoints)).length = db.requestLogs.length

/-- The records have no value the lists of the overview leave out. -/
structure Listed (db : Database) : Prop where
  accounts : ∀ account ∈ db.accounts,
    account.status ≠ some FirecrawlAccountStatus.invalid.value
  jobs : ∀ job ∈ db.jobs, job.status = "submitted" ∨ isTerminalJobStatus job.status = true
  logs : ∀ log ∈ db.requestLogs, log.status = "success" ∨ log.status = "error"

/-! ### Counting -/

section Counting

variable {db : Database} {α : Type}

theorem newest_perm {time : α → DateTime} {table page : List α} (hfew : table.length < 10000)
    (h : Newest time table page) : page.Perm table := by
  obtain ⟨rows, hperm, -, rfl⟩ := h
  rwa [List.take_of_length_le (by rw [hperm.length_eq]; omega)]

theorem newest_self {time : α → DateTime} {table : List α} (hfew : table.length ≤ 10000)
    (hsorted : table.Pairwise fun a b => (time b).wall ≤ (time a).wall) : Newest time table table :=
  ⟨table, .refl _, hsorted, (List.take_of_length_le hfew).symm⟩

/-- The counts of some keys add up to the length of the list exactly when it has no other. -/
theorem sum_count_eq_length_iff {ks l : List String} (hks : ks.Nodup) :
    (ks.map (l.count ·)).sum = l.length ↔ ∀ x ∈ l, x ∈ ks := by
  have hsum := sum_count_add_length hks l
  have hnone : (l.filter (· ∉ ks)).length = 0 ↔ ∀ x ∈ l, x ∈ ks := by
    rw [List.length_eq_zero_iff, List.filter_eq_nil_iff]
    simp
  rw [← hnone]
  omega

/-- Two tests of which the first is the finer select equally many exactly when they agree. -/
theorem length_filter_eq_iff {f g : α → Bool} {l : List α} (h : ∀ a ∈ l, f a = true → g a = true) :
    (l.filter f).length = (l.filter g).length ↔ ∀ a ∈ l, g a = true → f a = true := by
  induction l with
  | nil => simp
  | cons a l ih =>
    obtain ⟨ha, hl⟩ := List.forall_mem_cons.1 h
    have hle : (l.filter f).length ≤ (l.filter g).length := by
      rw [← List.countP_eq_length_filter, ← List.countP_eq_length_filter]
      exact List.countP_mono_left hl
    rw [List.forall_mem_cons, ← ih hl]
    cases hf : f a with
    | true => simp [hf, ha hf]
    | false =>
      cases hg : g a with
      | true =>
        simp only [List.filter_cons, hf, hg, Bool.false_eq_true, if_false, if_true,
          List.length_cons, true_implies, false_and, iff_false]
        omega
      | false => simp [hf, hg]

theorem length_filter_eq_count (value : α → String) (k : String) (l : List α) :
    (l.filter (value · = k)).length = (l.map value).count k := by
  rw [List.count_eq_countP, List.countP_map, List.countP_eq_length_filter]
  rfl

end Counting

/-! ### The parts of the overview -/

section Parts

variable {env : Env} {db : Database} {jobs : List FirecrawlJobRecord}
  {logs : List FirecrawlRequestLogRecord}

theorem accounts_consistent_iff (h : WellFormed env db) (jobs : List FirecrawlJobRecord)
    (logs : List FirecrawlRequestLogRecord) :
    let o := getOverview (orderById db.accounts) jobs logs
    o.accountsByStatus.active + o.accountsByStatus.rateLimited +
        o.accountsByStatus.creditExhausted + o.accountsByStatus.paused = o.totalAccounts ↔
      ∀ account ∈ db.accounts, account.status ≠ some FirecrawlAccountStatus.invalid.value := by
  intro o
  set statuses := (orderById db.accounts).filterMap (·.status) with hstatuses
  have hlength : o.totalAccounts = statuses.length := by
    refine (List.filterMap_length_eq_length.2 fun account haccount => ?_).symm
    obtain ⟨status, hstatus⟩ := (h.accounts account (mem_orderById.1 haccount)).status
    rw [hstatus]
    rfl
  -- the four counts are those of a tally over the statuses
  have hsum : o.accountsByStatus.active + o.accountsByStatus.rateLimited +
      o.accountsByStatus.creditExhausted + o.accountsByStatus.paused =
        (accountStatuses.map (statuses.count ·)).sum := by
    have hcount : ∀ k ∈ accountStatuses,
        ((Dict.zeros accountStatuses).tally statuses).getD k 0 = statuses.count k :=
      fun k hk => Dict.getD_tally_zeros hk statuses
    change ((Dict.zeros accountStatuses).tally statuses).getD "active" 0 +
      ((Dict.zeros accountStatuses).tally statuses).getD "rate_limited" 0 +
      ((Dict.zeros accountStatuses).tally statuses).getD "credit_exhausted" 0 +
      ((Dict.zeros accountStatuses).tally statuses).getD "paused" 0 = _
    rw [hcount _ (by decide), hcount _ (by decide), hcount _ (by decide), hcount _ (by decide)]
    simp only [accountStatuses, List.map_cons, List.map_nil, List.sum_cons, List.sum_nil]
    omega
  rw [hsum, hlength, sum_count_eq_length_iff (by decide)]
  constructor
  · intro hall account haccount hinvalid
    have hmem := hall _ (List.mem_filterMap.2 ⟨account, mem_orderById.2 haccount, hinvalid⟩)
    exact absurd hmem (by decide)
  · intro hvalid x hx
    obtain ⟨account, haccount, hx⟩ := List.mem_filterMap.1 hx
    have haccount := mem_orderById.1 haccount
    obtain ⟨status, hstatus⟩ := (h.accounts account haccount).status
    obtain rfl : status.value = x := Option.some.inj (hstatus.symm.trans hx)
    have hne : status ≠ .invalid := fun h => hvalid account haccount (h ▸ hstatus)
    cases status <;> first | decide | exact absurd rfl hne

theorem jobs_consistent_iff (hjobs : jobs.Perm db.jobs) :
    (jobs.filter (·.status ∈ activeJobStatuses)).length =
        (db.jobs.filter fun job => !isTerminalJobStatus job.status).length ↔
      ∀ job ∈ db.jobs, job.status = "submitted" ∨ isTerminalJobStatus job.status = true := by
  have hsubmitted : ∀ job ∈ db.jobs, decide (job.status ∈ activeJobStatuses) = true →
      (!isTerminalJobStatus job.status) = true := by
    intro job _ hactive
    have hstatus : job.status = "submitted" := by simpa [activeJobStatuses] using hactive
    rw [hstatus]
    decide
  rw [(hjobs.filter _).length_eq, length_filter_eq_iff hsubmitted]
  refine forall₂_congr fun job _ => ?_
  cases isTerminalJobStatus job.status <;> simp [activeJobStatuses]

theorem requests_consistent_iff (hlogs : logs.Perm db.requestLogs) :
    (logs.filter (·.status = "success")).length + (logs.filter (·.status = "error")).length =
        logs.length ↔
      ∀ log ∈ db.requestLogs, log.status = "success" ∨ log.status = "error" := by
  have hnodup : ["success", "error"].Nodup := by decide
  have hsum := sum_count_eq_length_iff (l := logs.map (·.status)) hnodup
  rw [List.length_map] at hsum
  rw [length_filter_eq_count, length_filter_eq_count]
  simp only [List.map_cons, List.map_nil, List.sum_cons, List.sum_nil, add_zero] at hsum
  rw [hsum]
  simp [hlogs.mem_iff]

/-- **The endpoints of the logs are counted in full.** -/
theorem endpoints_consistent (hlogs : logs.Perm db.requestLogs)
    (hends : ∀ log ∈ db.requestLogs, LogEndpoint log.endpoint)
    (accounts : List FirecrawlAccountRecord) (jobs : List FirecrawlJobRecord) :
    let o := getOverview accounts jobs logs
    o.endpointBreakdown.scrape + o.endpointBreakdown.map + o.endpointBreakdown.search +
      (db.requestLogs.filter (·.endpoint ∈ jobEndpoints)).length = db.requestLogs.length := by
  intro o
  have hcount : ∀ k ∈ syncEndpoints,
      (countByEndpoint (logs.map (·.endpoint)) syncEndpoints).getD k 0 =
        (logs.map (·.endpoint)).count k := fun k hk => Dict.getD_tally_zeros hk _
  have hnodup : syncEndpoints.Nodup := by decide
  have hsum := sum_count_add_length hnodup (logs.map (·.endpoint))
  have hrest : ((logs.map (·.endpoint)).filter (· ∉ syncEndpoints)).length =
      (db.requestLogs.filter (·.endpoint ∈ jobEndpoints)).length := by
    rw [List.filter_map, List.length_map, ← (hlogs.filter _).length_eq]
    congr 1
    refine List.filter_congr fun log hlog => ?_
    have hiff : log.endpoint ∉ syncEndpoints ↔ log.endpoint ∈ jobEndpoints := by
      rcases hends log (hlogs.mem_iff.1 hlog) with hsync | hjob
      · exact iff_of_false (fun h => h hsync) (not_mem_jobEndpointPattern hsync)
      · exact iff_of_true (fun hsync => not_mem_jobEndpointPattern hsync hjob) hjob
    exact decide_eq_decide.2 hiff
  change (countByEndpoint (logs.map (·.endpoint)) syncEndpoints).getD "scrape" 0 +
    (countByEndpoint (logs.map (·.endpoint)) syncEndpoints).getD "map" 0 +
    (countByEndpoint (logs.map (·.endpoint)) syncEndpoints).getD "search" 0 + _ = _
  rw [hcount _ (by decide), hcount _ (by decide), hcount _ (by decide), ← hrest,
    ← hlogs.length_eq]
  simp only [List.length_map, syncEndpoints, List.map_cons, List.map_nil, List.sum_cons,
    List.sum_nil] at hsum ⊢
  omega

end Parts

/-- **The overview is consistent exactly when its lists have every value of the records**: no
account is invalid, no job has a status between its submission and its end, and no log is that of a
401, a 402 or a 429. -/
theorem consistent_iff {env : Env} {p : State} {ms : List Event} (hf : RoundTrips env)
    (hms : Meets (step env) (fun _ m => fromRouter m = true) ⟨Database.empty, []⟩ ms)
    (hrun : Run.run (step env) ⟨Database.empty, []⟩ ms = some p)
    (hjobs : p.store.jobs.length < 10000) (hlogs : p.store.requestLogs.length < 10000)
    {o : FirecrawlOverviewResponse} (ho : Returned p.store o) :
    Consistent p.store o ↔ Listed p.store := by
  have hwell : WellFormed env p.store := (Reachable.sound hf ⟨_, ms, rfl, hrun⟩).1
  have hends := endpoints_run hms hrun
  obtain @⟨jobs, logs, hjobsPage, hlogsPage⟩ := ho
  have hjobs := newest_perm hjobs hjobsPage
  have hlogs := newest_perm hlogs hlogsPage
  constructor
  · rintro ⟨haccounts, hactive, hrequests, -⟩
    exact ⟨(accounts_consistent_iff hwell jobs logs).1 haccounts,
      (jobs_consistent_iff hjobs).1 hactive, (requests_consistent_iff hlogs).1 hrequests⟩
  · rintro ⟨haccounts, hactive, hrequests⟩
    exact ⟨(accounts_consistent_iff hwell jobs logs).2 haccounts,
      (jobs_consistent_iff hjobs).2 hactive, (requests_consistent_iff hlogs).2 hrequests,
      endpoints_consistent hlogs hends.requestLogs _ _⟩

/-- A crawl that has been polled, a request that was answered 429, and an update of the account by
its operator. -/
def unlistedRun (update : FirecrawlAccountUpdateRequest) : List Event :=
  sampleSetup ++ submitCrawl 2 ++ [.spawn (.jobOperation "crawl" "job-1" .get),
    .act 3 (.answer { status := 200, jsonBody := some [("status", .str "scraping")] } 0 0),
    .act 3 (.commit 0)] ++ sendPost 4 mapPost 0 ++ settle 4 { status := 429 } 0 ++
    [.spawn (.updateAccount "account-1" update), .act 5 (.commit 0)]

/-- With the account marked invalid, no count of the overview adds up. -/
theorem not_consistent_sample : let env := sampleEnv .sqlite
    let invalidated : FirecrawlAccountUpdateRequest := { status := some (some "invalid") }
    let p := after env ⟨Database.empty, []⟩ (unlistedRun invalidated)
    let o := getOverview (orderById p.store.accounts) p.store.jobs p.store.requestLogs
    Meets (step env) (fun _ m => fromRouter m = true) ⟨Database.empty, []⟩
      (unlistedRun invalidated) ∧
    Run.run (step env) ⟨Database.empty, []⟩ (unlistedRun invalidated) = some p ∧
    p.store.jobs.length = 1 ∧ p.store.requestLogs.length = 2 ∧ Returned p.store o ∧
    (o.totalAccounts = 1 ∧ o.accountsByStatus.active + o.accountsByStatus.rateLimited +
      o.accountsByStatus.creditExhausted + o.accountsByStatus.paused = 0) ∧
    (o.activeJobs = 0 ∧
      (p.store.jobs.filter fun job => !isTerminalJobStatus job.status).length = 1) ∧
    (o.recentRequests.total = 2 ∧ o.recentRequests.success + o.recentRequests.error = 1) ∧
    ¬ Consistent p.store o := by
  intro env invalidated p o
  have haccounts : o.totalAccounts = 1 ∧ o.accountsByStatus.active +
      o.accountsByStatus.rateLimited + o.accountsByStatus.creditExhausted +
      o.accountsByStatus.paused = 0 := by decide +kernel
  have hreturned : Returned p.store o :=
    .page (newest_self (by decide) (by decide)) (newest_self (by decide) (by decide))
  refine ⟨by decide, run_after (by decide), by decide, by decide, hreturned, haccounts,
    by decide +kernel, by decide +kernel, fun h => ?_⟩
  exact absurd (haccounts.2.symm.trans (h.accounts.trans haccounts.1)) (by decide)

/-- A crawl that was submitted, and a request that was answered. -/
def listedSample : List Event :=
  sampleSetup ++ submitCrawl 2 ++ sendPost 3 mapPost 0 ++ settle 3 { status := 200 } 0

theorem consistent_sample : let p := after (sampleEnv .sqlite) ⟨Database.empty, []⟩ listedSample
    Consistent p.store
      (getOverview (orderById p.store.accounts) p.store.jobs p.store.requestLogs) := by
  intro p
  have hrun : Run.run (step (sampleEnv .sqlite)) ⟨Database.empty, []⟩ listedSample = some p :=
    run_after (by decide)
  exact (consistent_iff (roundTrips_sampleEnv _) (by decide) hrun (by decide) (by decide)
    (.page (newest_self (by decide) (by decide)) (newest_self (by decide) (by decide)))).2
    ⟨by decide, by decide, by decide⟩

end FirecrawlLb.Firecrawl.Overview
