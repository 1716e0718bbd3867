import FirecrawlLb.Firecrawl.Estimates
import FirecrawlLb.Firecrawl.Ledger

/-!
# The credits reserved for jobs

A submitted job keeps the estimate it was admitted with.  The router compares the estimate of a
request with the balance alone, so the balance covers the reservation of an account's only open job,
and nothing keeps the reservations of several within it.
-/

namespace FirecrawlLb.Firecrawl.Reservations

open FirecrawlLb.Lib FirecrawlLb.Lib.Run FirecrawlLb.Python FirecrawlLb.Db.Models
open FirecrawlLb.Firecrawl.Models FirecrawlLb.Firecrawl.Usage FirecrawlLb.Firecrawl.Routing
open FirecrawlLb.Firecrawl.Estimates FirecrawlLb.Firecrawl.Selection
open FirecrawlLb.Firecrawl.Repository FirecrawlLb.Firecrawl.Service
open FirecrawlLb.Firecrawl.Stored FirecrawlLb.Firecrawl.Charges FirecrawlLb.Firecrawl.Ledger
open FirecrawlLb.Firecrawl.Settlement (completedResponse)

/-! ### Open jobs -/

/-- The status of a cancelled job, in either spelling. -/
def isCancelled (status : String) : Bool :=
  let lower := status.toList.map Char.toLower
  lower = "cancelled".toList || lower = "canceled".toList

/-- What a job holds of the balance of the account: its reservation, while it is neither settled nor
cancelled. -/
def heldBy (id : String) (job : FirecrawlJobRecord) : ℤ :=
  if job.accountId = some id ∧ job.creditsUsedFinal = none ∧ isCancelled job.status = false then
    job.estimatedCreditsReserved.getD 0
  else 0

/-- The sum of the reservations of the open jobs of the account. -/
def reserved (id : String) (db : Database) : ℤ := (db.jobs.map (heldBy id)).sum

/-- The balance of the account covers the reservations. -/
def Covered (id : String) (db : Database) : Prop := ∀ b ∈ balance id db, reserved id db ≤ b

/-- The status a job operation leaves its job with. -/
def answeredStatus (method : JobMethod) (response : FirecrawlUpstreamResponse)
    (job : FirecrawlJobRecord) : String :=
  if response.isSuccess then
    match method with
    | .get => statusOr (jobStatus response.jsonBody) job.status
    | .delete => statusOr (jobStatus response.jsonBody) "cancelled"
  else job.status

/-! ### What a call asks of the balance -/

/-- The reservation of a job the upstream accepts from the account. -/
def reserves (env : Env) (id : String) (db : Database) : Call × Exchange → Option ℤ
  | (.submitJob endpoint path payload params, x) =>
    match submitJob env db endpoint path payload params x with
    | .ok (selected, _) =>
      if selected.account.id = id ∧ x.response.isSuccess = true ∧
          (upstreamJobId x.response.jsonBody).isSome = true then
        some selected.estimatedCredits
      else none
    | .error _ => none
  | _ => none

/-- The reservation of a cancelled job of the account that the answer opens again. -/
def reopens (env : Env) (id : String) (db : Database) : Call × Exchange → Option ℤ
  | (.jobOperation endpoint upstreamJobId method, x) =>
    match proxyJobOperation env db endpoint upstreamJobId method x with
    | .ok (some job, _) =>
      if job.accountId = some id ∧ job.creditsUsedFinal = none ∧
          settlement method x.response = none ∧ isCancelled job.status = true ∧
          isCancelled (answeredStatus method x.response job) = false then
        some (job.estimatedCreditsReserved.getD 0)
      else none
    | _ => none
  | _ => none

/-- What the job that a poll settles holds until then. -/
def releases (env : Env) (id : String) (db : Database) : Call × Exchange → ℤ
  | (.jobOperation endpoint upstreamJobId method, x) =>
    match proxyJobOperation env db endpoint upstreamJobId method x with
    | .ok (some job, _) => if settlement method x.response = none then 0 else heldBy id job
    | _ => 0
  | _ => 0

/-- A reservation, new or opened again, fits beside the others, and a charge leaves what the other
jobs hold. -/
def Admits (env : Env) (id : String) (db : Database) (e : Call × Exchange) : Prop :=
  ∀ b ∈ balance id db,
    (∀ n ∈ reserves env id db e, reserved id db + n ≤ b) ∧
    (∀ n ∈ reopens env id db e, reserved id db + n ≤ b) ∧
    ∀ c ∈ charges env id db e, reserved id db - releases env id db e ≤ max 0 (b - c)

instance {env : Env} {id : String} {db : Database} {e : Call × Exchange} :
    Decidable (Admits env id db e) :=
  inferInstanceAs (Decidable (∀ b ∈ balance id db, _))

/-- The account is a candidate of the router. -/
def candidate (env : Env) (id : String) (db : Database) (p : Post) (now : ℤ) : Prop :=
  ∃ accounts ∈ (listAccounts env db).toOption,
    ∃ estimate ∈ (estimateFromPayload p.endpoint p.payload).toOption, ∃ a ∈ accounts, a.id = id ∧
      (candidateOf accounts p.endpoint estimate (.utc now) a).isSome = true

/-- **One open job at a time**: the account is a candidate only when it has no open job, no answer
opens a cancelled one again, and a poll settles a job only when no other one is open. -/
structure OneAtATime (env : Env) (id : String) (db : Database) (e : Call × Exchange) : Prop where
  post : ∀ p ∈ e.1.post?, candidate env id db p e.2.selectedAt → reserved id db = 0
  reopened : reopens env id db e = none
  settled : ∀ c ∈ settled env id db e, releases env id db e = reserved id db

instance {env : Env} {id : String} {db : Database} {p : Post} {now : ℤ} :
    Decidable (candidate env id db p now) :=
  inferInstanceAs (Decidable (∃ accounts ∈ (listAccounts env db).toOption, _))

instance {env : Env} {id : String} {db : Database} {e : Call × Exchange} :
    Decidable (OneAtATime env id db e) :=
  decidable_of_iff ((∀ p ∈ e.1.post?, candidate env id db p e.2.selectedAt → reserved id db = 0) ∧
    (reopens env id db e).isNone = true ∧
    ∀ c ∈ Ledger.settled env id db e, releases env id db e = reserved id db)
    ⟨fun ⟨hpost, hreopened, hsettled⟩ => ⟨hpost, Option.isNone_iff_eq_none.1 hreopened, hsettled⟩,
      fun h => ⟨h.post, Option.isNone_iff_eq_none.2 h.reopened, h.settled⟩⟩

/-! ### The reservations after a call -/

section Serve

variable {env : Env} {db db' : Database} {e : Call × Exchange} {id : String}
  {job : FirecrawlJobRecord} {method : JobMethod} {x : Exchange}

theorem jobAnswered_status (method : JobMethod) (response : FirecrawlUpstreamResponse)
    (now : DateTime) (job : FirecrawlJobRecord) :
    (jobAnswered method response now job).1.status = answeredStatus method response job := by
  unfold jobAnswered answeredStatus
  cases response.isSuccess with
  | false => rfl
  | true =>
    cases method with
    | delete => rfl
    | get =>
      cases jobStatus response.jsonBody with
      | none => rfl
      | some status =>
        cases creditsUsed response.jsonBody with
        | none => rfl
        | some credits =>
          cases ht : isTerminalJobStatus status with
          | false => simp [ht]
          | true =>
            have hne : status ≠ "" := by
              rintro rfl
              cases ht
            have hstatus : statusOr (some status) job.status = status := by
              simp [statusOr, Option.filter, hne]
            cases job.creditsUsedFinal <;> simp [ht, settleJobOnce, hstatus]

theorem heldBy_polled (id : String) (db : Database) (method : JobMethod)
    (job : FirecrawlJobRecord) (x : Exchange) :
    heldBy id ((polledSession db method job x).flushJob job) =
      if job.accountId = some id ∧
          (job.creditsUsedFinal <|> settlement method x.response) = none ∧
          isCancelled (answeredStatus method x.response job) = false then
        job.estimatedCreditsReserved.getD 0
      else 0 := by
  have hstatus : ((polledSession db method job x).flushJob job).status =
      answeredStatus method x.response job := by
    rw [flushJob_polled_self, ← jobAnswered_status method x.response (.utc x.answeredAt)]
    exact column_fresh rfl
  have hestimate : ((polledSession db method job x).flushJob job).estimatedCreditsReserved =
      job.estimatedCreditsReserved := by rw [flushJob_polled_self]; rfl
  rw [heldBy, (flushJob_key _ job).1, creditsUsedFinal_polled, hstatus, hestimate]

theorem covered_serve (hserve : serve env db e = some db') : Covered id db' ↔
    ∀ b ∈ balance id db, reserved id db' ≤ (charges env id db e).elim b (spend b) := by
  simp [Covered, balance_serve hserve]

theorem reserved_post {call : Call} {p : Post} {selected : FirecrawlSelectedAccount}
    {session : Session} {target : Option RowWrite} (hp : call.post? = some p)
    (h : Service.post env db p x =
      .ok (selected, (session.perform? db target).flush x.committedAt db))
    (ha : p.answered selected x.response (.utc x.answeredAt) x.latencyMs = .ok (session, target)) :
    reserved id ((session.perform? db target).flush x.committedAt db) =
      reserved id db + (reserves env id db (call, x)).getD 0 := by
  obtain ⟨hkeepsJob, hkeepsNew, -⟩ := perform?_keeps session db target
  obtain ⟨⟨log, rfl, -⟩, -⟩ := Post.answered_eq_ok ha
  have hmap : db.jobs.map (Session.perform? _ db target).flushJob = db.jobs :=
    (List.map_congr_left fun row _ => flushJob_of_none hkeepsJob row).trans (List.map_id' _)
  simp only [reserved, Session.flush, hmap, hkeepsNew, List.map_append, List.sum_append]
  congr 1
  cases call with
  | proxy endpoint payload params =>
    obtain rfl := Option.some.inj hp
    simp [reserves, Post.newJob?]
  | submitJob endpoint path payload params =>
    obtain rfl := Option.some.inj hp
    have hsubmit : submitJob env db endpoint path payload params x = .ok (selected, _) := h
    simp only [reserves, hsubmit, Post.newJob?, true_and]
    cases hid : upstreamJobId x.response.jsonBody with
    | none => simp
    | some jobId =>
      by_cases hown : selected.account.id = id
      · have hopen : isCancelled "submitted" = false := by decide
        cases x.response.isSuccess <;>
          simp [hown, heldBy, Session.insertJob, Post.submittedJob, hopen]
      · cases x.response.isSuccess <;>
          simp [hown, heldBy, Session.insertJob, Post.submittedJob]
  | jobOperation => cases hp

theorem reserved_polled (hids : JobIds db) (hmem : job ∈ db.jobs) :
    reserved id ((polledSession db method job x).flush x.committedAt db) =
      reserved id db - heldBy id job +
        heldBy id ((polledSession db method job x).flushJob job) := by
  obtain ⟨before, after, hsplit, hjobs⟩ := jobs_flush_polled method x hids hmem
  rw [reserved, reserved, hjobs, hsplit]
  simp only [List.map_append, List.map_cons, List.sum_append, List.sum_cons]
  ring

theorem admits_of_serve_eq_none (h : serve env db e = none) : Admits env id db e := by
  intro b _
  obtain ⟨call, x⟩ := e
  cases call with
  | proxy endpoint payload params =>
    cases hcall : proxy env db endpoint payload params x with
    | ok r => simp [serve, hcall, Except.toOption] at h
    | error raised => simp [reserves, reopens, charges, served, settled, hcall]
  | submitJob endpoint path payload params =>
    cases hcall : submitJob env db endpoint path payload params x with
    | ok r => simp [serve, hcall, Except.toOption] at h
    | error raised => simp [reserves, reopens, charges, served, settled, hcall]
  | jobOperation endpoint upstreamJobId method =>
    cases hcall : proxyJobOperation env db endpoint upstreamJobId method x with
    | ok r => simp [serve, hcall, Except.toOption] at h
    | error raised => simp [reserves, reopens, charges, served, settled, hcall]

/-- The reservations of the database are not negative. -/
def Estimated (db : Database) : Prop := ∀ job ∈ db.jobs, 0 ≤ job.estimatedCreditsReserved.getD 0

theorem Estimated.serve (h : Estimated db) (hserve : serve env db e = some db') :
    Estimated db' := by
  have hflush : ∀ (s : Session) dbNow, (∀ new, s.newJob = some new →
      0 ≤ new.estimatedCreditsReserved.getD 0) → Estimated (s.flush dbNow db) := by
    intro s dbNow hnew row hrow
    rcases mem_flush_jobs.1 hrow with ⟨r, hr, rfl⟩ | ⟨r, hr, rfl⟩
    · rcases flushJob_cases s r with ⟨-, hf⟩ | ⟨o, -, -, hf⟩ <;> rw [hf]
      exacts [h r hr, h r hr]
    · exact hnew r hr
  cases serves_of_serve hserve with
  | @post call p x selected session target hp hpost ha =>
    obtain ⟨accounts, -, hsel⟩ := select_of_post hpost
    obtain ⟨-, hkeepsNew, -⟩ := perform?_keeps session db target
    obtain ⟨⟨log, rfl, -⟩, -⟩ := Post.answered_eq_ok ha
    refine hflush _ _ fun new hnew => ?_
    rw [hkeepsNew] at hnew
    obtain ⟨-, jobId, -, rfl⟩ := Post.newJob?_eq_some.1 hnew
    have hone := one_le_of_estimateFromPayload (estimate_of_selectAccount hsel)
    exact zero_le_one.trans hone
  | notForwarded => exact h
  | @jobOperation endpoint upstreamJobId method x job hjob hop =>
    refine hflush _ _ fun new hnew => ?_
    rw [show (polledSession db method job x).newJob = none from (perform?_keeps _ db _).2.1] at hnew
    cases hnew

/-- What a poll of a job asks of the balance. -/
theorem covered_polled_iff {endpoint upstreamJobId : String} {b : ℤ} (hids : JobIds db)
    (hest : Estimated db) (hb : reserved id db ≤ b) (hmem : job ∈ db.jobs)
    (hop : proxyJobOperation env db endpoint upstreamJobId method x = .ok (some job, db')) :
    reserved id ((polledSession db method job x).flush x.committedAt db) ≤
        (charges env id db (.jobOperation endpoint upstreamJobId method, x)).elim b (spend b) ↔
      (∀ n ∈ reopens env id db (.jobOperation endpoint upstreamJobId method, x),
        reserved id db + n ≤ b) ∧
      ∀ c ∈ charges env id db (.jobOperation endpoint upstreamJobId method, x),
        reserved id db - releases env id db (.jobOperation endpoint upstreamJobId method, x) ≤
          max 0 (b - c) := by
  have hnonneg := hest job hmem
  rw [reserved_polled hids hmem, heldBy_polled]
  simp only [charges, served, settled, reopens, releases, hop]
  by_cases howned : job.accountId = some id
  · cases hfinal : job.creditsUsedFinal with
    | some credits => simpa [howned, hfinal, heldBy] using hb
    | none =>
      cases hsettle : settlement method x.response with
      | some credits => simp [howned, spend]
      | none =>
        cases hold : isCancelled job.status <;>
          cases isCancelled (answeredStatus method x.response job) <;>
          simp [howned, hfinal, hold, heldBy] <;> omega
  · simpa [howned, heldBy] using hb

/-- **A call keeps the reservations covered** exactly when it is admitted. -/
theorem covered_iff_admits (hids : JobIds db) (hest : Estimated db) (hcov : Covered id db) :
    (∀ db', serve env db e = some db' → Covered id db') ↔ Admits env id db e := by
  cases hserve : serve env db e with
  | none => simpa using admits_of_serve_eq_none hserve
  | some db' =>
    have hnext : (∀ db'', some db' = some db'' → Covered id db'') ↔ Covered id db' := by simp
    rw [hnext, covered_serve hserve]
    refine forall₂_congr fun b hb => ?_
    have hb := hcov b hb
    cases serves_of_serve hserve with
    | @post call p x selected session target hp hpost ha =>
      rw [reserved_post hp hpost ha, charges, settled_of_post hp]
      cases call with
      | proxy endpoint payload params =>
        cases hserved : served env id db (.proxy endpoint payload params, x) with
        | none => simpa [reserves, reopens] using hb
        | some c => simp [reserves, reopens, releases, spend]
      | submitJob endpoint path payload params =>
        cases hnew : reserves env id db (.submitJob endpoint path payload params, x) with
        | none => simpa [reopens, served] using hb
        | some n => simp [reopens, served]
      | jobOperation => cases hp
    | notForwarded hop => simpa [reserves, reopens, charges, served, settled, hop] using hb
    | @jobOperation endpoint upstreamJobId method x job hjob hop =>
      have hmem := (mem_of_getJobRecord hjob).1.1
      rw [covered_polled_iff hids hest hb hmem hop]
      simp [reserves]

/-! ### One job at a time -/

/-- A selected account was a candidate, and its balance covers the estimate. -/
theorem candidate_of_post {p : Post} {selected : FirecrawlSelectedAccount}
    (hids : (db.accounts.map (·.id)).Nodup) (h : Service.post env db p x = .ok (selected, db'))
    (hid : selected.account.id = id) : candidate env id db p x.selectedAt ∧
      ∀ b ∈ balance id db, selected.estimatedCredits ≤ b := by
  obtain ⟨accounts, haccounts, hselect⟩ := select_of_post h
  obtain ⟨estimate, hestimate, hmem, hreason, hcredential⟩ := selectAccount_candidate hselect
  obtain ⟨estimate', hestimate', -, -, heligible⟩ := selectAccount_eligible hselect
  obtain rfl : estimate = estimate' := Except.ok.inj (hestimate.symm.trans hestimate')
  have hcandidate : (candidateOf accounts p.endpoint estimate (.utc x.selectedAt)
      selected.account).isSome = true := by simp [candidateOf, hreason, hcredential]
  refine ⟨⟨accounts, toOption_eq_some.2 haccounts, estimate, toOption_eq_some.2 hestimate, _, hmem,
    hid, hcandidate⟩, fun b hb => ?_⟩
  -- the listed account is the row with the id
  obtain ⟨row, hrow, htodomain⟩ := exists_row_of_mem_listAccounts haccounts hmem
  have hrow' := account?_of_mem hids hrow
  rw [← toDomainAccount_id htodomain, hid] at hrow'
  obtain ⟨credentials, status, -, -, heq⟩ := toDomainAccount_eq_ok.1 htodomain
  have hcredits := heligible.credits
  have hlive : row.remainingCreditsLive = some b := by
    rw [Option.mem_def, balance, hrow', Option.bind_some] at hb
    exact hb
  have hremaining : selected.account.remainingCredits = b := by
    rw [heq]
    simp [hlive]
  rw [hremaining] at hcredits
  rwa [← Except.ok.inj (hestimate.symm.trans (estimate_of_selectAccount hselect))]

/-- **A call that leaves one open job at a time asks for no more than the balance.** -/
theorem admits_of_oneAtATime (hids : (db.accounts.map (·.id)).Nodup)
    (h : OneAtATime env id db e) : Admits env id db e := by
  obtain ⟨call, x⟩ := e
  intro b hb
  refine ⟨fun n hn => ?_, fun n hn => ?_, fun c hc => ?_⟩
  · cases call with
    | proxy | jobOperation => cases hn
    | submitJob endpoint path payload params =>
      simp only [reserves, Option.mem_def] at hn
      split at hn
      · rename_i selected db' hsubmit
        split_ifs at hn with hof
        obtain rfl := Option.some.inj hn
        obtain ⟨hcandidate, hcovers⟩ := candidate_of_post hids hsubmit hof.1
        rw [h.post _ rfl hcandidate, zero_add]
        exact hcovers b hb
      · cases hn
  · rw [h.reopened] at hn
    cases hn
  · -- beside the job that is settled nothing is reserved
    have hzero : reserved id db - releases env id db (call, x) = 0 := by
      rcases (Option.orElse_eq_some _ _ _).1 hc with hserved | ⟨-, hsettled⟩
      · cases call with
        | submitJob | jobOperation => cases hserved
        | proxy endpoint payload params =>
          simp only [served] at hserved
          split at hserved
          · rename_i selected db' hproxy
            split_ifs at hserved with hof
            exact (sub_zero _).trans
              (h.post _ rfl (candidate_of_post hids hproxy hof.1).1)
          · cases hserved
      · rw [h.settled c hsettled, sub_self]
    rw [hzero]
    exact le_max_left _ _

theorem always_covered {calls : List (Call × Exchange)} (hids : (db.accounts.map (·.id)).Nodup)
    (hjobs : db.jobs = []) (hzero : ∀ b ∈ balance id db, 0 ≤ b)
    (hone : Meets (serve env) (OneAtATime env id) db calls) :
    Always (serve env) (Covered id) db calls := by
  have hjobIds : JobIds db := ⟨by simp [hjobs], by simp [hjobs]⟩
  have hest : Estimated db := by simp [Estimated, hjobs]
  have hcovered : Covered id db := by simpa [Covered, reserved, hjobs] using hzero
  refine (always_of_meets (I := fun db => ((db.accounts.map (·.id)).Nodup ∧ JobIds db ∧
    Estimated db) ∧ Covered id db) ?_ ⟨⟨hids, hjobIds, hest⟩, hcovered⟩ hone).mono
    fun _ h => h.2
  rintro db e db' ⟨⟨hids, hjobIds, hest⟩, hcov⟩ hC hserve
  refine ⟨⟨(accounts_ids_serve hserve).symm ▸ hids, hjobIds.serve hserve, hest.serve hserve⟩, ?_⟩
  exact (covered_iff_admits hjobIds hest hcov).2 (admits_of_oneAtATime hids hC) db' hserve

/-! ### The same submission again -/

section Again

variable {endpoint path : String} {payload : JsonObject} {params : Option (List (String × String))}
  {selected : FirecrawlSelectedAccount} {db₁ : Database}

theorem flush_unedited {s : Session} {dbNow : ℤ} (haccounts : s.accounts = [])
    (hcredential : s.credential = none) (hnewAccount : s.newAccount = none)
    (hnewCredential : s.newCredential = none) :
    (s.flush dbNow db₁).accounts = db₁.accounts ∧
      (s.flush dbNow db₁).credentials = db₁.credentials := by
  have hrow : s.flushAccount = id := funext fun row => by
    simp [Session.flushAccount, Session.edit?, haccounts]
  have hkey : s.flushCredential = id := funext fun row => by
    simp [Session.flushCredential, hcredential]
  simp [Session.flush, hrow, hkey, hnewAccount, hnewCredential]

/-- A submission reads the accounts and their credentials, and an accepted one leaves them. -/
theorem submitJob_again (haccounts : db₁.accounts = db.accounts)
    (hcredentials : db₁.credentials = db.credentials)
    (h : submitJob env db endpoint path payload params x = .ok (selected, db'))
    (hok : x.response.isSuccess = true) : ∃ db₁',
    submitJob env db₁ endpoint path payload params x = .ok (selected, db₁') ∧
      db₁'.accounts = db.accounts ∧ db₁'.credentials = db.credentials := by
  unfold submitJob Service.post at h
  obtain ⟨accounts, hlist, h⟩ := bind_eq_ok.1 h
  obtain ⟨s, hselect, h⟩ := bind_eq_ok.1 h
  obtain ⟨⟨session, target⟩, hanswered, h⟩ := bind_eq_ok.1 h
  obtain ⟨db₂, hcommit, h⟩ := bind_eq_ok.1 h
  obtain ⟨rfl, rfl⟩ := Prod.mk.inj (pure_eq_ok.1 h)
  have hlist' : listAccounts env db₁ = .ok accounts := by
    rw [← hlist, listAccounts, listAccounts, haccounts]
    simp only [Database.credentialsOf, hcredentials]
  obtain ⟨⟨log, rfl, -⟩, htarget⟩ := Post.answered_eq_ok hanswered
  obtain rfl : target = none := by
    cases htarget with
    | success hkind => cases hkind
    | credentialInvalid hstatus | creditExhausted hstatus | rateLimited hstatus =>
      simp [FirecrawlUpstreamResponse.isSuccess, hstatus] at hok
    | nothing => rfl
  obtain ⟨hbinds, -⟩ := commit_eq_ok.1 hcommit
  refine ⟨_, bind_eq_ok.2 ⟨accounts, hlist', bind_eq_ok.2 ⟨_, hselect, bind_eq_ok.2 ⟨_, hanswered,
    bind_eq_ok.2 ⟨_, commit_eq_ok.2 ⟨?_, rfl⟩, rfl⟩⟩⟩⟩, ?_⟩
  · simpa [Session.perform?, Session.binds] using hbinds
  · rw [← haccounts, ← hcredentials]
    exact flush_unedited rfl rfl rfl rfl

/-- **An accepted submission is accepted any number of times**, and each adds its estimate. -/
theorem exists_run_submits (h : submitJob env db endpoint path payload params x =
      .ok (selected, db')) (hid : selected.account.id = id) (hok : x.response.isSuccess = true)
    (hjobId : (upstreamJobId x.response.jsonBody).isSome = true) (n : ℕ) : ∃ db₁,
    run (serve env) db (List.replicate n (.submitJob endpoint path payload params, x)) = some db₁ ∧
      (db₁.accounts = db.accounts ∧ db₁.credentials = db.credentials) ∧
      reserved id db₁ = reserved id db + n * selected.estimatedCredits := by
  induction n with
  | zero => exact ⟨db, rfl, ⟨rfl, rfl⟩, by simp⟩
  | succ n ih =>
    obtain ⟨db₁, hrun, ⟨haccounts, hcredentials⟩, hreserved⟩ := ih
    obtain ⟨db₂, hsubmit, hsame⟩ := submitJob_again haccounts hcredentials h hok
    have hserve : serve env db₁ (.submitJob endpoint path payload params, x) = some db₂ := by
      simp [serve, hsubmit, Except.toOption]
    have hnew : reserves env id db₁ (.submitJob endpoint path payload params, x) =
        some selected.estimatedCredits := by simp [reserves, hsubmit, hid, hok, hjobId]
    refine ⟨db₂, ?_, hsame, ?_⟩
    · rw [List.replicate_succ']
      exact run_append.2 ⟨db₁, hrun, run_cons.2 ⟨db₂, hserve, rfl⟩⟩
    · obtain ⟨session, target, ha, rfl⟩ := post_eq_ok hsubmit
      have hadded : reserved id ((session.perform? db₁ target).flush x.committedAt db₁) =
          reserved id db₁ +
            (reserves env id db₁ (.submitJob endpoint path payload params, x)).getD 0 :=
        reserved_post rfl hsubmit ha
      rw [hadded, hnew, hreserved, Option.getD_some]
      push_cast
      ring

end Again

/-- **The balance covers the reservations along a run** while the account has one open job at a
time.  The code does not keep it to one: where a submission is accepted from the account, there is a
run that reserves more than the balance. -/
theorem covered_of_oneAtATime (hids : (db.accounts.map (·.id)).Nodup) (hjobs : db.jobs = []) :
    (∀ calls, (∀ b ∈ balance id db, 0 ≤ b) → Meets (serve env) (OneAtATime env id) db calls →
      Always (serve env) (Covered id) db calls) ∧
    (∀ endpoint path payload params x selected db',
      submitJob env db endpoint path payload params x = .ok (selected, db') →
      selected.account.id = id → x.response.isSuccess = true →
      (upstreamJobId x.response.jsonBody).isSome = true → (balance id db).isSome = true →
      ∃ calls db'', run (serve env) db calls = some db'' ∧ ¬ Covered id db'') := by
  refine ⟨fun calls hzero hone => always_covered hids hjobs hzero hone, ?_⟩
  intro endpoint path payload params x selected db' hsubmit hid hok hjobId hbalance
  obtain ⟨b, hb⟩ := Option.isSome_iff_exists.1 hbalance
  obtain ⟨db₁, hrun, ⟨haccounts, -⟩, hreserved⟩ :=
    exists_run_submits hsubmit hid hok hjobId (b.toNat + 1)
  refine ⟨_, db₁, hrun, fun hcovered => ?_⟩
  have hbalance₁ : balance id db₁ = some b := by
    rw [← hb, balance, balance, Database.account?, Database.account?, haccounts]
  have hle := hcovered b hbalance₁
  obtain ⟨accounts, -, hselect⟩ := select_of_post hsubmit
  -- an estimate is at least one, so some number of submissions exceeds the balance
  have hone : 1 ≤ selected.estimatedCredits :=
    one_le_of_estimateFromPayload (estimate_of_selectAccount hselect)
  have hempty : reserved id db = 0 := by simp [reserved, hjobs]
  rw [hreserved, hempty, zero_add] at hle
  push_cast at hle
  nlinarith [Int.self_le_toNat b, Int.natCast_nonneg b.toNat]

/-- The submission of a crawl of up to 60 pages, which the upstream accepts. -/
def submitSixty (jobId : String) : Call × Exchange :=
  (.submitJob "crawl" "/v2/crawl" [("limit", .int 60)] none,
    ⟨0, { status := 200, jsonBody := some [("id", .str jobId)] }, 0, 0, 0⟩)

/-- The sample account has 100 credits, and two crawls of 60 are admitted. -/
theorem not_covered_sample : let env := sampleEnv .sqlite
    let db := (sampleState .sqlite).store
    let calls := [submitSixty "job-1", submitSixty "job-2"]
    db.jobs = [] ∧ balance "account-1" db = some 100 ∧
    ∃ db', run (serve env) db calls = some db' ∧ balance "account-1" db' = some 100 ∧
      reserved "account-1" db' = 120 ∧ ¬ Always (serve env) (Covered "account-1") db calls := by
  intro env db calls
  have hrun : run (serve env) db calls = some _ := rfl
  refine ⟨by decide, by decide, _, hrun, by decide, by decide, fun h => ?_⟩
  exact absurd (h.last hrun 100 (by decide)) (by decide)

/-- The second crawl is submitted after the first has settled with seven credits. -/
theorem covered_of_oneAtATime_sample : let db := (sampleState .sqlite).store
    Always (serve (sampleEnv .sqlite)) (Covered "account-1") db
      [submitSixty "job-1", (.jobOperation "crawl" "job-1" .get, ⟨0, completedResponse, 0, 0, 0⟩),
        submitSixty "job-2"] :=
  (covered_of_oneAtATime (by decide) (by decide)).1 _ (by decide) (by decide)

end Serve

end FirecrawlLb.Firecrawl.Reservations
