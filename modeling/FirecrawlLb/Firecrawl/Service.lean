import FirecrawlLb.Firecrawl.Repository
import FirecrawlLb.Firecrawl.Routing

/-!
# The proxy service

What a call does with the answer of the upstream, up to the method on the row it is about, and the
three operations from the first query to the commit.
-/

namespace FirecrawlLb.Firecrawl.Service

open FirecrawlLb.Lib FirecrawlLb.Python FirecrawlLb.Db.Models
open FirecrawlLb.Firecrawl.Models FirecrawlLb.Firecrawl.Usage FirecrawlLb.Firecrawl.Routing
open FirecrawlLb.Firecrawl.Repository

structure FirecrawlUpstreamResponse where
  status : ℤ
  headers : List (String × String) := []
  jsonBody : Option JsonObject := none
  textBody : Option String := none

namespace FirecrawlUpstreamResponse

/-- `200 <= status < 300` -/
def isSuccess (r : FirecrawlUpstreamResponse) : Bool := 200 ≤ r.status && r.status < 300

end FirecrawlUpstreamResponse

/-! ### Reading the answer -/

/-- `_request_status` -/
def requestStatus (upstreamStatus : ℤ) : String :=
  if 200 ≤ upstreamStatus ∧ upstreamStatus < 300 then "success"
  else if upstreamStatus = 401 then "credential_invalid"
  else if upstreamStatus = 402 then "credit_exhausted"
  else if upstreamStatus = 429 then "rate_limited"
  else "error"

/-- `headers.get("retry-after") or headers.get("Retry-After")` -/
def rawRetryAfter (headers : List (String × String)) : Option String :=
  (headers.lookup "retry-after").filter (· ≠ "") <|> headers.lookup "Retry-After"

/-- `_cooldown_until` -/
def cooldownUntil (headers : List (String × String)) (now : DateTime) : Except Raised DateTime :=
  match rawRetryAfter headers with
  | none => now.addSeconds 60
  | some raw =>
    match intOfStr raw with
    | none => now.addSeconds 60
    | some retryAfterSeconds => now.addSeconds (max 0 retryAfterSeconds)

/-- `_error_message` -/
def errorMessage (jsonBody : Option JsonObject) (textBody : Option String) : Option String :=
  match jsonBody with
  | none => textBody
  | some body =>
    match body.get "error" with
    | .str message => some message
    | .obj nested => (JsonObject.get nested "message").str?
    | _ => none

/-- `_upstream_job_id` -/
def upstreamJobId (jsonBody : Option JsonObject) : Option String :=
  jsonBody.bind fun body =>
    (body.get "id").str? <|> (body.get "jobId").str? <|>
      (body.get "data").obj?.bind fun data => (data.get "id").str?

/-- `_job_status` -/
def jobStatus (jsonBody : Option JsonObject) : Option String :=
  jsonBody.bind fun body =>
    (body.get "status").str? <|> (body.get "data").obj?.bind fun data => (data.get "status").str?

/-- `_credits_used`: unlike the reader of the estimate, a Boolean ends the search. -/
def creditsUsed (jsonBody : Option JsonObject) : Option ℤ :=
  jsonBody.bind fun body =>
    match body.get "creditsUsed" with
    | .bool _ => none
    | .int credits => some credits
    | _ => (body.get "data").obj?.bind fun data => (data.get "creditsUsed").plainInt?

/-- `_is_terminal_job_status`.  Beyond ASCII no letter lowers to one letter of these words. -/
def isTerminalJobStatus (status : String) : Bool :=
  status.toList.map Char.toLower ∈
    ["completed", "complete", "finished", "failed", "cancelled", "canceled"].map String.toList

/-! ### Recording the outcome -/

/-- The log of `_record_outcome`. -/
def requestLog (accountId credentialId endpoint : String) (response : FirecrawlUpstreamResponse)
    (status : String) (estimatedCredits creditsUsed latencyMs : ℤ) (now : DateTime) :
    FirecrawlRequestLogRecord where
  id := 0
  accountId := some accountId
  credentialId := some credentialId
  endpoint := endpoint
  upstreamJobId := upstreamJobId response.jsonBody
  requestedAt := now
  status := status
  upstreamStatusCode := some response.status
  estimatedCreditsPre := some estimatedCredits
  creditsUsedFinal := some creditsUsed
  latencyMs := some latencyMs
  errorCode := if response.status ≥ 400 then some status else none
  errorMessage := errorMessage response.jsonBody response.textBody

/-- `_record_outcome`: the log, and the method on the row the answer is about. -/
def recordOutcome (accountId credentialId endpoint : String) (response : FirecrawlUpstreamResponse)
    (status : String) (estimatedCredits creditsUsed latencyMs : ℤ) (now : DateTime)
    (settleSuccess : Bool) : Except Raised (Session × Option RowWrite) := do
  let session : Session := { newLog := some (requestLog accountId credentialId endpoint response
    status estimatedCredits creditsUsed latencyMs now) }
  if response.isSuccess && settleSuccess then
    return (session, some (.account accountId (.applySuccess creditsUsed)))
  if response.status = 401 then
    return (session, some (.credential credentialId
      (.markInvalid (errorMessage response.jsonBody response.textBody) now)))
  if response.status = 402 then
    return (session, some (.account accountId .markCreditExhausted))
  if response.status = 429 then
    let until' ← cooldownUntil response.headers now
    return (session, some (.account accountId (.markRateLimited until')))
  return (session, none)

/-- A POST the proxy forwards: a synchronous request, or the submission of a job. -/
inductive PostKind where
  | proxy
  | submitJob
  deriving DecidableEq

structure Post where
  kind : PostKind
  endpoint : String
  path : String
  payload : JsonObject
  params : Option (List (String × String)) := none

/-- The record of a job the upstream has accepted. -/
def Post.submittedJob (post : Post) (selected : FirecrawlSelectedAccount) (now : DateTime)
    (jobId : String) : FirecrawlJobRecord where
  id := 0
  accountId := some selected.account.id
  credentialId := some selected.credential.id
  endpoint := post.endpoint
  upstreamJobId := some jobId
  status := "submitted"
  estimatedCreditsReserved := some selected.estimatedCredits
  createdAt := now

/-- What `proxy` and `submit_job` do with the answer, up to the method on the row.  The record of a
submitted job joins the session here; it is inserted with the rest at the commit. -/
def Post.answered (post : Post) (selected : FirecrawlSelectedAccount)
    (response : FirecrawlUpstreamResponse) (now : DateTime) (latencyMs : ℤ) :
    Except Raised (Session × Option RowWrite) := do
  let creditsUsed ← estimateCredits post.endpoint post.payload response.jsonBody
  let status := requestStatus response.status
  let (session, target) ← recordOutcome selected.account.id selected.credential.id post.endpoint
    response status selected.estimatedCredits creditsUsed latencyMs now (post.kind = .proxy)
  match post.kind, upstreamJobId response.jsonBody with
  | .submitJob, some jobId =>
    if response.isSuccess then
      return ({ session with newJob := some (post.submittedJob selected now jobId) }, target)
    else return (session, target)
  | _, _ => return (session, target)

/-- The job record an answered POST adds. -/
def Post.newJob? (post : Post) (selected : FirecrawlSelectedAccount)
    (response : FirecrawlUpstreamResponse) (now : DateTime) : Option FirecrawlJobRecord :=
  if post.kind = .submitJob ∧ response.isSuccess = true then
    (upstreamJobId response.jsonBody).map (post.submittedJob selected now)
  else none

theorem Post.newJob?_eq_some {post : Post} {selected : FirecrawlSelectedAccount}
    {response : FirecrawlUpstreamResponse} {now : DateTime} {job : FirecrawlJobRecord} :
    post.newJob? selected response now = some job ↔
      (post.kind = .submitJob ∧ response.isSuccess = true) ∧
      ∃ jobId, upstreamJobId response.jsonBody = some jobId ∧
        post.submittedJob selected now jobId = job := by
  unfold Post.newJob?
  split_ifs with h <;> simp [h]

section Answered

variable {post : Post} {selected : FirecrawlSelectedAccount} {response : FirecrawlUpstreamResponse}
  {now : DateTime} {latencyMs : ℤ} {session : Session} {target : Option RowWrite}

/-- The method on the row an answered POST is about. -/
inductive Post.Target (post : Post) (selected : FirecrawlSelectedAccount)
    (response : FirecrawlUpstreamResponse) (now : DateTime) : Option RowWrite → Prop
  | success {credits : ℤ} (kind : post.kind = .proxy) (ok : response.isSuccess = true)
      (charge : estimateCredits post.endpoint post.payload response.jsonBody = .ok credits) :
      Target post selected response now
        (some (.account selected.account.id (.applySuccess credits)))
  | credentialInvalid (status : response.status = 401) : Target post selected response now
      (some (.credential selected.credential.id
        (.markInvalid (errorMessage response.jsonBody response.textBody) now)))
  | creditExhausted (status : response.status = 402) : Target post selected response now
      (some (.account selected.account.id .markCreditExhausted))
  | rateLimited {c : DateTime} (status : response.status = 429)
      (until' : cooldownUntil response.headers now = .ok c) : Target post selected response now
        (some (.account selected.account.id (.markRateLimited c)))
  | nothing (h : post.kind = .proxy → response.isSuccess = false) :
      Target post selected response now none

/-- The method `_record_outcome` ends with. -/
def outcomeTarget (accountId credentialId : String) (response : FirecrawlUpstreamResponse)
    (creditsUsed : ℤ) (now : DateTime) (settleSuccess : Bool) :
    Except Raised (Option RowWrite) :=
  if response.isSuccess && settleSuccess then
    .ok (some (.account accountId (.applySuccess creditsUsed)))
  else if response.status = 401 then
    .ok (some (.credential credentialId
      (.markInvalid (errorMessage response.jsonBody response.textBody) now)))
  else if response.status = 402 then .ok (some (.account accountId .markCreditExhausted))
  else if response.status = 429 then
    (cooldownUntil response.headers now).map fun c => some (.account accountId (.markRateLimited c))
  else .ok none

theorem recordOutcome_eq (accountId credentialId endpoint status : String)
    (response : FirecrawlUpstreamResponse) (estimatedCredits creditsUsed latencyMs : ℤ)
    (now : DateTime) (settleSuccess : Bool) :
    recordOutcome accountId credentialId endpoint response status estimatedCredits creditsUsed
        latencyMs now settleSuccess =
      (outcomeTarget accountId credentialId response creditsUsed now settleSuccess).map
        fun target => ({ newLog := some (requestLog accountId credentialId endpoint response status
          estimatedCredits creditsUsed latencyMs now) }, target) := by
  unfold recordOutcome outcomeTarget
  split_ifs
  any_goals rfl
  cases cooldownUntil response.headers now <;> rfl

/-- The records an answered POST adds. -/
def Post.records (post : Post) (selected : FirecrawlSelectedAccount)
    (response : FirecrawlUpstreamResponse) (credits latencyMs : ℤ) (now : DateTime) : Session where
  newJob := post.newJob? selected response now
  newLog := some (requestLog selected.account.id selected.credential.id post.endpoint response
    (requestStatus response.status) selected.estimatedCredits credits latencyMs now)

/-- **What an answered POST leaves to do**, once its credits are read. -/
theorem Post.answered_eq {credits : ℤ}
    (h : estimateCredits post.endpoint post.payload response.jsonBody = .ok credits) :
    post.answered selected response now latencyMs =
      (outcomeTarget selected.account.id selected.credential.id response credits now
        (post.kind = .proxy)).map (post.records selected response credits latencyMs now, ·) := by
  unfold Post.answered Post.records Post.newJob?
  simp only [h, recordOutcome_eq, bind, Except.bind]
  cases outcomeTarget selected.account.id selected.credential.id response credits now
    (post.kind = .proxy) with
  | error raised => rfl
  | ok target =>
    cases hk : post.kind with
    | proxy => simp [Except.map, pure, Except.pure]
    | submitJob =>
      cases upstreamJobId response.jsonBody with
      | none => simp [Except.map, pure, Except.pure]
      | some jobId => cases hs : response.isSuccess <;> simp [Except.map, pure, Except.pure]

theorem Post.answered_eq_ok
    (h : post.answered selected response now latencyMs = .ok (session, target)) :
    (∃ log, session = { newJob := post.newJob? selected response now, newLog := some log } ∧
      log.endpoint = post.endpoint) ∧ Post.Target post selected response now target := by
  have hcredits : ∃ credits,
      estimateCredits post.endpoint post.payload response.jsonBody = .ok credits := by
    obtain ⟨credits, hcredits, -⟩ := bind_eq_ok.1 h
    exact ⟨credits, hcredits⟩
  obtain ⟨credits, hcredits⟩ := hcredits
  rw [Post.answered_eq hcredits] at h
  obtain ⟨target', htarget, h⟩ := map_eq_ok.1 h
  obtain ⟨rfl, rfl⟩ := Prod.mk.inj h
  refine ⟨⟨_, rfl, rfl⟩, ?_⟩
  unfold outcomeTarget at htarget
  split_ifs at htarget with h1 h2 h3 h4
  · simp only [Bool.and_eq_true, decide_eq_true_eq] at h1
    cases htarget
    exact .success h1.2 h1.1 hcredits
  · cases htarget
    exact .credentialInvalid h2
  · cases htarget
    exact .creditExhausted h3
  · obtain ⟨c, hc, rfl⟩ := map_eq_ok.1 htarget
    exact .rateLimited h4 hc
  · cases htarget
    refine .nothing fun hk => ?_
    simpa [hk] using h1

end Answered

/-! ### Job operations -/

inductive JobMethod where
  | get
  | delete
  deriving DecidableEq

/-- `settle_job_once` on the job record; the credits of a first settlement are left to charge. -/
def settleJobOnce (status : String) (creditsUsed : ℤ) (completedAt : DateTime)
    (job : FirecrawlJobRecord) : FirecrawlJobRecord × Option RowWrite :=
  let job := { job with
    status := status
    completedAt := some completedAt
    lastPolledAt := some completedAt }
  if job.creditsUsedFinal ≠ none then (job, none)
  else
    ({ job with creditsUsedFinal := some creditsUsed },
      job.accountId.map fun accountId => .account accountId (.applySuccess creditsUsed))

/-- `status or default`: an empty status counts as missing. -/
def statusOr (status : Option String) (dflt : String) : String :=
  (status.filter (· ≠ "")).getD dflt

/-- What `proxy_job_operation` does to the job with the answer. -/
def jobAnswered (method : JobMethod) (response : FirecrawlUpstreamResponse) (now : DateTime)
    (job : FirecrawlJobRecord) : FirecrawlJobRecord × Option RowWrite :=
  if !response.isSuccess then (job, none)
  else
    match method with
    | .get =>
      let status := jobStatus response.jsonBody
      let polled := { job with status := statusOr status job.status, lastPolledAt := some now }
      match status, creditsUsed response.jsonBody with
      | some status, some credits =>
        if isTerminalJobStatus status then settleJobOnce status credits now polled
        else (polled, none)
      | _, _ => (polled, none)
    | .delete =>
      ({ job with
        status := statusOr (jobStatus response.jsonBody) "cancelled"
        completedAt := some now }, none)

/-- The credits of a poll that reports a terminal status and the credits used. -/
def settlement (method : JobMethod) (response : FirecrawlUpstreamResponse) : Option ℤ :=
  if method = .get ∧ response.isSuccess = true then
    (jobStatus response.jsonBody).bind fun status =>
      if isTerminalJobStatus status then creditsUsed response.jsonBody else none
  else none

section JobAnswered

variable (method : JobMethod) (response : FirecrawlUpstreamResponse) (now : DateTime)
  (job : FirecrawlJobRecord)

theorem jobAnswered_creditsUsedFinal :
    (jobAnswered method response now job).1.creditsUsedFinal =
      (job.creditsUsedFinal <|> settlement method response) := by
  unfold jobAnswered settlement
  cases hs : response.isSuccess with
  | false => cases hj : job.creditsUsedFinal <;> simp [hj]
  | true =>
    cases method with
    | delete => cases job.creditsUsedFinal <;> simp
    | get =>
      cases jobStatus response.jsonBody with
      | none => cases job.creditsUsedFinal <;> simp
      | some status =>
        cases creditsUsed response.jsonBody with
        | none => cases job.creditsUsedFinal <;> simp
        | some credits =>
          cases ht : isTerminalJobStatus status <;> cases job.creditsUsedFinal <;>
            simp [ht, settleJobOnce]

/-- **An account is charged by a settlement of a job that is read without one**, and by nothing
else. -/
theorem jobAnswered_target : (jobAnswered method response now job).2 =
    if job.creditsUsedFinal = none then
      (settlement method response).bind fun credits =>
        job.accountId.map fun accountId => .account accountId (.applySuccess credits)
    else none := by
  unfold jobAnswered settlement
  cases hs : response.isSuccess with
  | false => simp
  | true =>
    cases method with
    | delete => simp
    | get =>
      cases jobStatus response.jsonBody with
      | none => simp
      | some status =>
        cases creditsUsed response.jsonBody with
        | none => simp
        | some credits =>
          cases ht : isTerminalJobStatus status <;> cases job.creditsUsedFinal <;>
            simp [ht, settleJobOnce]

end JobAnswered

/-- The credential a job operation uses, decrypted; none when the job has lost its credential. -/
def jobKey (env : Env) (db : Database) (job : FirecrawlJobRecord) :
    Except Raised (Option String) :=
  match job.credentialId.bind db.credential? with
  | none => .ok none
  | some credential => (env.decrypt credential.apiKeyEncrypted).elim (.error .invalidToken)
      (.ok ∘ some)

/-! ### Whole operations -/

/-- What the outside supplies to one call: the clock readings, the upstream's answer, and the clock
of the database at the commit. -/
structure Exchange where
  selectedAt : ℤ
  response : FirecrawlUpstreamResponse
  answeredAt : ℤ
  latencyMs : ℤ
  committedAt : ℤ

/-- The session of an answered job operation at its commit. -/
def polledSession (db : Database) (method : JobMethod) (job : FirecrawlJobRecord) (x : Exchange) :
    Session :=
  let (job', target) := jobAnswered method x.response (.utc x.answeredAt) job
  Session.perform? { job := some ⟨job, job'⟩ } db target

theorem polledSession_eq (db : Database) (method : JobMethod) (job : FirecrawlJobRecord)
    (x : Exchange) : polledSession db method job x = Session.perform?
      { job := some ⟨job, (jobAnswered method x.response (.utc x.answeredAt) job).1⟩ } db
      (jobAnswered method x.response (.utc x.answeredAt) job).2 := rfl

/-- A POST from the selection to the commit, with no other call in between. -/
def post (env : Env) (db : Database) (p : Post) (x : Exchange) :
    Except Raised (FirecrawlSelectedAccount × Database) := do
  let accounts ← listAccounts env db
  let selected ← selectAccount accounts p.endpoint p.payload (.utc x.selectedAt)
  let (session, target) ← p.answered selected x.response (.utc x.answeredAt) x.latencyMs
  let db' ← (session.perform? db target).commit env.backend x.committedAt db
  return (selected, db')

/-- `FirecrawlProxyService.proxy` -/
def proxy (env : Env) (db : Database) (endpoint : String) (payload : JsonObject)
    (params : Option (List (String × String))) (x : Exchange) :
    Except Raised (FirecrawlSelectedAccount × Database) :=
  post env db ⟨.proxy, endpoint, "/v2/" ++ endpoint, payload, params⟩ x

/-- `FirecrawlProxyService.submit_job` -/
def submitJob (env : Env) (db : Database) (endpoint path : String) (payload : JsonObject)
    (params : Option (List (String × String))) (x : Exchange) :
    Except Raised (FirecrawlSelectedAccount × Database) :=
  post env db ⟨.submitJob, endpoint, path, payload, params⟩ x

/-- `FirecrawlProxyService.proxy_job_operation`; the job, when the operation is forwarded. -/
def proxyJobOperation (env : Env) (db : Database) (endpoint jobId : String) (method : JobMethod)
    (x : Exchange) : Except Raised (Option FirecrawlJobRecord × Database) := do
  match ← getJobRecord db endpoint jobId with
  | none => return (none, db)
  | some job =>
    match ← jobKey env db job with
    | none => return (none, db)
    | some _ =>
      let db' ← (polledSession db method job x).commit env.backend x.committedAt db
      return (some job, db')

section Operations

variable {env : Env} {db db' : Database} {x : Exchange}

/-- **What a POST that returns has done.** -/
theorem post_eq_ok {p : Post} {selected : FirecrawlSelectedAccount}
    (h : post env db p x = .ok (selected, db')) : ∃ session target,
    p.answered selected x.response (.utc x.answeredAt) x.latencyMs = .ok (session, target) ∧
    db' = (session.perform? db target).flush x.committedAt db := by
  unfold post at h
  obtain ⟨accounts, -, h⟩ := bind_eq_ok.1 h
  obtain ⟨s, -, h⟩ := bind_eq_ok.1 h
  obtain ⟨⟨session, target⟩, ha, h⟩ := bind_eq_ok.1 h
  obtain ⟨db₁, hc, h⟩ := bind_eq_ok.1 h
  obtain ⟨rfl, rfl⟩ := Prod.mk.inj (pure_eq_ok.1 h)
  exact ⟨session, target, ha, (commit_eq_ok.1 hc).2⟩

theorem select_of_post {p : Post} {selected : FirecrawlSelectedAccount}
    (h : post env db p x = .ok (selected, db')) : ∃ accounts,
    listAccounts env db = .ok accounts ∧
    selectAccount accounts p.endpoint p.payload (.utc x.selectedAt) = .ok selected := by
  unfold post at h
  obtain ⟨accounts, haccounts, h⟩ := bind_eq_ok.1 h
  obtain ⟨s, hselected, h⟩ := bind_eq_ok.1 h
  obtain ⟨⟨session, target⟩, -, h⟩ := bind_eq_ok.1 h
  obtain ⟨db₁, -, h⟩ := bind_eq_ok.1 h
  obtain ⟨rfl, rfl⟩ := Prod.mk.inj (pure_eq_ok.1 h)
  exact ⟨accounts, haccounts, hselected⟩

/-- **What a job operation that returns has done.** -/
theorem proxyJobOperation_eq_ok {endpoint jobId : String} {method : JobMethod}
    {job? : Option FirecrawlJobRecord}
    (h : proxyJobOperation env db endpoint jobId method x = .ok (job?, db')) :
    (job? = none ∧ db' = db) ∨
    ∃ job, job? = some job ∧ getJobRecord db endpoint jobId = .ok (some job) ∧
      db' = (polledSession db method job x).flush x.committedAt db := by
  unfold proxyJobOperation at h
  obtain ⟨found, hfound, h⟩ := bind_eq_ok.1 h
  cases found with
  | none =>
    obtain ⟨rfl, rfl⟩ := Prod.mk.inj (pure_eq_ok.1 h)
    exact Or.inl ⟨rfl, rfl⟩
  | some job =>
    obtain ⟨key, -, h⟩ := bind_eq_ok.1 h
    cases key with
    | none =>
      obtain ⟨rfl, rfl⟩ := Prod.mk.inj (pure_eq_ok.1 h)
      exact Or.inl ⟨rfl, rfl⟩
    | some key =>
      obtain ⟨db₁, hc, h⟩ := bind_eq_ok.1 h
      obtain ⟨rfl, rfl⟩ := Prod.mk.inj (pure_eq_ok.1 h)
      exact Or.inr ⟨job, rfl, hfound, (commit_eq_ok.1 hc).2⟩

end Operations

end FirecrawlLb.Firecrawl.Service
