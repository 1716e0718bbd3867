import FirecrawlLb.Firecrawl.Charges
import FirecrawlLb.Firecrawl.Settlement
import Mathlib.Algebra.BigOperators.Group.Multiset.Basic

/-!
# The ledger of a sequential run

Calls of the proxy service run one after another, each from its first query to its commit.  The
balance of an account then is what the synchronous answers it has served and the first settlements
of its jobs have left of it (`credits_accounted`).
-/

namespace FirecrawlLb.Firecrawl.Ledger

open FirecrawlLb.Lib FirecrawlLb.Lib.Tasks FirecrawlLb.Lib.Run FirecrawlLb.Python
open FirecrawlLb.Db.Models FirecrawlLb.Firecrawl.Models FirecrawlLb.Firecrawl.Usage
open FirecrawlLb.Firecrawl.Routing FirecrawlLb.Firecrawl.Repository FirecrawlLb.Firecrawl.Service
open FirecrawlLb.Firecrawl.System FirecrawlLb.Firecrawl.Stored FirecrawlLb.Firecrawl.Charges
open FirecrawlLb.Firecrawl.Concurrency FirecrawlLb.Firecrawl.Settlement

/-! ### Calls -/

/-- A call of the proxy service. -/
inductive Call where
  | proxy (endpoint : String) (payload : JsonObject) (params : Option (List (String × String)))
  | submitJob (endpoint path : String) (payload : JsonObject)
      (params : Option (List (String × String)))
  | jobOperation (endpoint upstreamJobId : String) (method : JobMethod)

/-- The POST of the call, if it is one. -/
def Call.post? : Call → Option Post
  | .proxy endpoint payload params => some ⟨.proxy, endpoint, "/v2/" ++ endpoint, payload, params⟩
  | .submitJob endpoint path payload params => some ⟨.submitJob, endpoint, path, payload, params⟩
  | .jobOperation _ _ _ => none

/-- The database after a call that returns normally. -/
def serve (env : Env) (db : Database) : Call × Exchange → Option Database
  | (.proxy endpoint payload params, x) =>
    (proxy env db endpoint payload params x).toOption.map (·.2)
  | (.submitJob endpoint path payload params, x) =>
    (submitJob env db endpoint path payload params x).toOption.map (·.2)
  | (.jobOperation endpoint upstreamJobId method, x) =>
    (proxyJobOperation env db endpoint upstreamJobId method x).toOption.map (·.2)

/-- The credits of a synchronous call the account has served with a 2xx answer. -/
def served (env : Env) (id : String) (db : Database) : Call × Exchange → Option ℤ
  | (.proxy endpoint payload params, x) =>
    match proxy env db endpoint payload params x with
    | .ok (selected, _) =>
      if selected.account.id = id ∧ x.response.isSuccess = true then
        (estimateCredits endpoint payload x.response.jsonBody).toOption
      else none
    | .error _ => none
  | _ => none

/-- The credits a GET poll of the job reports with a terminal status, when it is forwarded. -/
def settles (env : Env) (job : FirecrawlJobRecord) (db : Database) : Call × Exchange → Option ℤ
  | (.jobOperation endpoint upstreamJobId method, x) =>
    match proxyJobOperation env db endpoint upstreamJobId method x with
    | .ok (some _, _) =>
      if job.endpoint = endpoint ∧ job.upstreamJobId = some upstreamJobId then
        settlement method x.response
      else none
    | _ => none
  | _ => none

/-- The credits of such a poll of a job of the account that is not settled yet. -/
def settled (env : Env) (id : String) (db : Database) : Call × Exchange → Option ℤ
  | (.jobOperation endpoint upstreamJobId method, x) =>
    match proxyJobOperation env db endpoint upstreamJobId method x with
    | .ok (some job, _) =>
      if job.accountId = some id ∧ job.creditsUsedFinal = none then settlement method x.response
      else none
    | _ => none
  | _ => none

/-- **What a call that returns has done.** -/
inductive Serves (env : Env) (db : Database) : Call × Exchange → Database → Prop
  | post {call p x selected session target} (hp : Call.post? call = some p)
      (h : Service.post env db p x =
        .ok (selected, (session.perform? db target).flush x.committedAt db))
      (ha : p.answered selected x.response (.utc x.answeredAt) x.latencyMs =
        .ok (session, target)) :
      Serves env db (call, x) ((session.perform? db target).flush x.committedAt db)
  | notForwarded {endpoint upstreamJobId method x}
      (h : proxyJobOperation env db endpoint upstreamJobId method x = .ok (none, db)) :
      Serves env db (.jobOperation endpoint upstreamJobId method, x) db
  | jobOperation {endpoint upstreamJobId method x job}
      (hjob : getJobRecord db endpoint upstreamJobId = .ok (some job))
      (h : proxyJobOperation env db endpoint upstreamJobId method x =
        .ok (some job, (polledSession db method job x).flush x.committedAt db)) :
      Serves env db (.jobOperation endpoint upstreamJobId method, x)
        ((polledSession db method job x).flush x.committedAt db)

section Calls

variable {env : Env} {db db' : Database} {e : Call × Exchange} {id : String}

theorem serves_of_post {call : Call} {p : Post} {x : Exchange} (hp : call.post? = some p)
    (h : (Service.post env db p x).toOption.map (·.2) = some db') :
    Serves env db (call, x) db' := by
  cases hpost : Service.post env db p x with
  | error raised =>
    rw [hpost] at h
    cases h
  | ok r =>
    obtain ⟨selected, db₁⟩ := r
    rw [hpost] at h
    obtain rfl : db₁ = db' := Option.some.inj h
    obtain ⟨session, target, ha, rfl⟩ := post_eq_ok hpost
    exact .post hp hpost ha

theorem serves_of_serve (h : serve env db e = some db') : Serves env db e db' := by
  obtain ⟨call, x⟩ := e
  cases call with
  | proxy endpoint payload params => exact serves_of_post rfl h
  | submitJob endpoint path payload params => exact serves_of_post rfl h
  | jobOperation endpoint upstreamJobId method =>
    have h : (proxyJobOperation env db endpoint upstreamJobId method x).toOption.map (·.2) =
      some db' := h
    cases hop : proxyJobOperation env db endpoint upstreamJobId method x with
    | error raised =>
      rw [hop] at h
      cases h
    | ok r =>
      obtain ⟨job?, db₁⟩ := r
      rw [hop] at h
      obtain rfl : db₁ = db' := Option.some.inj h
      rcases proxyJobOperation_eq_ok hop with ⟨rfl, rfl⟩ | ⟨job, rfl, hjob, rfl⟩
      · exact .notForwarded hop
      · exact .jobOperation hjob hop

theorem accounts_ids_serve (h : serve env db e = some db') :
    db'.accounts.map (·.id) = db.accounts.map (·.id) := by
  cases serves_of_serve h with
  | @post call p x selected session target hp hpost ha =>
    obtain ⟨⟨log, rfl, -⟩, -⟩ := Post.answered_eq_ok ha
    rw [flush_accounts_ids, (perform?_keeps _ db target).2.2]
    simp
  | notForwarded => rfl
  | @jobOperation endpoint upstreamJobId method x job hjob hop =>
    rw [flush_accounts_ids, polledSession_eq, (perform?_keeps _ db _).2.2]
    simp

end Calls

/-! ### The balance after a call -/

/-- What the method on a row charges to an account. -/
def targetCharge (id : String) : Option RowWrite → Option ℤ
  | some (.account id' (.applySuccess credits)) => if id' = id then some credits else none
  | _ => none

/-- What a call charges to an account. -/
def charges (env : Env) (id : String) (db : Database) (e : Call × Exchange) : Option ℤ :=
  served env id db e <|> settled env id db e

section Balance

variable {env : Env} {db db' : Database} {e : Call × Exchange} {id : String} {s : Session}
  {target : Option RowWrite} {dbNow b : ℤ}

theorem targetCharge_of_ne (h : ∀ write, target ≠ some (.account id write)) :
    targetCharge id target = none := by
  unfold targetCharge
  split
  · rename_i id' credits
    have hne : id' ≠ id := by
      rintro rfl
      exact h _ rfl
    rw [if_neg hne]
  · rfl

theorem edit?_perform?_of_ne (hs : s.accounts = [])
    (h : ∀ write, target ≠ some (.account id write)) : (s.perform? db target).edit? id = none := by
  cases target with
  | none => simp [Session.perform?, Session.edit?, hs]
  | some target =>
    simp only [Session.perform?, Option.elim_some]
    rcases perform_cases s db target with
      hp | ⟨id', write, row, rfl, hrow, hp⟩ | ⟨e, hp⟩ <;> rw [hp]
    · simp [Session.edit?, hs]
    · have hne : id' ≠ id := by
        rintro rfl
        exact h write rfl
      simp [Session.edit?, hs, id_of_account? hrow, hne]
    · simp [Session.edit?, hs]

theorem balance_perform? (dbNow : ℤ) (hs : s.accounts = []) (hnew : s.newAccount = none)
    (hpost : ∀ id' write, target = some (.account id' write) → fromPost write = true) :
    balance id ((s.perform? db target).flush dbNow db) =
      (balance id db).map fun b => (targetCharge id target).elim b (spend b) := by
  cases hrow : db.account? id with
  | none =>
    have hnone : ((s.perform? db target).flush dbNow db).account? id = none :=
      account?_flush_of_none ((perform?_keeps s db target).2.2.trans hnew) hrow
    simp [balance, hrow, hnone]
  | some row =>
    have hid : row.id = id := id_of_account? hrow
    have hlive : balance id db = row.remainingCreditsLive := by simp [balance, hrow]
    rw [balance_of_flush hrow, Session.flushAccount, hid, hlive]
    by_cases h : ∃ write, target = some (.account id write)
    · obtain ⟨write, rfl⟩ := h
      have hedit : (s.perform? db (some (.account id write))).edit? id = some ⟨row, write⟩ := by
        simp [Session.perform?, Session.perform, hrow, hs, Session.edit?, hid]
      have hcolumn : (FirecrawlAccountRecord.flush (AccountEdit.mk row write).object
          row).remainingCreditsLive = (write.apply row).remainingCreditsLive :=
        column_fresh rfl
      rw [hedit]
      refine hcolumn.trans ?_
      have hwrite := hpost id write rfl
      cases write with
      | applySuccess credits =>
        rw [AccountWrite.apply, applySuccess_remainingCreditsLive]
        simp [targetCharge, spend]
      | markCreditExhausted | markRateLimited =>
        change row.remainingCreditsLive = _
        simp [targetCharge]
      | refreshSuccess | refreshError | operatorUpdate => cases hwrite
    · have hne : ∀ write, target ≠ some (.account id write) := not_exists.1 h
      rw [edit?_perform?_of_ne hs hne, targetCharge_of_ne hne]
      simp

theorem served_of_post {call : Call} {p : Post} {x : Exchange} {selected : FirecrawlSelectedAccount}
    (hp : call.post? = some p) (h : Service.post env db p x = .ok (selected, db')) (id : String) :
    served env id db (call, x) =
      if p.kind = .proxy ∧ selected.account.id = id ∧ x.response.isSuccess = true then
        (estimateCredits p.endpoint p.payload x.response.jsonBody).toOption
      else none := by
  cases call with
  | proxy endpoint payload params =>
    obtain rfl := Option.some.inj hp
    have h : proxy env db endpoint payload params x = .ok (selected, db') := h
    simp [served, h]
  | submitJob endpoint path payload params =>
    obtain rfl := Option.some.inj hp
    simp [served]
  | jobOperation => cases hp

theorem settled_of_post {call : Call} {p : Post} {x : Exchange} (hp : call.post? = some p) :
    settled env id db (call, x) = none := by
  cases call with
  | proxy | submitJob => rfl
  | jobOperation => cases hp

/-- What an answered POST charges is what it has served. -/
theorem targetCharge_of_answered {call : Call} {p : Post} {x : Exchange}
    {selected : FirecrawlSelectedAccount} {session : Session} (hp : call.post? = some p)
    (h : Service.post env db p x = .ok (selected, db'))
    (ha : p.answered selected x.response (.utc x.answeredAt) x.latencyMs = .ok (session, target)) :
    targetCharge id target = charges env id db (call, x) := by
  obtain ⟨-, htarget⟩ := Post.answered_eq_ok ha
  rw [charges, settled_of_post hp, served_of_post hp h]
  cases htarget with
  | success hkind hok hcharge => simp [targetCharge, hkind, hok, hcharge, Except.toOption]
  | credentialInvalid hstatus | creditExhausted hstatus | rateLimited hstatus =>
    simp [targetCharge, FirecrawlUpstreamResponse.isSuccess, hstatus]
  | nothing hnot =>
    have hnot : ¬ (p.kind = .proxy ∧ selected.account.id = id ∧ x.response.isSuccess = true) := by
      rintro ⟨hkind, -, hok⟩
      rw [hnot hkind] at hok
      cases hok
    simp [targetCharge, hnot]

/-- **What a call does to a balance.** -/
theorem balance_serve (hserve : serve env db e = some db') :
    balance id db' = (balance id db).map fun b => (charges env id db e).elim b (spend b) := by
  cases serves_of_serve hserve with
  | @post call p x selected session target hp hpost ha =>
    rw [← targetCharge_of_answered hp hpost ha]
    obtain ⟨⟨log, rfl, -⟩, htarget⟩ := Post.answered_eq_ok ha
    refine balance_perform? x.committedAt rfl rfl fun id' write hw => ?_
    cases htarget <;> cases hw <;> rfl
  | notForwarded hop => simp [charges, served, settled, hop]
  | @jobOperation endpoint upstreamJobId method x job hjob hop =>
    have htarget := jobAnswered_target method x.response (.utc x.answeredAt) job
    have hcharge : targetCharge id (jobAnswered method x.response (.utc x.answeredAt) job).2 =
        charges env id db (.jobOperation endpoint upstreamJobId method, x) := by
      simp only [charges, served, settled, hop, htarget]
      cases job.creditsUsedFinal with
      | some credits => simp [targetCharge]
      | none =>
        cases settlement method x.response with
        | none => simp [targetCharge]
        | some credits => cases job.accountId <;> simp [targetCharge]
    rw [← hcharge, polledSession_eq]
    refine balance_perform? x.committedAt rfl rfl fun id' write hw => ?_
    rw [htarget] at hw
    split_ifs at hw
    obtain ⟨credits, -, hw⟩ := Option.bind_eq_some_iff.1 hw
    obtain ⟨accountId, -, hw⟩ := Option.map_eq_some_iff.1 hw
    cases hw
    rfl

/-- **The balance after a run** is what the charges have left of it. -/
theorem balance_run {calls : List (Call × Exchange)} (hb : balance id db = some b)
    (hrun : run (serve env) db calls = some db') :
    balance id db' = some ((trace (serve env) (charges env id) db calls).foldl spend b) :=
  foldl_trace (C := fun _ _ => True) (balance id)
    (fun _ _ _ _ _ h hb => by rw [balance_serve h, hb, Option.map_some]) meets_true hb hrun

end Balance

/-! ### The job rows after a call -/

/-- The final credits of the job with a primary key. -/
def finalCredits (k : ℕ) (db : Database) : Option ℤ := (db.job? k).bind (·.creditsUsedFinal)

/-- Primary keys count the job rows. -/
structure JobIds (db : Database) : Prop where
  nodup : (db.jobs.map (·.id)).Nodup
  le : ∀ job ∈ db.jobs, job.id ≤ db.jobs.length

/-- The rows with the key of the job are those with its id. -/
def Keyed (job : FirecrawlJobRecord) (db : Database) : Prop :=
  ∀ row ∈ db.jobs, (row.endpoint = job.endpoint ∧ row.upstreamJobId = job.upstreamJobId) ↔
    row.id = job.id

section Jobs

variable {env : Env} {db db' : Database} {e : Call × Exchange} {id : String} {s : Session}
  {dbNow : ℤ} {k : ℕ} {job : FirecrawlJobRecord}

theorem JobIds.flush (h : JobIds db) : JobIds (s.flush dbNow db) := by
  have hids : (s.flush dbNow db).jobs.map (·.id) =
      db.jobs.map (·.id) ++ s.newJob.toList.map fun _ => db.jobs.length + 1 := by
    cases hn : s.newJob <;>
      simp [Session.flush, hn, Function.comp_def, flushJob_id, Session.insertJob]
  have hlength : db.jobs.length ≤ (s.flush dbNow db).jobs.length := by simp [Session.flush]
  have hle : ∀ k ∈ db.jobs.map (·.id), k ≤ db.jobs.length := by simpa using h.le
  constructor
  · rw [hids]
    refine List.nodup_append.2 ⟨h.nodup, ?_, fun a ha b hb => ?_⟩
    · cases s.newJob <;> simp
    · obtain ⟨-, -, rfl⟩ := List.mem_map.1 hb
      have := hle a ha
      omega
  · intro row hrow
    rcases mem_flush_jobs.1 hrow with ⟨r, hr, rfl⟩ | ⟨r, hr, rfl⟩
    · rw [flushJob_id]
      exact (h.le r hr).trans hlength
    · simp [Session.flush, Session.insertJob, hr]

theorem Keyed.of_flush (h : Keyed job (s.flush dbNow db)) : Keyed job db := by
  intro row hrow
  obtain ⟨-, hendpoint, hupstream⟩ := flushJob_key s row
  have := h (s.flushJob row) (mem_flush_jobs.2 (Or.inl ⟨row, hrow, rfl⟩))
  rwa [hendpoint, hupstream, flushJob_id] at this

theorem finalCredits_flush (hnew : ∀ new, s.newJob = some new → new.creditsUsedFinal = none) :
    finalCredits k (s.flush dbNow db) =
      (db.job? k).bind fun row => (s.flushJob row).creditsUsedFinal := by
  unfold finalCredits
  cases hk : db.job? k with
  | some row => rw [job?_flush hk, Option.bind_some, Option.bind_some]
  | none =>
    cases hflush : (s.flush dbNow db).job? k with
    | none => rfl
    | some row =>
      have hid : row.id = k := id_of_job? hflush
      rcases mem_flush_jobs.1 (List.mem_of_find?_eq_some hflush) with ⟨r, hr, rfl⟩ | ⟨r, hr, rfl⟩
      · rw [flushJob_id] at hid
        exact absurd (List.find?_eq_none.1 hk r hr) (by simp [hid])
      · exact hnew r hr

theorem flushJob_of_none (h : s.job = none) (row : FirecrawlJobRecord) : s.flushJob row = row := by
  simp [Session.flushJob, h]

theorem flushJob_polled_self (db : Database) (method : JobMethod) (job : FirecrawlJobRecord)
    (x : Exchange) : (polledSession db method job x).flushJob job = FirecrawlJobRecord.flush
      ⟨job, (jobAnswered method x.response (.utc x.answeredAt) job).1⟩ job := by
  unfold Session.flushJob
  rw [show (polledSession db method job x).job = _ from (perform?_keeps _ db _).1]
  exact if_pos rfl

theorem flushJob_polled_of_ne {row : FirecrawlJobRecord} (db : Database) (method : JobMethod)
    (x : Exchange) (h : row.id ≠ job.id) : (polledSession db method job x).flushJob row = row := by
  unfold Session.flushJob
  rw [show (polledSession db method job x).job = _ from (perform?_keeps _ db _).1]
  exact if_neg (Ne.symm h)

theorem creditsUsedFinal_polled (db : Database) (method : JobMethod) (job : FirecrawlJobRecord)
    (x : Exchange) : ((polledSession db method job x).flushJob job).creditsUsedFinal =
      (job.creditsUsedFinal <|> settlement method x.response) := by
  rw [flushJob_polled_self, ← jobAnswered_creditsUsedFinal method x.response (.utc x.answeredAt)]
  exact column_fresh rfl

theorem jobs_flush_polled (method : JobMethod) (x : Exchange) (hids : JobIds db)
    (hmem : job ∈ db.jobs) : ∃ before after, db.jobs = before ++ job :: after ∧
      ((polledSession db method job x).flush x.committedAt db).jobs =
        before ++ (polledSession db method job x).flushJob job :: after := by
  have hnew : (polledSession db method job x).newJob = none := (perform?_keeps _ db _).2.1
  obtain ⟨before, after, hsplit⟩ := List.append_of_mem hmem
  refine ⟨before, after, hsplit, ?_⟩
  simp only [Session.flush, hnew, Option.map_none, Option.toList_none, List.append_nil]
  rw [hsplit, map_of_key (·.id) (hsplit ▸ hids.nodup) fun _ h => flushJob_polled_of_ne _ method x h]

theorem newJob_of_answered {p : Post} {selected : FirecrawlSelectedAccount} {x : Exchange}
    {target : Option RowWrite}
    (ha : p.answered selected x.response (.utc x.answeredAt) x.latencyMs = .ok (s, target)) :
    s.job = none ∧ ∀ new, s.newJob = some new → new.creditsUsedFinal = none := by
  obtain ⟨⟨log, rfl, -⟩, -⟩ := Post.answered_eq_ok ha
  refine ⟨rfl, fun new hnew => ?_⟩
  obtain ⟨-, upstreamId, -, rfl⟩ := Post.newJob?_eq_some.1 hnew
  rfl

/-- **What a call does to the final credits of a job**: the first settlement stays. -/
theorem finalCredits_serve (hids : JobIds db) (hkey : Keyed job db)
    (hserve : serve env db e = some db') :
    finalCredits job.id db' = (finalCredits job.id db <|> settles env job db e) := by
  cases serves_of_serve hserve with
  | @post call p x selected session target hp hpost ha =>
    obtain ⟨hjob, hnew⟩ := newJob_of_answered ha
    obtain ⟨hkeepsJob, hkeepsNew, -⟩ := perform?_keeps session db target
    have hnone : settles env job db (call, x) = none := by
      cases call with
      | proxy | submitJob => rfl
      | jobOperation => cases hp
    rw [finalCredits_flush (by rwa [hkeepsNew]), hnone]
    simp only [flushJob_of_none (hkeepsJob.trans hjob)]
    unfold finalCredits
    cases (db.job? job.id).bind (·.creditsUsedFinal) <;> rfl
  | notForwarded hop =>
    simp only [settles, hop]
    cases finalCredits job.id db <;> rfl
  | @jobOperation endpoint upstreamJobId method x polled hjob hop =>
    obtain ⟨⟨hmem, hendpoint, hupstream⟩, -⟩ := mem_of_getJobRecord hjob
    have hnew : (polledSession db method polled x).newJob = none := (perform?_keeps _ db _).2.1
    rw [finalCredits_flush (by simp [hnew])]
    unfold finalCredits
    have hpolled := hkey polled hmem
    rw [hendpoint, hupstream] at hpolled
    simp only [settles, hop, eq_comm (a := job.endpoint), eq_comm (a := job.upstreamJobId), hpolled]
    cases hrow : db.job? job.id with
    | none =>
      have hne : polled.id ≠ job.id := by
        intro h
        exact absurd (List.find?_eq_none.1 hrow polled hmem) (by simp [h])
      simp [hne]
    | some row =>
      have hrowId : row.id = job.id := id_of_job? hrow
      -- the primary key: a row with the id of the polled one is the polled one
      have hsame : row.id = polled.id → row = polled := fun h => List.inj_on_of_nodup_map hids.nodup
        (List.mem_of_find?_eq_some hrow) hmem h
      rw [Option.bind_some, Option.bind_some]
      by_cases hid : polled.id = job.id
      · rw [hsame (hrowId.trans hid.symm), creditsUsedFinal_polled, if_pos hid]
      · have hne : row.id ≠ polled.id := fun h => hid (h.symm.trans hrowId)
        rw [flushJob_polled_of_ne db method x hne, if_neg hid]
        cases row.creditsUsedFinal <;> rfl

theorem serve_cases (hserve : serve env db e = some db') :
    db' = db ∨ ∃ s dbNow, db' = Session.flush s dbNow db := by
  cases serves_of_serve hserve with
  | post => exact Or.inr ⟨_, _, rfl⟩
  | notForwarded => exact Or.inl rfl
  | jobOperation => exact Or.inr ⟨_, _, rfl⟩

theorem JobIds.serve (h : JobIds db) (hserve : serve env db e = some db') : JobIds db' := by
  rcases serve_cases hserve with rfl | ⟨s, dbNow, rfl⟩
  exacts [h, h.flush]

theorem Keyed.of_serve (hserve : serve env db e = some db') (h : Keyed job db') :
    Keyed job db := by
  rcases serve_cases hserve with rfl | ⟨s, dbNow, rfl⟩
  exacts [h, h.of_flush]

/-- **The final credits of a job after a run**: those it had, or else those of its first settlement
in the run. -/
theorem finalCredits_run {calls : List (Call × Exchange)} (hids : JobIds db)
    (hrun : run (serve env) db calls = some db') (hkey : Keyed job db') :
    finalCredits job.id db' =
      (finalCredits job.id db <|> (trace (serve env) (settles env job) db calls).head?) := by
  have hmeets : Meets (serve env) (fun db _ => JobIds db ∧ Keyed job db) db calls :=
    (meets_of_invariant (fun _ _ _ h hserve => h.serve hserve) hids).and
      (meets_of_run (fun _ _ _ hserve h => Keyed.of_serve hserve h) hrun hkey)
  have hfold : some (finalCredits job.id db') = some
      ((trace (serve env) (settles env job) db calls).foldl (fun v c => v <|> some c)
        (finalCredits job.id db)) := by
    refine foldl_trace (fun db => some (finalCredits job.id db)) (fun db e db' v hC hserve hv => ?_)
      hmeets rfl hrun
    obtain rfl := Option.some.inj hv
    rw [finalCredits_serve hC.1 hC.2 hserve]
    cases settles env job db e <;> cases finalCredits job.id db <;> rfl
  rw [Option.some.inj hfold, foldl_orElse]

end Jobs

/-! ### What the jobs are charged -/

/-- The final credits of a job of the account. -/
def ownedFinal (id : String) (job : FirecrawlJobRecord) : Option ℤ :=
  if job.accountId = some id then job.creditsUsedFinal else none

/-- The final credits a job of the account had in a database. -/
def ownedBefore (id : String) (db : Database) (job : FirecrawlJobRecord) : Option ℤ :=
  if job.accountId = some id then finalCredits job.id db else none

/-- The credits of the first poll that settles a job of the account, when it was not settled
before. -/
def firstSettlement (env : Env) (id : String) (db : Database) (calls : List (Call × Exchange))
    (job : FirecrawlJobRecord) : Option ℤ :=
  if job.accountId = some id ∧ finalCredits job.id db = none then
    (trace (serve env) (settles env job) db calls).head?
  else none

section Charged

variable {env : Env} {db db' : Database} {e : Call × Exchange} {calls : List (Call × Exchange)}
  {id : String} {s : Session} {dbNow : ℤ} {job : FirecrawlJobRecord}

theorem coe_middle (a b : List ℤ) (c : ℤ) :
    ((a ++ c :: b : List ℤ) : Multiset ℤ) = ↑(a ++ b) + {c} := by
  rw [← Multiset.coe_singleton, Multiset.coe_add, Multiset.coe_eq_coe]
  exact List.perm_middle.trans (List.perm_append_singleton _ _).symm

/-- **A call settles one job of the account, or none.** -/
theorem ownedFinal_serve (hids : JobIds db) (hserve : serve env db e = some db') :
    (db'.jobs.filterMap (ownedFinal id) : Multiset ℤ) = db.jobs.filterMap (ownedFinal id) +
      ((settled env id db e).map fun c => ({c} : Multiset ℤ)).getD 0 := by
  cases serves_of_serve hserve with
  | @post call p x selected session target hp hpost ha =>
    obtain ⟨hjob, hnew⟩ := newJob_of_answered ha
    obtain ⟨hkeepsJob, hkeepsNew, -⟩ := perform?_keeps session db target
    have hmap : db.jobs.map (session.perform? db target).flushJob = db.jobs :=
      (List.map_congr_left fun row _ => flushJob_of_none (hkeepsJob.trans hjob) row).trans
        (List.map_id' _)
    rw [settled_of_post hp]
    simp only [Session.flush, hmap, hkeepsNew]
    cases hn : session.newJob with
    | none => simp
    | some new => simp [ownedFinal, Session.insertJob, hnew new hn]
  | notForwarded hop => simp [settled, hop]
  | @jobOperation endpoint upstreamJobId method x job hjob hop =>
    -- only the row of the polled job changes
    obtain ⟨before, after, hsplit, hjobs⟩ :=
      jobs_flush_polled method x hids (mem_of_getJobRecord hjob).1.1
    have hjob' : ownedFinal id ((polledSession db method job x).flushJob job) =
        if job.accountId = some id then job.creditsUsedFinal <|> settlement method x.response
        else none := by
      rw [ownedFinal, (flushJob_key _ job).1, creditsUsedFinal_polled]
    have hold : ownedFinal id job =
        if job.accountId = some id then job.creditsUsedFinal else none := rfl
    simp only [settled, hop, hjobs]
    rw [hsplit]
    simp only [List.filterMap_append, List.filterMap_cons, hjob', hold]
    by_cases howned : job.accountId = some id
    · cases hc : job.creditsUsedFinal with
      | some c => simp [howned]
      | none =>
        cases settlement method x.response with
        | none => simp [howned]
        | some c => simpa [howned] using coe_middle _ _ c
    · simp [howned]

theorem jobIds_run (hids : JobIds db) (hrun : run (serve env) db calls = some db') : JobIds db' :=
  Run.invariant (fun _ _ _ h hserve => h.serve hserve) hids hrun

theorem ownedBefore_run (hids : JobIds db) (hrun : run (serve env) db calls = some db') :
    db'.jobs.filterMap (ownedBefore id db) = db.jobs.filterMap (ownedFinal id) := by
  have hstart : db.jobs.filterMap (ownedBefore id db) = db.jobs.filterMap (ownedFinal id) :=
    List.filterMap_congr fun job hjob => by
      rw [ownedBefore, finalCredits, job?_of_mem hids.nodup hjob, Option.bind_some, ownedFinal]
  have hinv := Run.invariant (I := fun db₁ => db.jobs.length ≤ db₁.jobs.length ∧
    db₁.jobs.filterMap (ownedBefore id db) = db.jobs.filterMap (ownedFinal id))
    (fun db₁ e db₂ h hserve => ?_) ⟨le_rfl, hstart⟩ hrun
  · exact hinv.2
  · rcases serve_cases hserve with rfl | ⟨s, dbNow, rfl⟩
    · exact h
    · obtain ⟨hlength, hsame⟩ := h
      have hflush : ∀ row, ownedBefore id db (s.flushJob row) = ownedBefore id db row := by
        intro row
        rw [ownedBefore, flushJob_id, (flushJob_key s row).1, ownedBefore]
      have hnew : ∀ new, ownedBefore id db (Session.insertJob dbNow db₁ new) = none := by
        intro new
        have hnone : db.job? (db₁.jobs.length + 1) = none :=
          List.find?_eq_none.2 fun row hrow => by
            have := hids.le row hrow
            simp only [decide_eq_true_eq]
            omega
        simp [ownedBefore, finalCredits, Session.insertJob, hnone]
      refine ⟨hlength.trans (by simp [Session.flush]), ?_⟩
      rw [← hsame]
      cases hn : s.newJob <;>
        simp [Session.flush, hn, List.filterMap_map, hflush, hnew]

/-- The final credits in the row of a job, when the upstream reuses no job id. -/
theorem creditsUsedFinal_run (hids : JobIds db) (hrun : run (serve env) db calls = some db')
    (hkeys : (db'.jobs.map fun job => (job.endpoint, job.upstreamJobId)).Nodup)
    (hjob : job ∈ db'.jobs) : job.creditsUsedFinal =
      (finalCredits job.id db <|> (trace (serve env) (settles env job) db calls).head?) := by
  have hids' := jobIds_run hids hrun
  have hkeyed : Keyed job db' := by
    intro row hrow
    constructor
    · rintro ⟨he, hu⟩
      rw [List.inj_on_of_nodup_map hkeys hrow hjob (by rw [he, hu])]
    · intro h
      rw [List.inj_on_of_nodup_map hids'.nodup hrow hjob h]
      exact ⟨rfl, rfl⟩
  rw [← finalCredits_run hids hrun hkeyed, finalCredits, job?_of_mem hids'.nodup hjob,
    Option.bind_some]

/-- **What the run settles** are the first settlements of the jobs. -/
theorem settled_perm (hids : JobIds db) (hrun : run (serve env) db calls = some db')
    (hkeys : (db'.jobs.map fun job => (job.endpoint, job.upstreamJobId)).Nodup) :
    (trace (serve env) (settled env id) db calls).Perm
      (db'.jobs.filterMap (firstSettlement env id db calls)) := by
  have hsum : (db'.jobs.filterMap (ownedFinal id) : Multiset ℤ) =
      db.jobs.filterMap (ownedFinal id) +
        ((trace (serve env) (settled env id) db calls).map fun c => ({c} : Multiset ℤ)).sum := by
    exact sum_trace (fun db => (db.jobs.filterMap (ownedFinal id) : Multiset ℤ))
      (fun c => ({c} : Multiset ℤ)) (C := fun db _ => JobIds db)
      (fun db e db' h hserve => ownedFinal_serve h hserve)
      (meets_of_invariant (fun _ _ _ h hserve => h.serve hserve) hids) hrun
  have hfinal : (db'.jobs.filterMap (ownedFinal id)).Perm
      (db'.jobs.filterMap (ownedBefore id db) ++
        db'.jobs.filterMap (firstSettlement env id db calls)) := by
    refine perm_filterMap_orElse fun job hjob => ?_
    unfold ownedFinal ownedBefore firstSettlement
    rw [creditsUsedFinal_run hids hrun hkeys hjob]
    by_cases howned : job.accountId = some id
    · cases finalCredits job.id db <;> simp [howned]
    · simp [howned]
  have hcoe : ((trace (serve env) (settled env id) db calls).map fun c => ({c} : Multiset ℤ)).sum =
      trace (serve env) (settled env id) db calls := by
    rw [← Multiset.sum_coe, ← Multiset.map_coe, Multiset.sum_map_singleton]
  have hfinal := Multiset.coe_eq_coe.2 hfinal
  rw [hsum, hcoe, ← Multiset.coe_add, ownedBefore_run hids hrun] at hfinal
  exact Multiset.coe_eq_coe.1 (add_left_cancel hfinal)

end Charged

/-! ### The balance of a run -/

/-- The credits of the synchronous calls the account has served with a 2xx answer. -/
def syncCharges (env : Env) (id : String) (db : Database) (calls : List (Call × Exchange)) :
    List ℤ :=
  trace (serve env) (served env id) db calls

/-- The credits of the first settlements of the jobs of the account. -/
def jobCharges (env : Env) (id : String) (db : Database) (calls : List (Call × Exchange))
    (db' : Database) : List ℤ :=
  db'.jobs.filterMap (firstSettlement env id db calls)

section Accounted

variable {env : Env} {p : State} {db' : Database} {calls : List (Call × Exchange)} {id : String}
  {R : ℤ}

theorem Reachable.jobIds (h : Reachable env p) : JobIds p.store := by
  refine Run.Reachable.invariant (I := fun p => JobIds p.store) (fun p hp => ?_)
    (fun p m p' hI hs => ?_) h
  · subst hp
    exact ⟨by simp [Database.empty], by simp [Database.empty]⟩
  · rcases step_store hs with ⟨-, hstore, -⟩ | ⟨s, dbNow, -, -, -, hstore, -⟩ <;> rw [hstore]
    · exact hI
    · exact hI.flush

/-- What a run charges is what the calls have served and what they have settled. -/
theorem charges_perm (id : String) (hids : JobIds p.store)
    (hrun : run (serve env) p.store calls = some db')
    (hkeys : (db'.jobs.map fun job => (job.endpoint, job.upstreamJobId)).Nodup) :
    (trace (serve env) (charges env id) p.store calls).Perm
      (syncCharges env id p.store calls ++ jobCharges env id p.store calls db') := by
  refine (trace_orElse_perm (fun db e => ⟨rfl, ?_⟩)).trans
    ((settled_perm hids hrun hkeys).append_left _)
  obtain ⟨call, x⟩ := e
  cases call with
  | proxy | submitJob => exact Or.inr rfl
  | jobOperation => exact Or.inl rfl

/-- **Credits are accounted for.**  After a run of calls, one after another, the balance of an
account is what the synchronous calls it has served and the first settlements of its jobs left of
it; without any of them it is left as it was.  The final credits of a job are those it had, or else
those of its first settlement in the run. -/
theorem credits_accounted (hp : Reachable env p) (hR : balance id p.store = some R)
    (hrun : run (serve env) p.store calls = some db')
    (hkeys : (db'.jobs.map fun job => (job.endpoint, job.upstreamJobId)).Nodup)
    (hcharges : ∀ c ∈ syncCharges env id p.store calls ++ jobCharges env id p.store calls db',
      0 ≤ c) :
    (0 ≤ R ∨ syncCharges env id p.store calls ++ jobCharges env id p.store calls db' ≠ [] →
      balance id db' = some (max 0 (R - (syncCharges env id p.store calls).sum -
        (jobCharges env id p.store calls db').sum))) ∧
    (syncCharges env id p.store calls ++ jobCharges env id p.store calls db' = [] →
      balance id db' = some R) ∧
    ∀ job ∈ db'.jobs, job.creditsUsedFinal = (finalCredits job.id p.store <|>
      (trace (serve env) (settles env job) p.store calls).head?) := by
  have hids := Reachable.jobIds hp
  have hperm := charges_perm id hids hrun hkeys
  have hbalance := balance_run hR hrun
  rw [foldl_spend fun c hc => hcharges c (hperm.mem_iff.1 hc)] at hbalance
  have hnil : trace (serve env) (charges env id) p.store calls = [] ↔
      syncCharges env id p.store calls ++ jobCharges env id p.store calls db' = [] :=
    ⟨fun h => (h ▸ hperm).symm.eq_nil, fun h => (h ▸ hperm).eq_nil⟩
  have hsum : (trace (serve env) (charges env id) p.store calls).sum =
      (syncCharges env id p.store calls).sum + (jobCharges env id p.store calls db').sum := by
    rw [hperm.sum_eq, List.sum_append]
  refine ⟨fun hR => ?_, fun h => ?_, fun job hjob => creditsUsedFinal_run hids hrun hkeys hjob⟩
  · rw [hbalance, sub_sub, ← hsum]
    split_ifs with h
    · have hR : 0 ≤ R := hR.resolve_right fun hne => hne (hnil.1 h)
      rw [h, List.sum_nil, sub_zero, max_eq_right hR]
    · rfl
  · rw [hbalance, if_pos (hnil.2 h)]

/-- The events of a refresh pass over the sample account, whose upstream balance is negative. -/
def refreshNegative (tid : ℕ) : List Event :=
  [.spawn (.refreshOnce 0), .act tid .selectCredentials,
    .act tid (.refreshAccount
      (.answered { status := 200, jsonBody := some [("remainingCredits", .int (-5))] })
      (.answered { status := 200, jsonBody := some [] })),
    .act tid (.commit 0)]

def scrapingPoll : Call × Exchange :=
  (.jobOperation "crawl" "job-1" .get,
    ⟨0, { status := 200, jsonBody := some [("status", .str "scraping")] }, 0, 0, 0⟩)

/-- The upstream reports a balance of -5 for the sample account.  A run that charges nothing, one
poll of a crawl under way, leaves it so. -/
theorem negative_balance_stays : let env := sampleEnv .sqlite
    let p := after env (sampleState .sqlite) (submitCrawl 2 ++ refreshNegative 3)
    let calls := [scrapingPoll]
    Reachable env p ∧ balance "account-1" p.store = some (-5) ∧
    ∃ db', run (serve env) p.store calls = some db' ∧
      (db'.jobs.map fun job => (job.endpoint, job.upstreamJobId)).Nodup ∧
      syncCharges env "account-1" p.store calls = [] ∧
      jobCharges env "account-1" p.store calls db' = [] ∧
      balance "account-1" db' ≠ some (max 0 (-5 - 0 - 0)) :=
  ⟨reachable_after (reachable_sampleState _) _, by decide, _, rfl, by decide, by decide, by decide,
    by decide⟩

/-- A crawl is submitted, a synchronous call uses seven credits, and two polls report that the crawl
has used seven. -/
def sampleCalls : List (Call × Exchange) :=
  [(.submitJob "crawl" "/v2/crawl" [] none,
      ⟨0, { status := 200, jsonBody := some [("id", .str "job-1")] }, 0, 0, 0⟩),
    (.proxy "map" [] none, ⟨0, usedResponse 7, 0, 0, 0⟩),
    (.jobOperation "crawl" "job-1" .get, ⟨0, completedResponse, 0, 0, 0⟩),
    (.jobOperation "crawl" "job-1" .get, ⟨0, completedResponse, 0, 0, 0⟩)]

/-- The database after these calls. -/
def sampleLedger : Database :=
  (run (serve (sampleEnv .sqlite)) (sampleState .sqlite).store sampleCalls).getD Database.empty

theorem credits_accounted_sample :
    balance "account-1" sampleLedger = some (max 0 (100 - 7 - 7)) ∧
    ∀ job ∈ sampleLedger.jobs, job.creditsUsedFinal = some 7 := by
  have hR : balance "account-1" (sampleState .sqlite).store = some 100 := by decide
  have hrun : run (serve (sampleEnv .sqlite)) (sampleState .sqlite).store sampleCalls =
    some sampleLedger := rfl
  have hsync : syncCharges (sampleEnv .sqlite) "account-1" (sampleState .sqlite).store sampleCalls =
    [7] := by decide
  have hjobs : jobCharges (sampleEnv .sqlite) "account-1" (sampleState .sqlite).store sampleCalls
    sampleLedger = [7] := by decide
  have h := credits_accounted (reachable_sampleState .sqlite) hR hrun (by decide) (by decide)
  rw [hsync, hjobs] at h
  have hfirst : ∀ job ∈ sampleLedger.jobs,
      (finalCredits job.id (sampleState .sqlite).store <|> (trace (serve (sampleEnv .sqlite))
        (settles (sampleEnv .sqlite) job) (sampleState .sqlite).store sampleCalls).head?) =
        some 7 := by decide
  exact ⟨h.1 (Or.inl (by decide)), fun job hjob => (h.2.2 job hjob).trans (hfirst job hjob)⟩

end Accounted

end FirecrawlLb.Firecrawl.Ledger
