import FirecrawlLb.Firecrawl.AdminService
import FirecrawlLb.Firecrawl.Ownership

/-!
# The request log and the job table

A submission that the upstream accepts adds a log and a job in one commit.  So the job table, as far
as it says whose the jobs are, is what the log tells of the successful submissions, in their order,
whatever ran in between.
-/

namespace FirecrawlLb.Firecrawl.Journal

open FirecrawlLb.Lib FirecrawlLb.Lib.Tasks FirecrawlLb.Lib.Run FirecrawlLb.Python
open FirecrawlLb.Db.Models
open FirecrawlLb.Firecrawl.Models FirecrawlLb.Firecrawl.Schemas FirecrawlLb.Firecrawl.Selection
open FirecrawlLb.Firecrawl.Repository FirecrawlLb.Firecrawl.Service FirecrawlLb.Firecrawl.System
open FirecrawlLb.Firecrawl.Stored FirecrawlLb.Firecrawl.Ownership
open FirecrawlLb.Firecrawl.AdminService (routed fromRouter jobEndpoint_of_routed
  not_mem_jobEndpointPattern)

/-- The submission that a log tells of: a success with a job id at an endpoint of jobs. -/
def submissionOf (log : FirecrawlRequestLogRecord) : Option Owner :=
  if log.endpoint ∈ jobEndpointPattern ∧ log.status = "success" then
    log.upstreamJobId.map fun jobId =>
      ⟨log.endpoint, some jobId, log.accountId, log.credentialId, log.estimatedCreditsPre⟩
  else none

/-- The credential is stored for the account. -/
def Belongs (db : Database) (accountId credentialId : Option String) : Prop :=
  ∃ row, db.credential? row.id = some row ∧ credentialId = some row.id ∧
    accountId = some row.accountId

/-- What a session adds to the log it adds to the job table. -/
structure SessionJournal (db : Database) (s : Session) : Prop where
  jobs : s.newJob.map owner = s.newLog.bind submissionOf
  belongs : ∀ log ∈ s.newLog, Belongs db log.accountId log.credentialId

/-- The tables agree. -/
structure Agree (db : Database) : Prop where
  ids : (db.credentials.map (·.id)).Nodup
  jobs : db.jobs.map owner = db.requestLogs.filterMap submissionOf
  belongs : ∀ log ∈ db.requestLogs, Belongs db log.accountId log.credentialId

/-- What a task holds for the two tables. -/
def TaskJournal (env : Env) (db : Database) (t : Task) : Prop :=
  TaskKeys env db t ∧
    match t with
    | .listing post _ _ | .forwarding post _ => routed post = true
    | .refreshing _ _ session | .writing session _ | .committing session =>
      SessionJournal db session
    | .polling _ _ | .refreshListing _ _ | .committed _ | .failed => True

section Sessions

variable {env : Env} {s : Session} {db : Database} {dbNow : ℤ}
  {accountId credentialId : Option String}

theorem requestStatus_eq_success {response : FirecrawlUpstreamResponse} :
    requestStatus response.status = "success" ↔ response.isSuccess = true := by
  unfold requestStatus FirecrawlUpstreamResponse.isSuccess
  split_ifs with h <;> simp_all

theorem submissionOf_insertLog (log : FirecrawlRequestLogRecord) :
    submissionOf (Session.insertLog dbNow db log) = submissionOf log := rfl

/-- **An accepted submission is told by its log**, and no other POST is. -/
theorem newJob?_eq_submissionOf {post : Post} {selected : FirecrawlSelectedAccount}
    {response : FirecrawlUpstreamResponse} {now : DateTime} (hpost : routed post = true)
    (credits latencyMs : ℤ) : (post.newJob? selected response now).map owner =
      submissionOf (requestLog selected.account.id selected.credential.id post.endpoint response
        (requestStatus response.status) selected.estimatedCredits credits latencyMs now) := by
  simp only [Post.newJob?, submissionOf, requestLog, requestStatus_eq_success]
  cases hkind : post.kind with
  | proxy =>
    have hendpoint : post.endpoint ∉ jobEndpointPattern := by
      refine not_mem_jobEndpointPattern ?_
      simp only [routed, hkind, Bool.and_eq_true, decide_eq_true_eq] at hpost
      exact hpost.1
    simp [hendpoint]
  | submitJob =>
    simp only [jobEndpoint_of_routed hpost hkind, true_and]
    split_ifs
    · rw [Option.map_map]
      rfl
    · rfl

theorem Belongs.flush (h : Belongs db accountId credentialId) :
    Belongs (s.flush dbNow db) accountId credentialId := by
  obtain ⟨row, hrow, hcredential, haccount⟩ := h
  obtain ⟨hid, hsame, -⟩ := flushCredential_key s row
  exact ⟨_, by rw [hid]; exact credential?_flush hrow, by rw [hid]; exact hcredential,
    by rw [hsame]; exact haccount⟩

theorem belongs_of_hasKey {accountId : String} {credential : FirecrawlCredential}
    (h : HasKey env accountId credential db) :
    Belongs db (some accountId) (some credential.id) := by
  obtain ⟨row, hrow, haccount, -⟩ := h
  have hid : row.id = credential.id := by simpa using List.find?_some hrow
  exact ⟨row, by rw [hid, hrow], by rw [hid], by rw [haccount]⟩

theorem SessionJournal.mono {db' : Database}
    (hle : ∀ {accountId credentialId}, Belongs db accountId credentialId →
      Belongs db' accountId credentialId) (h : SessionJournal db s) : SessionJournal db' s :=
  ⟨h.jobs, fun log hlog => hle (h.belongs log hlog)⟩

theorem sessionJournal_of_none (hjob : s.newJob = none) (hlog : s.newLog = none) :
    SessionJournal db s :=
  ⟨by rw [hjob, hlog]; rfl, fun log h => by rw [hlog] at h; cases h⟩

theorem SessionJournal.perform (h : SessionJournal db s) (target : RowWrite) :
    SessionJournal db (s.perform db target) := by
  rcases perform_cases s db target with hs | ⟨_, _, _, -, -, hs⟩ | ⟨e, hs⟩ <;> rw [hs] <;>
    exact ⟨h.jobs, h.belongs⟩

/-- **A commit keeps the agreement.** -/
theorem Agree.flush (h : Agree db) (hs : SessionJournal db s) (hb : s.binds env.backend db = true) :
    Agree (s.flush dbNow db) where
  ids := nodup_flush_credentials h.ids hb
  jobs := by
    have hjobs : (s.flush dbNow db).jobs.map owner =
        db.jobs.map owner ++ (s.newJob.map owner).toList := by
      cases hnew : s.newJob <;>
        simp [Session.flush, hnew, Function.comp_def, owner_flushJob, owner_insertJob]
    have hlogs : (s.flush dbNow db).requestLogs.filterMap submissionOf =
        db.requestLogs.filterMap submissionOf ++ (s.newLog.bind submissionOf).toList := by
      cases hnew : s.newLog with
      | none => simp [Session.flush, hnew]
      | some log =>
        simp only [Session.flush, hnew, Option.map_some, Option.toList_some, List.filterMap_append,
          Option.bind_some]
        cases hlog : submissionOf log <;>
          simp [submissionOf_insertLog, hlog]
    rw [hjobs, hlogs, h.jobs, hs.jobs]
  belongs := by
    intro log hlog
    rcases mem_flush_requestLogs.1 hlog with hlog | ⟨log, hnew, rfl⟩
    · exact (h.belongs log hlog).flush
    · exact (hs.belongs log hnew).flush

end Sessions

/-! ### Runs -/

section Runs

variable {env : Env} {s : Session} {db db' : Database} {t t' : Task} {a : Action} {p p' : State}
  {m : Event} {es : List Event}

theorem taskJournal_awaitRow (h : SessionJournal db s) (target : Option RowWrite) :
    TaskJournal env db (awaitRow s target) := by
  cases target <;> exact ⟨trivial, h⟩

theorem taskJournal_nextRound {now : ℤ}
    {todo : List (FirecrawlAccountRecord × FirecrawlCredentialRecord)} (h : SessionJournal db s) :
    TaskJournal env db (nextRound now todo s) := by
  unfold nextRound
  split_ifs <;> exact ⟨trivial, h⟩

theorem taskJournal_starts {r : Request} (hr : fromRouter (.spawn r) = true)
    (h : Starts env db r t) : TaskJournal env db t := by
  refine ⟨taskKeys_starts h, ?_⟩
  cases h with
  | post => exact hr
  | createAccount | updateAccount | createCredential | updateCredential =>
    exact sessionJournal_of_none rfl rfl
  | jobOperation | refreshOnce | refused => trivial

theorem TaskJournal.mono
    (hkeys : ∀ {accountId credential}, HasKey env accountId credential db →
      HasKey env accountId credential db')
    (hle : ∀ {accountId credentialId}, Belongs db accountId credentialId →
      Belongs db' accountId credentialId) (h : TaskJournal env db t) : TaskJournal env db' t := by
  obtain ⟨ht, hsession⟩ := h
  cases t with
  | listing post rows accounts => exact ⟨fun a ha c hc => hkeys (ht a ha c hc), hsession⟩
  | forwarding post selected => exact ⟨hkeys ht, hsession⟩
  | refreshing now todo session | writing session target | committing session =>
    exact ⟨trivial, hsession.mono hle⟩
  | _ => exact ⟨trivial, trivial⟩

theorem taskJournal_steps (hdb : Agree db) (ht : TaskJournal env db t)
    (h : Steps env db t a db' t') : Agree db' ∧ TaskJournal env db' t' := by
  have hkeys := taskKeys_steps hdb.ids ht.1 h
  cases h with
  | refreshCredentials | select => exact ⟨hdb, hkeys, ht.2⟩
  | @answer post selected response now latencyMs session target h =>
    refine ⟨hdb, taskJournal_awaitRow ?_ target⟩
    obtain ⟨credits, hcredits, -⟩ := bind_eq_ok.1 h
    rw [Post.answered_eq hcredits] at h
    obtain ⟨target', -, h⟩ := map_eq_ok.1 h
    obtain ⟨rfl, rfl⟩ := Prod.mk.inj h
    refine ⟨newJob?_eq_submissionOf ht.2 credits latencyMs, fun log hlog => ?_⟩
    obtain rfl := Option.some.inj hlog
    exact belongs_of_hasKey ht.1
  | jobAnswer => exact ⟨hdb, taskJournal_awaitRow (sessionJournal_of_none rfl rfl) _⟩
  | selectCredentials => exact ⟨hdb, taskJournal_nextRound (sessionJournal_of_none rfl rfl)⟩
  | refreshAccount => exact ⟨hdb, taskJournal_nextRound ⟨ht.2.jobs, ht.2.belongs⟩⟩
  | @get session target => exact ⟨hdb, hkeys, ht.2.perform target⟩
  | commit hb => exact ⟨hdb.flush ht.2 hb, trivial, trivial⟩
  | fail => exact ⟨hdb, trivial, trivial⟩

theorem agree_step (hI : Asserts Agree (TaskJournal env) p) (hm : fromRouter m = true)
    (hs : step env p m = some p') : Asserts Agree (TaskJournal env) p' := by
  refine Program.inv_step (C := fun _ m => fromRouter m = true)
    (fun p r _ hr => taskJournal_starts hr (starts_spawn env p.store r))
    (fun _ _ _ _ _ _ hdb ht _ _ ha => taskJournal_steps hdb ht (steps_of_act ha))
    (fun p tid a t db t' u _ _ hu _ _ ha => ?_) hI hm hs
  have hsteps := steps_of_act ha
  refine hu.mono (fun h => h.steps hsteps) fun h => ?_
  cases hsteps with
  | commit => exact h.flush
  | _ => exact h

/-- **The job table is what the log tells of the submissions**, after every run of the calls that
the router has a path for, and every log names a credential with its account. -/
theorem journal_agrees (hms : Meets (step env) (fun _ m => fromRouter m = true)
      ⟨Database.empty, []⟩ es) (hrun : run (step env) ⟨Database.empty, []⟩ es = some p) :
    p.store.jobs.map owner = p.store.requestLogs.filterMap submissionOf ∧
    ∀ log ∈ p.store.requestLogs, ∃ credential,
      p.store.credential? credential.id = some credential ∧
      log.credentialId = some credential.id ∧ log.accountId = some credential.accountId := by
  have hstart : Asserts Agree (TaskJournal env) (⟨Database.empty, []⟩ : State) :=
    ⟨⟨by simp [Database.empty], by simp [Database.empty], by simp [Database.empty]⟩, by simp⟩
  have hagree := (invariant_of_meets (fun _ _ _ => agree_step) hstart hms hrun).1
  exact ⟨hagree.jobs, hagree.belongs⟩

/-- A crawl is submitted while a synchronous request is with the upstream. -/
theorem journal_agrees_sample : let env := sampleEnv .sqlite
    let p := after env ⟨Database.empty, []⟩ (sampleSetup ++ sendPost 2 mapPost 0 ++
      submitCrawl 3 ++ settle 2 { status := 200, jsonBody := some [("id", .str "map-1")] } 1)
    p.store.requestLogs.map (·.upstreamJobId) = [some "job-1", some "map-1"] ∧
    p.store.jobs.map owner = p.store.requestLogs.filterMap submissionOf := by
  intro env p
  have hrun : run (step env) ⟨Database.empty, []⟩ _ = some p := run_after (by decide)
  exact ⟨by decide, (journal_agrees (by decide) hrun).1⟩

end Runs

end FirecrawlLb.Firecrawl.Journal
