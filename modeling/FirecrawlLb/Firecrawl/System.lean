import FirecrawlLb.Firecrawl.Refresh
import FirecrawlLb.Lib.Tasks

/-!
# The running system

Requests, job operations, admin calls and refresh passes run as tasks over one database.  A task
stops wherever the code awaits: between the queries of a listing, while the upstream answers,
before the row an answer is about is read, and before the commit.  Rows are read without a lock and
written back at the commit, so other tasks may commit in between.
-/

namespace FirecrawlLb.Firecrawl.System

open FirecrawlLb.Lib FirecrawlLb.Lib.Tasks FirecrawlLb.Python FirecrawlLb.Db.Models
open FirecrawlLb.Firecrawl.Models FirecrawlLb.Firecrawl.Schemas FirecrawlLb.Firecrawl.Routing
open FirecrawlLb.Firecrawl.Repository FirecrawlLb.Firecrawl.Service FirecrawlLb.Firecrawl.Refresh

/-- A call of the API, or a pass of the refresh scheduler. -/
inductive Request where
  | post (post : Post)
  | jobOperation (endpoint upstreamJobId : String) (method : JobMethod)
  | createAccount (payload : FirecrawlAccountCreateRequest)
  | updateAccount (accountId : String) (payload : FirecrawlAccountUpdateRequest)
  | createCredential (accountId : String) (payload : FirecrawlCredentialCreateRequest) (nonce : ℕ)
  | updateCredential (accountId credentialId : String) (payload : FirecrawlCredentialUpdateRequest)
  | refreshOnce (now : ℤ)

/-- Where a call is. -/
inductive Task where
  /-- `list_accounts` has read the rows; `rows` still wait for their credentials. -/
  | listing (post : Post) (rows : List FirecrawlAccountRecord) (accounts : List FirecrawlAccount)
  /-- The POST is sent and its answer has not arrived. -/
  | forwarding (post : Post) (selected : FirecrawlSelectedAccount)
  /-- The request of a job operation is sent and its answer has not arrived. -/
  | polling (method : JobMethod) (job : FirecrawlJobRecord)
  /-- A refresh pass has read the account rows, and reads their credentials next. -/
  | refreshListing (now : ℤ) (rows : List FirecrawlAccountRecord)
  /-- A refresh pass waits for the two answers about the first account of `todo`. -/
  | refreshing (now : ℤ) (todo : List (FirecrawlAccountRecord × FirecrawlCredentialRecord))
      (session : Session)
  /-- The answer is in; `session.get` reads the row it is about next. -/
  | writing (session : Session) (target : RowWrite)
  | committing (session : Session)
  | committed (session : Session)
  | failed

/-- What lets a task go on. -/
inductive Action where
  /-- the credentials of the next row are read -/
  | refreshCredentials
  | select (now : ℤ)
  | answer (response : FirecrawlUpstreamResponse) (now latencyMs : ℤ)
  | selectCredentials
  | refreshAccount (usage queue : RequestResult)
  | get
  | commit (dbNow : ℤ)
  /-- the client fails, or the caller goes away -/
  | fail

/-! ### Starting a task -/

/-- The record `create_account` adds. -/
def accountRecordOf (payload : FirecrawlAccountCreateRequest) : FirecrawlAccountRecord where
  id := payload.id
  teamLabel := payload.teamLabel
  planType := payload.planType
  monthlyBudgetCredits := payload.monthlyBudgetCredits
  remainingCreditsLive := payload.remainingCreditsLive
  planCreditsLive := payload.planCreditsLive
  rpmLimit := payload.rpmLimit
  queueMaxConcurrency := payload.maxConcurrency

/-- The record `create_credential` adds. -/
def credentialRecordOf (env : Env) (accountId : String)
    (payload : FirecrawlCredentialCreateRequest) (nonce : ℕ) : FirecrawlCredentialRecord where
  id := payload.id
  accountId := accountId
  name := payload.name
  apiKeyEncrypted := env.encrypt nonce payload.apiKey
  status := payload.status

/-- The credential record of `update_credential`, when it belongs to the account. -/
def credentialRecord? (db : Database) (accountId credentialId : String) :
    Option FirecrawlCredentialRecord :=
  (db.account? accountId).bind fun _ =>
    (db.credential? credentialId).filter (·.accountId = accountId)

/-- A task up to its first await; a call that is refused at once has failed. -/
def spawn (env : Env) (db : Database) : Request → Task
  | .post p => .listing p (orderById db.accounts) []
  | .jobOperation endpoint upstreamJobId method =>
    match getJobRecord db endpoint upstreamJobId with
    | .ok (some job) =>
      match jobKey env db job with
      | .ok (some _) => .polling method job
      | _ => .failed
    | _ => .failed
  | .createAccount payload =>
    match db.account? payload.id with
    | some _ => .failed
    | none => .committing { newAccount := some (accountRecordOf payload) }
  | .updateAccount accountId payload =>
    match db.account? accountId with
    | some row => .committing { accounts := [⟨row, .operatorUpdate payload⟩] }
    | none => .failed
  | .createCredential accountId payload nonce =>
    match db.account? accountId, db.credential? payload.id with
    | some _, none =>
      .committing { newCredential := some (credentialRecordOf env accountId payload nonce) }
    | _, _ => .failed
  | .updateCredential accountId credentialId payload =>
    match credentialRecord? db accountId credentialId with
    | some row => .committing { credential := some ⟨row, .operatorUpdate payload⟩ }
    | none => .failed
  | .refreshOnce now => .refreshListing now (orderById db.accounts)

/-- **How tasks start**, one rule for each request. -/
inductive Starts (env : Env) (db : Database) : Request → Task → Prop
  | post {p} : Starts env db (.post p) (.listing p (orderById db.accounts) [])
  | jobOperation {endpoint upstreamJobId method job}
      (h : getJobRecord db endpoint upstreamJobId = .ok (some job)) :
      Starts env db (.jobOperation endpoint upstreamJobId method) (.polling method job)
  | createAccount {payload} (h : db.account? payload.id = none) :
      Starts env db (.createAccount payload)
        (.committing { newAccount := some (accountRecordOf payload) })
  | updateAccount {accountId payload row} (h : db.account? accountId = some row) :
      Starts env db (.updateAccount accountId payload)
        (.committing { accounts := [⟨row, .operatorUpdate payload⟩] })
  | createCredential {accountId payload nonce} :
      Starts env db (.createCredential accountId payload nonce)
        (.committing { newCredential := some (credentialRecordOf env accountId payload nonce) })
  | updateCredential {accountId credentialId payload row} :
      Starts env db (.updateCredential accountId credentialId payload)
        (.committing { credential := some ⟨row, .operatorUpdate payload⟩ })
  | refreshOnce {now} : Starts env db (.refreshOnce now)
      (.refreshListing now (orderById db.accounts))
  | refused {r} : Starts env db r .failed

theorem starts_spawn (env : Env) (db : Database) (r : Request) :
    Starts env db r (spawn env db r) := by
  cases r with
  | post p => exact .post
  | jobOperation endpoint upstreamJobId method =>
    simp only [spawn]
    split
    · split
      · exact .jobOperation (by assumption)
      · exact .refused
    · exact .refused
  | createAccount payload =>
    simp only [spawn]
    split
    · exact .refused
    · exact .createAccount (by assumption)
  | updateAccount accountId payload =>
    simp only [spawn]
    split
    · exact .updateAccount (by assumption)
    · exact .refused
  | createCredential accountId payload nonce =>
    simp only [spawn]
    split
    · exact .createCredential
    · exact .refused
  | updateCredential accountId credentialId payload =>
    simp only [spawn]
    split
    · exact .updateCredential
    · exact .refused
  | refreshOnce now => exact .refreshOnce

/-! ### Taking a step -/

/-- The task with its answer worked out: the row to read next, if there is one, or the commit. -/
def awaitRow (session : Session) : Option RowWrite → Task
  | some target => .writing session target
  | none => .committing session

/-- The next round of a refresh pass, or its commit. -/
def nextRound (now : ℤ) (todo : List (FirecrawlAccountRecord × FirecrawlCredentialRecord))
    (session : Session) : Task :=
  if todo.isEmpty then .committing session else .refreshing now todo session

/-- The rows a refresh pass goes over, each with its first active credential. -/
def refreshTargets (db : Database) (rows : List FirecrawlAccountRecord) :
    List (FirecrawlAccountRecord × FirecrawlCredentialRecord) :=
  rows.filterMap fun row =>
    ((db.credentialsOf row.id).find? (·.status = "active")).map (row, ·)

def Task.finished : Task → Bool
  | .committed _ => true
  | .failed => true
  | _ => false

/-- The POST of the task is with the upstream, on behalf of the account. -/
def Task.sentFor (accountId : String) : Task → Bool
  | .forwarding _ selected => selected.account.id = accountId
  | _ => false

/-- A step of a task; nothing when the task does not wait for this. -/
def act (env : Env) (db : Database) : Task → Action → Option (Database × Task)
  | .listing p (row :: rows) accounts, .refreshCredentials =>
    match toDomainAccount env row (db.credentialsOf row.id) with
    | .ok account => some (db, .listing p rows (accounts ++ [account]))
    | .error _ => some (db, .failed)
  | .listing p [] accounts, .select now =>
    match selectAccount accounts p.endpoint p.payload (.utc now) with
    | .ok selected => some (db, .forwarding p selected)
    | .error _ => some (db, .failed)
  | .forwarding p selected, .answer response now latencyMs =>
    match p.answered selected response (.utc now) latencyMs with
    | .ok (session, target) => some (db, awaitRow session target)
    | .error _ => some (db, .failed)
  | .polling method job, .answer response now _ =>
    let (job', target) := jobAnswered method response (.utc now) job
    some (db, awaitRow { job := some ⟨job, job'⟩ } target)
  | .refreshListing now rows, .selectCredentials =>
    some (db, nextRound now (refreshTargets db rows) {})
  | .refreshing now ((row, credential) :: todo) session, .refreshAccount usage queue =>
    match env.decrypt credential.apiKeyEncrypted with
    | some _ => some (db, nextRound now todo { session with
        accounts := session.accounts ++ [⟨row, refreshAccount env usage queue (.naive now)⟩] })
    | none => some (db, .failed)
  | .writing session target, .get => some (db, .committing (session.perform db target))
  | .committing session, .commit dbNow =>
    match session.commit env.backend dbNow db with
    | .ok db' => some (db', .committed session)
    | .error _ => some (db, .failed)
  | task, .fail => if task.finished then none else some (db, .failed)
  | _, _ => none

/-- **The steps of a task**, one rule for each thing the code awaits. -/
inductive Steps (env : Env) (db : Database) : Task → Action → Database → Task → Prop
  | refreshCredentials {p row rows accounts account}
      (h : toDomainAccount env row (db.credentialsOf row.id) = .ok account) :
      Steps env db (.listing p (row :: rows) accounts) .refreshCredentials db
        (.listing p rows (accounts ++ [account]))
  | select {p accounts now selected}
      (h : selectAccount accounts p.endpoint p.payload (.utc now) = .ok selected) :
      Steps env db (.listing p [] accounts) (.select now) db (.forwarding p selected)
  | answer {p selected response now latencyMs session target}
      (h : p.answered selected response (.utc now) latencyMs = .ok (session, target)) :
      Steps env db (.forwarding p selected) (.answer response now latencyMs) db
        (awaitRow session target)
  | jobAnswer {method job response now latencyMs} :
      Steps env db (.polling method job) (.answer response now latencyMs) db
        (awaitRow { job := some ⟨job, (jobAnswered method response (.utc now) job).1⟩ }
          (jobAnswered method response (.utc now) job).2)
  | selectCredentials {now rows} : Steps env db (.refreshListing now rows) .selectCredentials db
      (nextRound now (refreshTargets db rows) {})
  | refreshAccount {now row credential todo session usage queue} :
      Steps env db (.refreshing now ((row, credential) :: todo) session)
        (.refreshAccount usage queue) db (nextRound now todo { session with
          accounts := session.accounts ++ [⟨row, refreshAccount env usage queue (.naive now)⟩] })
  | get {session target} : Steps env db (.writing session target) .get db
      (.committing (session.perform db target))
  | commit {session dbNow} (h : session.binds env.backend db = true) :
      Steps env db (.committing session) (.commit dbNow) (session.flush dbNow db)
        (.committed session)
  | fail {t a} (h : t.finished = false) (hc : ∀ session dbNow, t = .committing session →
      a = .commit dbNow → session.binds env.backend db = false) : Steps env db t a db .failed

/-- **What a step of a task can do.** -/
theorem steps_of_act {env : Env} {db db' : Database} {t t' : Task} {a : Action}
    (h : act env db t a = some (db', t')) : Steps env db t a db' t' := by
  unfold act at h
  split at h
  · split at h
    · cases h
      exact .refreshCredentials (by assumption)
    · cases h
      exact .fail rfl (by simp)
  · split at h
    · cases h
      exact .select (by assumption)
    · cases h
      exact .fail rfl (by simp)
  · split at h
    · cases h
      exact .answer (by assumption)
    · cases h
      exact .fail rfl (by simp)
  · cases h
    exact .jobAnswer
  · cases h
    exact .selectCredentials
  · split at h
    · cases h
      exact .refreshAccount
    · cases h
      exact .fail rfl (by simp)
  · cases h
    exact .get
  · split at h
    · rename_i db₁ hc
      cases h
      obtain ⟨hb, rfl⟩ := commit_eq_ok.1 hc
      exact .commit hb
    · rename_i session dbNow _ _ hc
      cases h
      refine .fail rfl fun session' dbNow' ht ha => ?_
      obtain rfl : session = session' := by simpa using ht
      by_contra hb
      rw [commit_eq_ok.2 ⟨by simpa using hb, rfl⟩] at hc
      cases hc
  · split_ifs at h with hf
    cases h
    exact .fail (by simpa using hf) (by simp)
  · cases h

/-- **The system**: its tasks over the database. -/
def program (env : Env) : Program Database Task Request Action where
  spawn := spawn env
  act := act env

abbrev State := Pool Database Task

abbrev Event := Move Request Action

abbrev step (env : Env) : State → Event → Option State := (program env).step

/-- The session an event commits. -/
def commits (env : Env) (p : State) : Event → Option Session
  | .act tid (.commit _) =>
    match p.tasks[tid]? with
    | some (.committing session) =>
      if session.binds env.backend p.store then some session else none
    | _ => none
  | _ => none

/-- The account the event sends a POST for. -/
def sends (p : State) : Event → Option FirecrawlSelectedAccount
  | .act tid (.select now) =>
    match p.tasks[tid]? with
    | some (.listing post [] accounts) =>
      (selectAccount accounts post.endpoint post.payload (.utc now)).toOption
    | _ => none
  | _ => none

/-- What a selection goes by. -/
structure Selecting where
  post : Post
  accounts : List FirecrawlAccount
  now : ℤ

/-- The selection of the event, whatever comes of it. -/
def selecting (p : State) : Event → Option Selecting
  | .act tid (.select now) =>
    match p.tasks[tid]? with
    | some (.listing post [] accounts) => some ⟨post, accounts, now⟩
    | _ => none
  | _ => none

theorem exists_select_of_sends {p : State} {m : Event} {selected : FirecrawlSelectedAccount}
    (h : sends p m = some selected) : ∃ tid post accounts now,
      m = .act tid (.select now) ∧ p.tasks[tid]? = some (.listing post [] accounts) ∧
      selectAccount accounts post.endpoint post.payload (.utc now) = .ok selected := by
  unfold sends at h
  split at h
  · rename_i tid now
    split at h
    · rename_i post accounts ht
      refine ⟨tid, post, accounts, now, rfl, ht, ?_⟩
      cases hsel : selectAccount accounts post.endpoint post.payload (.utc now) with
      | error e =>
        rw [hsel] at h
        cases h
      | ok s =>
        rw [hsel] at h
        rw [Option.some.inj h]
    · cases h
  · cases h

theorem commits_eq_none {env : Env} {p : State} {tid : ℕ} {t : Task} {a : Action}
    (ht : p.tasks[tid]? = some t) (hc : ∀ session dbNow, t = .committing session →
      a = .commit dbNow → session.binds env.backend p.store = false) :
    commits env p (.act tid a) = none := by
  cases a with
  | commit dbNow =>
    simp only [commits, ht]
    split
    · rename_i session hs
      obtain rfl : t = .committing session := by simpa using hs
      simp [hc session dbNow rfl rfl]
    · rfl
  | _ => rfl

/-- A figure of the session a task has committed. -/
def Task.onCommitted (g : Session → ℤ) : Task → ℤ
  | .committed session => g session
  | _ => 0

/-- What the committed sessions add up to. -/
def committedSum (g : Session → ℤ) (p : State) : ℤ := (p.tasks.map (Task.onCommitted g)).sum

/-- **The database and the committed sessions change by commits only.** -/
theorem step_store {env : Env} {p p' : State} {m : Event} (h : step env p m = some p') :
    (commits env p m = none ∧ p'.store = p.store ∧
      ∀ g, committedSum g p' = committedSum g p) ∨
    ∃ session dbNow, commits env p m = some session ∧ .committing session ∈ p.tasks ∧
      session.binds env.backend p.store = true ∧ p'.store = session.flush dbNow p.store ∧
      ∀ g, committedSum g p' = committedSum g p + g session := by
  obtain ⟨r, rfl, rfl⟩ | ⟨tid, a, t, st, t', rfl, ht, ha, rfl⟩ := Program.step_cases h
  · refine Or.inl ⟨rfl, rfl, fun g => ?_⟩
    have hstart : ∀ t, Starts env p.store r t → t.onCommitted g = 0 := by
      intro t ht
      cases ht <;> rfl
    have hzero : ((program env).spawn p.store r).onCommitted g = 0 :=
      hstart _ (starts_spawn env p.store r)
    simp [committedSum, hzero]
  · have hsum : ∀ g, committedSum g ⟨st, p.tasks.set tid t'⟩ = committedSum g p -
        t.onCommitted g + t'.onCommitted g := fun g => sum_map_set (Task.onCommitted g) t' ht
    have hsame : t.finished = false → (∀ g, t'.onCommitted g = 0) →
        ∀ g, committedSum g ⟨st, p.tasks.set tid t'⟩ = committedSum g p := by
      intro hf ht' g
      rw [hsum, ht', show t.onCommitted g = 0 by cases t <;> first | rfl | cases hf]
      ring
    cases steps_of_act ha with
    | @commit session dbNow hb =>
      exact Or.inr ⟨session, dbNow, by simp [commits, ht, hb], List.mem_of_getElem? ht, hb, rfl,
        fun g => by rw [hsum]; simp [Task.onCommitted]⟩
    | fail hf hc => exact Or.inl ⟨commits_eq_none ht hc, rfl, hsame hf fun _ => rfl⟩
    | @answer post selected response now latencyMs session target h =>
      exact Or.inl ⟨rfl, rfl, hsame rfl fun _ => by cases target <;> rfl⟩
    | @jobAnswer method job response now latencyMs =>
      exact Or.inl ⟨rfl, rfl, hsame rfl fun _ => by
        cases (jobAnswered method response (.utc now) job).2 <;> rfl⟩
    | selectCredentials | refreshAccount =>
      refine Or.inl ⟨rfl, rfl, hsame rfl fun _ => ?_⟩
      unfold nextRound
      split_ifs <;> rfl
    | _ => exact Or.inl ⟨rfl, rfl, hsame rfl fun _ => rfl⟩

theorem step_of_commits {env : Env} {p : State} {m : Event} {session : Session}
    (h : commits env p m = some session) : ∃ p', step env p m = some p' := by
  unfold commits at h
  split at h
  · rename_i tid dbNow
    split at h
    · rename_i s ht
      split_ifs at h with hb
      exact ⟨_, by simp [step, Program.step, ht, program, act, Session.commit, hb]; rfl⟩
    · cases h
  · cases h

theorem store_of_commits {env : Env} {p p' : State} {m : Event} {session : Session}
    (hcommit : commits env p m = some session) (h : step env p m = some p') :
    .committing session ∈ p.tasks ∧ ∃ dbNow, p'.store = session.flush dbNow p.store ∧
      ∀ g, committedSum g p' = committedSum g p + g session := by
  rcases step_store h with ⟨hnone, -⟩ | ⟨s, dbNow, hs, hmem, -, hstore, hsum⟩
  · rw [hnone] at hcommit
    cases hcommit
  · obtain rfl : session = s := Option.some.inj (hcommit.symm.trans hs)
    exact ⟨hmem, dbNow, hstore, hsum⟩

/-- The states the system reaches from an empty database. -/
def Reachable (env : Env) : State → Prop :=
  Run.Reachable (step env) fun p => p = ⟨Database.empty, []⟩

end FirecrawlLb.Firecrawl.System
