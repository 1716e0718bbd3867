import FirecrawlLb.Firecrawl.Selection
import FirecrawlLb.Firecrawl.Stored
import Mathlib.Algebra.Order.Group.Multiset

/-!
# The owner of a job

A submission that the upstream accepts leaves one job row, which names the account, the credential
and the estimate of the selection.  No commit changes these columns, and none changes the account or
the key of a credential.  So as long as the upstream gives no id twice for an endpoint, every later
operation on the job is sent with the key the job was submitted with.
-/

namespace FirecrawlLb.Firecrawl.Ownership

open FirecrawlLb.Lib FirecrawlLb.Lib.Tasks FirecrawlLb.Lib.Run FirecrawlLb.Python
open FirecrawlLb.Db.Models FirecrawlLb.Firecrawl.Models FirecrawlLb.Firecrawl.Selection
open FirecrawlLb.Firecrawl.Repository FirecrawlLb.Firecrawl.Service FirecrawlLb.Firecrawl.System
open FirecrawlLb.Firecrawl.Stored

/-! ### Job rows and submissions -/

/-- The columns of a job row that say whose the job is. -/
structure Owner where
  endpoint : String
  upstreamJobId : Option String
  accountId : Option String
  credentialId : Option String
  estimatedCreditsReserved : Option ℤ
  deriving DecidableEq

def owner (job : FirecrawlJobRecord) : Owner where
  endpoint := job.endpoint
  upstreamJobId := job.upstreamJobId
  accountId := job.accountId
  credentialId := job.credentialId
  estimatedCreditsReserved := job.estimatedCreditsReserved

/-- A submission the upstream has accepted: the task of the call, the job, and the selection. -/
structure Submission where
  call : ℕ
  endpoint : String
  upstreamJobId : String
  selected : FirecrawlSelectedAccount

namespace Submission

/-- What names the job. -/
def key (sub : Submission) : String × String := (sub.endpoint, sub.upstreamJobId)

/-- Whose the job is, after its selection. -/
def owner (sub : Submission) : Owner where
  endpoint := sub.endpoint
  upstreamJobId := some sub.upstreamJobId
  accountId := some sub.selected.account.id
  credentialId := some sub.selected.credential.id
  estimatedCreditsReserved := some sub.selected.estimatedCredits

end Submission

/-- The submission that an answer accepts: it is in the 2xx range and has a job id. -/
def accepts (p : State) : Event → Option Submission
  | .act tid (.answer response _ _) =>
    match p.tasks[tid]? with
    | some (.forwarding post selected) =>
      if post.kind = .submitJob ∧ response.isSuccess = true then
        (upstreamJobId response.jsonBody).map (⟨tid, post.endpoint, ·, selected⟩)
      else none
    | _ => none
  | _ => none

/-- The key a job operation sends its request with; none when it sends nothing and answers not
found. -/
def jobRequest (env : Env) (db : Database) (endpoint upstreamJobId : String) :
    Except Raised (Option String) := do
  let job? ← getJobRecord db endpoint upstreamJobId
  job?.elim (.ok none) (jobKey env db)

/-- The job rows with an endpoint and an upstream id. -/
def rowsOf (db : Database) (endpoint upstreamJobId : String) : List FirecrawlJobRecord :=
  db.jobs.filter fun job => job.endpoint = endpoint ∧ job.upstreamJobId = some upstreamJobId

section Requests

variable {env : Env} {db : Database} {endpoint upstreamJobId : String} {job : FirecrawlJobRecord}

theorem getJobRecord_of_rowsOf (h : rowsOf db endpoint upstreamJobId = [job]) :
    getJobRecord db endpoint upstreamJobId = .ok (some job) := by
  unfold getJobRecord
  rw [show db.jobs.filter _ = [job] from h]

theorem spawn_of_jobRequest {key : String} (hjob : rowsOf db endpoint upstreamJobId = [job])
    (hkey : jobRequest env db endpoint upstreamJobId = .ok (some key)) (method : JobMethod) :
    spawn env db (.jobOperation endpoint upstreamJobId method) = .polling method job := by
  have hjob := getJobRecord_of_rowsOf hjob
  rw [jobRequest, hjob] at hkey
  have hkey : jobKey env db job = .ok (some key) := hkey
  simp [spawn, hjob, hkey]

theorem notFound_of_rowsOf_nil (env : Env) (h : rowsOf db endpoint upstreamJobId = [])
    (method : JobMethod) : jobRequest env db endpoint upstreamJobId = .ok none ∧
      spawn env db (.jobOperation endpoint upstreamJobId method) = .failed := by
  have hjob : getJobRecord db endpoint upstreamJobId = .ok none := by
    unfold getJobRecord
    rw [show db.jobs.filter _ = [] from h]
  constructor
  · rw [jobRequest, hjob]
    rfl
  · simp [spawn, hjob]

end Requests

/-! ### Rows keep their owner -/

section Rows

variable {env : Env} {s : Session} {db : Database} {dbNow : ℤ} {p p' : State} {m : Event}

theorem owner_flushJob (s : Session) (row : FirecrawlJobRecord) :
    owner (s.flushJob row) = owner row := by
  obtain ⟨-, h⟩ | ⟨o, -, -, h⟩ := flushJob_cases s row <;> rw [h]
  rfl

theorem owner_insertJob (job : FirecrawlJobRecord) :
    owner (Session.insertJob dbNow db job) = owner job := rfl

/-- What a session adds to the owners of the job rows. -/
def added (s : Session) : Multiset Owner := (s.newJob.map owner).elim 0 ({·})

/-- The owners of the job rows. -/
def owners (db : Database) : Multiset Owner := ↑(db.jobs.map owner)

theorem owners_flush : owners (s.flush dbNow db) = owners db + added s := by
  have hjobs : (s.flush dbNow db).jobs.map owner =
      db.jobs.map owner ++ (s.newJob.map owner).toList := by
    cases hnew : s.newJob <;>
      simp [Session.flush, hnew, Function.comp_def, owner_flushJob, owner_insertJob]
  unfold owners added
  rw [hjobs, ← Multiset.coe_add]
  cases s.newJob <;> rfl

theorem owners_le_step (h : step env p m = some p') : owners p.store ≤ owners p'.store := by
  rcases step_store h with ⟨-, hstore, -⟩ | ⟨s, dbNow, -, -, -, hstore, -⟩ <;> rw [hstore]
  rw [owners_flush]
  exact Multiset.le_add_right _ _

theorem mem_owners {o : Owner} : o ∈ owners db ↔ ∃ job ∈ db.jobs, owner job = o := by
  simp [owners]

end Rows

/-! ### What the tasks bring -/

/-- The owners a task is about to add. -/
def pending : Task → Multiset Owner
  | .refreshing _ _ session => added session
  | .writing session _ => added session
  | .committing session => added session
  | _ => 0

/-- The owners of the stored rows, and of those on their way. -/
def held (p : State) : Multiset Owner := owners p.store + (p.tasks.map pending).sum

section Held

variable {env : Env} {s : Session} {db db' : Database} {t t' : Task} {a : Action} {p p' : State}
  {m : Event}

theorem pending_awaitRow (s : Session) (target : Option RowWrite) :
    pending (awaitRow s target) = added s := by
  cases target <;> rfl

theorem pending_nextRound (now : ℤ)
    (todo : List (FirecrawlAccountRecord × FirecrawlCredentialRecord)) (s : Session) :
    pending (nextRound now todo s) = added s := by
  unfold nextRound
  split_ifs <;> rfl

theorem added_perform (s : Session) (db : Database) (target : RowWrite) :
    added (s.perform db target) = added s := by
  have hkeeps := (perform?_keeps s db (some target)).2.1
  unfold added
  rw [show (s.perform db target).newJob = s.newJob from hkeeps]

theorem pending_starts {r : Request} (h : Starts env db r t) : pending t = 0 := by
  cases h <;> rfl

/-- The owners of accepted submissions. -/
def accepted (subs : List Submission) : Multiset Owner := ↑(subs.map Submission.owner)

theorem accepted_append (subs subs' : List Submission) :
    accepted (subs ++ subs') = accepted subs + accepted subs' := by
  simp [accepted]

/-- An answer leaves the call with the job row of the submission it accepts. -/
theorem newJob?_eq_accepts {post : Post} {selected : FirecrawlSelectedAccount} {tid : ℕ}
    (ht : p.tasks[tid]? = some (.forwarding post selected)) (response : FirecrawlUpstreamResponse)
    (now : DateTime) (n latencyMs : ℤ) : (post.newJob? selected response now).map owner =
      (accepts p (.act tid (.answer response n latencyMs))).map Submission.owner := by
  simp only [accepts, ht, Post.newJob?]
  split_ifs
  · cases upstreamJobId response.jsonBody <;> rfl
  · rfl

/-- **A step adds no owner but that of a submission the upstream accepts.** -/
theorem held_step (h : step env p m = some p') :
    held p' ≤ held p + accepted (accepts p m).toList := by
  unfold held
  rcases Program.sum_step_add pending h with
    ⟨r, rfl, hstore, hsum⟩ | ⟨tid, a, t, t', rfl, ht, ha, hsum⟩
  · have hzero : pending ((program env).spawn p.store r) = 0 :=
      pending_starts (starts_spawn env p.store r)
    rw [hstore, hsum, hzero, add_zero]
    exact Multiset.le_add_right _ _
  · -- the steps that leave the rows, and what their task is about to add
    have hsame : p'.store = p.store → pending t' = pending t →
        owners p'.store + (p'.tasks.map pending).sum ≤ owners p.store + (p.tasks.map pending).sum +
          accepted (accepts p (.act tid a)).toList := by
      intro hstore hpending
      rw [hpending] at hsum
      rw [hstore, add_right_cancel hsum]
      exact Multiset.le_add_right _ _
    have hsteps := steps_of_act ha
    generalize hstore : p'.store = db' at hsteps
    rw [hstore] at hsame
    cases hsteps with
    | @answer post selected response now latencyMs session target hanswered =>
      obtain ⟨⟨log, rfl, -⟩, -⟩ := Post.answered_eq_ok hanswered
      -- the job row of the answer is that of the submission it accepts
      have hadded :
          added { newJob := post.newJob? selected response (.utc now), newLog := some log } =
            accepted (accepts p (.act tid (.answer response now latencyMs))).toList := by
        unfold added
        rw [newJob?_eq_accepts ht response (.utc now) now latencyMs]
        cases accepts p (.act tid (.answer response now latencyMs)) <;> rfl
      rw [pending_awaitRow, hadded] at hsum
      rw [show pending (.forwarding post selected) = 0 from rfl, add_zero] at hsum
      rw [hsum, add_assoc]
    | @commit session dbNow hb =>
      have hsum : (p'.tasks.map pending).sum + added session = (p.tasks.map pending).sum := by
        rw [show added session = pending (.committing session) from rfl, hsum]
        exact add_zero _
      rw [owners_flush, add_right_comm, add_assoc, hsum]
      exact Multiset.le_add_right _ _
    | fail =>
      have hle : (p'.tasks.map pending).sum ≤ (p.tasks.map pending).sum := by
        rw [show pending .failed = 0 from rfl, add_zero] at hsum
        rw [← hsum]
        exact Multiset.le_add_right _ _
      exact (add_le_add_right hle _).trans (Multiset.le_add_right _ _)
    | jobAnswer => exact hsame rfl (pending_awaitRow _ _)
    | selectCredentials => exact hsame rfl (pending_nextRound _ _ _)
    | refreshAccount => exact hsame rfl (pending_nextRound _ _ _)
    | get => exact hsame rfl (added_perform _ _ _)
    | refreshCredentials | select => exact hsame rfl rfl

end Held

/-! ### The row of a submission -/

/-- The call holds the row with this owner until it fails, or has stored it. -/
def Carries (o : Owner) (db : Database) : Task → Prop
  | .writing session _ => session.newJob.map owner = some o
  | .committing session => session.newJob.map owner = some o
  | .committed _ => o ∈ owners db
  | .failed => True
  | _ => False

section Carries

variable {env : Env} {o : Owner} {db db' : Database} {t t' : Task} {a : Action} {p p' : State}
  {m : Event} {sub : Submission}

theorem carries_awaitRow {s : Session} (h : s.newJob.map owner = some o)
    (target : Option RowWrite) : Carries o db (awaitRow s target) := by
  cases target <;> exact h

theorem Carries.mono (h : Carries o db t) (hle : owners db ≤ owners db') : Carries o db' t := by
  cases t with
  | committed session => exact Multiset.mem_of_le hle h
  | _ => exact h

theorem Carries.steps (h : Carries o db t) (hs : Steps env db t a db' t') : Carries o db' t' := by
  cases hs with
  | @get session target =>
    have hkeeps := (perform?_keeps session db (some target)).2.1
    exact (congrArg (Option.map owner) hkeeps).trans h
  | @commit session dbNow hb =>
    have hadded : added session = {o} := by
      unfold added
      rw [show session.newJob.map owner = some o from h]
      rfl
    change o ∈ owners (session.flush dbNow db)
    rw [owners_flush, hadded]
    exact Multiset.mem_add.2 (Or.inr (Multiset.mem_singleton_self o))
  | fail => trivial
  | _ => exact h.elim

/-- The call of a submission after the answer that accepts it. -/
theorem carries_of_accepts (haccepts : accepts p m = some sub) (h : step env p m = some p') :
    ∃ t, p'.tasks[sub.call]? = some t ∧ Carries sub.owner p'.store t := by
  unfold accepts at haccepts
  split at haccepts
  · rename_i tid response now latencyMs
    split at haccepts
    · rename_i post selected ht
      have hanswer := newJob?_eq_accepts ht response (.utc now) now latencyMs
      simp only [accepts, ht] at hanswer
      rw [haccepts] at hanswer
      split_ifs at haccepts
      obtain ⟨jobId, -, rfl⟩ := Option.map_eq_some_iff.1 haccepts
      obtain ⟨t', ha, ht'⟩ := Program.exists_act_of_step h ht
      refine ⟨t', ht', ?_⟩
      have hsteps : Steps env p.store (.forwarding post selected) (.answer response now latencyMs)
        p'.store t' := steps_of_act ha
      generalize p'.store = db' at hsteps
      cases hsteps with
      | @answer _ _ _ _ _ session target hanswered =>
        obtain ⟨⟨log, rfl, -⟩, -⟩ := Post.answered_eq_ok hanswered
        exact carries_awaitRow hanswer target
      | fail => trivial
    · cases haccepts
  · cases haccepts

end Carries

/-! ### The key of a credential -/

/-- The credential is stored for the account, with the key that the router has seen. -/
def HasKey (env : Env) (accountId : String) (credential : FirecrawlCredential) (db : Database) :
    Prop :=
  ∃ row, db.credential? credential.id = some row ∧ row.accountId = accountId ∧
    env.decrypt row.apiKeyEncrypted = some credential.apiKey

/-- The credentials a task has listed or selected are stored. -/
def TaskKeys (env : Env) (db : Database) : Task → Prop
  | .listing _ _ accounts => ∀ a ∈ accounts, ∀ c ∈ a.credentials, HasKey env a.id c db
  | .forwarding _ selected => HasKey env selected.account.id selected.credential db
  | _ => True

section Keys

variable {env : Env} {accountId : String} {credential : FirecrawlCredential} {s : Session}
  {db db' : Database} {dbNow : ℤ} {t t' : Task} {a : Action} {p p' : State} {m : Event}

/-- No commit takes a key away, whatever becomes of the statuses. -/
theorem HasKey.flush (h : HasKey env accountId credential db) :
    HasKey env accountId credential (s.flush dbNow db) := by
  obtain ⟨row, hrow, haccount, hkey⟩ := h
  obtain ⟨-, hsameAccount, hsameKey⟩ := flushCredential_key s row
  exact ⟨_, credential?_flush hrow, hsameAccount.trans haccount, by rw [hsameKey, hkey]⟩

theorem HasKey.steps (h : HasKey env accountId credential db) (hs : Steps env db t a db' t') :
    HasKey env accountId credential db' := by
  cases hs with
  | commit => exact h.flush
  | _ => exact h

theorem hasKey_of_toDomainAccount {row : FirecrawlAccountRecord} {account : FirecrawlAccount}
    (hids : (db.credentials.map (·.id)).Nodup)
    (h : toDomainAccount env row (db.credentialsOf row.id) = .ok account) :
    ∀ c ∈ account.credentials, HasKey env account.id c db := by
  obtain ⟨credentials, status, hcredentials, -, rfl⟩ := toDomainAccount_eq_ok.1 h
  intro c hc
  obtain ⟨record, hrecord, hc⟩ := exists_of_mem_mapM hcredentials hc
  obtain ⟨hmem, haccount⟩ := List.mem_filter.1 hrecord
  obtain ⟨key, hkey, hc⟩ := bind_eq_ok.1 hc
  obtain ⟨status, -, hc⟩ := bind_eq_ok.1 hc
  obtain rfl := pure_eq_ok.1 hc
  refine ⟨record, credential?_of_mem hids hmem, by simpa using haccount, ?_⟩
  cases hdecrypt : env.decrypt record.apiKeyEncrypted with
  | none =>
    rw [hdecrypt] at hkey
    cases hkey
  | some k =>
    rw [hdecrypt] at hkey
    cases hkey
    rfl

/-- Credential ids differ, and the tasks hold stored keys. -/
def KeysStored (env : Env) : State → Prop :=
  Asserts (fun db => (db.credentials.map (·.id)).Nodup) (TaskKeys env)

theorem taskKeys_starts {r : Request} (h : Starts env db r t) : TaskKeys env db t := by
  cases h with
  | post => simp [TaskKeys]
  | _ => trivial

theorem taskKeys_steps (hids : (db.credentials.map (·.id)).Nodup) (ht : TaskKeys env db t)
    (h : Steps env db t a db' t') : TaskKeys env db' t' := by
  cases h with
  | @refreshCredentials p row rows accounts account h =>
    intro a ha
    rcases List.mem_append.1 ha with ha | ha
    · exact ht a ha
    · obtain rfl := List.mem_singleton.1 ha
      exact hasKey_of_toDomainAccount hids h
  | @select p accounts now selected h =>
    obtain ⟨-, -, haccount, -, hactive⟩ := selectAccount_candidate h
    exact ht _ haccount _ (List.mem_of_find?_eq_some hactive)
  | @answer _ _ _ _ _ session target => cases target <;> trivial
  | @jobAnswer method job response now latencyMs =>
    cases (jobAnswered method response (.utc now) job).2 <;> trivial
  | selectCredentials | refreshAccount =>
    unfold nextRound
    split_ifs <;> trivial
  | get | commit | fail => trivial

theorem KeysStored.step (h : KeysStored env p) (hs : step env p m = some p') :
    KeysStored env p' := by
  refine Program.inv_step (C := fun _ _ => True) (fun p r hI _ => ?_)
    (fun p tid a t db t' hI ht _ _ ha => ?_) (fun p tid a t db t' u hI _ hu _ _ ha => ?_) h
    trivial hs
  · exact taskKeys_starts (starts_spawn env p.store r)
  · have hsteps := steps_of_act ha
    refine ⟨?_, taskKeys_steps hI ht hsteps⟩
    cases hsteps with
    | commit hb => exact nodup_flush_credentials hI hb
    | _ => exact hI
  · have hsteps := steps_of_act ha
    cases u with
    | listing => exact fun a ha c hc => (hu a ha c hc).steps hsteps
    | forwarding => exact HasKey.steps hu hsteps
    | _ => trivial

end Keys

/-! ### Runs -/

/-- The call of the submission has returned. -/
def Submission.Returned (sub : Submission) (p : State) : Prop :=
  ∃ session, p.tasks[sub.call]? = some (.committed session)

/-- The invariant of the system with the submissions accepted so far. -/
structure Owned (env : Env) (r : State × List Submission) : Prop where
  held : held r.1 ≤ accepted r.2
  carries : ∀ sub ∈ r.2, ∃ t, r.1.tasks[sub.call]? = some t ∧ Carries sub.owner r.1.store t
  keysStored : KeysStored env r.1
  keys : ∀ sub ∈ r.2, HasKey env sub.selected.account.id sub.selected.credential r.1.store

section Runs

variable {env : Env} {p p' : State} {m : Event} {ms : List Event} {r r' : State × List Submission}
  {subs : List Submission} {sub : Submission}

theorem exists_forwarding_of_accepts (h : accepts p m = some sub) :
    ∃ post, .forwarding post sub.selected ∈ p.tasks := by
  unfold accepts at h
  split at h
  · split at h
    · rename_i post selected ht
      split_ifs at h
      obtain ⟨jobId, -, rfl⟩ := Option.map_eq_some_iff.1 h
      exact ⟨post, List.mem_of_getElem? ht⟩
    · cases h
  · cases h

theorem HasKey.step {accountId : String} {credential : FirecrawlCredential}
    (h : HasKey env accountId credential p.store) (hs : step env p m = some p') :
    HasKey env accountId credential p'.store := by
  rcases step_store hs with ⟨-, hstore, -⟩ | ⟨s, dbNow, -, -, -, hstore, -⟩ <;> rw [hstore]
  exacts [h, h.flush]

theorem Owned.step (h : Owned env r) (hs : recorded (step env) accepts r m = some r') :
    Owned env r' := by
  obtain ⟨hstep, hsubs⟩ := recorded_eq_some.1 hs
  refine ⟨?_, fun sub hsub => ?_, h.keysStored.step hstep, fun sub hsub => ?_⟩
  · rw [hsubs, accepted_append]
    exact (held_step hstep).trans (add_le_add_left h.held _)
  · rw [hsubs] at hsub
    rcases List.mem_append.1 hsub with hold | hnew
    · obtain ⟨t, ht, hcarries⟩ := h.carries sub hold
      rcases Program.getElem?_step hstep ht with ht' | ⟨a, t', -, ha, ht'⟩
      · exact ⟨t, ht', hcarries.mono (owners_le_step hstep)⟩
      · exact ⟨t', ht', hcarries.steps (steps_of_act ha)⟩
    · exact carries_of_accepts (Option.mem_toList.1 hnew) hstep
  · rw [hsubs] at hsub
    rcases List.mem_append.1 hsub with hold | hnew
    · exact (h.keys sub hold).step hstep
    · obtain ⟨post, hmem⟩ := exists_forwarding_of_accepts (Option.mem_toList.1 hnew)
      exact HasKey.step (h.keysStored.2 _ hmem) hstep

/-- **The invariant holds after every run.** -/
theorem owned_of_run (h : run (step env) ⟨Database.empty, []⟩ ms = some p) :
    Owned env (p, trace (step env) accepts ⟨Database.empty, []⟩ ms) := by
  have hrun : run (recorded (step env) accepts) (⟨Database.empty, []⟩, []) ms =
      some (p, trace (step env) accepts ⟨Database.empty, []⟩ ms) :=
    run_recorded.2 ⟨h, rfl⟩
  have hstart : Owned env (⟨Database.empty, []⟩, []) :=
    ⟨by simp [Ownership.held, owners, accepted, Database.empty], by simp,
      ⟨by simp [Database.empty], by simp⟩, by simp⟩
  exact Run.invariant (fun _ _ _ hI hs => hI.step hs) hstart hrun

/-- Every job row comes from an accepted submission. -/
theorem Owned.exists_submission (h : Owned env (p, subs)) {job : FirecrawlJobRecord}
    (hjob : job ∈ p.store.jobs) : ∃ sub ∈ subs, sub.owner = owner job := by
  have hle : owners p.store ≤ accepted subs := (Multiset.le_add_right _ _).trans h.held
  have hmem : owner job ∈ accepted subs := Multiset.mem_of_le hle (mem_owners.2 ⟨job, hjob, rfl⟩)
  exact List.mem_map.1 (Multiset.mem_coe.1 hmem)

theorem Owned.nodup_keys (h : Owned env (p, subs)) (hkeys : (subs.map Submission.key).Nodup) :
    (p.store.jobs.map fun job => (job.endpoint, job.upstreamJobId)).Nodup := by
  have hle : owners p.store ≤ accepted subs := (Multiset.le_add_right _ _).trans h.held
  have hmap := Multiset.map_le_map (f := fun o : Owner => (o.endpoint, o.upstreamJobId)) hle
  have hsubs : (subs.map fun sub => (sub.endpoint, some sub.upstreamJobId)).Nodup := by
    refine List.Nodup.of_map (fun k : String × Option String => (k.1, k.2.getD "")) ?_
    rw [List.map_map]
    exact hkeys
  refine Multiset.coe_nodup.1 (Multiset.nodup_of_le (t := ↑(subs.map fun sub =>
    (sub.endpoint, some sub.upstreamJobId))) ?_ (Multiset.coe_nodup.2 hsubs))
  simpa [owners, accepted, Function.comp_def, owner, Submission.owner] using hmap

theorem Owned.rowsOf_eq (h : Owned env (p, subs)) (hkeys : (subs.map Submission.key).Nodup)
    (hstored : sub.owner ∈ owners p.store) :
    ∃ job, rowsOf p.store sub.endpoint sub.upstreamJobId = [job] ∧ owner job = sub.owner := by
  obtain ⟨job, hjob, howner⟩ := mem_owners.1 hstored
  have hendpoint : job.endpoint = sub.endpoint := congrArg Owner.endpoint howner
  have hupstream : job.upstreamJobId = some sub.upstreamJobId := congrArg Owner.upstreamJobId howner
  refine ⟨job, ?_, howner⟩
  have hrows := filter_of_key (fun job : FirecrawlJobRecord => (job.endpoint, job.upstreamJobId))
    (h.nodup_keys hkeys) hjob
  unfold rowsOf
  simpa only [Prod.mk.injEq, hendpoint, hupstream] using hrows

theorem jobRequest_of_rowsOf {job : FirecrawlJobRecord}
    (hrows : rowsOf p.store sub.endpoint sub.upstreamJobId = [job]) (howner : owner job = sub.owner)
    (hkey : HasKey env sub.selected.account.id sub.selected.credential p.store) :
    jobRequest env p.store sub.endpoint sub.upstreamJobId =
      .ok (some sub.selected.credential.apiKey) := by
  obtain ⟨row, hrow, -, hdecrypt⟩ := hkey
  have hcredential : job.credentialId = some sub.selected.credential.id :=
    congrArg Owner.credentialId howner
  have hjobKey : jobKey env p.store job = .ok (some sub.selected.credential.apiKey) := by
    simp [jobKey, hcredential, hrow, hdecrypt]
  rw [← hjobKey, jobRequest, getJobRecord_of_rowsOf hrows]
  rfl

/-- **A job belongs to the account and the credential that submitted it**, for good.  Along any run
in which the upstream gives no job id twice for an endpoint, a submission that returns leaves one
row with its account, its credential and its estimate, and any operation on the job is sent with the
key of this credential, which belongs to this account.  An operation on a job that was never
submitted sends nothing and answers not found. -/
theorem owned_by_submission (hrun : run (step env) ⟨Database.empty, []⟩ ms = some p)
    (hkeys : ((trace (step env) accepts ⟨Database.empty, []⟩ ms).map Submission.key).Nodup) :
    (∀ sub ∈ trace (step env) accepts ⟨Database.empty, []⟩ ms, sub.Returned p →
      ∃ job credential, rowsOf p.store sub.endpoint sub.upstreamJobId = [job] ∧
        job.accountId = some sub.selected.account.id ∧
        job.credentialId = some sub.selected.credential.id ∧
        job.estimatedCreditsReserved = some sub.selected.estimatedCredits ∧
        p.store.credential? sub.selected.credential.id = some credential ∧
        credential.accountId = sub.selected.account.id ∧
        env.decrypt credential.apiKeyEncrypted = some sub.selected.credential.apiKey ∧
        jobRequest env p.store sub.endpoint sub.upstreamJobId =
          .ok (some sub.selected.credential.apiKey) ∧
        ∀ method, spawn env p.store (.jobOperation sub.endpoint sub.upstreamJobId method) =
          .polling method job) ∧
    ∀ endpoint upstreamJobId method,
      (∀ sub ∈ trace (step env) accepts ⟨Database.empty, []⟩ ms,
        sub.key ≠ (endpoint, upstreamJobId)) →
      jobRequest env p.store endpoint upstreamJobId = .ok none ∧
        spawn env p.store (.jobOperation endpoint upstreamJobId method) = .failed := by
  have h := owned_of_run hrun
  constructor
  · rintro sub hsub ⟨session, hreturned⟩
    obtain ⟨t, ht, hcarries⟩ := h.carries sub hsub
    obtain rfl : t = .committed session := Option.some.inj (ht.symm.trans hreturned)
    obtain ⟨job, hrows, howner⟩ := h.rowsOf_eq hkeys hcarries
    obtain ⟨credential, hcredential, haccount, hdecrypt⟩ := h.keys sub hsub
    have hrequest := jobRequest_of_rowsOf hrows howner (h.keys sub hsub)
    exact ⟨job, credential, hrows, congrArg Owner.accountId howner,
      congrArg Owner.credentialId howner, congrArg Owner.estimatedCreditsReserved howner,
      hcredential, haccount, hdecrypt, hrequest, spawn_of_jobRequest hrows hrequest⟩
  · intro endpoint upstreamJobId method hnever
    have hrows : rowsOf p.store endpoint upstreamJobId = [] := by
      refine List.filter_eq_nil_iff.2 fun job hjob hkey => ?_
      obtain ⟨hendpoint, hupstream⟩ := of_decide_eq_true hkey
      obtain ⟨sub, hsub, howner⟩ := h.exists_submission hjob
      have hsubEndpoint : sub.endpoint = job.endpoint := congrArg Owner.endpoint howner
      have hsubJob : some sub.upstreamJobId = job.upstreamJobId :=
        congrArg Owner.upstreamJobId howner
      rw [hupstream] at hsubJob
      exact hnever sub hsub (by
        rw [Submission.key, hsubEndpoint, hendpoint, Option.some.inj hsubJob])
    exact notFound_of_rowsOf_nil env hrows method

/-- A crawl is submitted, and then its credential is paused: the crawl is still asked about with the
key of this credential, and a batch with the same id is not known. -/
theorem owned_by_submission_sample : let env := sampleEnv .sqlite
    let p := after env ⟨Database.empty, []⟩ (sampleSetup ++ submitCrawl 2 ++
      [.spawn (.updateCredential "account-1" "credential-1" { status := "paused" }),
        .act 3 (.commit 0)])
    (p.store.credential? "credential-1").map (·.status) = some "paused" ∧
    jobRequest env p.store "crawl" "job-1" = .ok (some "fc-1") ∧
    jobRequest env p.store "batch_scrape" "job-1" = .ok none := by
  intro env p
  have hrun : run (step env) ⟨Database.empty, []⟩ _ = some p := run_after (by decide)
  obtain ⟨hsubmitted, hnever⟩ := owned_by_submission hrun (by decide)
  obtain ⟨job, credential, -, -, -, -, -, -, -, hrequest, -⟩ :=
    hsubmitted _ (List.mem_singleton_self _) ⟨_, rfl⟩
  refine ⟨by decide, hrequest, (hnever "batch_scrape" "job-1" .get fun sub hsub => ?_).1⟩
  obtain rfl := List.mem_singleton.1 hsub
  decide

end Runs

end FirecrawlLb.Firecrawl.Ownership
