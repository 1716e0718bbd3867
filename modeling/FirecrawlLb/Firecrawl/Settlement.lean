import FirecrawlLb.Firecrawl.Selection
import FirecrawlLb.Firecrawl.Stored

/-!
# The settlement of a job

A poll decides on the charge with the job row it read before it asked the upstream.  Along every run
a job row is settled exactly when a commit has charged it (`Accounted`), so the job is charged at
most once exactly when every commit that charges it still finds the row unsettled.
-/

namespace FirecrawlLb.Firecrawl.Settlement

open FirecrawlLb.Lib FirecrawlLb.Lib.Tasks FirecrawlLb.Lib.Run FirecrawlLb.Python
open FirecrawlLb.Db.Models FirecrawlLb.Firecrawl.Models FirecrawlLb.Firecrawl.Routing
open FirecrawlLb.Firecrawl.Selection FirecrawlLb.Firecrawl.Repository
open FirecrawlLb.Firecrawl.Service FirecrawlLb.Firecrawl.System FirecrawlLb.Firecrawl.Stored

/-! ### Rows are never deleted -/

def HasAccount (db : Database) (id : String) : Prop := ∃ row, db.account? id = some row

/-- The owner of the job is stored. -/
def Owned (db : Database) (job : FirecrawlJobRecord) : Prop :=
  ∃ id, job.accountId = some id ∧ HasAccount db id

/-- The job is stored, and so is its owner. -/
def Known (db : Database) (job : FirecrawlJobRecord) : Prop :=
  (∃ row, db.job? job.id = some row) ∧ Owned db job

section Grows

variable {s : Session} {db : Database} {dbNow : ℤ} {id : String} {job : FirecrawlJobRecord}

theorem hasAccount_of_mem {row : FirecrawlAccountRecord} (h : row ∈ db.accounts) :
    HasAccount db row.id :=
  Option.isSome_iff_exists.1 (List.find?_isSome.2 ⟨row, h, by simp⟩)

theorem HasAccount.flush (h : HasAccount db id) : HasAccount (s.flush dbNow db) id := by
  obtain ⟨row, h⟩ := h
  exact ⟨_, account?_flush h⟩

theorem Owned.flush (h : Owned db job) : Owned (s.flush dbNow db) job := by
  obtain ⟨id, hid, h⟩ := h
  exact ⟨id, hid, h.flush⟩

theorem Known.flush (h : Known db job) : Known (s.flush dbNow db) job := by
  obtain ⟨⟨row, hrow⟩, h⟩ := h
  exact ⟨⟨_, job?_flush hrow⟩, h.flush⟩

end Grows

/-! ### What a session does to a job and its owner -/

/-- The session charges the owner of the job. -/
def chargesJob (jobId : ℕ) (s : Session) : Bool :=
  s.job.any fun o => o.read.id = jobId && (o.read.accountId.bind s.charge?).isSome

/-- A job a session holds: settled by this session and charged, or left as it was read. -/
def SettledOrKept (s : Session) (o : Loaded FirecrawlJobRecord) : Prop :=
  (o.read.creditsUsedFinal = none ∧ o.value.creditsUsedFinal ≠ none ∧
    (o.read.accountId.bind s.charge?).isSome = true) ∨
  (o.value.creditsUsedFinal = o.read.creditsUsedFinal ∧ o.read.accountId.bind s.charge? = none)

/-- What a session holds of jobs. -/
structure JobSession (db : Database) (s : Session) : Prop where
  newJob : ∀ job, s.newJob = some job → Owned db job ∧ job.creditsUsedFinal = none
  known : ∀ o, s.job = some o → Known db o.read
  charged : ∀ o, s.job = some o → SettledOrKept s o

section Sessions

variable {s : Session} {db : Database} {dbNow : ℤ} {jobId : ℕ} {row : FirecrawlJobRecord}

theorem JobSession.of_none (hnew : s.newJob = none) (hjob : s.job = none) : JobSession db s :=
  ⟨by simp [hnew], by simp [hjob], by simp [hjob]⟩

theorem JobSession.flush {s' : Session} (h : JobSession db s) :
    JobSession (s'.flush dbNow db) s :=
  ⟨fun job hj => (h.newJob job hj).imp_left Owned.flush, fun o ho => (h.known o ho).flush,
    h.charged⟩

/-- **A commit settles a job row exactly when it charges the job.** -/
theorem flushJob_settled_iff (h : JobSession db s) :
    (s.flushJob row).creditsUsedFinal ≠ none ↔
      row.creditsUsedFinal ≠ none ∨ chargesJob row.id s = true := by
  unfold chargesJob
  rcases flushJob_cases s row with ⟨hne, hf⟩ | ⟨o, ho, hid, hf⟩ <;> rw [hf]
  · cases hs : s.job with
    | none => simp
    | some o => simp [hne o hs]
  · have hcolumn : (FirecrawlJobRecord.flush o row).creditsUsedFinal =
        column asIs o.read.creditsUsedFinal o.value.creditsUsedFinal row.creditsUsedFinal := rfl
    rw [hcolumn, ho]
    rcases h.charged o ho with ⟨hread, hvalue, hcharge⟩ | ⟨hsame, hnone⟩
    · rw [column_changed (by rwa [hread])]
      simp [asIs, hvalue, hid, hcharge]
    · rw [hsame, column_unchanged]
      simp [hnone]

end Sessions

/-! ### Tasks -/

/-- What a task holds of jobs and accounts is stored, and a settlement goes with its charge. -/
def JobTask (db : Database) : Task → Prop
  | .listing _ rows accounts =>
    (∀ row ∈ rows, HasAccount db row.id) ∧ ∀ a ∈ accounts, HasAccount db a.id
  | .forwarding _ selected => HasAccount db selected.account.id
  | .polling _ job => Known db job
  | .refreshing _ _ session => session.newJob = none ∧ session.job = none
  | .writing session target => session.accounts = [] ∧
    (∀ job, session.newJob = some job → Owned db job ∧ job.creditsUsedFinal = none) ∧
    ∀ o, session.job = some o → Known db o.read ∧ o.read.creditsUsedFinal = none ∧
      o.value.creditsUsedFinal ≠ none ∧
      ∃ id credits, o.read.accountId = some id ∧ target = .account id (.applySuccess credits)
  | .committing session => JobSession db session
  | _ => True

section Tasks

variable {env : Env} {db db' : Database} {t t' : Task} {a : Action} {dbNow : ℤ} {s : Session}

theorem JobTask.flush (h : JobTask db t) : JobTask (s.flush dbNow db) t := by
  cases t with
  | listing p rows accounts =>
    exact ⟨fun row hrow => (h.1 row hrow).flush, fun a ha => (h.2 a ha).flush⟩
  | forwarding p selected => exact HasAccount.flush h
  | polling method job => exact Known.flush h
  | writing session target =>
    exact ⟨h.1, fun job hj => (h.2.1 job hj).imp_left Owned.flush, fun o ho =>
      ⟨(h.2.2 o ho).1.flush, (h.2.2 o ho).2⟩⟩
  | committing session => exact JobSession.flush h
  | refreshing => exact h
  | refreshListing | committed | failed => trivial

theorem jobTask_starts {r : Request} (hdb : ∀ job ∈ db.jobs, Owned db job)
    (h : Starts env db r t) : JobTask db t := by
  cases h with
  | post => exact ⟨fun row hrow => hasAccount_of_mem (mem_orderById.1 hrow), by simp⟩
  | jobOperation h =>
    have hmem := (mem_of_getJobRecord h).1.1
    exact ⟨Option.isSome_iff_exists.1 (List.find?_isSome.2 ⟨_, hmem, by simp⟩), hdb _ hmem⟩
  | createAccount | updateAccount | createCredential | updateCredential =>
    exact JobSession.of_none rfl rfl
  | refreshOnce | refused => trivial

theorem jobTask_nextRound {now : ℤ}
    {todo : List (FirecrawlAccountRecord × FirecrawlCredentialRecord)} (hnew : s.newJob = none)
    (hjob : s.job = none) : JobTask db (nextRound now todo s) := by
  unfold nextRound
  split_ifs
  · exact JobSession.of_none hnew hjob
  · exact ⟨hnew, hjob⟩

theorem jobTask_answer {post : Post} {selected : FirecrawlSelectedAccount}
    {response : FirecrawlUpstreamResponse} {now : DateTime} {log : FirecrawlRequestLogRecord}
    (target : Option RowWrite) (h : HasAccount db selected.account.id) :
    JobTask db (awaitRow { newJob := post.newJob? selected response now, newLog := some log }
      target) := by
  have hnew : ∀ job, post.newJob? selected response now = some job →
      Owned db job ∧ job.creditsUsedFinal = none := by
    intro job hj
    unfold Post.newJob? at hj
    split_ifs at hj
    obtain ⟨upstreamId, -, rfl⟩ := Option.map_eq_some_iff.1 hj
    exact ⟨⟨_, rfl, h⟩, rfl⟩
  cases target with
  | none => exact ⟨hnew, by simp, by simp⟩
  | some target => exact ⟨rfl, hnew, by simp⟩

/-- A poll charges the owner exactly when it settles the job. -/
theorem jobTask_jobAnswer (method : JobMethod) (response : FirecrawlUpstreamResponse)
    (now : DateTime) {job : FirecrawlJobRecord} (h : Known db job) :
    JobTask db (awaitRow { job := some ⟨job, (jobAnswered method response now job).1⟩ }
      (jobAnswered method response now job).2) := by
  obtain ⟨id, hid, -⟩ := h.2
  have hfinal := jobAnswered_creditsUsedFinal method response now job
  have htarget := jobAnswered_target method response now job
  have hkept : (jobAnswered method response now job).1.creditsUsedFinal = job.creditsUsedFinal →
      JobSession db { job := some ⟨job, (jobAnswered method response now job).1⟩ } := by
    refine fun hsame => ⟨by simp, fun o ho => ?_, fun o ho => ?_⟩ <;>
      obtain rfl := Option.some.inj ho
    · exact h
    · exact Or.inr ⟨hsame, by simp [hid, Session.charge?, Session.edit?]⟩
  cases hc : job.creditsUsedFinal with
  | some credits =>
    rw [hc, if_neg (by simp)] at htarget
    rw [htarget]
    exact hkept (by simp [hfinal, hc])
  | none =>
    cases hs : settlement method response with
    | none =>
      rw [hc, hs, if_pos rfl] at htarget
      rw [htarget]
      exact hkept (by simp [hfinal, hc, hs])
    | some credits =>
      rw [hc, hs, if_pos rfl, hid] at htarget
      rw [htarget]
      refine ⟨rfl, by simp, fun o ho => ?_⟩
      obtain rfl := Option.some.inj ho
      exact ⟨h, hc, by simp [hfinal, hc, hs], id, credits, hid, rfl⟩

/-- The owner is found, so the charge is made. -/
theorem jobTask_get {target : RowWrite} (h : JobTask db (.writing s target)) :
    JobSession db (s.perform db target) := by
  obtain ⟨haccounts, hnew, hjob⟩ := h
  have hnone : s.job = none → JobSession db (s.perform db target) := by
    intro hs
    rcases perform_cases s db target with hp | ⟨id, write, row, -, -, hp⟩ | ⟨e, hp⟩ <;> rw [hp] <;>
      exact ⟨hnew, by simp [hs], by simp [hs]⟩
  cases hs : s.job with
  | none => exact hnone hs
  | some o =>
    obtain ⟨hknown, hread, hvalue, id, credits, hid, rfl⟩ := hjob o hs
    obtain ⟨id', hid', row, hrow⟩ := hknown.2
    obtain rfl : id = id' := Option.some.inj (hid.symm.trans hid')
    have hrowId : row.id = id := id_of_account? hrow
    simp only [Session.perform, hrow, haccounts, List.nil_append]
    refine ⟨hnew, fun o' ho' => ?_, fun o' ho' => ?_⟩ <;>
      obtain rfl : o = o' := Option.some.inj (hs.symm.trans ho')
    · exact hknown
    · exact Or.inl ⟨hread, hvalue, by simp [hid, Session.charge?, Session.edit?, hrowId]⟩

theorem owned_flush (hdb : ∀ job ∈ db.jobs, Owned db job) (h : JobSession db s) :
    ∀ job ∈ (s.flush dbNow db).jobs, Owned (s.flush dbNow db) job := by
  intro job hjob
  rcases mem_flush_jobs.1 hjob with ⟨r, hr, rfl⟩ | ⟨r, hr, rfl⟩
  · obtain ⟨id, hid, hrow⟩ := hdb r hr
    exact ⟨id, (flushJob_key s r).1.trans hid, hrow.flush⟩
  · obtain ⟨⟨id, hid, hrow⟩, -⟩ := h.newJob r hr
    exact ⟨id, hid, hrow.flush⟩

theorem jobTask_steps (hdb : ∀ job ∈ db.jobs, Owned db job) (ht : JobTask db t)
    (h : Steps env db t a db' t') :
    (∀ job ∈ db'.jobs, Owned db' job) ∧ JobTask db' t' := by
  cases h with
  | @refreshCredentials p row rows accounts account h =>
    refine ⟨hdb, fun r hr => ht.1 r (by simp [hr]), fun a ha => ?_⟩
    rcases List.mem_append.1 ha with ha | ha
    · exact ht.2 a ha
    · obtain rfl := List.mem_singleton.1 ha
      rw [toDomainAccount_id h]
      exact ht.1 row (by simp)
  | select h =>
    obtain ⟨-, -, hmem, -⟩ := selectAccount_eligible h
    exact ⟨hdb, ht.2 _ hmem⟩
  | answer h =>
    obtain ⟨⟨log, rfl, -⟩, -⟩ := Post.answered_eq_ok h
    exact ⟨hdb, jobTask_answer _ ht⟩
  | jobAnswer => exact ⟨hdb, jobTask_jobAnswer _ _ _ ht⟩
  | selectCredentials => exact ⟨hdb, jobTask_nextRound rfl rfl⟩
  | refreshAccount => exact ⟨hdb, jobTask_nextRound ht.1 ht.2⟩
  | get => exact ⟨hdb, jobTask_get ht⟩
  | commit => exact ⟨owned_flush hdb ht, trivial⟩
  | fail => exact ⟨hdb, trivial⟩

end Tasks

/-! ### Charged and settled -/

/-- How many commits have charged the job. -/
def charges (jobId : ℕ) (p : State) : ℤ :=
  committedSum (fun s => if chargesJob jobId s then 1 else 0) p

/-- The row of the job has its final credits. -/
def Settled (jobId : ℕ) (db : Database) : Prop :=
  ∃ row, db.job? jobId = some row ∧ row.creditsUsedFinal ≠ none

/-- Jobs have owners, and a job is settled exactly when it has been charged. -/
structure Accounted (jobId : ℕ) (p : State) : Prop where
  tasks : Asserts (fun db => ∀ job ∈ db.jobs, Owned db job) JobTask p
  nonneg : 0 ≤ charges jobId p
  settled : 0 < charges jobId p ↔ Settled jobId p.store

section Runs

variable {env : Env} {p p' : State} {m : Event} {ms : List Event} {jobId : ℕ} {s : Session}
  {db : Database} {dbNow : ℤ}

theorem jobTasks_step
    (h : Asserts (fun db => ∀ job ∈ db.jobs, Owned db job) JobTask p)
    (hs : step env p m = some p') :
    Asserts (fun db => ∀ job ∈ db.jobs, Owned db job) JobTask p' := by
  refine Program.inv_step (C := fun _ _ => True)
    (fun p r hdb _ => jobTask_starts hdb (starts_spawn env p.store r))
    (fun _ _ _ _ _ _ hdb ht _ _ ha => jobTask_steps hdb ht (steps_of_act ha))
    (fun p tid a t st t' u _ _ hu _ _ ha => ?_) h trivial hs
  cases steps_of_act ha with
  | commit => exact hu.flush
  | _ => exact hu

theorem JobSession.exists_row (h : JobSession db s) (hc : chargesJob jobId s = true) :
    ∃ row, db.job? jobId = some row := by
  unfold chargesJob at hc
  cases ho : s.job with
  | none => simp [ho] at hc
  | some o =>
    simp only [ho, Option.any_some, Bool.and_eq_true, decide_eq_true_eq] at hc
    exact hc.1 ▸ (h.known o ho).1

theorem settled_flush_iff (h : JobSession db s) :
    Settled jobId (s.flush dbNow db) ↔ Settled jobId db ∨ chargesJob jobId s = true := by
  cases hjob : db.job? jobId with
  | some row =>
    have hid : row.id = jobId := id_of_job? hjob
    have hflush : (s.flushJob row).creditsUsedFinal ≠ none ↔
        row.creditsUsedFinal ≠ none ∨ chargesJob row.id s = true := flushJob_settled_iff h
    rw [hid] at hflush
    simpa [Settled, hjob, job?_flush hjob] using hflush
  | none =>
    have hnot : chargesJob jobId s ≠ true := by
      intro hc
      obtain ⟨row, hrow⟩ := h.exists_row hc
      rw [hjob] at hrow
      cases hrow
    have hnew : ¬ Settled jobId (s.flush dbNow db) := by
      rintro ⟨row, hrow, hne⟩
      have hid : row.id = jobId := id_of_job? hrow
      rcases mem_flush_jobs.1 (List.mem_of_find?_eq_some hrow) with ⟨r, hr, rfl⟩ | ⟨r, hr, rfl⟩
      · rw [flushJob_id] at hid
        exact absurd (List.find?_eq_none.1 hjob r hr) (by simp [hid])
      · exact hne (h.newJob r hr).2
    exact iff_of_false hnew (by simp [Settled, hjob, hnot])

/-- **Charged and settled stay together.** -/
theorem Accounted.step (h : Accounted jobId p) (hs : step env p m = some p') :
    Accounted jobId p' := by
  have htasks := jobTasks_step h.tasks hs
  rcases step_store hs with ⟨-, hstore, hsum⟩ | ⟨s, dbNow, -, hmem, -, hstore, hsum⟩
  · exact ⟨htasks, by simpa [charges, hsum] using h.nonneg,
      by simpa [charges, hsum, hstore] using h.settled⟩
  · have hsession : JobSession p.store s := h.tasks.2 _ hmem
    have hsum := hsum fun s => if chargesJob jobId s then 1 else 0
    have hnonneg := h.nonneg
    refine ⟨htasks, ?_, ?_⟩
    · unfold charges at *
      rw [hsum]
      split_ifs <;> omega
    · rw [hstore, settled_flush_iff hsession, ← h.settled]
      unfold charges at *
      rw [hsum]
      split_ifs with hc
      · simp only [hc, or_true, iff_true]
        omega
      · simp [hc]

/-- **A job is charged at most once** along a run exactly when every commit that charges it finds
its row without final credits. -/
theorem always_charges_le_one_iff :
    Always (step env) (fun p => charges jobId p ≤ 1) ⟨Database.empty, []⟩ ms ↔
      Meets (step env) (fun p m => ∀ s ∈ commits env p m, chargesJob jobId s = true →
        ∀ row ∈ p.store.job? jobId, row.creditsUsedFinal = none) ⟨Database.empty, []⟩ ms := by
  have hstart : Accounted jobId (⟨Database.empty, []⟩ : State) := by
    refine ⟨⟨by simp [Database.empty], by simp⟩, le_rfl, ?_⟩
    simp [charges, committedSum, Settled, Database.job?, Database.empty]
  have hiff : ∀ p m, Accounted jobId p → True → charges jobId p ≤ 1 →
      ((∀ p', step env p m = some p' → charges jobId p' ≤ 1) ↔ ∀ s ∈ commits env p m,
        chargesJob jobId s = true → ∀ row ∈ p.store.job? jobId, row.creditsUsedFinal = none) := by
    intro p m hI _ hP
    constructor
    · intro hnext s hs hc row hrow
      obtain ⟨p', hs'⟩ := step_of_commits hs
      have hle := hnext p' hs'
      obtain ⟨-, -, -, hsum⟩ := store_of_commits hs hs'
      by_contra hne
      -- a row with final credits has been charged, and the commit charges it again
      have hpos := hI.settled.2 ⟨row, hrow, hne⟩
      unfold charges at *
      rw [hsum, if_pos hc] at hle
      omega
    · intro hC p' hs'
      rcases step_store hs' with ⟨-, -, hsum⟩ | ⟨s, dbNow, hs, -, -, -, hsum⟩
      · simpa [charges, hsum] using hP
      · have hnot : chargesJob jobId s = true → ¬ 0 < charges jobId p := by
          intro hc hpos
          obtain ⟨row, hrow, hne⟩ := hI.settled.1 hpos
          exact hne (hC s hs hc row hrow)
        unfold charges at *
        rw [hsum]
        split_ifs with hc
        · have := hnot hc
          omega
        · omega
  exact always_iff_meets (B := fun _ _ => True) (fun p m p' hI _ _ hs => hI.step hs) hiff hstart
    meets_true (by simp [charges, committedSum])

/-- The answer to a poll of a crawl that has used seven credits. -/
def completedResponse : FirecrawlUpstreamResponse where
  status := 200
  jsonBody := some [("status", .str "completed"), ("creditsUsed", .int 7)]

/-- Two polls read the job before either of them commits: each of them charges the seven credits. -/
theorem charged_twice : let env := sampleEnv .sqlite
    let ms := sampleSetup ++ submitCrawl 2 ++
      [.spawn (.jobOperation "crawl" "job-1" .get), .spawn (.jobOperation "crawl" "job-1" .get)] ++
      settle 3 completedResponse 0 ++ settle 4 completedResponse 1000000
    let p := after env ⟨Database.empty, []⟩ ms
    Run.run (step env) ⟨Database.empty, []⟩ ms = some p ∧ charges 1 p = 2 ∧
    (p.store.account? "account-1").map (·.remainingCreditsLive) = some (some 86) ∧
    ¬ Always (step env) (fun p => charges 1 p ≤ 1) ⟨Database.empty, []⟩ ms :=
  have hrun := run_after (by decide)
  ⟨hrun, by decide, by decide, fun h => absurd (h.last hrun) (by decide)⟩

end Runs

end FirecrawlLb.Firecrawl.Settlement
