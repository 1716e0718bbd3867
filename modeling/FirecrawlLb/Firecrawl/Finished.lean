import FirecrawlLb.Firecrawl.Stored
import FirecrawlLb.Lib.Run

/-!
# Finished jobs

The operations on a job, one after another.  A terminal status is stored without a completion time
when the answer reports no credits, a later settlement or cancel moves the completion time, and a
later poll may store a status that is not terminal.
-/

namespace FirecrawlLb.Firecrawl.Finished

open FirecrawlLb.Lib FirecrawlLb.Lib.Run FirecrawlLb.Python FirecrawlLb.Db.Models
open FirecrawlLb.Firecrawl.Repository FirecrawlLb.Firecrawl.Service FirecrawlLb.Firecrawl.Stored

/-- An operation on a job: its method, and what the outside supplies. -/
abbrev Operation := JobMethod × Exchange

/-! ### What an answer says -/

/-- The answer finishes the job: a successful cancel, or a poll that reports a terminal status. -/
def finishes (method : JobMethod) (response : FirecrawlUpstreamResponse) : Bool :=
  response.isSuccess && (method = .delete || (jobStatus response.jsonBody).any isTerminalJobStatus)

/-- The answer makes the code write a completion time: a successful cancel, or a settlement. -/
def completes (method : JobMethod) (response : FirecrawlUpstreamResponse) : Bool :=
  (method = .delete && response.isSuccess) || (settlement method response).isSome

/-- The status a successful answer reports, when it is not empty. -/
def reportedStatus (response : FirecrawlUpstreamResponse) : Option String :=
  if response.isSuccess then (jobStatus response.jsonBody).filter (· ≠ "") else none

/-- The status of the job after an answer that reports none. -/
def unreported (method : JobMethod) (response : FirecrawlUpstreamResponse) (status : String) :
    String :=
  if method = .delete && response.isSuccess then "cancelled" else status

section Answers

variable (method : JobMethod) (response : FirecrawlUpstreamResponse) (now : DateTime)
  (job : FirecrawlJobRecord)

theorem jobAnswered_completedAt : (jobAnswered method response now job).1.completedAt =
    if completes method response then some now else job.completedAt := by
  unfold jobAnswered completes settlement
  cases hs : response.isSuccess with
  | false => simp
  | true =>
    cases method with
    | delete => simp
    | get =>
      cases jobStatus response.jsonBody with
      | none => simp
      | some status =>
        cases creditsUsed response.jsonBody with
        | none => simp
        | some credits =>
          cases ht : isTerminalJobStatus status <;> cases job.creditsUsedFinal <;>
            simp [ht, settleJobOnce]

theorem isTerminalJobStatus_empty : isTerminalJobStatus "" = false := by decide

theorem jobAnswered_status : (jobAnswered method response now job).1.status =
    (reportedStatus response).getD (unreported method response job.status) := by
  unfold jobAnswered reportedStatus unreported statusOr
  cases hs : response.isSuccess with
  | false => simp
  | true =>
    cases method with
    | delete => simp
    | get =>
      cases jobStatus response.jsonBody with
      | none => simp
      | some status =>
        cases creditsUsed response.jsonBody with
        | none => simp
        | some credits =>
          cases ht : isTerminalJobStatus status with
          | false => simp [ht]
          | true =>
            have hne : status ≠ "" := by
              rintro rfl
              rw [isTerminalJobStatus_empty] at ht
              cases ht
            have hkept : (some status).filter (fun s => decide (s ≠ "")) = some status :=
              Option.filter_eq_some_iff.2 ⟨rfl, by simpa using hne⟩
            rw [hkept]
            cases job.creditsUsedFinal <;> simp [ht, settleJobOnce]

end Answers

/-! ### Operations on the database -/

section Operations

variable (env : Env) (endpoint jobId : String)

/-- An operation with no other call in between; one that raises leaves the database as it was. -/
def operate (db : Database) (op : Operation) : Database :=
  match proxyJobOperation env db endpoint jobId op.1 op.2 with
  | .ok (_, db') => db'
  | .error _ => db

/-- The operations one after another. -/
abbrev step (db : Database) (op : Operation) : Option Database :=
  some (operate env endpoint jobId db op)

/-- The row of the job. -/
def jobOf (db : Database) : Option FirecrawlJobRecord :=
  (getJobRecord db endpoint jobId).toOption.join

def completedAt (db : Database) : Option DateTime :=
  (jobOf endpoint jobId db).bind (·.completedAt)

/-- The operation reaches the upstream: the job has a credential, whose key can be decrypted. -/
def reaches (db : Database) (job : FirecrawlJobRecord) : Bool :=
  (jobKey env db job).toOption.join.isSome

/-- The database takes what the operation writes. -/
def commits (db : Database) (job : FirecrawlJobRecord) (op : Operation) : Bool :=
  (polledSession db op.1 job op.2).binds env.backend db

/-- The row of the job after the operation. -/
def operated (db : Database) (job : FirecrawlJobRecord) (op : Operation) : FirecrawlJobRecord :=
  if reaches env db job && commits env db job op then
    FirecrawlJobRecord.flush
      ⟨job, (jobAnswered op.1 op.2.response (.utc op.2.answeredAt) job).1⟩ job
  else job

variable {env endpoint jobId} {db : Database} {job : FirecrawlJobRecord} {op : Operation}

theorem jobOf_eq_some :
    jobOf endpoint jobId db = some job ↔ getJobRecord db endpoint jobId = .ok (some job) := by
  unfold jobOf
  cases getJobRecord db endpoint jobId with
  | error raised => simp [Except.toOption]
  | ok found => simp [Except.toOption]

theorem getJobRecord_flush {s : Session} {dbNow : ℤ} (hnew : s.newJob = none)
    (hjob : getJobRecord db endpoint jobId = .ok (some job)) :
    getJobRecord (s.flush dbNow db) endpoint jobId = .ok (some (s.flushJob job)) := by
  have hrows : (db.jobs.filter fun j =>
      j.endpoint = endpoint ∧ j.upstreamJobId = some jobId) = [job] := by
    unfold getJobRecord at hjob
    split at hjob
    · cases hjob
    · rename_i row hrow
      cases hjob
      exact hrow
    · cases hjob
  have hsame : ((fun j : FirecrawlJobRecord =>
        decide (j.endpoint = endpoint ∧ j.upstreamJobId = some jobId)) ∘ s.flushJob) =
      fun j => decide (j.endpoint = endpoint ∧ j.upstreamJobId = some jobId) := by
    funext j
    simp only [Function.comp_apply, (flushJob_key s j).2.1, (flushJob_key s j).2.2]
  have hflush : (s.flush dbNow db).jobs = db.jobs.map s.flushJob := by
    simp [Session.flush, hnew]
  unfold getJobRecord
  rw [hflush, List.filter_map, hsame, hrows]
  rfl

/-- **The job after an operation.** -/
theorem jobOf_operate (env : Env) (op : Operation) (hjob : jobOf endpoint jobId db = some job) :
    jobOf endpoint jobId (operate env endpoint jobId db op) = some (operated env db job op) := by
  have hrecord := jobOf_eq_some.1 hjob
  unfold operate operated proxyJobOperation reaches
  simp only [hrecord, bind, Except.bind]
  cases hkey : jobKey env db job with
  | error raised => simpa [Except.toOption] using hjob
  | ok key =>
    cases key with
    | none => simpa [Except.toOption, pure, Except.pure] using hjob
    | some key =>
      simp only [Except.toOption, Option.join_some, Option.isSome_some, Bool.true_and, commits,
        Session.commit]
      by_cases hbinds : (polledSession db op.1 job op.2).binds env.backend db = true
      · simp only [hbinds, if_true, pure, Except.pure]
        rw [jobOf_eq_some]
        have hkept := perform?_keeps
          { job := some ⟨job, (jobAnswered op.1 op.2.response (.utc op.2.answeredAt) job).1⟩ } db
          (jobAnswered op.1 op.2.response (.utc op.2.answeredAt) job).2
        rw [← polledSession_eq] at hkept
        rw [getJobRecord_flush hkept.2.1 hrecord, Session.flushJob, hkept.1]
        simp
      · simp only [hbinds]
        exact hjob

section Operated

variable (h : reaches env db job = true ∧ commits env db job op = true)
include h

theorem operated_eq : operated env db job op = FirecrawlJobRecord.flush
    ⟨job, (jobAnswered op.1 op.2.response (.utc op.2.answeredAt) job).1⟩ job := by
  rw [operated, h.1, h.2]
  rfl

theorem operated_status : (operated env db job op).status =
    (reportedStatus op.2.response).getD (unreported op.1 op.2.response job.status) := by
  rw [operated_eq h, ← jobAnswered_status op.1 op.2.response (.utc op.2.answeredAt) job]
  exact column_fresh rfl

/-- The column has no time zone. -/
theorem operated_completedAt (hnaive : ∀ t ∈ job.completedAt, t.isNaive = true) :
    (operated env db job op).completedAt =
      if completes op.1 op.2.response then some (.naive op.2.answeredAt) else job.completedAt := by
  have hcolumn : (operated env db job op).completedAt = column storeDateTime job.completedAt
      (jobAnswered op.1 op.2.response (.utc op.2.answeredAt) job).1.completedAt
      job.completedAt := by
    rw [operated_eq h]
    rfl
  rw [hcolumn, jobAnswered_completedAt]
  split_ifs
  · refine column_changed fun hutc => ?_
    cases hnaive _ hutc.symm
  · exact column_unchanged

end Operated

theorem operated_of_not (h : ¬ (reaches env db job = true ∧ commits env db job op = true)) :
    operated env db job op = job := by
  rw [operated, if_neg (by simpa using h)]

theorem naive_operated (hnaive : ∀ t ∈ job.completedAt, t.isNaive = true) :
    ∀ t ∈ (operated env db job op).completedAt, t.isNaive = true := by
  by_cases h : reaches env db job = true ∧ commits env db job op = true
  · rw [operated_completedAt h hnaive]
    split_ifs
    · rintro t ⟨⟩
      rfl
    · exact hnaive
  · rw [operated_of_not h]
    exact hnaive

end Operations

/-! ### Staying finished -/

section Finished

variable (env : Env) (endpoint jobId : String)

/-- The operation finishes the job. -/
def Finishes (db : Database) (op : Operation) : Prop :=
  ∃ job, jobOf endpoint jobId db = some job ∧ reaches env db job = true ∧
    finishes op.1 op.2.response = true

/-- The status is the old one, or a terminal one. -/
def StatusKept (db db' : Database) : Prop :=
  ∀ job job', jobOf endpoint jobId db = some job → jobOf endpoint jobId db' = some job' →
    job'.status = job.status ∨ isTerminalJobStatus job'.status = true

/-- **A finished job stays finished** along the operations: the operation that finishes it sets its
completion time, this time is never changed, and the status is then replaced by terminal ones
only. -/
structure StaysFinished (db : Database) (ops : List Operation) : Prop where
  completed : Meets (step env endpoint jobId) (fun db op => Finishes env endpoint jobId db op →
    completedAt endpoint jobId (operate env endpoint jobId db op) ≠ none) db ops
  kept : ∀ t, Keeps (step env endpoint jobId) (fun db => completedAt endpoint jobId db = some t)
    db ops
  status : Meets (step env endpoint jobId) (fun db op =>
    completedAt endpoint jobId (operate env endpoint jobId db op) ≠ none →
      StatusKept endpoint jobId db (operate env endpoint jobId db op)) db ops

/-- The answer to an operation on the job fits its record: the first answer that finishes it reports
its credits and is committed, no later one that does so is committed, and once there is a completion
time no other status that is not terminal is reported. -/
structure Fits (db : Database) (job : FirecrawlJobRecord) (op : Operation) : Prop where
  first : finishes op.1 op.2.response = true → job.completedAt = none →
    completes op.1 op.2.response = true ∧ commits env db job op = true
  once : completes op.1 op.2.response = true → commits env db job op = true →
    ∀ t ∈ job.completedAt, t = .naive op.2.answeredAt
  status : commits env db job op = true →
    completes op.1 op.2.response = true ∨ job.completedAt ≠ none →
      ∀ s ∈ reportedStatus op.2.response, s = job.status ∨ isTerminalJobStatus s = true

instance (db : Database) (job : FirecrawlJobRecord) (op : Operation) :
    Decidable (Fits env db job op) :=
  decidable_of_iff
    ((finishes op.1 op.2.response = true → job.completedAt = none →
        completes op.1 op.2.response = true ∧ commits env db job op = true) ∧
      (completes op.1 op.2.response = true → commits env db job op = true →
        ∀ t ∈ job.completedAt, t = .naive op.2.answeredAt) ∧
      (commits env db job op = true →
        completes op.1 op.2.response = true ∨ job.completedAt ≠ none →
          ∀ s ∈ reportedStatus op.2.response, s = job.status ∨ isTerminalJobStatus s = true))
    ⟨fun h => ⟨h.1, h.2.1, h.2.2⟩, fun h => ⟨h.first, h.once, h.status⟩⟩

/-- An operation that reaches the upstream gets an answer that fits the record. -/
def AnswerFits (db : Database) (op : Operation) : Prop :=
  ∀ job ∈ jobOf endpoint jobId db, reaches env db job = true → Fits env db job op

instance (db : Database) (op : Operation) : Decidable (AnswerFits env endpoint jobId db op) := by
  unfold AnswerFits
  infer_instance

variable {env endpoint jobId} {db : Database} {job : FirecrawlJobRecord} {op : Operation}

/-- A status that is not reported stays, or is that of a cancelled job. -/
theorem status_kept_iff {status : String} : (∀ s ∈ reportedStatus op.2.response,
      s = status ∨ isTerminalJobStatus s = true) ↔
    (reportedStatus op.2.response).getD (unreported op.1 op.2.response status) = status ∨
      isTerminalJobStatus ((reportedStatus op.2.response).getD
        (unreported op.1 op.2.response status)) = true := by
  cases reportedStatus op.2.response with
  | some s => simp
  | none =>
    refine iff_of_true nofun ?_
    rw [Option.getD_none, unreported]
    split_ifs
    · exact Or.inr (by decide)
    · exact Or.inl rfl

/-- **One operation.** -/
theorem fits_iff (hnaive : ∀ t ∈ job.completedAt, t.isNaive = true)
    (hreaches : reaches env db job = true) :
    ((finishes op.1 op.2.response = true → (operated env db job op).completedAt ≠ none) ∧
      (∀ t, job.completedAt = some t → (operated env db job op).completedAt = some t) ∧
      ((operated env db job op).completedAt ≠ none →
        (operated env db job op).status = job.status ∨
          isTerminalJobStatus (operated env db job op).status = true)) ↔ Fits env db job op := by
  by_cases hcommits : commits env db job op = true
  · have hcompletedAt := operated_completedAt ⟨hreaches, hcommits⟩ hnaive
    have hset : (operated env db job op).completedAt ≠ none ↔
        completes op.1 op.2.response = true ∨ job.completedAt ≠ none := by
      rw [hcompletedAt]
      split_ifs with hc <;> simp [hc]
    rw [operated_status ⟨hreaches, hcommits⟩, ← status_kept_iff, hset]
    constructor
    · rintro ⟨hfirst, hkept, hstatus⟩
      refine ⟨fun hf hnone => ⟨?_, hcommits⟩, fun hc _ t ht => ?_, fun _ => hstatus⟩
      · exact (hfirst hf).resolve_right fun h => h hnone
      · have hsame := hkept t ht
        rw [hcompletedAt, if_pos hc] at hsame
        exact (Option.some.inj hsame).symm
    · rintro ⟨hfirst, honce, hstatus⟩
      refine ⟨fun hf => ?_, fun t ht => ?_, hstatus hcommits⟩
      · by_cases hnone : job.completedAt = none
        · exact Or.inl (hfirst hf hnone).1
        · exact Or.inr hnone
      · rw [hcompletedAt]
        split_ifs with hc
        · rw [honce hc hcommits t ht]
        · exact ht
  · rw [operated_of_not (fun h => hcommits h.2)]
    constructor
    · rintro ⟨hfirst, -, -⟩
      exact ⟨fun hf hnone => absurd hnone (hfirst hf), fun _ h => absurd h hcommits,
        fun h => absurd h hcommits⟩
    · rintro ⟨hfirst, -, -⟩
      exact ⟨fun hf hnone => hcommits (hfirst hf hnone).2, fun t ht => ht, fun _ => Or.inl rfl⟩

/-- The invariant: the job is stored, and the column has no time zone. -/
def StoredJob (endpoint jobId : String) (db : Database) : Prop :=
  ∃ job, jobOf endpoint jobId db = some job ∧ ∀ t ∈ job.completedAt, t.isNaive = true

theorem StoredJob.step {db' : Database} (h : StoredJob endpoint jobId db)
    (hs : step env endpoint jobId db op = some db') : StoredJob endpoint jobId db' := by
  obtain rfl := Option.some.inj hs
  obtain ⟨job, hjob, hnaive⟩ := h
  exact ⟨_, jobOf_operate env _ hjob, naive_operated hnaive⟩

theorem completedAt_eq (hjob : jobOf endpoint jobId db = some job) :
    completedAt endpoint jobId db = job.completedAt := by
  rw [completedAt, hjob, Option.bind_some]

theorem answerFits_iff (h : StoredJob endpoint jobId db) :
    ((Finishes env endpoint jobId db op →
        completedAt endpoint jobId (operate env endpoint jobId db op) ≠ none) ∧
      (∀ t, completedAt endpoint jobId db = some t → ∀ db',
        step env endpoint jobId db op = some db' → completedAt endpoint jobId db' = some t) ∧
      (completedAt endpoint jobId (operate env endpoint jobId db op) ≠ none →
        StatusKept endpoint jobId db (operate env endpoint jobId db op))) ↔
    AnswerFits env endpoint jobId db op := by
  obtain ⟨job, hjob, hnaive⟩ := h
  have hnext := jobOf_operate env op hjob
  have hfinishes : Finishes env endpoint jobId db op ↔
      reaches env db job = true ∧ finishes op.1 op.2.response = true := by
    simp [Finishes, hjob]
  have hkept : StatusKept endpoint jobId db (operate env endpoint jobId db op) ↔
      (operated env db job op).status = job.status ∨
        isTerminalJobStatus (operated env db job op).status = true := by
    simp [StatusKept, hjob, hnext]
  have hanswer : AnswerFits env endpoint jobId db op ↔
      (reaches env db job = true → Fits env db job op) := by
    simp [AnswerFits, hjob]
  rw [hfinishes, hkept, hanswer, completedAt_eq hjob]
  simp only [Option.some.injEq, forall_eq', completedAt_eq hnext]
  by_cases hreaches : reaches env db job = true
  · simp only [hreaches, true_and, true_implies]
    exact fits_iff hnaive hreaches
  · rw [operated_of_not (fun h => hreaches h.1)]
    simp [hreaches]

/-- **A finished job stays finished exactly along the operations whose answers fit its record.** -/
theorem staysFinished_iff (hjob : getJobRecord db endpoint jobId = .ok (some job))
    (hnaive : ∀ t ∈ job.completedAt, t.isNaive = true) (ops : List Operation) :
    StaysFinished env endpoint jobId db ops ↔
      Meets (step env endpoint jobId) (AnswerFits env endpoint jobId) db ops := by
  have hstored : StoredJob endpoint jobId db := ⟨job, jobOf_eq_some.2 hjob, hnaive⟩
  refine Iff.trans ?_ (meets_iff_meets (fun _ _ _ h hs => StoredJob.step h hs)
    (fun _ _ h => answerFits_iff h) hstored)
  rw [meets_and, meets_and, meets_forall]
  constructor
  · rintro ⟨hcompleted, hkept, hstatus⟩
    exact ⟨hcompleted, fun t => keeps_iff_meets.1 (hkept t), hstatus⟩
  · rintro ⟨hcompleted, hkept, hstatus⟩
    exact ⟨hcompleted, fun t => keeps_iff_meets.2 (hkept t), hstatus⟩

/-- A crawl that was submitted. -/
def crawlSample : Database :=
  (after (sampleEnv .sqlite) (sampleState .sqlite) (submitCrawl 2)).store

/-- A poll of the crawl, answered with these items of the body. -/
def poll (answeredAt : ℤ) (body : JsonObject) : Operation :=
  (.get, ⟨0, { status := 200, jsonBody := some body }, answeredAt, 0, 0⟩)

/-- A terminal status without credits sets no completion time; with credits, the next poll may take
the status back, or move the completion time. -/
theorem not_staysFinished_sample : let env := sampleEnv .sqlite
    let finished := poll 1 [("status", .str "completed"), ("creditsUsed", .int 5)]
    let again := poll 2 [("status", .str "completed"), ("creditsUsed", .int 5)]
    let reopened := poll 2 [("status", .str "scraping")]
    let uncharged := poll 1 [("status", .str "completed")]
    ¬ StaysFinished env "crawl" "job-1" crawlSample [uncharged] ∧
    ¬ StaysFinished env "crawl" "job-1" crawlSample [finished, again] ∧
    ¬ StaysFinished env "crawl" "job-1" crawlSample [finished, reopened] := by
  intro env finished again reopened uncharged
  refine ⟨fun h => ?_, fun h => ?_, fun h => ?_⟩
  · exact h.completed.1 ⟨_, rfl, by decide, by decide⟩ (by decide)
  · have hkept := (h.kept (.naive 1)).2 _ rfl
    have htime := ((hkept.1 (by decide)).2 _ rfl).head
    exact absurd htime (by decide)
  · have hstatus := (h.status.2 _ rfl).1 (by decide) _ _ rfl rfl
    exact absurd hstatus (by decide)

/-- A crawl that is polled until it is completed, and cancelled when it is gone. -/
theorem staysFinished_sample : StaysFinished (sampleEnv .sqlite) "crawl" "job-1" crawlSample
    [poll 1 [("status", .str "scraping")],
      poll 2 [("status", .str "completed"), ("creditsUsed", .int 5)],
      (.delete, ⟨0, { status := 404 }, 3, 0, 0⟩)] := by
  have hjob : getJobRecord crawlSample "crawl" "job-1" =
      .ok (some ((jobOf "crawl" "job-1" crawlSample).get (by decide))) := rfl
  exact (staysFinished_iff hjob (by decide) _).2 (by decide)

end Finished

end FirecrawlLb.Firecrawl.Finished
