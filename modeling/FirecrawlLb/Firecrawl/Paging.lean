import FirecrawlLb.Firecrawl.AdminService

/-!
# Reading a table page by page

`list_job_records` and `list_request_logs` order by a timestamp only, and `list_accounts` by the
unique id.  A reader who takes a page of the jobs after the other sees every matching job once
exactly when the jobs of one timestamp are on one page, and so for the logs (`visitsOnce_iff`).
-/

namespace FirecrawlLb.Firecrawl.Paging

open FirecrawlLb.Lib FirecrawlLb.Lib.Paging FirecrawlLb.Python FirecrawlLb.Db.Models
open FirecrawlLb.Firecrawl.Models FirecrawlLb.Firecrawl.Schemas FirecrawlLb.Firecrawl.AdminService

section Queries

variable {α : Type}

/-- What the database may answer: the newest rows first, and rows with one timestamp in an order
of its own choice. -/
def Answers (b : Backend) (time : α → DateTime) (rows : List α) (args : ListArgs)
    (answer : Except Raised (List α)) : Prop :=
  if args.binds b then
    ∃ page, IsPage (fun row => (time row).wall) rows args.limit args.offset page ∧ answer = .ok page
  else answer = .error .databaseError

/-- The rows of the jobs that the filters keep. -/
def matchingJobs (jobs : List FirecrawlJobRecord) (args : ListArgs) : List FirecrawlJobRecord :=
  jobs.filter fun job => args.keeps job.endpoint job.status

def matchingLogs (logs : List FirecrawlRequestLogRecord) (args : ListArgs) :
    List FirecrawlRequestLogRecord :=
  logs.filter fun log => args.keeps log.endpoint log.status

/-- `list_job_records`, on an unchanging table. -/
def ListJobRecords (b : Backend) (jobs : List FirecrawlJobRecord) (args : ListArgs)
    (answer : Except Raised (List FirecrawlJobRecord)) : Prop :=
  Answers b (·.createdAt) (matchingJobs jobs args) args answer

/-- `list_request_logs`, on an unchanging table. -/
def ListRequestLogs (b : Backend) (logs : List FirecrawlRequestLogRecord) (args : ListArgs)
    (answer : Except Raised (List FirecrawlRequestLogRecord)) : Prop :=
  Answers b (·.requestedAt) (matchingLogs logs args) args answer

/-- Whatever the database answers, the pages up to the first that is not full are returned, and
hold every matching row once, the newest first. -/
def VisitsOnce (query : ListArgs → Except Raised (List α) → Prop) (time : α → DateTime)
    (matching : List α) (args : ListArgs) : Prop :=
  ∀ answers : ℕ → Except Raised (List α), (∀ k, query (args.page k) (answers k)) →
    ∃ pages, (List.range (matching.length / args.limit + 1)).mapM answers = .ok pages ∧
      Arranges (fun row => (time row).wall) matching pages.flatten

/-- The database takes the arguments of the pages, and the rows of one timestamp are on one. -/
structure Paged (b : Backend) (time : α → DateTime) (matching : List α) (args : ListArgs) :
    Prop where
  binds : ∀ k ≤ matching.length / args.limit, (args.page k).binds b = true
  ties : TiesFit (fun row => (time row).wall) matching args.limit

variable {b : Backend} {time : α → DateTime} {rows : List α} {args : ListArgs}

theorem answers_iff {answer : Except Raised (List α)} (h : args.binds b = true) :
    Answers b time rows args answer ↔ ∃ page,
      IsPage (fun row => (time row).wall) rows args.limit args.offset page ∧ answer = .ok page := by
  rw [Answers, if_pos h]

theorem exists_isPage (time : α → DateTime) (rows : List α) (limit offset : ℕ) :
    ∃ page, IsPage (fun row => (time row).wall) rows limit offset page := by
  obtain ⟨l, hl⟩ := exists_arranges (fun row => (time row).wall) rows
  exact ⟨_, l, hl, rfl⟩

theorem exists_answers (b : Backend) (time : α → DateTime) (rows : List α) (args : ListArgs) :
    ∃ answer, Answers b time rows args answer := by
  unfold Answers
  split_ifs with hbinds
  · obtain ⟨page, hpage⟩ := exists_isPage time rows args.limit args.offset
    exact ⟨_, page, hpage, rfl⟩
  · exact ⟨_, rfl⟩

theorem mapM_range_eq_ok {answers : ℕ → Except Raised α} {values : ℕ → α} {n : ℕ}
    (h : ∀ k < n, answers k = .ok (values k)) :
    (List.range n).mapM answers = .ok ((List.range n).map values) :=
  mapM_eq_ok.2 (List.forall₂_map_right_iff.2
    (List.forall₂_same.2 fun k hk => h k (List.mem_range.1 hk)))

theorem flatten_map_range (pages : ℕ → List α) (n : ℕ) :
    ((List.range n).map pages).flatten = (List.range n).flatMap pages :=
  rfl

theorem length_le_pages (hlimit : 1 ≤ args.limit) :
    rows.length ≤ (rows.length / args.limit + 1) * args.limit := by
  rw [Nat.mul_comm]
  exact Nat.le_of_lt (Nat.lt_mul_div_succ _ hlimit)

theorem Paged.visitsOnce (hlimit : 1 ≤ args.limit) (h : Paged b time rows args) :
    VisitsOnce (Answers b time rows) time rows args := by
  intro answers hanswers
  have hpage : ∀ k, ∃ page, IsPage (fun row => (time row).wall) rows args.limit (k * args.limit)
      page ∧ (k ≤ rows.length / args.limit → answers k = .ok page) := fun k => by
    by_cases hk : k ≤ rows.length / args.limit
    · obtain ⟨page, hpage, hok⟩ := (answers_iff (h.binds k hk)).1 (hanswers k)
      exact ⟨page, hpage, fun _ => hok⟩
    · obtain ⟨page, hpage⟩ := exists_isPage time rows args.limit (k * args.limit)
      exact ⟨page, hpage, fun hle => absurd hle hk⟩
  choose pages hpages hok using hpage
  refine ⟨_, mapM_range_eq_ok fun k hk => hok k (by omega), ?_⟩
  rw [flatten_map_range]
  exact pagesCover_of_tiesFit hlimit (length_le_pages hlimit) h.ties pages hpages

/-- A reader who sees every row once, whatever the database answers, has had an answer to every
query, and every order of the rows of one timestamp among the answers. -/
theorem paged_of_visitsOnce (hlimit : 1 ≤ args.limit) (hnodup : rows.Nodup)
    (h : VisitsOnce (Answers b time rows) time rows args) : Paged b time rows args := by
  have hbinds : ∀ k ≤ rows.length / args.limit, (args.page k).binds b = true := by
    intro k hk
    choose answers hanswers using fun k => exists_answers b time rows (args.page k)
    obtain ⟨pages, hpages, -⟩ := h answers hanswers
    obtain ⟨page, -, hok⟩ := forall₂_mem_left (mapM_eq_ok.1 hpages)
      (List.mem_range.2 (Nat.lt_succ_of_le hk))
    by_contra hnot
    have hfail := hanswers k
    rw [Answers, if_neg hnot, hok] at hfail
    cases hfail
  refine ⟨hbinds, (pagesCover_iff hlimit hnodup (length_le_pages hlimit)).1 fun pages hpages => ?_⟩
  let answers k : Except Raised (List α) :=
    if (args.page k).binds b then .ok (pages k) else .error .databaseError
  have hanswers : ∀ k, Answers b time rows (args.page k) (answers k) := fun k => by
    unfold Answers
    split_ifs with hk
    · exact ⟨pages k, hpages k, if_pos hk⟩
    · exact if_neg hk
  obtain ⟨pages', hpages', harranges⟩ := h answers hanswers
  have hok : (List.range (rows.length / args.limit + 1)).mapM answers =
      .ok ((List.range (rows.length / args.limit + 1)).map pages) :=
    mapM_range_eq_ok fun k hk => if_pos (hbinds k (by omega))
  obtain rfl : (List.range (rows.length / args.limit + 1)).map pages = pages' :=
    Except.ok.inj (hok.symm.trans hpages')
  exact harranges

theorem visitsOnce_answers_iff (b : Backend) (time : α → DateTime) (hlimit : 1 ≤ args.limit)
    (hnodup : rows.Nodup) :
    VisitsOnce (Answers b time rows) time rows args ↔ Paged b time rows args :=
  ⟨paged_of_visitsOnce hlimit hnodup, Paged.visitsOnce hlimit⟩

end Queries

/-- **Paging** through the jobs visits every matching job once exactly when the database takes the
arguments and no timestamp is on two pages; and so for the logs. -/
theorem visitsOnce_iff (b : Backend) (args : ListArgs) (hlimit : 1 ≤ args.limit) :
    (∀ jobs : List FirecrawlJobRecord, (jobs.map (·.id)).Nodup →
      (VisitsOnce (ListJobRecords b jobs) (·.createdAt) (matchingJobs jobs args) args ↔
        Paged b (·.createdAt) (matchingJobs jobs args) args)) ∧
    ∀ logs : List FirecrawlRequestLogRecord, (logs.map (·.id)).Nodup →
      (VisitsOnce (ListRequestLogs b logs) (·.requestedAt) (matchingLogs logs args) args ↔
        Paged b (·.requestedAt) (matchingLogs logs args) args) := by
  -- the pages have the same filters, so each query selects from the same rows
  constructor
  · intro jobs hkey
    have hnodup : (matchingJobs jobs args).Nodup := (List.Nodup.of_map _ hkey).filter _
    exact visitsOnce_answers_iff b _ hlimit hnodup
  · intro logs hkey
    have hnodup : (matchingLogs logs args).Nodup := (List.Nodup.of_map _ hkey).filter _
    exact visitsOnce_answers_iff b _ hlimit hnodup

/-- A job of the sample account, created at a second. -/
def sampleJob (id : ℕ) (second : ℤ) : FirecrawlJobRecord where
  id := id
  accountId := some "account-1"
  credentialId := some "credential-1"
  endpoint := "crawl"
  upstreamJobId := some "job"
  status := "submitted"
  estimatedCreditsReserved := some 1
  createdAt := ⟨second * 1000000, none⟩

/-- Two jobs of one second, and pages of one job: the first page may hold one of them, and the
second page the same one again. -/
theorem not_visitsOnce_sample : let jobs := [sampleJob 1 7, sampleJob 2 7]
    let first : ListQuery jobEndpointPattern := { limit := 1 }
    let second : ListQuery jobEndpointPattern := { limit := 1, offset := 1 }
    first.Selects (·.endpoint) (·.status) (·.createdAt) jobs [sampleJob 1 7] ∧
    second.Selects (·.endpoint) (·.status) (·.createdAt) jobs [sampleJob 1 7] ∧
    ¬ VisitsOnce (ListJobRecords .sqlite jobs) (·.createdAt) (matchingJobs jobs { limit := 1 })
      { limit := 1 } := by
  intro jobs first second
  refine ⟨⟨[sampleJob 1 7, sampleJob 2 7], ⟨.refl _, by decide⟩, rfl⟩,
    ⟨[sampleJob 2 7, sampleJob 1 7], ⟨.swap _ _ [], by decide⟩, rfl⟩, fun h => ?_⟩
  have hpaged : Paged .sqlite (·.createdAt) (matchingJobs jobs { limit := 1 }) { limit := 1 } :=
    paged_of_visitsOnce (by decide) (by decide) h
  exact absurd hpaged.ties (by decide)

/-- With two jobs on a page, the jobs of one second are on one page. -/
theorem visitsOnce_sample : let jobs := [sampleJob 1 7, sampleJob 2 7, sampleJob 3 5]
    VisitsOnce (ListJobRecords .sqlite jobs) (·.createdAt) (matchingJobs jobs { limit := 2 })
      { limit := 2 } :=
  ((visitsOnce_iff .sqlite { limit := 2 } (by decide)).1 _ (by decide)).2
    ⟨by decide, by decide⟩

end FirecrawlLb.Firecrawl.Paging
