import FirecrawlLb.Firecrawl.Selection
import FirecrawlLb.Firecrawl.Stored

/-!
# Runs of POSTs

In a run of `proxy` and `submit_job` calls alone the sessions hold at most one method on an account,
and none that touches a limit.  The router compares two counters of an account with its limit, and
the POSTs it has out stay within the limit as long as the counters count them.  No call counts its
own POST, so nothing in the code sees to that.
-/

namespace FirecrawlLb.Firecrawl.Concurrency

open FirecrawlLb.Lib FirecrawlLb.Lib.Tasks FirecrawlLb.Lib.Run FirecrawlLb.Python
open FirecrawlLb.Db.Models FirecrawlLb.Firecrawl.Models FirecrawlLb.Firecrawl.Routing
open FirecrawlLb.Firecrawl.Repository FirecrawlLb.Firecrawl.Service FirecrawlLb.Firecrawl.System
open FirecrawlLb.Firecrawl.Selection FirecrawlLb.Firecrawl.Stored

/-! ### The tasks of such a run -/

/-- The event starts a `proxy` or `submit_job` call, or is a step of a task. -/
def startsPost : Event → Bool
  | .spawn (.post _) => true
  | .spawn _ => false
  | .act _ _ => true

/-- A method an answered POST can put on an account. -/
def fromPost : AccountWrite → Bool
  | .applySuccess _ => true
  | .markCreditExhausted => true
  | .markRateLimited _ => true
  | _ => false

/-- What the session of a POST holds. -/
structure PostSession (s : Session) : Prop where
  newAccount : s.newAccount = none
  length : s.accounts.length ≤ 1
  writes : ∀ e ∈ s.accounts, fromPost e.write = true

/-- What a task of a POST holds. -/
def PostTask : Task → Prop
  | .listing _ _ _ => True
  | .forwarding _ _ => True
  | .writing session target => session.newAccount = none ∧ session.accounts = [] ∧
    ∀ id write, target = .account id write → fromPost write = true
  | .committing session => PostSession session
  | .committed session => PostSession session
  | .failed => True
  | _ => False

section Tasks

variable {env : Env} {db db' : Database} {p p' : State} {m : Event} {t t' : Task} {a : Action}

theorem postTask_starts {post : Post} (h : Starts env db (.post post) t) : PostTask t := by
  cases h <;> trivial

theorem postTask_answer {session : Session} {post : Post} {selected : FirecrawlSelectedAccount}
    {response : FirecrawlUpstreamResponse} {now : DateTime} {target : Option RowWrite}
    (hnew : session.newAccount = none) (haccounts : session.accounts = [])
    (h : Post.Target post selected response now target) : PostTask (awaitRow session target) := by
  have hsession : PostSession session := ⟨hnew, by simp [haccounts], by simp [haccounts]⟩
  cases h with
  | nothing => exact hsession
  | credentialInvalid => exact ⟨hnew, haccounts, by simp⟩
  | _ =>
    refine ⟨hnew, haccounts, fun id write hw => ?_⟩
    cases hw
    rfl

theorem postTask_get {session : Session} {target : RowWrite}
    (h : PostTask (.writing session target)) : PostSession (session.perform db target) := by
  obtain ⟨hnew, haccounts, hwrite⟩ := h
  rcases perform_cases session db target with hp | ⟨id, write, row, htarget, -, hp⟩ | ⟨e, hp⟩ <;>
    rw [hp]
  · exact ⟨hnew, by simp [haccounts], by simp [haccounts]⟩
  · refine ⟨hnew, by simp [haccounts], fun e he => ?_⟩
    obtain rfl : e = ⟨row, write⟩ := by simpa [haccounts] using he
    exact hwrite id write htarget
  · exact ⟨hnew, by simp [haccounts], by simp [haccounts]⟩

theorem postTask_steps (ht : PostTask t) (h : Steps env db t a db' t') : PostTask t' := by
  cases h with
  | refreshCredentials | select | fail => trivial
  | answer h =>
    obtain ⟨⟨log, rfl, -⟩, htarget⟩ := Post.answered_eq_ok h
    exact postTask_answer rfl rfl htarget
  | get => exact postTask_get ht
  | commit => exact ht
  | jobAnswer | selectCredentials | refreshAccount => exact ht.elim

theorem limits_of_fromPost {e : AccountEdit} (h : fromPost e.write = true) :
    e.object.value.queueMaxConcurrency = e.read.queueMaxConcurrency ∧
      e.object.value.rpmLimit = e.read.rpmLimit := by
  obtain ⟨read, write⟩ := e
  cases write with
  | applySuccess creditsUsed =>
    exact ⟨applySuccess_queueMaxConcurrency creditsUsed read,
      applySuccess_rpmLimit creditsUsed read⟩
  | markCreditExhausted | markRateLimited => exact ⟨rfl, rfl⟩
  | refreshSuccess | refreshError | operatorUpdate => cases h

end Tasks

/-! ### The account in such a run -/

/-- The rows of the account that a listing has still to go over, and what it has made of the
others. -/
def ListedAs (id : String) (Q : FirecrawlAccountRecord → Prop) (R : FirecrawlAccount → Prop) :
    Task → Prop
  | .listing _ rows accounts =>
    (∀ row ∈ rows, row.id = id → Q row) ∧ ∀ a ∈ accounts, a.id = id → R a
  | _ => True

/-- `Q` holds of the row of the account, and `R` of the account as a listing gives it. -/
def RowsKeep (id : String) (Q : FirecrawlAccountRecord → Prop) (R : FirecrawlAccount → Prop) :
    State → Prop :=
  Asserts (fun db => ∀ row ∈ db.accounts, row.id = id → Q row)
    fun _ t => PostTask t ∧ ListedAs id Q R t

section Rows

variable {env : Env} {id : String} {db db' : Database} {p p' : State} {m : Event} {t t' : Task}
  {a : Action} {Q : FirecrawlAccountRecord → Prop} {R : FirecrawlAccount → Prop}
  {row : FirecrawlAccountRecord}

theorem listedAs_steps
    (hR : ∀ row records a, toDomainAccount env row records = .ok a → Q row → R a)
    (ht : ListedAs id Q R t) (h : Steps env db t a db' t') : ListedAs id Q R t' := by
  cases h with
  | @refreshCredentials p row rows accounts account h =>
    obtain ⟨hrows, haccounts⟩ := ht
    refine ⟨fun r hr => hrows r (List.mem_cons_of_mem _ hr), fun a ha hid => ?_⟩
    rcases List.mem_append.1 ha with ha | ha
    · exact haccounts a ha hid
    · obtain rfl := List.mem_singleton.1 ha
      rw [toDomainAccount_id h] at hid
      exact hR row _ _ h (hrows row List.mem_cons_self hid)
  | @answer _ _ _ _ _ session target => cases target <;> trivial
  | @jobAnswer method job response now latencyMs =>
    cases (jobAnswered method response (.utc now) job).2 <;> trivial
  | selectCredentials | refreshAccount =>
    unfold nextRound
    split_ifs <;> trivial
  | select | get | commit | fail => trivial

/-- **What the commits of POSTs leave of a row**, and what a listing makes of it, is kept. -/
theorem RowsKeep.step (hQ : ∀ s row, PostSession s → Q row → Q (s.flushAccount row))
    (hR : ∀ row records a, toDomainAccount env row records = .ok a → Q row → R a)
    (h : RowsKeep id Q R p) (hm : startsPost m = true) (hs : step env p m = some p') :
    RowsKeep id Q R p' := by
  refine Program.inv_step_local (C := fun _ m => startsPost m = true) (fun p r hI hr => ?_)
    (fun p tid a t db' t' hI ht _ _ ha => ?_) h hm hs
  · cases r with
    | post post =>
      refine ⟨postTask_starts (starts_spawn env p.store (.post post)), fun row hrow => ?_, by simp⟩
      exact hI row (mem_orderById.1 hrow)
    | _ => cases hr
  · have hsteps := steps_of_act ha
    refine ⟨?_, postTask_steps ht.1 hsteps, listedAs_steps hR ht.2 hsteps⟩
    cases hsteps with
    | @commit s dbNow hb =>
      intro row hrow hid
      obtain ⟨r, hr, rfl⟩ | hnew := mem_flush_accounts.1 hrow
      · rw [flushAccount_id] at hid
        exact hQ s r ht.1 (hI r hr hid)
      · have hnone : s.newAccount = none := ht.1.newAccount
        rw [hnone] at hnew
        cases hnew
    | _ => exact hI

theorem rowsKeep_start (hids : (db.accounts.map (·.id)).Nodup) (hrow : db.account? id = some row)
    (hQ : Q row) : RowsKeep id Q R ⟨db, []⟩ := by
  refine ⟨fun r hr hid => ?_, by simp⟩
  have hr' := account?_of_mem hids hr
  rw [hid, hrow] at hr'
  rwa [← Option.some.inj hr']

theorem RowsKeep.of_account? (h : RowsKeep id Q R p) (hrow : p.store.account? id = some row) :
    Q row :=
  h.1 row (List.mem_of_find?_eq_some hrow) (id_of_account? hrow)

theorem RowsKeep.selected (h : RowsKeep id Q R p) {tid : ℕ} {post : Post}
    {accounts : List FirecrawlAccount} (ht : p.tasks[tid]? = some (.listing post [] accounts))
    {a : FirecrawlAccount} (ha : a ∈ accounts) (hid : a.id = id) : R a :=
  (h.2 _ (List.mem_of_getElem? ht)).2.2 a ha hid

end Rows

/-! ### The limit -/

/-- The concurrency limit of an account row: its own, or that of its plan. -/
def concurrencyLimitOf (row : FirecrawlAccountRecord) : ℤ :=
  row.queueMaxConcurrency.getD
    ((concurrencyByPlan.lookup row.planType).getD defaultConcurrencyLimit)

theorem concurrencyLimit_of_toDomainAccount {env : Env} {row : FirecrawlAccountRecord}
    {records : List FirecrawlCredentialRecord} {a : FirecrawlAccount}
    (h : toDomainAccount env row records = .ok a) :
    concurrencyLimit a = concurrencyLimitOf row := by
  obtain ⟨credentials, status, -, -, rfl⟩ := toDomainAccount_eq_ok.1 h
  unfold concurrencyLimit concurrencyLimitOf
  cases row.queueMaxConcurrency <;> rfl

theorem concurrencyLimitOf_flushAccount {s : Session} (h : PostSession s)
    (row : FirecrawlAccountRecord) :
    concurrencyLimitOf (s.flushAccount row) = concurrencyLimitOf row := by
  rcases flushAccount_cases s row with ⟨-, hf⟩ | ⟨e, he, -, -, hf⟩ <;> rw [hf]
  have hlimit : (FirecrawlAccountRecord.flush e.object row).queueMaxConcurrency =
      column asIs e.read.queueMaxConcurrency e.object.value.queueMaxConcurrency
        row.queueMaxConcurrency := rfl
  rw [(limits_of_fromPost (h.writes e he)).1, column_unchanged] at hlimit
  unfold concurrencyLimitOf
  rw [hlimit]
  rfl

/-! ### The POSTs an account has out -/

/-- The number of POSTs that were sent for the account and have no answer yet. -/
def outstanding (id : String) (p : State) : ℤ :=
  (p.tasks.map fun t => if t.sentFor id then 1 else 0).sum

/-- The account has no more POSTs out than its limit. -/
def WithinLimit (id : String) (p : State) : Prop :=
  ∀ row ∈ p.store.account? id, outstanding id p ≤ concurrencyLimitOf row

section Outstanding

variable {env : Env} {id : String} {p p' : State} {m : Event} {ms : List Event} {db : Database}

/-- The event that sends a POST is a step, and it puts one more POST out. -/
theorem step_of_sends (env : Env) (id : String) {selected : FirecrawlSelectedAccount}
    (h : sends p m = some selected) :
    ∃ p', step env p m = some p' ∧ p'.store = p.store ∧
      outstanding id p' = outstanding id p + if selected.account.id = id then 1 else 0 := by
  obtain ⟨tid, post, accounts, now, rfl, ht, hsel⟩ := exists_select_of_sends h
  refine ⟨⟨p.store, p.tasks.set tid (.forwarding post selected)⟩, ?_, rfl, ?_⟩
  · simp [step, Program.step, ht, program, act, hsel]
  · have hsum := sum_map_set (fun t : Task => if t.sentFor id then (1 : ℤ) else 0)
      (.forwarding post selected) ht
    simpa [outstanding, Task.sentFor] using hsum

/-- Only such an event does. -/
theorem outstanding_step (id : String) (h : step env p m = some p') :
    (∃ selected, sends p m = some selected) ∨ outstanding id p' ≤ outstanding id p := by
  rcases Program.sum_step (fun t : Task => if t.sentFor id then (1 : ℤ) else 0) h with
    ⟨r, rfl, hsum⟩ | ⟨tid, a, t, t', rfl, ht, ha, hsum⟩
  · right
    have hspawn : ∀ t, Starts env p.store r t → Task.sentFor id t = false := by
      intro t ht
      cases ht <;> rfl
    have hnot : Task.sentFor id ((program env).spawn p.store r) = false :=
      hspawn _ (starts_spawn env p.store r)
    simp only [hnot, Bool.false_eq_true, if_false, add_zero] at hsum
    exact hsum.le
  · have hsteps := steps_of_act ha
    have hold : (0 : ℤ) ≤ if t.sentFor id then 1 else 0 := by split_ifs <;> decide
    -- any other step leaves a task that has no POST out
    have hless : t'.sentFor id = false → outstanding id p' ≤ outstanding id p := by
      intro ht'
      simp only [ht', Bool.false_eq_true, if_false, add_zero] at hsum
      exact hsum.le.trans (sub_le_self _ hold)
    generalize p'.store = db' at hsteps
    cases hsteps with
    | @select post accounts now selected hsel =>
      exact Or.inl ⟨selected, by simp [sends, ht, hsel, Except.toOption]⟩
    | @answer post selected response now latencyMs session target h =>
      exact Or.inr (hless (by cases target <;> rfl))
    | @jobAnswer method job response now latencyMs =>
      exact Or.inr (hless (by cases (jobAnswered method response (.utc now) job).2 <;> rfl))
    | selectCredentials | refreshAccount =>
      refine Or.inr (hless ?_)
      unfold nextRound
      split_ifs <;> rfl
    | _ => exact Or.inr (hless rfl)

/-- **A selection takes place while the counters are right**: in the account as it was listed, the
counters that the router compares with the limit count the POSTs that are out. -/
def Counts (id : String) (p : State) (s : Selecting) : Prop :=
  ∀ a ∈ s.accounts, a.id = id → outstanding id p ≤ a.inflight + a.queueActiveJobs

instance (s : Selecting) : Decidable (Counts id p s) := by unfold Counts; infer_instance

/-- The account keeps its limit, as a row and as an account. -/
def KeepsLimit (id : String) (limit : ℤ) : State → Prop :=
  RowsKeep id (concurrencyLimitOf · = limit) (concurrencyLimit · = limit)

/-- The router's test makes the limit an invariant. -/
theorem outstanding_le_step {limit : ℤ} (hrows : KeepsLimit id limit p)
    (hle : outstanding id p ≤ limit) (hcounts : ∀ s ∈ selecting p m, Counts id p s)
    (hs : step env p m = some p') : outstanding id p' ≤ limit := by
  rcases outstanding_step id hs with ⟨selected, hsel⟩ | hle'
  · obtain ⟨p'', hs', -, hsum⟩ := step_of_sends env id hsel
    obtain rfl : p'' = p' := Option.some.inj (hs'.symm.trans hs)
    rw [hsum]
    split_ifs with hid
    · obtain ⟨tid, post, accounts, now, rfl, ht, hselect⟩ := exists_select_of_sends hsel
      obtain ⟨estimate, -, hmem, -, heligible⟩ := selectAccount_eligible hselect
      have hcount : outstanding id p ≤
          selected.account.inflight + selected.account.queueActiveJobs :=
        hcounts ⟨post, accounts, now⟩ (by simp [selecting, ht]) _ hmem hid
      have hroom := heligible.accountConcurrency
      rw [hrows.selected ht hmem hid] at hroom
      omega
    · omega
  · exact hle'.trans hle

theorem always_withinLimit {row : FirecrawlAccountRecord}
    (hids : (db.accounts.map (·.id)).Nodup) (hrow : db.account? id = some row)
    (hms : Meets (step env) (fun _ m => startsPost m = true) ⟨db, []⟩ ms)
    (hzero : 0 ≤ concurrencyLimitOf row)
    (hcounts : Meets (step env) (fun p m => ∀ s ∈ selecting p m, Counts id p s) ⟨db, []⟩ ms) :
    Always (step env) (WithinLimit id) ⟨db, []⟩ ms := by
  have hstart : KeepsLimit id (concurrencyLimitOf row) ⟨db, []⟩ := rowsKeep_start hids hrow rfl
  refine (always_of_meets (I := fun p => KeepsLimit id (concurrencyLimitOf row) p ∧
    outstanding id p ≤ concurrencyLimitOf row) ?_ ⟨hstart, hzero⟩ (hms.and hcounts)).mono ?_
  · rintro p m p' ⟨hrows, hle⟩ ⟨hm, hC⟩ hs
    refine ⟨hrows.step (fun s row hs hlimit => ?_) (fun row records a ha hlimit => ?_) hm hs,
      outstanding_le_step hrows hle hC hs⟩
    · rw [concurrencyLimitOf_flushAccount hs row, hlimit]
    · rw [concurrencyLimit_of_toDomainAccount ha, hlimit]
  · rintro p ⟨hrows, hle⟩ row' hrow'
    have hlimit : concurrencyLimitOf row' = concurrencyLimitOf row := hrows.of_account? hrow'
    rwa [hlimit]

/-! ### Sending without an answer -/

section Sends

variable {β : Type*} {obs : State → Event → Option β} {post : Post} {now : ℤ}
  {rows : List FirecrawlAccountRecord} {accounts : List FirecrawlAccount}
  {selected : FirecrawlSelectedAccount} {b : β}

theorem run_listing (post : Post) (hobs : ∀ p tid, obs p (.act tid .refreshCredentials) = none)
    (hrows : List.Forall₂ (fun row a => toDomainAccount env row (db.credentialsOf row.id) = .ok a)
      rows accounts) (tasks : List Task) (listed : List FirecrawlAccount) (h : List β) :
    Run.run (recorded (step env) obs) (⟨db, tasks ++ [.listing post rows listed]⟩, h)
        (List.replicate rows.length (.act tasks.length .refreshCredentials)) =
      some (⟨db, tasks ++ [.listing post [] (listed ++ accounts)]⟩, h) := by
  induction hrows generalizing listed with
  | nil => simp
  | @cons row a rows accounts hrow _ ih =>
    rw [List.length_cons, List.replicate_succ]
    refine run_cons.2 ⟨(⟨db, tasks ++ [.listing post rows (listed ++ [a])]⟩, h), ?_, ?_⟩
    · refine recorded_eq_some.2 ⟨?_, by simp [hobs]⟩
      rw [step, Program.step_last]
      simp [program, act, hrow]
    · simpa using ih (listed ++ [a])

/-- The events of a POST up to its request, as the next task. -/
def sendEvents (db : Database) (tid : ℕ) (post : Post) (now : ℤ) : List Event :=
  .spawn (.post post) ::
    (List.replicate (orderById db.accounts).length (.act tid .refreshCredentials) ++
      [.act tid (.select now)])

theorem startsPost_of_mem_sendEvents {tid : ℕ} (hm : m ∈ sendEvents db tid post now) :
    startsPost m = true := by
  simp only [sendEvents, List.mem_cons, List.mem_append, List.mem_replicate, List.not_mem_nil,
    or_false] at hm
  rcases hm with rfl | ⟨-, rfl⟩ | rfl <;> rfl

section Observed

variable (hspawn : ∀ p r, obs p (.spawn r) = none)
  (hobs : ∀ p tid, obs p (.act tid .refreshCredentials) = none)
  (hsends : ∀ tasks, obs ⟨db, tasks ++ [.listing post [] accounts]⟩
    (.act tasks.length (.select now)) = some b)
  (haccounts : listAccounts env db = .ok accounts)
  (hselect : selectAccount accounts post.endpoint post.payload (.utc now) = .ok selected)

include hspawn hobs hsends haccounts hselect

theorem run_send (tasks : List Task) (h : List β) :
    Run.run (recorded (step env) obs) (⟨db, tasks⟩, h) (sendEvents db tasks.length post now) =
      some (⟨db, tasks ++ [.forwarding post selected]⟩, h ++ [b]) := by
  have hlisting := run_listing post hobs (mapM_eq_ok.1 haccounts) tasks [] h
  have hspawned : recorded (step env) obs (⟨db, tasks⟩, h) (.spawn (.post post)) =
      some (⟨db, tasks ++ [.listing post (orderById db.accounts) []]⟩, h) :=
    recorded_eq_some.2 ⟨rfl, by simp [hspawn]⟩
  have hselected : recorded (step env) obs (⟨db, tasks ++ [.listing post [] accounts]⟩, h)
      (.act tasks.length (.select now)) =
        some (⟨db, tasks ++ [.forwarding post selected]⟩, h ++ [b]) := by
    refine recorded_eq_some.2 ⟨?_, by simp [hsends]⟩
    rw [step, Program.step_last]
    simp [program, act, hselect]
  exact run_cons.2 ⟨_, hspawned, run_append.2 ⟨_, hlisting, run_cons.2 ⟨_, hselected, rfl⟩⟩⟩

/-- **A selection that takes an account takes it any number of times**: a POST on its way leaves no
mark in the database. -/
theorem exists_run_sends (n : ℕ) : ∃ ms, (∀ m ∈ ms, startsPost m = true) ∧
    Run.run (recorded (step env) obs) (⟨db, []⟩, []) ms =
      some (⟨db, List.replicate n (.forwarding post selected)⟩, List.replicate n b) := by
  induction n with
  | zero => exact ⟨[], by simp, rfl⟩
  | succ n ih =>
    obtain ⟨ms, hposts, hrun⟩ := ih
    refine ⟨ms ++ sendEvents db n post now, fun m hm => ?_, run_append.2 ⟨_, hrun, ?_⟩⟩
    · rcases List.mem_append.1 hm with hm | hm
      · exact hposts m hm
      · exact startsPost_of_mem_sendEvents hm
    · -- the database is as it was, so the next POST is selected in the same way
      have hsend := run_send hspawn hobs hsends haccounts hselect
        (List.replicate n (.forwarding post selected)) (List.replicate n b)
      rw [List.length_replicate] at hsend
      rw [hsend, List.replicate_succ', List.replicate_succ']

end Observed

end Sends

/-- **The concurrency limit of an account holds along a run of POSTs** while the counters are right
at each selection.  The code does not keep them so: where a selection from the database takes the
account, there is a run that breaks the limit. -/
theorem withinLimit_of_counts {row : FirecrawlAccountRecord}
    (hids : (db.accounts.map (·.id)).Nodup) (hrow : db.account? id = some row) :
    (∀ ms, Meets (step env) (fun _ m => startsPost m = true) ⟨db, []⟩ ms →
      0 ≤ concurrencyLimitOf row →
      Meets (step env) (fun p m => ∀ s ∈ selecting p m, Counts id p s) ⟨db, []⟩ ms →
      Always (step env) (WithinLimit id) ⟨db, []⟩ ms) ∧
    (∀ (post : Post) now accounts selected, listAccounts env db = .ok accounts →
      selectAccount accounts post.endpoint post.payload (.utc now) = .ok selected →
      selected.account.id = id →
      ∃ ms p, Meets (step env) (fun _ m => startsPost m = true) ⟨db, []⟩ ms ∧
        Run.run (step env) ⟨db, []⟩ ms = some p ∧ ¬ WithinLimit id p) := by
  refine ⟨fun ms hms hzero hcounts => always_withinLimit hids hrow hms hzero hcounts, ?_⟩
  intro post now accounts selected haccounts hselect hid
  obtain ⟨n, hn⟩ : ∃ n : ℕ, (concurrencyLimitOf row).toNat + 1 = n := ⟨_, rfl⟩
  obtain ⟨ms, hposts, hrun⟩ : ∃ ms, (∀ m ∈ ms, startsPost m = true) ∧
      Run.run (recorded (step env) sends) (⟨db, []⟩, []) ms = some
        (⟨db, List.replicate n (.forwarding post selected)⟩, List.replicate n selected) :=
    exists_run_sends (fun _ _ => rfl) (fun _ _ => rfl)
      (fun tasks => by simp [sends, hselect, Except.toOption]) haccounts hselect n
  refine ⟨ms, _, meets_of_forall hposts, (run_recorded.1 hrun).1, fun hwithin => ?_⟩
  -- none of them is answered
  have hout : outstanding id ⟨db, List.replicate n (.forwarding post selected)⟩ = n := by
    simp [outstanding, Task.sentFor, hid]
  have hle := hwithin row hrow
  rw [hout] at hle
  omega

/-- The sample account is on the free plan, with room for two: three requests are out at once. -/
theorem not_withinLimit_sample : let env := sampleEnv .sqlite
    let p : State := ⟨(sampleState .sqlite).store, []⟩
    let ms := sendPost 0 mapPost 0 ++ sendPost 1 mapPost 0 ++ sendPost 2 mapPost 0
    (p.store.account? "account-1").map concurrencyLimitOf = some 2 ∧
    Meets (step env) (fun _ m => startsPost m = true) p ms ∧
    Run.run (step env) p ms = some (after env p ms) ∧
    outstanding "account-1" (after env p ms) = 3 ∧
    ¬ WithinLimit "account-1" (after env p ms) :=
  ⟨by decide, by decide, run_after (by decide), by decide,
    fun h => absurd (h _ rfl) (by decide)⟩

/-- The sample account, for which the last refresh has reported a job. -/
def busyDatabase : Database :=
  let db := (sampleState .sqlite).store
  { db with accounts := db.accounts.map ({ · with queueActiveJobs := some 1 }) }

/-- There, the second request may be sent before the first is answered. -/
theorem withinLimit_of_counts_sample :
    Always (step (sampleEnv .sqlite)) (WithinLimit "account-1") ⟨busyDatabase, []⟩
      (sendPost 0 mapPost 0 ++ sendPost 1 mapPost 0 ++ settle 0 { status := 200 } 0 ++
        sendPost 2 mapPost 0) :=
  (withinLimit_of_counts (by decide) rfl).1 _ (by decide) (by decide) (by decide)

end Outstanding

end FirecrawlLb.Firecrawl.Concurrency
