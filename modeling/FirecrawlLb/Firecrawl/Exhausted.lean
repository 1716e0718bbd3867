import FirecrawlLb.Firecrawl.Cooldown
import FirecrawlLb.Firecrawl.Sign

/-!
# An account that ran out of credits

A 402 sets the status of the account, and a refresh pass stores its new credits without looking at
the status.  Only a success that has read the account as rate limited makes it active again, so the
account comes back when a 429 and then such a success are committed after the 402.
-/

namespace FirecrawlLb.Firecrawl.Exhausted

open FirecrawlLb.Lib FirecrawlLb.Lib.Tasks FirecrawlLb.Lib.Run FirecrawlLb.Python
open FirecrawlLb.Db.Models FirecrawlLb.Firecrawl.Models FirecrawlLb.Firecrawl.Routing
open FirecrawlLb.Firecrawl.Selection FirecrawlLb.Firecrawl.Repository
open FirecrawlLb.Firecrawl.Service FirecrawlLb.Firecrawl.System FirecrawlLb.Firecrawl.Stored
open FirecrawlLb.Firecrawl.Status FirecrawlLb.Firecrawl.Cooldown FirecrawlLb.Firecrawl.Sign

/-- The session puts the account into `credit_exhausted`, after a 402. -/
def exhausts (id : String) (s : Session) : Bool :=
  match s.edit? id with
  | some ⟨_, .markCreditExhausted⟩ => true
  | _ => false

/-- A refresh pass has stored credits for the account that cover the estimate. -/
def Refilled (id : String) (estimate : ℤ) (ss : List Session) : Prop :=
  ∃ s ∈ ss, ∃ r, refreshed? s id = some r ∧ 0 < r ∧ estimate ≤ r

/-- The selection rejects the account because of its status. -/
def RejectedByStatus (accounts : List FirecrawlAccount) (endpoint : String) (estimate : ℤ)
    (now : DateTime) (a : FirecrawlAccount) : Prop :=
  reasonOf accounts endpoint estimate now a = .ok (some ("status=" ++ a.status.value))

section Restored

variable {env : Env} {id : String} {p p₁ p' : State} {m : Event} {ms : List Event}
  {row : FirecrawlAccountRecord} {session : Session}

/-- The test of the status comes first, and no other reason reads like it. -/
theorem rejectedByStatus_iff {accounts : List FirecrawlAccount} {endpoint : String} {estimate : ℤ}
    {now : DateTime} {a : FirecrawlAccount} :
    RejectedByStatus accounts endpoint estimate now a ↔ a.status ≠ .active := by
  unfold RejectedByStatus reasonOf rejectionReason
  by_cases hactive : a.status = .active
  · refine iff_of_false (fun h => ?_) (by simpa using hactive)
    rw [if_neg (by simpa using hactive), hactive] at h
    obtain ⟨cooling, -, h⟩ := bind_eq_ok.1 h
    split_ifs at h
    all_goals
      have hreason := pure_eq_ok.1 h
      exact absurd hreason (by decide)
  · rw [if_pos hactive]
    exact iff_of_true rfl hactive

/-- **A refresh that brings credits brings the account back** exactly when the last commit since the
402 that changed its status is that of a success.  The refresh itself plays no part. -/
theorem restored_iff (hf : RoundTrips env) (hp : Reachable env p)
    (hrow : p.store.account? id = some row) (hcommit : commits env p m = some session)
    (hstep : step env p m = some p₁)
    (hexhausted : exhausts id session = true ∧ (p₁.store.account? id).map (·.status) =
      some (some FirecrawlAccountStatus.creditExhausted.value))
    (hms : Meets (step env) (fun p m => ∀ s ∈ commits env p m, operatorUpdate? id s = none) p₁ ms)
    (hrun : run (step env) p₁ ms = some p') {accounts : List FirecrawlAccount}
    (haccounts : listAccounts env p'.store = .ok accounts) {a : FirecrawlAccount}
    (ha : a ∈ accounts) (hid : a.id = id) (endpoint : String) (estimate now : ℤ) :
    (Refilled id estimate (history env p₁ ms) →
        ¬ RejectedByStatus accounts endpoint estimate (.utc now) a) ↔
      (Refilled id estimate (history env p₁ ms) →
        lastChangedBySuccess (·.status) id (history env p₁ ms) = true) := by
  refine imp_congr_right fun _ => ?_
  obtain ⟨-, dbNow, hstore, -⟩ := store_of_commits hcommit hstep
  have hrow₁ : p₁.store.account? id = some (session.flushAccount row) := by
    rw [hstore, account?_flush hrow]
  have hnotActive : (session.flushAccount row).status ≠
      some FirecrawlAccountStatus.active.value := by
    rw [hrow₁] at hexhausted
    have hstatus : (session.flushAccount row).status = _ := Option.some.inj hexhausted.2
    rw [hstatus]
    decide
  have hoperator : ∀ s ∈ history env p₁ ms, operatorUpdate? id s = none := forall_mem_trace hms
  have hstored : WellFormed env p'.store :=
    (Reachable.sound hf (hp.run (run_cons.2 ⟨p₁, hstep, hrun⟩))).1
  -- the account of the listing is the row with its id
  obtain ⟨r, hr, htodomain⟩ := exists_row_of_mem_listAccounts haccounts ha
  have hr' := account?_of_mem hstored.ids hr
  rw [← toDomainAccount_id htodomain, hid, account?_run hrow₁ hrun] at hr'
  obtain ⟨credentials, status, -, hst, rfl⟩ := toDomainAccount_eq_ok.1 htodomain
  rw [rejectedByStatus_iff, not_not,
    ← status_active_iff hoperator (id_of_account? hrow₁) hnotActive, Option.some.inj hr', hst]
  cases status <;> simp [FirecrawlAccountStatus.value]

/-- The sample account as the router sees it when it has run out of credits and a refresh has
brought a thousand. -/
def exhaustedAccount : FirecrawlAccount :=
  { limitedAccount with
    remainingCredits := 1000, status := .creditExhausted, cooldownUntil := none }

/-- The only request of the sample account is answered 402.  A refresh brings a thousand credits,
and the account is still rejected. -/
theorem never_restored : let env := sampleEnv .sqlite
    let p := after env (sampleState .sqlite) (sendPost 2 mapPost 0 ++
      [.act 2 (.answer { status := 402 } 0 0), .act 2 .get])
    let p₁ := after env p [.act 2 (.commit 0)]
    let p' := after env p₁ (refreshTo 3 1000)
    Reachable env p ∧ (commits env p (.act 2 (.commit 0))).map (exhausts "account-1") = some true ∧
    step env p (.act 2 (.commit 0)) = some p₁ ∧
    (p₁.store.account? "account-1").map (·.status) = some (some "credit_exhausted") ∧
    Run.run (step env) p₁ (refreshTo 3 1000) = some p' ∧
    Refilled "account-1" 1 (history env p₁ (refreshTo 3 1000)) ∧
    listAccounts env p'.store = .ok [exhaustedAccount] ∧
    ∀ now, RejectedByStatus [exhaustedAccount] "map" 1 (.utc now) exhaustedAccount :=
  ⟨reachable_after (reachable_sampleState _) _, by decide, rfl, by decide, run_after (by decide),
    ⟨_, List.mem_singleton_self _, 1000, rfl, by decide, by decide⟩, rfl, fun _ => rfl⟩

/-- Three requests of the sample account are with the upstream, and one is answered 402. -/
def exhaustedSample : State := after (sampleEnv .sqlite) (sampleState .sqlite)
  (sendPost 2 mapPost 0 ++ sendPost 3 mapPost 0 ++ sendPost 4 mapPost 0 ++
    [.act 2 (.answer { status := 402 } 0 0), .act 2 .get])

/-- Another is answered 429, the third ends with 200, and a refresh brings a thousand credits. -/
def refilledSample : List Event :=
  settle 3 { status := 429 } 0 ++ settle 4 { status := 200 } 0 ++ refreshTo 5 1000

/-- The account comes back. -/
theorem restored_sample :
    ¬ RejectedByStatus [{ exhaustedAccount with status := .active }] "map" 1 (.utc 0)
      { exhaustedAccount with status := .active } := by
  have hrun : Run.run (step (sampleEnv .sqlite))
      (after (sampleEnv .sqlite) exhaustedSample [.act 2 (.commit 0)]) refilledSample =
      some (after (sampleEnv .sqlite)
        (after (sampleEnv .sqlite) exhaustedSample [.act 2 (.commit 0)]) refilledSample) :=
    run_after (by decide)
  have hrow : exhaustedSample.store.account? "account-1" = some _ := rfl
  refine (restored_iff (p := exhaustedSample) (m := .act 2 (.commit 0))
    (roundTrips_sampleEnv _) (reachable_after (reachable_sampleState _) _) hrow (by rfl)
    (by rfl) (by decide) (by decide) hrun (by rfl) (List.mem_singleton_self _) rfl "map" 1 0).2
    (fun _ => by decide) ⟨_, List.mem_cons_of_mem _ (List.mem_cons_of_mem _
      (List.mem_singleton_self _)), 1000, rfl, by decide, by decide⟩

end Restored

end FirecrawlLb.Firecrawl.Exhausted
