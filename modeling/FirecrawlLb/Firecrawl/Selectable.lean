import FirecrawlLb.Firecrawl.Cooldown

/-!
# Every selection has an outcome

A selection over the stored accounts returns an account or says that there is none, unless an active
account has a cooldown: the column gives it back without a time zone, and the clock has one.
-/

namespace FirecrawlLb.Firecrawl.Selectable

open FirecrawlLb.Lib FirecrawlLb.Lib.Tasks FirecrawlLb.Lib.Run FirecrawlLb.Python
open FirecrawlLb.Db.Models FirecrawlLb.Firecrawl.Models FirecrawlLb.Firecrawl.Schemas
open FirecrawlLb.Firecrawl.Usage FirecrawlLb.Firecrawl.Routing FirecrawlLb.Firecrawl.Selection
open FirecrawlLb.Firecrawl.Repository FirecrawlLb.Firecrawl.Service FirecrawlLb.Firecrawl.System
open FirecrawlLb.Firecrawl.Stored FirecrawlLb.Firecrawl.Status FirecrawlLb.Firecrawl.Cooldown

/-- **A selection has an outcome**: it returns an account or says that there is none, whatever the
endpoint and the payload, as long as the request has an estimate. -/
def HasOutcome (env : Env) (db : Database) : Prop :=
  ∀ endpoint payload now, (∃ estimate, estimateFromPayload endpoint payload = .ok estimate) →
    ∃ accounts, listAccounts env db = .ok accounts ∧
      ((∃ selected, selectAccount accounts endpoint payload (.utc now) = .ok selected) ∨
        ∃ rejections, selectAccount accounts endpoint payload (.utc now) =
          .error (.noFirecrawlAccountAvailable endpoint rejections))

/-- An active row has no cooldown. -/
def Cleared (row : FirecrawlAccountRecord) : Prop :=
  row.status = some FirecrawlAccountStatus.active.value → row.cooldownUntil = none

instance : DecidablePred Cleared := fun row => by unfold Cleared; infer_instance

section Database

variable {env : Env} {db : Database} {accounts : List FirecrawlAccount} {now : ℤ}

theorem cooldownComparable_of_cleared (haccounts : listAccounts env db = .ok accounts)
    (h : ∀ row ∈ db.accounts, Cleared row) : ∀ a ∈ accounts, CooldownComparable (.utc now) a := by
  intro a ha hactive c hc
  obtain ⟨row, hrow, htodomain⟩ := exists_row_of_mem_listAccounts haccounts ha
  obtain ⟨credentials, status, -, hst, rfl⟩ := toDomainAccount_eq_ok.1 htodomain
  obtain rfl : status = .active := hactive
  have hcooldown : row.cooldownUntil = some c := hc
  rw [h row hrow hst] at hcooldown
  cases hcooldown

theorem exists_incomparable (now : ℤ) (hdb : WellFormed env db)
    (haccounts : listAccounts env db = .ok accounts) {row : FirecrawlAccountRecord}
    (hrow : row ∈ db.accounts) (hbad : ¬ Cleared row) :
    ∃ a ∈ accounts, ¬ CooldownComparable (.utc now) a := by
  obtain ⟨a, ha, htodomain⟩ := forall₂_mem_left (mapM_eq_ok.1 haccounts) (mem_orderById.2 hrow)
  refine ⟨a, ha, fun hcmp => hbad fun hactive => ?_⟩
  obtain ⟨credentials, status, -, hst, rfl⟩ := toDomainAccount_eq_ok.1 htodomain
  cases hc : row.cooldownUntil with
  | none => rfl
  | some c =>
    have hstatus : status = .active := by
      rw [hst] at hactive
      cases status <;> simp_all [FirecrawlAccountStatus.value]
    have := hcmp hstatus c hc
    rw [DateTime.Comparable, (hdb.accounts row hrow).cooldown c hc, DateTime.isNaive_utc] at this
    cases this

theorem hasOutcome_iff (hdb : WellFormed env db) :
    HasOutcome env db ↔ ∀ row ∈ db.accounts, Cleared row := by
  obtain ⟨accounts, haccounts⟩ := hdb.listAccounts_isOk
  constructor
  · intro h
    by_contra hbad
    simp only [not_forall] at hbad
    obtain ⟨row, hrow, hbad⟩ := hbad
    have herr := selectAccount_typeError (show estimateFromPayload "map" [] = .ok 1 from rfl)
      (exists_incomparable 0 hdb haccounts hrow hbad)
    obtain ⟨accounts', haccounts', hsel⟩ := h "map" [] 0 ⟨1, rfl⟩
    obtain rfl : accounts = accounts' := Except.ok.inj (haccounts.symm.trans haccounts')
    rcases hsel with ⟨selected, hs⟩ | ⟨rejections, hs⟩ <;> rw [herr] at hs <;> cases hs
  · rintro h endpoint payload now ⟨estimate, hest⟩
    refine ⟨accounts, haccounts, ?_⟩
    have hids := (listAccounts_ids haccounts).nodup_iff.2 hdb.ids
    rcases selectAccount_cases hids hest (cooldownComparable_of_cleared haccounts h) with
      ⟨selected, hs, -⟩ | ⟨-, rejections, hs, -⟩
    · exact Or.inl ⟨selected, hs⟩
    · exact Or.inr ⟨rejections, hs⟩

end Database

section Runs

variable {env : Env} {p : State} {ms : List Event}

/-- **Along a run from the empty database every selection has an outcome** exactly when no commit
leaves an account active with a cooldown. -/
theorem always_hasOutcome_iff (hf : RoundTrips env) :
    Always (step env) (fun p => HasOutcome env p.store) ⟨Database.empty, []⟩ ms ↔
      Meets (step env) (fun p m => ∀ s ∈ commits env p m, ∀ row ∈ p.store.accounts,
        Cleared (s.flushAccount row)) ⟨Database.empty, []⟩ ms := by
  have hstart : Sound env ⟨Database.empty, []⟩ := Reachable.sound hf (reachable_empty env)
  have hfirst : HasOutcome env Database.empty :=
    (hasOutcome_iff hstart.1).2 (by simp [Database.empty])
  have hiff : ∀ p m, Sound env p → True → HasOutcome env p.store →
      ((∀ p', step env p m = some p' → HasOutcome env p'.store) ↔
        ∀ s ∈ commits env p m, ∀ row ∈ p.store.accounts, Cleared (s.flushAccount row)) := by
    intro p m hI _ hP
    have hcleared := (hasOutcome_iff hI.1).1 hP
    constructor
    · intro hnext s hs row hrow
      obtain ⟨p', hstep⟩ := step_of_commits hs
      obtain ⟨-, dbNow, hstore, -⟩ := store_of_commits hs hstep
      have hcleared' := (hasOutcome_iff (hI.step hf hstep).1).1 (hnext p' hstep)
      have hmem : s.flushAccount row ∈ p'.store.accounts := by
        rw [hstore]
        exact mem_flush_accounts.2 (Or.inl ⟨row, hrow, rfl⟩)
      exact hcleared' _ hmem
    · intro hC p' hstep
      refine (hasOutcome_iff (hI.step hf hstep).1).2 fun row hrow => ?_
      rcases step_store hstep with ⟨-, hstore, -⟩ | ⟨s, dbNow, hs, hmem, -, hstore, -⟩
      · exact hcleared row (hstore ▸ hrow)
      · rw [hstore] at hrow
        rcases mem_flush_accounts.1 hrow with ⟨r, hr, rfl⟩ | hnew
        · exact hC s hs r hr
        · exact fun _ => ((hI.2 _ hmem).newAccount row hnew).2
  exact always_iff_meets (B := fun _ _ => True) (fun p m p' hI _ _ hs => hI.step hf hs) hiff hstart
    meets_true hfirst

/-- The rate limited sample account after its operator has made it active again. -/
def reactivatedAccount : FirecrawlAccount :=
  { limitedAccount with status := .active, cooldownUntil := some (.naive 3600000000) }

/-- The operator makes the rate limited account active, and every selection raises `TypeError`. -/
theorem typeError_after_reactivation : let env := sampleEnv .sqlite
    let p := after env rateLimitedSample
      [.spawn (.updateAccount "account-1" { status := some (some "active") }), .act 4 (.commit 0)]
    Reachable env p ∧ listAccounts env p.store = .ok [reactivatedAccount] ∧
    (∀ now, selectAccount [reactivatedAccount] "map" [] (.utc now) = .error .typeError) ∧
    ¬ HasOutcome env p.store := by
  have herr : ∀ now, selectAccount [reactivatedAccount] "map" [] (.utc now) = .error .typeError :=
    fun now => selectAccount_typeError (show estimateFromPayload "map" [] = .ok 1 from rfl)
      ⟨reactivatedAccount, by simp, fun h => by cases h rfl _ rfl⟩
  refine ⟨reachable_after (reachable_after (reachable_after (reachable_sampleState _) _) _) _, rfl,
    herr, fun h => ?_⟩
  obtain ⟨accounts, haccounts, hsel⟩ := h "map" [] 0 ⟨1, rfl⟩
  obtain rfl : [reactivatedAccount] = accounts := Except.ok.inj haccounts
  rcases hsel with ⟨selected, hs⟩ | ⟨rejections, hs⟩ <;> rw [herr 0] at hs <;> cases hs

/-- The account is created and used, and selections have an outcome all the way. -/
theorem always_hasOutcome_sample :
    Always (step (sampleEnv .sqlite)) (fun p => HasOutcome (sampleEnv .sqlite) p.store)
      ⟨Database.empty, []⟩
      (sampleSetup ++ sendPost 2 mapPost 0 ++ settle 2 { status := 200 } 1000000) :=
  (always_hasOutcome_iff (roundTrips_sampleEnv _)).2 (by decide)

end Runs

end FirecrawlLb.Firecrawl.Selectable
