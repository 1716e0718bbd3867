import FirecrawlLb.Firecrawl.Status

/-!
# A rate limit, before and after its end

The commits after a 429 decide what the account looks like: each of the two columns holds what the
last commit that changed it left there (`column_foldl`).
-/

namespace FirecrawlLb.Firecrawl.Cooldown

open FirecrawlLb.Lib FirecrawlLb.Lib.Tasks FirecrawlLb.Lib.Run FirecrawlLb.Python
open FirecrawlLb.Db.Models FirecrawlLb.Firecrawl.Models FirecrawlLb.Firecrawl.Schemas
open FirecrawlLb.Firecrawl.Usage FirecrawlLb.Firecrawl.Routing FirecrawlLb.Firecrawl.Selection
open FirecrawlLb.Firecrawl.Repository FirecrawlLb.Firecrawl.Service FirecrawlLb.Firecrawl.System
open FirecrawlLb.Firecrawl.Stored FirecrawlLb.Firecrawl.Status

/-! ### The last edit of a column -/

/-- The sessions a run commits, in their order. -/
def history (env : Env) (p : State) (ms : List Event) : List Session :=
  trace (step env) (commits env) p ms

section LastEdit

variable {γ : Type} [DecidableEq γ] (col : FirecrawlAccountRecord → γ) (id : String)

/-- The edit of the account in a session, when it changes the column. -/
def changes (s : Session) : Option AccountEdit :=
  (s.edit? id).filter fun e => col e.object.value ≠ col e.read

/-- The last edit that changed the column of the account. -/
def lastEdit (ss : List Session) : Option AccountEdit := (ss.filterMap (changes col id)).getLast?

/-- The last edit that changed the column is a success. -/
def lastChangedBySuccess (ss : List Session) : Bool :=
  match lastEdit col id ss with
  | some ⟨_, .applySuccess _⟩ => true
  | _ => false

variable {col id}

theorem lastEdit_concat (ss : List Session) (s : Session) :
    lastEdit col id (ss ++ [s]) = (changes col id s).or (lastEdit col id ss) := by
  unfold lastEdit
  rw [List.filterMap_append, List.filterMap_cons, List.filterMap_nil]
  cases changes col id s <;> simp

theorem exists_of_lastEdit {ss : List Session} {e : AccountEdit} (h : lastEdit col id ss = some e) :
    ∃ s ∈ ss, s.edit? id = some e ∧ col e.object.value ≠ col e.read := by
  obtain ⟨s, hs, he⟩ := List.mem_filterMap.1 (List.mem_of_getLast? h)
  obtain ⟨he, hne⟩ := Option.filter_eq_some_iff.1 he
  exact ⟨s, hs, he, by simpa using hne⟩

/-- **A column holds what the last edit that changed it left there.** -/
theorem column_foldl (col : FirecrawlAccountRecord → γ) {store : γ → γ}
    (hcol : ∀ (e : AccountEdit) row, col (FirecrawlAccountRecord.flush e.object row) =
      column store (col e.read) (col e.object.value) (col row))
    (ss : List Session) (row : FirecrawlAccountRecord) (hid : row.id = id) :
    (ss.foldl (fun row s => s.flushAccount row) row).id = id ∧
    col (ss.foldl (fun row s => s.flushAccount row) row) =
      (lastEdit col id ss).elim (col row) fun e => store (col e.object.value) := by
  induction ss using List.reverseRecOn with
  | nil => exact ⟨hid, rfl⟩
  | append_singleton ss s ih =>
    rw [List.foldl_append, List.foldl_cons, List.foldl_nil, lastEdit_concat]
    generalize ss.foldl (fun row s => s.flushAccount row) row = r at ih ⊢
    obtain ⟨rfl, ih⟩ := ih
    refine ⟨flushAccount_id s r, ?_⟩
    rcases flushAccount_cases s r with ⟨he, hf⟩ | ⟨e, -, he, -, hf⟩ <;> rw [hf]
    · simp [changes, he, ih]
    · by_cases hne : col e.object.value = col e.read
      · simp [changes, he, hcol, column, Option.filter_some, hne, ih]
      · simp [changes, he, hcol, column, Option.filter_some, hne]

end LastEdit

/-! ### Before the end of a cooldown -/

section Respected

variable {env : Env} {id : String} {p p₁ : State} {m : Event} {ms : List Event}
  {row : FirecrawlAccountRecord} {session : Session} {c : ℤ}

theorem cooldown_after_rateLimit (hf : RoundTrips env) (hp : Reachable env p)
    (hrow : p.store.account? id = some row) (hcommit : commits env p m = some session)
    (hlimit : rateLimit? id session = some (.utc c)) (hstep : step env p m = some p₁) :
    p₁.store.account? id = some (session.flushAccount row) ∧
      (session.flushAccount row).cooldownUntil = some (.naive c) := by
  have hid : row.id = id := id_of_account? hrow
  obtain ⟨hmem, dbNow, hstore, -⟩ := store_of_commits hcommit hstep
  refine ⟨by rw [hstore, account?_flush hrow], ?_⟩
  obtain ⟨e, he, hw⟩ := exists_edit_of_rateLimit? hlimit
  have hread : AccountOk e.read :=
    ((Reachable.sound hf hp).2 _ hmem).reads e (List.mem_of_find?_eq_some he)
  have hvalue : e.object.value.cooldownUntil = some (.utc c) := by
    obtain ⟨read, write⟩ := e
    obtain rfl : write = _ := hw
    rfl
  have hne : e.object.value.cooldownUntil ≠ e.read.cooldownUntil := by
    intro h
    have := hread.cooldown (.utc c) (by rw [← h, hvalue])
    cases this
  subst hid
  rcases flushAccount_cases session row with ⟨hnone, -⟩ | ⟨e', -, he', -, hflush⟩
  · rw [he] at hnone
    cases hnone
  · obtain rfl : e = e' := Option.some.inj (he.symm.trans he')
    rw [hflush, flush_cooldownUntil, column_changed hne, hvalue]
    rfl

/-- **A cooldown is respected** as long as no selection under way has read the account as active
before the 429 is committed, and no success that read it as rate limited is committed afterwards: no
selection returns the account, unless its operator changes the status or the cooldown. -/
theorem cooldown_respected (hf : RoundTrips env) (hp : Reachable env p)
    (hrow : p.store.account? id = some row) (hcommit : commits env p m = some session)
    (hlimit : rateLimit? id session = some (.utc c)) (hstep : step env p m = some p₁)
    (hseen : ∀ t ∈ p₁.tasks, SeenShut id t)
    (hms : Meets (step env) (fun p m => ∀ s ∈ commits env p m, restores id s = false ∧
      ∀ payload ∈ operatorUpdate? id s, payload.status = none ∧ payload.cooldownUntil = none)
      p₁ ms) :
    Meets (step env) (PassesOver id) p₁ ms := by
  obtain ⟨hrow₁, hcooldown⟩ := cooldown_after_rateLimit hf hp hrow hcommit hlimit hstep
  refine meets_passesOver (K := Barred) (fun _ h => h) (fun s row hC hid h => ?_)
    (Reachable.sound hf (hp.run (run_cons.2 ⟨p₁, hstep, run_nil⟩))).1.ids hrow₁
    (fun _ => ⟨_, hcooldown, rfl⟩) hseen hms
  subst hid
  exact barred_flush hC.1 hC.2 h

/-- Two requests of the sample account are with the upstream, and one is answered 429 with a
`Retry-After` of an hour. -/
def rateLimitSample : State := after (sampleEnv .sqlite) (sampleState .sqlite)
  (sendPost 2 mapPost 0 ++ sendPost 3 mapPost 0 ++
    [.act 2 (.answer { status := 429, headers := [("retry-after", "3600")] } 0 0), .act 2 .get])

/-- The 429 is committed. -/
def rateLimitedSample : State := after (sampleEnv .sqlite) rateLimitSample [.act 2 (.commit 0)]

/-- The other request, sent before the 429, ends with 200 one second later, and another second later
a selection returns the account, within the hour. -/
theorem cooldown_cut_short : let env := sampleEnv .sqlite
    let ms := settle 3 { status := 200 } 1000000 ++
      [.spawn (.post mapPost), .act 4 .refreshCredentials]
    Reachable env rateLimitSample ∧
    step env rateLimitSample (.act 2 (.commit 0)) = some rateLimitedSample ∧
    (commits env rateLimitSample (.act 2 (.commit 0))).bind (rateLimit? "account-1") =
      some (.utc 3600000000) ∧
    (∀ t ∈ rateLimitedSample.tasks, SeenShut "account-1" t) ∧
    Meets (step env) (fun p m => ∀ s ∈ commits env p m, operatorUpdate? "account-1" s = none)
      rateLimitedSample ms ∧
    Run.run (step env) rateLimitedSample ms = some (after env rateLimitedSample ms) ∧
    (2000000 : ℤ) < 3600000000 ∧
    ¬ PassesOver "account-1" (after env rateLimitedSample ms) (.act 4 (.select 2000000)) :=
  ⟨reachable_after (reachable_sampleState _) _, rfl, by decide, by decide, by decide,
    run_after (by decide), by decide, by decide⟩

/-- The other request ends with 500, and a new one finds no account. -/
theorem cooldown_respected_sample :
    Meets (step (sampleEnv .sqlite)) (PassesOver "account-1") rateLimitedSample
      ([.act 3 (.answer { status := 500 } 1000000 0), .act 3 (.commit 1000000)] ++
        sendPost 4 mapPost 2000000) :=
  cooldown_respected (p := rateLimitSample) (m := .act 2 (.commit 0)) (c := 3600000000)
    (roundTrips_sampleEnv _) (reachable_after (reachable_sampleState _) _) (by rfl) (by rfl)
    (by rfl) (by rfl) (by decide) (by decide)

end Respected

/-! ### After the end of a cooldown -/

section ComesBack

variable {env : Env} {id : String} {p p₁ p' : State} {m : Event} {ms : List Event}
  {row : FirecrawlAccountRecord} {session : Session} {c : ℤ} {ss : List Session}

theorem account?_run (hrow : p.store.account? id = some row)
    (hrun : run (step env) p ms = some p') : p'.store.account? id =
      some ((history env p ms).foldl (fun row s => s.flushAccount row) row) := by
  refine foldl_trace (C := fun _ _ => True) (fun p => p.store.account? id)
    (fun p m p' row _ hs hrow => ?_) meets_true hrow hrun
  rcases step_store hs with ⟨hnone, hstore, -⟩ | ⟨s, dbNow, hcommit, -, -, hstore, -⟩
  · rw [hnone, hstore, hrow]
    rfl
  · rw [hcommit, hstore, account?_flush hrow]
    rfl

/-- Without its operator, an account that is not active becomes so by a success only. -/
theorem status_active_iff (hoperator : ∀ s ∈ ss, operatorUpdate? id s = none) (hid : row.id = id)
    (hrow : row.status ≠ some FirecrawlAccountStatus.active.value) :
    (ss.foldl (fun row s => s.flushAccount row) row).status =
        some FirecrawlAccountStatus.active.value ↔
      lastChangedBySuccess (·.status) id ss = true := by
  rw [(column_foldl (·.status) flush_status ss row hid).2]
  unfold lastChangedBySuccess
  cases he : lastEdit (·.status) id ss with
  | none => simpa using hrow
  | some e =>
    obtain ⟨s, hs, hedit, hne⟩ := exists_of_lastEdit he
    rw [Option.elim_some, asIs]
    rcases status_cooldown_cases e with ⟨hst, -⟩ | ⟨u, hw, -, hst, -⟩ | ⟨hw, hst, -⟩ |
      ⟨u, hw, hst, -⟩ | ⟨payload, hw, -⟩
    · exact absurd hst hne
    · obtain ⟨read, write⟩ := e
      obtain rfl : write = _ := hw
      simp [hst]
    · obtain ⟨read, write⟩ := e
      obtain rfl : write = _ := hw
      simp [hst, FirecrawlAccountStatus.value]
    · obtain ⟨read, write⟩ := e
      obtain rfl : write = _ := hw
      simp [hst, FirecrawlAccountStatus.value]
    · have := hoperator s hs
      rw [operatorUpdate?_of_edit hedit hw] at this
      cases this

/-- Without its operator, the cooldown of an account is cleared by a success only. -/
theorem cooldownUntil_none_iff (hoperator : ∀ s ∈ ss, operatorUpdate? id s = none)
    (hid : row.id = id) (hrow : row.cooldownUntil ≠ none) :
    (ss.foldl (fun row s => s.flushAccount row) row).cooldownUntil = none ↔
      lastChangedBySuccess (·.cooldownUntil) id ss = true := by
  rw [(column_foldl (·.cooldownUntil) flush_cooldownUntil ss row hid).2]
  unfold lastChangedBySuccess
  cases he : lastEdit (·.cooldownUntil) id ss with
  | none => simp [hrow]
  | some e =>
    obtain ⟨s, hs, hedit, hne⟩ := exists_of_lastEdit he
    rw [Option.elim_some]
    rcases status_cooldown_cases e with ⟨-, hcd⟩ | ⟨u, hw, -, -, hcd⟩ | ⟨-, -, hcd⟩ |
      ⟨u, hw, -, hcd⟩ | ⟨payload, hw, -⟩
    · exact absurd hcd hne
    · obtain ⟨read, write⟩ := e
      obtain rfl : write = _ := hw
      simp [hcd, storeDateTime]
    · exact absurd hcd hne
    · obtain ⟨read, write⟩ := e
      obtain rfl : write = _ := hw
      simp [hcd, storeDateTime]
    · have := hoperator s hs
      rw [operatorUpdate?_of_edit hedit hw] at this
      cases this

/-- With room for the request, an account with a naive cooldown is eligible when it is active and
its cooldown is cleared. -/
theorem reasonOf_eq_none_iff_restored {accounts : List FirecrawlAccount} {endpoint : String}
    {estimate now : ℤ} {a : FirecrawlAccount} (hroom : HasRoom accounts endpoint estimate a)
    (hnaive : ∀ c, a.cooldownUntil = some c → c.isNaive = true) :
    reasonOf accounts endpoint estimate (.utc now) a = .ok none ↔
      a.status = .active ∧ a.cooldownUntil = none := by
  by_cases hcmp : CooldownComparable (.utc now) a
  · rw [reasonOf_eq_none_iff hcmp, hroom.eligible_iff]
    refine and_congr_right fun hs => ?_
    cases hc : a.cooldownUntil with
    | none => simp [Cooling, hc]
    | some c =>
      have := hcmp hs c hc
      rw [DateTime.Comparable, hnaive c hc, DateTime.isNaive_utc] at this
      cases this
  · rw [reasonOf, rejectionReason_typeError _ hcmp]
    constructor
    · intro h
      cases h
    · rintro ⟨-, hnone⟩
      exact absurd (fun _ c hc => by rw [hnone] at hc; cases hc) hcmp

/-- **A rate limited account comes back** exactly when the last commit that changed its status, and
the last that changed its cooldown, is that of a success.  The time that has passed since the end of
the cooldown plays no part. -/
theorem comes_back_iff (hf : RoundTrips env) (hp : Reachable env p)
    (hrow : p.store.account? id = some row) (hcommit : commits env p m = some session)
    (hlimit : rateLimit? id session = some (.utc c)) (hstep : step env p m = some p₁)
    (hlimited : (p₁.store.account? id).map (·.status) =
      some (some FirecrawlAccountStatus.rateLimited.value))
    (hms : Meets (step env) (fun p m => ∀ s ∈ commits env p m, operatorUpdate? id s = none) p₁ ms)
    (hrun : run (step env) p₁ ms = some p') {accounts : List FirecrawlAccount}
    (haccounts : listAccounts env p'.store = .ok accounts) {a : FirecrawlAccount}
    (ha : a ∈ accounts) (hid : a.id = id) {endpoint : String} {estimate : ℤ}
    (hroom : HasRoom accounts endpoint estimate a) (now : ℤ) :
    reasonOf accounts endpoint estimate (.utc now) a = .ok none ↔
      lastChangedBySuccess (·.status) id (history env p₁ ms) = true ∧
      lastChangedBySuccess (·.cooldownUntil) id (history env p₁ ms) = true := by
  obtain ⟨hrow₁, hcooldown⟩ := cooldown_after_rateLimit hf hp hrow hcommit hlimit hstep
  have hrow' := account?_run hrow₁ hrun
  have hoperator : ∀ s ∈ history env p₁ ms, operatorUpdate? id s = none := forall_mem_trace hms
  have hid₁ : (session.flushAccount row).id = id := id_of_account? hrow₁
  have hnotActive : (session.flushAccount row).status ≠
      some FirecrawlAccountStatus.active.value := by
    rw [hrow₁] at hlimited
    have hstatus : (session.flushAccount row).status = _ := Option.some.inj hlimited
    rw [hstatus]
    decide
  have hstored : WellFormed env p'.store :=
    (Reachable.sound hf (hp.run (run_cons.2 ⟨p₁, hstep, hrun⟩))).1
  -- the account of the listing is the row with its id
  obtain ⟨r, hr, htodomain⟩ := exists_row_of_mem_listAccounts haccounts ha
  have hr' := account?_of_mem hstored.ids hr
  rw [← toDomainAccount_id htodomain, hid, hrow'] at hr'
  obtain ⟨credentials, status, -, hst, rfl⟩ := toDomainAccount_eq_ok.1 htodomain
  rw [reasonOf_eq_none_iff_restored hroom (hstored.accounts r hr).cooldown,
    ← status_active_iff hoperator hid₁ hnotActive,
    ← cooldownUntil_none_iff hoperator hid₁ (by simp [hcooldown]), Option.some.inj hr', hst]
  cases status <;> simp [FirecrawlAccountStatus.value]

/-- The sample account as the router sees it when it is rate limited for a minute. -/
def limitedAccount : FirecrawlAccount where
  id := "account-1"
  teamLabel := "team-1"
  planType := "free"
  remainingCredits := 100
  planCredits := 1
  status := .rateLimited
  credentials := [{ id := "credential-1", apiKey := "fc-1" }]
  cooldownUntil := some (.naive 60000000)

/-- The only request of the sample account is answered 429, and the account never comes back. -/
theorem never_comes_back : let env := sampleEnv .sqlite
    let p := after env (sampleState .sqlite) (sendPost 2 mapPost 0 ++
      [.act 2 (.answer { status := 429 } 0 0), .act 2 .get])
    let p₁ := after env p [.act 2 (.commit 0)]
    Reachable env p ∧ (p.store.account? "account-1").map (·.status) = some (some "active") ∧
    (commits env p (.act 2 (.commit 0))).bind (rateLimit? "account-1") = some (.utc 60000000) ∧
    step env p (.act 2 (.commit 0)) = some p₁ ∧
    (p₁.store.account? "account-1").map (·.status) = some (some "rate_limited") ∧
    listAccounts env p₁.store = .ok [limitedAccount] ∧
    HasRoom [limitedAccount] "map" 1 limitedAccount ∧
    ∀ now, 60000000 ≤ now → reasonOf [limitedAccount] "map" 1 (.utc now) limitedAccount =
      .ok (some "status=rate_limited") :=
  ⟨reachable_after (reachable_sampleState _) _, by decide, by decide, rfl, by decide, rfl,
    ⟨by decide, ⟨_, List.mem_singleton_self _, rfl⟩, by decide, by decide, by decide, by decide⟩,
    fun _ _ => rfl⟩

/-- The sample account once a success has restored it. -/
def restoredAccount : FirecrawlAccount :=
  { limitedAccount with remainingCredits := 99, status := .active, cooldownUntil := none }

/-- A request in flight across the 429 ends with 200, and the account comes back. -/
theorem comes_back_sample :
    reasonOf [restoredAccount] "map" 1 (.utc 3600000000) restoredAccount = .ok none :=
  have hrun : Run.run (step (sampleEnv .sqlite)) rateLimitedSample
      (settle 3 { status := 200 } 1000000) = some (after (sampleEnv .sqlite) rateLimitedSample
      (settle 3 { status := 200 } 1000000)) := run_after (by decide)
  (comes_back_iff (p := rateLimitSample) (m := .act 2 (.commit 0)) (roundTrips_sampleEnv _)
    (reachable_after (reachable_sampleState _) _) (by rfl) (by rfl) (by rfl) (by rfl) (by decide)
    (by decide) hrun (by rfl) (List.mem_singleton_self restoredAccount) rfl
    ⟨by decide, ⟨_, List.mem_singleton_self _, rfl⟩, by decide, by decide, by decide, by decide⟩
    3600000000).2 ⟨by decide, by decide⟩

end ComesBack

end FirecrawlLb.Firecrawl.Cooldown
