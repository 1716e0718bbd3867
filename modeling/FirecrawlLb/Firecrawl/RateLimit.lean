import FirecrawlLb.Firecrawl.Concurrency
import FirecrawlLb.Lib.Window

/-!
# The request rate of an account

The router compares a counter of requests with the limit of the plan, and the rate of an account
stays within that limit as long as the counter counts the requests of the minute.  No call counts
its own request, and the mapping from a row to an account leaves the counter empty; the limit of the
row is not read at all.
-/

namespace FirecrawlLb.Firecrawl.RateLimit

open FirecrawlLb.Lib FirecrawlLb.Lib.Tasks FirecrawlLb.Lib.Run FirecrawlLb.Python
open FirecrawlLb.Db.Models FirecrawlLb.Firecrawl.Models FirecrawlLb.Firecrawl.Routing
open FirecrawlLb.Firecrawl.Selection FirecrawlLb.Firecrawl.Repository
open FirecrawlLb.Firecrawl.Service FirecrawlLb.Firecrawl.System FirecrawlLb.Firecrawl.Stored
open FirecrawlLb.Firecrawl.Concurrency

/-! ### The limit -/

/-- The requests a minute the plan of a row allows for an endpoint. -/
def planRpmLimit (row : FirecrawlAccountRecord) (endpoint : String) : ℤ :=
  match endpointRpmByPlan.lookup row.planType with
  | none => defaultRpmLimit
  | some planLimits => (planLimits.lookup endpoint).getD defaultRpmLimit

/-- The smaller of the limit of the plan and the one the operator has set. -/
def rpmLimitOf (row : FirecrawlAccountRecord) (endpoint : String) : ℤ :=
  row.rpmLimit.elim (planRpmLimit row endpoint) (min (planRpmLimit row endpoint))

theorem mem_of_lookup {β : Type*} {l : List (String × β)} {k : String} {v : β}
    (h : l.lookup k = some v) : (k, v) ∈ l := by
  obtain ⟨before, after, rfl, -⟩ := List.lookup_eq_some_iff.1 h
  simp

theorem planRpmLimit_pos (row : FirecrawlAccountRecord) (endpoint : String) :
    0 < planRpmLimit row endpoint := by
  have htable : (endpointRpmByPlan.all fun plan => plan.2.all fun limit => 0 < limit.2) = true := by
    decide
  unfold planRpmLimit
  split
  · decide
  · rename_i planLimits hplan
    cases hlimit : planLimits.lookup endpoint with
    | none => decide
    | some limit =>
      have hplanLimits := List.all_eq_true.1 htable _ (mem_of_lookup hplan)
      simpa using List.all_eq_true.1 hplanLimits _ (mem_of_lookup hlimit)

/-- The limit of the plan decides where the operator's is not smaller. -/
theorem rpmLimitOf_eq {row : FirecrawlAccountRecord} {endpoint : String}
    (h : ∀ limit ∈ row.rpmLimit, planRpmLimit row endpoint ≤ limit) :
    rpmLimitOf row endpoint = planRpmLimit row endpoint := by
  unfold rpmLimitOf
  cases hlimit : row.rpmLimit with
  | none => rfl
  | some limit => exact min_eq_left (h limit hlimit)

theorem rpmLimit_of_toDomainAccount {env : Env} {row : FirecrawlAccountRecord}
    {records : List FirecrawlCredentialRecord} {a : FirecrawlAccount} (endpoint : String)
    (h : toDomainAccount env row records = .ok a) :
    rpmLimit a endpoint = planRpmLimit row endpoint := by
  obtain ⟨credentials, status, -, -, rfl⟩ := toDomainAccount_eq_ok.1 h
  rfl

theorem rpmLimitOf_flushAccount {s : Session} (h : PostSession s) (row : FirecrawlAccountRecord)
    (endpoint : String) : rpmLimitOf (s.flushAccount row) endpoint = rpmLimitOf row endpoint := by
  rcases flushAccount_cases s row with ⟨-, hf⟩ | ⟨e, he, -, -, hf⟩ <;> rw [hf]
  have hlimit : (FirecrawlAccountRecord.flush e.object row).rpmLimit =
      column asIs e.read.rpmLimit e.object.value.rpmLimit row.rpmLimit := rfl
  rw [(limits_of_fromPost (h.writes e he)).2, column_unchanged] at hlimit
  unfold rpmLimitOf
  rw [hlimit]
  rfl

theorem planRpmLimit_flushAccount (s : Session) (row : FirecrawlAccountRecord)
    (endpoint : String) :
    planRpmLimit (s.flushAccount row) endpoint = planRpmLimit row endpoint := by
  rcases flushAccount_cases s row with ⟨-, hf⟩ | ⟨e, -, -, -, hf⟩ <;> rw [hf]
  rfl

/-! ### The requests of an account -/

/-- The time at which the event forwards a request of the endpoint for the account. -/
def forwards (id endpoint : String) (p : State) : Event → Option ℤ
  | .act tid (.select now) =>
    match p.tasks[tid]? with
    | some (.listing post [] accounts) =>
      match selectAccount accounts post.endpoint post.payload (.utc now) with
      | .ok selected =>
        if selected.account.id = id ∧ post.endpoint = endpoint then some now else none
      | .error _ => none
    | _ => none
  | _ => none

/-- A minute in microseconds. -/
def minute : ℤ := 60000000

/-- The system with the times of the requests it has forwarded for the account and the endpoint. -/
abbrev rateStep (env : Env) (id endpoint : String) :
    State × List ℤ → Event → Option (State × List ℤ) :=
  recorded (step env) (forwards id endpoint)

/-- No window of a minute holds more of the requests than the limits of the account allow. -/
def WithinRate (id endpoint : String) (s : State × List ℤ) : Prop :=
  ∀ row ∈ s.1.store.account? id, Limited minute (rpmLimitOf row endpoint) s.2

/-- **A selection takes place while the counter is right**: in the account as it was listed, the
counter that the router compares with the limit counts the requests of every minute that the
selection falls in. -/
def Counts (id endpoint : String) (times : List ℤ) (s : Selecting) : Prop :=
  s.post.endpoint = endpoint → ∀ a ∈ s.accounts, a.id = id → ∀ t, t ≤ s.now → s.now < t + minute →
    inWindow minute t times ≤ a.rpmUsed.getD endpoint 0

section Requests

variable {env : Env} {id endpoint : String} {p p' : State} {m : Event} {ms : List Event}
  {db : Database} {times : List ℤ}

instance (s : Selecting) : Decidable (Counts id endpoint times s) :=
  have hroom : (s.post.endpoint = endpoint → ∀ a ∈ s.accounts, a.id = id →
      RoomFor minute (a.rpmUsed.getD endpoint 0 + 1) times s.now) ↔
      Counts id endpoint times s := by
    simp [RoomFor, Counts, Int.lt_add_one_iff]
  decidable_of_iff _ hroom

theorem exists_select_of_forwards {now : ℤ} (h : forwards id endpoint p m = some now) :
    ∃ tid post accounts selected, m = .act tid (.select now) ∧
      p.tasks[tid]? = some (.listing post [] accounts) ∧
      selectAccount accounts post.endpoint post.payload (.utc now) = .ok selected ∧
      selected.account.id = id ∧ post.endpoint = endpoint := by
  unfold forwards at h
  split at h
  · rename_i tid now'
    split at h
    · rename_i post accounts ht
      split at h
      · rename_i selected hsel
        split_ifs at h with hof
        obtain rfl := Option.some.inj h
        exact ⟨tid, post, accounts, selected, rfl, ht, hsel, hof⟩
      · cases h
    · cases h
  · cases h

/-- The account keeps the limit of its plan, as a row and as an account, and it has no smaller one
of its own. -/
def KeepsRate (id endpoint : String) (limit : ℤ) : State → Prop :=
  RowsKeep id (fun row => rpmLimitOf row endpoint = limit ∧ planRpmLimit row endpoint = limit)
    (rpmLimit · endpoint = limit)

theorem KeepsRate.step {limit : ℤ} (h : KeepsRate id endpoint limit p) (hm : startsPost m = true)
    (hs : step env p m = some p') : KeepsRate id endpoint limit p' := by
  refine RowsKeep.step (fun s row hs hlimit => ?_) (fun row records a ha hlimit => ?_) h hm hs
  · rwa [rpmLimitOf_flushAccount hs, planRpmLimit_flushAccount]
  · rw [rpmLimit_of_toDomainAccount endpoint ha, hlimit.2]

/-- The router's test makes the limit an invariant. -/
theorem limited_step {limit : ℤ} (hrows : KeepsRate id endpoint limit p)
    (hlimited : Limited minute limit times)
    (hcounts : ∀ s ∈ selecting p m, Counts id endpoint times s) :
    Limited minute limit (times ++ (forwards id endpoint p m).toList) := by
  cases hforwards : forwards id endpoint p m with
  | none => simpa using hlimited
  | some now =>
    obtain ⟨tid, post, accounts, selected, rfl, ht, hselect, hid, hendpoint⟩ :=
      exists_select_of_forwards hforwards
    obtain ⟨estimate, -, hmem, -, heligible⟩ := selectAccount_eligible hselect
    refine limited_append_singleton.2 ⟨hlimited, fun t htnow hnow => ?_⟩
    have hcount : inWindow minute t times ≤ selected.account.rpmUsed.getD endpoint 0 :=
      hcounts ⟨post, accounts, now⟩ (by simp [selecting, ht]) hendpoint _ hmem hid t htnow hnow
    have hroom := heligible.accountRpm
    rw [hendpoint, hrows.selected ht hmem hid] at hroom
    omega

theorem always_withinRate {row : FirecrawlAccountRecord}
    (hids : (db.accounts.map (·.id)).Nodup) (hrow : db.account? id = some row)
    (hms : Meets (step env) (fun _ m => startsPost m = true) ⟨db, []⟩ ms)
    (hoperator : ∀ limit ∈ row.rpmLimit, planRpmLimit row endpoint ≤ limit)
    (hcounts : Meets (rateStep env id endpoint) (fun s m => ∀ x ∈ selecting s.1 m,
      Counts id endpoint s.2 x) (⟨db, []⟩, []) ms) :
    Always (rateStep env id endpoint) (WithinRate id endpoint) (⟨db, []⟩, []) ms := by
  have hstart : KeepsRate id endpoint (planRpmLimit row endpoint) ⟨db, []⟩ :=
    rowsKeep_start hids hrow ⟨rpmLimitOf_eq hoperator, rfl⟩
  have hempty : Limited minute (planRpmLimit row endpoint) [] :=
    limited_nil.2 (planRpmLimit_pos row endpoint).le
  refine (always_of_meets (I := fun s => KeepsRate id endpoint (planRpmLimit row endpoint) s.1 ∧
    Limited minute (planRpmLimit row endpoint) s.2) ?_ ⟨hstart, hempty⟩
    ((meets_recorded.2 hms).and hcounts)).mono ?_
  · rintro s m s' ⟨hrows, hlimited⟩ ⟨hm, hC⟩ hs
    obtain ⟨hstep, htimes⟩ := recorded_eq_some.1 hs
    rw [htimes]
    exact ⟨hrows.step hm hstep, limited_step hrows hlimited hC⟩
  · rintro s ⟨hrows, hlimited⟩ row' hrow'
    rwa [(hrows.of_account? hrow').1]

end Requests

end FirecrawlLb.Firecrawl.RateLimit
