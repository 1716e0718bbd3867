import FirecrawlLb.Firecrawl.Selection
import FirecrawlLb.Firecrawl.Estimates
import FirecrawlLb.Firecrawl.Stored

/-!
# The weights of the score

A score is the sum of four terms, and its weights are documented as 0.45, 0.25, 0.20 and 0.10.  For
an account that is not rejected, the terms stay within their weights exactly when its balance is at
most its plan and the upstream has not reported a negative number of jobs for its team.
-/

namespace FirecrawlLb.Firecrawl.Weights

open FirecrawlLb.Lib FirecrawlLb.Python FirecrawlLb.Db.Models FirecrawlLb.Firecrawl.Models
open FirecrawlLb.Firecrawl.Usage FirecrawlLb.Firecrawl.Estimates FirecrawlLb.Firecrawl.Routing
open FirecrawlLb.Firecrawl.Selection FirecrawlLb.Firecrawl.Repository FirecrawlLb.Firecrawl.System
open FirecrawlLb.Firecrawl.Stored

/-! ### Ratios -/

section Ratios

variable {ratio weight : ℚ} {used limit : ℤ}

theorem term_mem_Icc_iff (hweight : 0 < weight) :
    ratio * weight ∈ Set.Icc 0 weight ↔ ratio ∈ Set.Icc 0 1 := by
  rw [Set.mem_Icc, Set.mem_Icc, mul_nonneg_iff_of_pos_right hweight,
    mul_le_iff_le_one_left hweight]

theorem share_mem_Icc_iff :
    (used / max 1 limit : ℚ) ∈ Set.Icc 0 1 ↔ 0 ≤ used ∧ used ≤ max 1 limit := by
  have hpos : (0 : ℚ) < (max 1 limit : ℤ) := Int.cast_pos.2 (lt_max_of_lt_left one_pos)
  rw [Set.mem_Icc, le_div_iff₀ hpos, zero_mul, div_le_one hpos, Int.cast_nonneg_iff, Int.cast_le]

theorem headroom_mem_Icc_iff :
    (1 - used / max 1 limit : ℚ) ∈ Set.Icc 0 1 ↔ 0 ≤ used ∧ used ≤ max 1 limit := by
  rw [← share_mem_Icc_iff, Set.mem_Icc, Set.mem_Icc, sub_nonneg, sub_le_self_iff, and_comm]

end Ratios

/-! ### The terms of a score -/

section Terms

variable (a : FirecrawlAccount) (endpoint : String) (u : TeamUsage)

def budgetTerm : ℚ := a.remainingCredits / max 1 a.planCredits * (45 / 100)

def rpmTerm : ℚ :=
  (1 - u.rpmUsedByEndpoint.getD endpoint 0 / max 1 (rpmLimit a endpoint)) * (25 / 100)

def concurrencyTerm : ℚ :=
  (1 - (u.inflight + u.activeJobs) / max 1 (concurrencyLimit a)) * (20 / 100)

def healthTerm : ℚ := 1 / (1 + max 0 a.recentErrorCount) * (10 / 100)

theorem scoreAccount_eq : scoreAccount a endpoint u =
    budgetTerm a + rpmTerm a endpoint u + concurrencyTerm a u + healthTerm a := rfl

/-- **Every factor keeps to its weight**, and so the score lies between zero and one. -/
structure WithinWeights : Prop where
  budget : budgetTerm a ∈ Set.Icc 0 (45 / 100)
  rpm : rpmTerm a endpoint u ∈ Set.Icc 0 (25 / 100)
  concurrency : concurrencyTerm a u ∈ Set.Icc 0 (20 / 100)
  health : healthTerm a ∈ Set.Icc 0 (10 / 100)
  score : scoreAccount a endpoint u ∈ Set.Icc 0 1

end Terms

section Bounds

variable {a : FirecrawlAccount} {endpoint : String} {u : TeamUsage}

theorem budgetTerm_mem_iff : budgetTerm a ∈ Set.Icc 0 (45 / 100) ↔
    0 ≤ a.remainingCredits ∧ a.remainingCredits ≤ max 1 a.planCredits :=
  (term_mem_Icc_iff (by norm_num)).trans share_mem_Icc_iff

theorem rpmTerm_mem_iff : rpmTerm a endpoint u ∈ Set.Icc 0 (25 / 100) ↔
    0 ≤ u.rpmUsedByEndpoint.getD endpoint 0 ∧
      u.rpmUsedByEndpoint.getD endpoint 0 ≤ max 1 (rpmLimit a endpoint) :=
  (term_mem_Icc_iff (by norm_num)).trans headroom_mem_Icc_iff

theorem concurrencyTerm_mem_iff : concurrencyTerm a u ∈ Set.Icc 0 (20 / 100) ↔
    0 ≤ u.inflight + u.activeJobs ∧ u.inflight + u.activeJobs ≤ max 1 (concurrencyLimit a) := by
  rw [concurrencyTerm, ← Int.cast_add]
  exact (term_mem_Icc_iff (by norm_num)).trans headroom_mem_Icc_iff

/-- The health term keeps to its weight whatever the number of errors. -/
theorem healthTerm_mem (a : FirecrawlAccount) : healthTerm a ∈ Set.Icc 0 (10 / 100) := by
  have hone : (1 : ℚ) ≤ 1 + (max 0 a.recentErrorCount : ℤ) :=
    le_add_of_nonneg_right (Int.cast_nonneg (le_max_left _ _))
  exact (term_mem_Icc_iff (by norm_num)).2
    ⟨one_div_nonneg.2 (zero_le_one.trans hone), div_le_one_of_le₀ hone (zero_le_one.trans hone)⟩

theorem withinWeights_of_terms (hbudget : budgetTerm a ∈ Set.Icc 0 (45 / 100))
    (hrpm : rpmTerm a endpoint u ∈ Set.Icc 0 (25 / 100))
    (hconcurrency : concurrencyTerm a u ∈ Set.Icc 0 (20 / 100)) :
    WithinWeights a endpoint u := by
  have hhealth := healthTerm_mem a
  refine ⟨hbudget, hrpm, hconcurrency, hhealth, ?_⟩
  rw [scoreAccount_eq]
  constructor
  · linarith [hbudget.1, hrpm.1, hconcurrency.1, hhealth.1]
  · linarith [hbudget.2, hrpm.2, hconcurrency.2, hhealth.2]

end Bounds

/-! ### Listed accounts -/

section Listed

variable {env : Env} {db : Database} {accounts : List FirecrawlAccount} {a : FirecrawlAccount}
  {endpoint : String} {payload : JsonObject} {estimate : ℤ} {now : DateTime}

/-- The repository fills in neither the requests of a minute nor those in flight. -/
theorem unused_of_mem_listAccounts (h : listAccounts env db = .ok accounts) (ha : a ∈ accounts) :
    a.rpmUsed = Dict.empty ∧ a.inflight = 0 := by
  obtain ⟨row, -, hrow⟩ := exists_row_of_mem_listAccounts h ha
  obtain ⟨credentials, status, -, -, rfl⟩ := toDomainAccount_eq_ok.1 hrow
  exact ⟨rfl, rfl⟩

theorem room_of_admitted {credential : Option FirecrawlCredential} {u : TeamUsage}
    (h : rejectionReason a credential endpoint estimate u now = .ok none) :
    roomReason a credential endpoint estimate u = none := by
  rw [rejectionReason_eq] at h
  split at h
  · cases h
  · obtain ⟨cooling, -, h⟩ := map_eq_ok.1 h
    cases cooling with
    | false => exact h
    | true => cases h

theorem teamTotal_eq_zero {f : FirecrawlAccount → ℤ} (h : ∀ b ∈ accounts, f b = 0)
    (label : String) : teamTotal f accounts label = 0 := by
  refine List.sum_eq_zero fun x hx => ?_
  obtain ⟨b, hb, rfl⟩ := List.mem_map.1 hx
  exact h b (List.mem_of_mem_filter hb)

/-- **The weights bound the factors** of an account that is not rejected exactly when its balance
is at most its plan, and the jobs reported for its team add up to no negative number. -/
theorem withinWeights_iff {u : TeamUsage} (hlist : listAccounts env db = .ok accounts)
    (hteam : (buildTeamUsage accounts).get? a.teamLabel = some u)
    (hestimate : estimateCredits endpoint payload none = .ok estimate)
    (hadmitted : rejectionReason a (activeCredential a.credentials) endpoint estimate u now =
      .ok none) :
    WithinWeights a endpoint u ↔ a.remainingCredits ≤ max 1 a.planCredits ∧
      0 ≤ teamTotal (·.queueActiveJobs) accounts a.teamLabel := by
  obtain rfl : usageOf accounts a = u := by rw [usageOf, Dict.getD, hteam, Option.getD_some]
  obtain ⟨hcredits, -, -, -, -, hlimit⟩ := roomReason_eq_none.1 (room_of_admitted hadmitted)
  have hone : 1 ≤ estimate := one_le_of_estimateFromPayload hestimate
  have hunused := fun b (hb : b ∈ accounts) => unused_of_mem_listAccounts hlist hb
  have hrpm : (usageOf accounts a).rpmUsedByEndpoint.getD endpoint 0 = 0 := by
    rw [usageOf_rpm]
    exact teamTotal_eq_zero (fun b hb => by rw [(hunused b hb).1]; rfl) _
  have hinflight : (usageOf accounts a).inflight = 0 := by
    rw [usageOf_inflight]
    exact teamTotal_eq_zero (fun b hb => (hunused b hb).2) _
  rw [teamTotal_add, ← usageOf_inflight, hinflight, zero_add] at hlimit
  constructor
  · intro h
    have hjobs := (concurrencyTerm_mem_iff.1 h.concurrency).1
    rw [hinflight, zero_add, usageOf_activeJobs] at hjobs
    exact ⟨(budgetTerm_mem_iff.1 h.budget).2, hjobs⟩
  · rintro ⟨hplan, hjobs⟩
    refine withinWeights_of_terms (budgetTerm_mem_iff.2 ⟨by omega, hplan⟩)
      (rpmTerm_mem_iff.2 ?_) (concurrencyTerm_mem_iff.2 ?_)
    · rw [hrpm]
      exact ⟨le_rfl, zero_le_one.trans (le_max_left _ _)⟩
    · rw [hinflight, zero_add, usageOf_activeJobs]
      exact ⟨hjobs, hlimit.le.trans (le_max_right _ _)⟩

end Listed

/-! ### Figures that outweigh the others -/

/-- The sample account as it is listed, with a plan and a number of jobs. -/
def listedSample (planCredits queueActiveJobs : ℤ) : FirecrawlAccount where
  id := "account-1"
  teamLabel := "team-1"
  planType := "free"
  remainingCredits := 100
  planCredits := planCredits
  credentials := [{ id := "credential-1", apiKey := "fc-1" }]
  queueActiveJobs := queueActiveJobs

/-- The events of a refresh pass that reports a plan of 100 credits and a number of jobs. -/
def reportJobs (tid : ℕ) (jobs : ℤ) : List Event :=
  [.spawn (.refreshOnce 0), .act tid .selectCredentials,
    .act tid (.refreshAccount
      (.answered { status := 200, jsonBody := some [("planCredits", .int 100)] })
      (.answered { status := 200, jsonBody := some [("activeJobs", .int jobs)] })),
    .act tid (.commit 0)]

/-- An account created with a balance and no plan has a budget term of 45, and one whose team runs
-5 jobs has a concurrency term of 0.7. -/
theorem weights_exceeded : let env := sampleEnv .sqlite
    let p := sampleState .sqlite
    let q := after env p (reportJobs 2 (-5))
    let a := listedSample 1 0
    let b := listedSample 100 (-5)
    estimateCredits "map" [] none = .ok 1 ∧
    Reachable env p ∧ listAccounts env p.store = .ok [a] ∧
    rejectionReason a (activeCredential a.credentials) "map" 1 (usageOf [a] a) (.utc 0) = .ok none ∧
    budgetTerm a = 45 ∧ ¬ WithinWeights a "map" (usageOf [a] a) ∧
    Reachable env q ∧ listAccounts env q.store = .ok [b] ∧
    rejectionReason b (activeCredential b.credentials) "map" 1 (usageOf [b] b) (.utc 0) = .ok none ∧
    concurrencyTerm b (usageOf [b] b) = 7 / 10 ∧ ¬ WithinWeights b "map" (usageOf [b] b) := by
  intro env p q a b
  have hbudget : budgetTerm a = 45 := by decide +kernel
  have hjobs : concurrencyTerm b (usageOf [b] b) = 7 / 10 := by decide +kernel
  refine ⟨rfl, reachable_sampleState _, rfl, rfl, hbudget, fun h => ?_,
    reachable_after (reachable_sampleState _) _, rfl, rfl, hjobs, fun h => ?_⟩
  · exact absurd (hbudget ▸ h.budget.2) (by norm_num)
  · exact absurd (hjobs ▸ h.concurrency.2) (by norm_num)

/-- A balance of 100 under a plan of 100, after a refresh that reports one job. -/
theorem withinWeights_iff_sample : let env := sampleEnv .sqlite
    let q := after env (sampleState .sqlite) (reportJobs 2 1)
    let a := listedSample 100 1
    listAccounts env q.store = .ok [a] ∧ WithinWeights a "map" (usageOf [a] a) := by
  intro env q a
  have hlist : listAccounts env q.store = .ok [a] := rfl
  have hestimate : estimateCredits "map" [] none = .ok 1 := rfl
  have hadmitted : rejectionReason a (activeCredential a.credentials) "map" 1 (usageOf [a] a)
      (.utc 0) = .ok none := rfl
  exact ⟨hlist, (withinWeights_iff hlist rfl hestimate hadmitted).2 (by decide)⟩

end FirecrawlLb.Firecrawl.Weights
