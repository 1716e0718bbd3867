import FirecrawlLb.Firecrawl.Models
import FirecrawlLb.Firecrawl.Usage
import FirecrawlLb.Lib.Results
import Mathlib.Data.Prod.Lex
import Mathlib.Data.String.Basic

/-!
# Account selection

`selectAccount` walks the accounts once, collects the candidates and the reasons against the
others, and takes the candidate with the greatest score and id.  A score is an exact rational.
-/

namespace FirecrawlLb.Firecrawl.Routing

open FirecrawlLb.Lib FirecrawlLb.Python FirecrawlLb.Firecrawl.Models FirecrawlLb.Firecrawl.Usage

/-! ### Limits -/

def endpointRpmByPlan : List (String × List (String × ℤ)) :=
  [("free", [("scrape", 10), ("map", 10), ("crawl", 1), ("search", 5), ("batch_scrape", 1)]),
    ("hobby", [("scrape", 100), ("map", 100), ("crawl", 15), ("search", 50),
      ("batch_scrape", 15)]),
    ("standard", [("scrape", 500), ("map", 500), ("crawl", 50), ("search", 250),
      ("batch_scrape", 50)]),
    ("growth", [("scrape", 5000), ("map", 5000), ("crawl", 250), ("search", 2500),
      ("batch_scrape", 250)])]

def concurrencyByPlan : List (String × ℤ) :=
  [("free", 2), ("hobby", 5), ("standard", 50), ("growth", 100)]

def defaultRpmLimit : ℤ := 10

def defaultConcurrencyLimit : ℤ := 2

def rpmLimit (account : FirecrawlAccount) (endpoint : String) : ℤ :=
  match endpointRpmByPlan.lookup account.planType with
  | none => defaultRpmLimit
  | some planLimits => (planLimits.lookup endpoint).getD defaultRpmLimit

def concurrencyLimit (account : FirecrawlAccount) : ℤ :=
  match account.queueMaxConcurrency with
  | some limit => limit
  | none => (concurrencyByPlan.lookup account.planType).getD defaultConcurrencyLimit

/-! ### Team usage -/

structure TeamUsage where
  rpmUsedByEndpoint : Dict String ℤ := Dict.empty
  inflight : ℤ := 0
  activeJobs : ℤ := 0

/-- One round of the loop of `_build_team_usage`. -/
def addTeamUsage (usage : TeamUsage) (account : FirecrawlAccount) : TeamUsage where
  rpmUsedByEndpoint := usage.rpmUsedByEndpoint.addCounts account.rpmUsed
  inflight := usage.inflight + account.inflight
  activeJobs := usage.activeJobs + account.queueActiveJobs

/-- `_build_team_usage` -/
def buildTeamUsage (accounts : List FirecrawlAccount) : Dict String TeamUsage :=
  accounts.foldl (fun byLabel account =>
    byLabel.set account.teamLabel (addTeamUsage (byLabel.getD account.teamLabel {}) account))
    Dict.empty

/-! ### One account -/

/-- `_active_credential` -/
def activeCredential (credentials : List FirecrawlCredential) : Option FirecrawlCredential :=
  credentials.find? (·.status = .active)

/-- The test `cooldown_until is not None and cooldown_until > now`. -/
def inCooldown (account : FirecrawlAccount) (now : DateTime) : Except Raised Bool :=
  match account.cooldownUntil with
  | none => .ok false
  | some cooldownUntil => cooldownUntil.gt now

/-- `_rejection_reason` -/
def rejectionReason (account : FirecrawlAccount) (credential : Option FirecrawlCredential)
    (endpoint : String) (estimatedCredits : ℤ) (teamUsage : TeamUsage) (now : DateTime) :
    Except Raised (Option String) := do
  if account.status ≠ .active then
    return some ("status=" ++ account.status.value)
  if ← inCooldown account now then
    return some "cooldown"
  if account.remainingCredits < estimatedCredits then
    return some "credits"
  if credential = none then
    return some "credentials"
  if account.rpmUsed.getD endpoint 0 ≥ rpmLimit account endpoint then
    return some "account_rpm"
  if account.inflight + account.queueActiveJobs ≥ concurrencyLimit account then
    return some "account_concurrency"
  if teamUsage.rpmUsedByEndpoint.getD endpoint 0 ≥ rpmLimit account endpoint then
    return some "team_rpm"
  if teamUsage.inflight + teamUsage.activeJobs ≥ concurrencyLimit account then
    return some "team_concurrency"
  return none

/-- `_score_account`, over the rationals. -/
def scoreAccount (account : FirecrawlAccount) (endpoint : String) (teamUsage : TeamUsage) : ℚ :=
  let budgetRatio : ℚ := account.remainingCredits / max 1 account.planCredits
  let rpmRatio : ℚ :=
    1 - teamUsage.rpmUsedByEndpoint.getD endpoint 0 / max 1 (rpmLimit account endpoint)
  let concurrencyRatio : ℚ :=
    1 - (teamUsage.inflight + teamUsage.activeJobs) / max 1 (concurrencyLimit account)
  let healthRatio : ℚ := 1 / (1 + max 0 account.recentErrorCount)
  budgetRatio * (45 / 100) + rpmRatio * (25 / 100) + concurrencyRatio * (20 / 100)
    + healthRatio * (10 / 100)

/-! ### The selection -/

structure Candidate where
  score : ℚ
  accountId : String
  account : FirecrawlAccount
  credential : FirecrawlCredential

/-- The key of the maximum. -/
def Candidate.key (c : Candidate) : ℚ ×ₗ String := toLex (c.score, c.accountId)

/-- The loop of `select_account`. -/
def selectLoop (endpoint : String) (estimatedCredits : ℤ) (byLabel : Dict String TeamUsage)
    (now : DateTime) : List FirecrawlAccount → List Candidate → Dict String String →
    Except Raised (List Candidate × Dict String String)
  | [], candidates, rejections => .ok (candidates, rejections)
  | account :: rest, candidates, rejections => do
    let credential := activeCredential account.credentials
    match byLabel.get? account.teamLabel with
    | none => throw .keyError
    | some teamUsage =>
      match ← rejectionReason account credential endpoint estimatedCredits teamUsage now with
      | some reason =>
        selectLoop endpoint estimatedCredits byLabel now rest candidates
          (rejections.set account.id reason)
      | none =>
        match credential with
        | none => throw .assertionError
        | some credential =>
          selectLoop endpoint estimatedCredits byLabel now rest
            (candidates ++ [⟨scoreAccount account endpoint teamUsage, account.id, account,
              credential⟩]) rejections

def selectAccount (accounts : List FirecrawlAccount) (endpoint : String) (payload : JsonObject)
    (now : DateTime) : Except Raised FirecrawlSelectedAccount := do
  let estimatedCredits ← estimateCredits endpoint payload none
  let (candidates, rejections) ←
    selectLoop endpoint estimatedCredits (buildTeamUsage accounts) now accounts [] Dict.empty
  match candidates.argmax Candidate.key with
  | none => throw (.noFirecrawlAccountAvailable endpoint rejections)
  | some c => return ⟨c.account, c.credential, estimatedCredits⟩

theorem estimate_of_selectAccount {accounts : List FirecrawlAccount} {endpoint : String}
    {payload : JsonObject} {now : DateTime} {selected : FirecrawlSelectedAccount}
    (h : selectAccount accounts endpoint payload now = .ok selected) :
    estimateFromPayload endpoint payload = .ok selected.estimatedCredits := by
  unfold selectAccount at h
  obtain ⟨estimatedCredits, hestimate, h⟩ := bind_eq_ok.1 h
  obtain ⟨⟨candidates, rejections⟩, -, h⟩ := bind_eq_ok.1 h
  cases hbest : candidates.argmax Candidate.key with
  | none =>
    simp only [hbest] at h
    cases h
  | some c =>
    simp only [hbest] at h
    obtain rfl := pure_eq_ok.1 h
    exact hestimate

end FirecrawlLb.Firecrawl.Routing
