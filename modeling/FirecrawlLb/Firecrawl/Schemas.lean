import FirecrawlLb.Db.Models

/-!
# The admin schemas

The payloads carry the constraints their models check, so a payload that exists is one the API
accepts.  The response models carry their patterns the same way; building one from a record fails
when a value does not match.  A field of an update is `none` when the request left it out, and
`some none` when the request set it to `null`.
-/

namespace FirecrawlLb.Firecrawl.Schemas

open FirecrawlLb.Python FirecrawlLb.Db.Models

/-- `ACCOUNT_STATUS_PATTERN` -/
def accountStatusPattern : List String :=
  ["active", "rate_limited", "credit_exhausted", "paused", "invalid"]

/-- `CREDENTIAL_STATUS_PATTERN` -/
def credentialStatusPattern : List String := ["active", "paused", "invalid"]

/-- `JOB_ENDPOINT_PATTERN` -/
def jobEndpointPattern : List String := ["crawl", "batch_scrape"]

/-- `REQUEST_LOG_ENDPOINT_PATTERN` -/
def requestLogEndpointPattern : List String := ["scrape", "map", "search"]

/-! ### Requests -/

/-- `Field(ge=bound)` on an optional field of a new record. -/
def AtLeast (bound : ℤ) (field : Option ℤ) : Prop := ∀ n, field = some n → bound ≤ n

/-- `Field(ge=bound)` on a field of an update. -/
def SetAtLeast (bound : ℤ) (field : Option (Option ℤ)) : Prop :=
  ∀ n, field = some (some n) → bound ≤ n

theorem setAtLeast_some {bound n : ℤ} (h : bound ≤ n) : SetAtLeast bound (some (some n)) :=
  fun _ hm => Option.some.inj (Option.some.inj hm) ▸ h

structure FirecrawlAccountCreateRequest where
  id : String
  teamLabel : String
  planType : String := "unknown"
  monthlyBudgetCredits : Option ℤ := none
  remainingCreditsLive : Option ℤ := none
  planCreditsLive : Option ℤ := none
  rpmLimit : Option ℤ := none
  maxConcurrency : Option ℤ := none
  id_min : id ≠ "" := by decide
  teamLabel_min : teamLabel ≠ "" := by decide
  planType_min : planType ≠ "" := by decide
  monthlyBudgetCredits_ge : AtLeast 0 monthlyBudgetCredits := by simp [AtLeast]
  remainingCreditsLive_ge : AtLeast 0 remainingCreditsLive := by simp [AtLeast]
  planCreditsLive_ge : AtLeast 0 planCreditsLive := by simp [AtLeast]
  rpmLimit_ge : AtLeast 1 rpmLimit := by simp [AtLeast]
  maxConcurrency_ge : AtLeast 1 maxConcurrency := by simp [AtLeast]

structure FirecrawlAccountUpdateRequest where
  status : Option (Option String) := none
  monthlyBudgetCredits : Option (Option ℤ) := none
  remainingCreditsLive : Option (Option ℤ) := none
  planCreditsLive : Option (Option ℤ) := none
  rpmLimit : Option (Option ℤ) := none
  maxConcurrency : Option (Option ℤ) := none
  cooldownUntil : Option (Option DateTime) := none
  status_pattern : ∀ s, status = some (some s) → s ∈ accountStatusPattern := by
    simp [accountStatusPattern]
  monthlyBudgetCredits_ge : SetAtLeast 0 monthlyBudgetCredits := by simp [SetAtLeast]
  remainingCreditsLive_ge : SetAtLeast 0 remainingCreditsLive := by simp [SetAtLeast]
  planCreditsLive_ge : SetAtLeast 0 planCreditsLive := by simp [SetAtLeast]
  rpmLimit_ge : SetAtLeast 1 rpmLimit := by simp [SetAtLeast]
  maxConcurrency_ge : SetAtLeast 1 maxConcurrency := by simp [SetAtLeast]

structure FirecrawlCredentialCreateRequest where
  id : String
  name : Option String := none
  apiKey : String
  status : String := "active"
  id_min : id ≠ "" := by decide
  name_min : name ≠ some "" := by decide
  apiKey_min : apiKey ≠ "" := by decide
  status_pattern : status ∈ credentialStatusPattern := by decide

structure FirecrawlCredentialUpdateRequest where
  status : String
  status_pattern : status ∈ credentialStatusPattern := by decide

/-! ### Responses -/

structure FirecrawlCredentialResponse where
  id : String
  name : Option String
  status : String
  status_pattern : status ∈ credentialStatusPattern

structure FirecrawlAccountResponse where
  id : String
  teamLabel : String
  planType : String
  status : String
  monthlyBudgetCredits : Option ℤ
  remainingCreditsLive : Option ℤ
  planCreditsLive : Option ℤ
  rpmLimit : Option ℤ
  maxConcurrency : Option ℤ
  cooldownUntil : Option DateTime
  credentials : List FirecrawlCredentialResponse
  status_pattern : status ∈ accountStatusPattern

structure FirecrawlJobResponse where
  id : ℕ
  accountId : Option String
  credentialId : Option String
  endpoint : String
  upstreamJobId : Option String
  status : String
  estimatedCreditsReserved : Option ℤ
  creditsUsedFinal : Option ℤ
  createdAt : DateTime
  completedAt : Option DateTime
  lastPolledAt : Option DateTime
  endpoint_pattern : endpoint ∈ jobEndpointPattern

structure FirecrawlRequestLogResponse where
  id : ℕ
  accountId : Option String
  credentialId : Option String
  endpoint : String
  upstreamJobId : Option String
  status : String
  upstreamStatusCode : Option ℤ
  estimatedCreditsPre : Option ℤ
  creditsUsedFinal : Option ℤ
  latencyMs : Option ℤ
  errorCode : Option String
  errorMessage : Option String
  createdAt : DateTime
  endpoint_pattern : endpoint ∈ requestLogEndpointPattern

structure FirecrawlAccountsByStatusResponse where
  active : ℕ
  rateLimited : ℕ
  creditExhausted : ℕ
  paused : ℕ

structure FirecrawlRecentRequestsResponse where
  total : ℕ
  success : ℕ
  error : ℕ

structure FirecrawlEndpointBreakdownResponse where
  scrape : ℕ
  map : ℕ
  search : ℕ
  crawl : ℕ
  batchScrape : ℕ

structure FirecrawlOverviewResponse where
  totalAccounts : ℕ
  activeAccounts : ℕ
  totalRemainingCredits : ℤ
  totalBudgetCredits : ℤ
  accountsByStatus : FirecrawlAccountsByStatusResponse
  activeJobs : ℕ
  recentRequests : FirecrawlRecentRequestsResponse
  endpointBreakdown : FirecrawlEndpointBreakdownResponse

end FirecrawlLb.Firecrawl.Schemas
