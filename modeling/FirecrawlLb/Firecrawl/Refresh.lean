import FirecrawlLb.Firecrawl.Service

/-!
# The refresh pass

What the two team requests say about one account, up to the method on its record.  A pass goes over
the accounts that have an active credential and commits once at the end; `System` runs it.
-/

namespace FirecrawlLb.Firecrawl.Refresh

open FirecrawlLb.Python FirecrawlLb.Db.Models FirecrawlLb.Firecrawl.Repository
open FirecrawlLb.Firecrawl.Service

/-- An exception: its text and the name of its class. -/
structure Failure where
  message : String
  className : String
  deriving DecidableEq

/-- How a request of the pass ends: with an answer, or with an exception of the client. -/
inductive RequestResult where
  | answered (response : FirecrawlUpstreamResponse)
  | raised (failure : Failure)

def RequestResult.response : RequestResult → Except Failure FirecrawlUpstreamResponse
  | .answered response => .ok response
  | .raised failure => .error failure

/-- `_require_success_json` -/
def requireSuccessJson (response : FirecrawlUpstreamResponse) (label : String) :
    Except Failure JsonObject :=
  if response.status < 200 ∨ response.status ≥ 300 then .error ⟨label, "ValueError"⟩
  else response.jsonBody.elim (.error ⟨label, "ValueError"⟩) .ok

/-- `_nested_data` -/
def nestedData (payload : JsonObject) : JsonObject := (payload.get "data").obj?.getD payload

/-- An int, or a float with an integral value. -/
def integral? : Json → Option ℤ
  | .int i => some i
  | .float (.finite q) => if q.den = 1 then some q.num else none
  | _ => none

/-- `_int_from_keys` -/
def intFromKeys (payload : JsonObject) (keys : List String) : Option ℤ :=
  keys.findSome? fun key => integral? (payload.get key)

/-- `_parse_datetime` -/
def parseDatetime (env : Env) (value : String) : Except Failure (Option DateTime) :=
  match env.fromisoformat (strReplace value "Z" "+00:00") with
  | none => .ok none
  | some parsed =>
    match parsed.toNaiveUtc with
    | .ok naive => .ok (some naive)
    | .error _ => .error ⟨"date value out of range", "OverflowError"⟩

/-- `_datetime_from_keys`: the first key with a string decides. -/
def datetimeFromKeys (env : Env) (payload : JsonObject) (keys : List String) :
    Except Failure (Option DateTime) :=
  match keys.findSome? fun key => (payload.get key).str? with
  | none => .ok none
  | some value => parseDatetime env value

structure CreditUsage where
  remainingCredits : Option ℤ
  planCredits : Option ℤ
  billingPeriodStart : Option DateTime
  billingPeriodEnd : Option DateTime

structure QueueStatus where
  activeJobs : Option ℤ
  maxConcurrency : Option ℤ

/-- `_parse_credit_usage` -/
def parseCreditUsage (env : Env) (payload : JsonObject) : Except Failure CreditUsage := do
  let data := nestedData payload
  let billingPeriodStart ← datetimeFromKeys env data
    ["billingPeriodStart", "billing_period_start", "periodStart"]
  let billingPeriodEnd ← datetimeFromKeys env data
    ["billingPeriodEnd", "billing_period_end", "periodEnd"]
  return {
    remainingCredits := intFromKeys data ["remaining", "remainingCredits", "remaining_credits"]
    planCredits := intFromKeys data ["plan", "planCredits", "plan_credits", "totalCredits"]
    billingPeriodStart := billingPeriodStart
    billingPeriodEnd := billingPeriodEnd }

/-- `_parse_queue_status` -/
def parseQueueStatus (payload : JsonObject) : QueueStatus :=
  let data := nestedData payload
  { activeJobs := intFromKeys data ["active", "activeJobs", "active_jobs", "queueActiveJobs"]
    maxConcurrency := intFromKeys data ["maxConcurrency", "max_concurrency", "concurrency"] }

/-- `_safe_error_message` -/
def safeErrorMessage (failure : Failure) : String :=
  let message := if failure.message = "" then failure.className else failure.message
  String.ofList
    ((strReplace (strReplace message "Bearer " "") "fc-" "[redacted]-").toList.take 500)

/-- The `try` block of `refresh_once`. -/
def refreshSuccess (env : Env) (usageResult queueResult : RequestResult) (now : DateTime) :
    Except Failure RefreshSuccess := do
  let usageResponse ← usageResult.response
  let queueResponse ← queueResult.response
  let usage ← parseCreditUsage env
    (← requireSuccessJson usageResponse "credit usage refresh failed")
  let queue := parseQueueStatus
    (← requireSuccessJson queueResponse "queue status refresh failed")
  return {
    remainingCredits := usage.remainingCredits
    planCredits := usage.planCredits
    billingPeriodStart := usage.billingPeriodStart
    billingPeriodEnd := usage.billingPeriodEnd
    queueActiveJobs := queue.activeJobs
    queueMaxConcurrency := queue.maxConcurrency
    refreshedAt := now }

/-- What one round of `refresh_once` does to the record of its account. -/
def refreshAccount (env : Env) (usageResult queueResult : RequestResult) (now : DateTime) :
    AccountWrite :=
  match refreshSuccess env usageResult queueResult now with
  | .ok r => .refreshSuccess r
  | .error failure => .refreshError (safeErrorMessage failure) now

theorem length_safeErrorMessage_le (failure : Failure) :
    (safeErrorMessage failure).length ≤ 500 := by
  simp only [safeErrorMessage, String.length_ofList, List.length_take]
  exact min_le_left _ _

end FirecrawlLb.Firecrawl.Refresh
