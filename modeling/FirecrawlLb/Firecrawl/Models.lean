import FirecrawlLb.Python.Json

/-!
# Accounts and credentials, as the router sees them
-/

namespace FirecrawlLb.Firecrawl.Models

open FirecrawlLb.Lib FirecrawlLb.Python

inductive FirecrawlAccountStatus where
  | active
  | rateLimited
  | creditExhausted
  | paused
  | invalid
  deriving DecidableEq

namespace FirecrawlAccountStatus

def value : FirecrawlAccountStatus → String
  | .active => "active"
  | .rateLimited => "rate_limited"
  | .creditExhausted => "credit_exhausted"
  | .paused => "paused"
  | .invalid => "invalid"

/-- `FirecrawlAccountStatus(value)` -/
def ofValue (s : String) : Except Raised FirecrawlAccountStatus :=
  if s = "active" then .ok .active
  else if s = "rate_limited" then .ok .rateLimited
  else if s = "credit_exhausted" then .ok .creditExhausted
  else if s = "paused" then .ok .paused
  else if s = "invalid" then .ok .invalid
  else .error .valueError

theorem ofValue_eq_ok {s : String} {st : FirecrawlAccountStatus} :
    ofValue s = .ok st ↔ s = st.value := by
  constructor
  · intro h
    unfold ofValue at h
    split_ifs at h <;> cases h <;> assumption
  · rintro rfl
    cases st <;> rfl

end FirecrawlAccountStatus

inductive FirecrawlCredentialStatus where
  | active
  | paused
  | invalid
  deriving DecidableEq

namespace FirecrawlCredentialStatus

def value : FirecrawlCredentialStatus → String
  | .active => "active"
  | .paused => "paused"
  | .invalid => "invalid"

/-- `FirecrawlCredentialStatus(value)` -/
def ofValue (s : String) : Except Raised FirecrawlCredentialStatus :=
  if s = "active" then .ok .active
  else if s = "paused" then .ok .paused
  else if s = "invalid" then .ok .invalid
  else .error .valueError

theorem ofValue_eq_ok {s : String} {st : FirecrawlCredentialStatus} :
    ofValue s = .ok st ↔ s = st.value := by
  constructor
  · intro h
    unfold ofValue at h
    split_ifs at h <;> cases h <;> assumption
  · rintro rfl
    cases st <;> rfl

end FirecrawlCredentialStatus

structure FirecrawlCredential where
  id : String
  apiKey : String
  status : FirecrawlCredentialStatus := .active
  name : Option String := none
  lastErrorAt : Option DateTime := none
  lastErrorMessage : Option String := none
  deriving DecidableEq

structure FirecrawlAccount where
  id : String
  teamLabel : String
  planType : String
  remainingCredits : ℤ
  planCredits : ℤ
  status : FirecrawlAccountStatus := .active
  credentials : List FirecrawlCredential := []
  cooldownUntil : Option DateTime := none
  inflight : ℤ := 0
  rpmUsed : Dict String ℤ := Dict.empty
  queueActiveJobs : ℤ := 0
  queueMaxConcurrency : Option ℤ := none
  recentErrorCount : ℤ := 0
  deriving DecidableEq

structure FirecrawlSelectedAccount where
  account : FirecrawlAccount
  credential : FirecrawlCredential
  estimatedCredits : ℤ
  deriving DecidableEq

end FirecrawlLb.Firecrawl.Models
