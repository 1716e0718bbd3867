import FirecrawlLb.Lib.Dict
import FirecrawlLb.Python.IpAddress
import FirecrawlLb.Python.Values

/-!
# The firewall cache

`FirewallIPCache` keeps the decision on an address for a while.  A change of the allowlist clears
it, and raises a version by which a check that was under way finds out that its answer is old.
-/

namespace FirecrawlLb.Core.FirewallCache

open FirecrawlLb.Lib FirecrawlLb.Python

/-- The time is that of the monotonic clock, in microseconds. -/
structure CachedFirewallDecision (δ : Type) where
  allowed : δ
  expiresAt : ℤ
  deriving DecidableEq

/-- The cache of a process, for decisions of any type. -/
structure FirewallIPCache (δ : Type) where
  ttlSeconds : ℤ
  cache : Dict String (CachedFirewallDecision δ)
  version : ℕ
  ttlSeconds_pos : 0 < ttlSeconds
  deriving DecidableEq

namespace FirewallIPCache

variable {δ : Type} (self : FirewallIPCache δ)

/-- `FirewallIPCache.__init__`, which raises unless the time is positive. -/
def init (ttlSeconds : ℤ) : Except Raised (FirewallIPCache δ) :=
  if h : 0 < ttlSeconds then .ok ⟨ttlSeconds, .empty, 0, h⟩ else .error .valueError

/-- The entry that `is_allowed` answers from. -/
def hit (ip : String) (now : ℤ) : Option (CachedFirewallDecision δ) :=
  (self.cache.get? ip).filter fun entry => !(entry.expiresAt ≤ now)

def isAllowed (ip : String) (now : ℤ) : Option δ := (self.hit ip now).map (·.allowed)

/-- `set`, under the lock; a check under way gives the version it has read. -/
def set (ip : String) (allowed : δ) (now : ℤ) (ifVersion : Option ℕ) : FirewallIPCache δ :=
  if ifVersion.any (· ≠ self.version) then self
  else { self with cache := self.cache.set ip ⟨allowed, now + self.ttlSeconds * 1000000⟩ }

def invalidateAll : FirewallIPCache δ :=
  { self with cache := .empty, version := self.version + 1 }

variable {self} {ip ip' : String} {now : ℤ} {allowed : δ} {entry : CachedFirewallDecision δ}

@[simp] theorem version_set (ifVersion : Option ℕ) :
    (self.set ip allowed now ifVersion).version = self.version := by
  unfold set
  split <;> rfl

@[simp] theorem version_invalidateAll : self.invalidateAll.version = self.version + 1 := rfl

@[simp] theorem get?_invalidateAll : self.invalidateAll.cache.get? ip = none := rfl

/-- An entry is that of the call, whose version is the cache's, or was there before. -/
theorem get?_set {version : ℕ} (h : (self.set ip allowed now (some version)).cache.get? ip' =
    some entry) : (version = self.version ∧ ip' = ip ∧ entry.allowed = allowed) ∨
      self.cache.get? ip' = some entry := by
  unfold set at h
  split_ifs at h with hversion
  · exact Or.inr h
  · have hversion : version = self.version := by simpa using hversion
    simp only [Dict.get?_set] at h
    split_ifs at h with hip
    · obtain rfl := Option.some.inj h
      exact Or.inl ⟨hversion, hip, rfl⟩
    · exact Or.inr h

/-- **A hit is in the cache and has not expired.** -/
theorem hit_eq_some : self.hit ip now = some entry ↔
    self.cache.get? ip = some entry ∧ now < entry.expiresAt := by
  simp [hit, Option.filter_eq_some_iff]

end FirewallIPCache

/-! ### What is cached -/

/-- `normalize_ip_address`; none where it raises `FirewallValidationError`. -/
def normalizeIpAddress (value : String) : Option String :=
  if strip value = "" then none else (ipAddress (strip value)).map IpAddress.str

/-- `is_ip_allowed`, with the addresses of the allowlist. -/
def isIpAllowed (allowlist : List String) (ip : Option String) : Bool :=
  if allowlist.isEmpty then true
  else
    match ip with
    | none => false
    | some ip =>
      match normalizeIpAddress ip with
      | none => false
      | some normalized => allowlist.any (· = normalized)

end FirecrawlLb.Core.FirewallCache
