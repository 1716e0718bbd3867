import FirecrawlLb.Lib.Tasks
import FirecrawlLb.Python.Json

/-!
# Draining

`InFlightMiddleware` counts the HTTP requests inside the application and turns new ones away while
the process drains; `wait_for_in_flight_drain` polls the count.  A request is one task: from its
arrival to the application it runs without a suspension, so nothing comes between the draining test
and the increment, and the decrement follows however the application ends.
-/

namespace FirecrawlLb.Core.Draining

open FirecrawlLb.Lib.Run FirecrawlLb.Lib.Tasks FirecrawlLb.Python

/-! ### The shutdown state -/

/-- The globals of `app.core.shutdown` -/
structure ShutdownState where
  draining : Bool := false
  inFlight : ℤ := 0

namespace ShutdownState

def setDraining (state : ShutdownState) (val : Bool) : ShutdownState :=
  { state with draining := val }

def incrementInFlight (state : ShutdownState) : ShutdownState :=
  { state with inFlight := state.inFlight + 1 }

def decrementInFlight (state : ShutdownState) : ShutdownState :=
  { state with inFlight := max 0 (state.inFlight - 1) }

end ShutdownState

/-! ### Requests -/

/-- The entries of an ASGI scope that are read. -/
structure Scope where
  type : String
  path : Option String

/-- `_DRAIN_ALLOWED_HTTP_PATHS` -/
def drainAllowedHttpPaths : List String :=
  ["/health/live", "/internal/drain/start", "/internal/drain/stop", "/internal/drain/status",
    "/internal/bridge/responses"]

/-- `_IN_FLIGHT_EXCLUDED_HTTP_PATHS` -/
def inFlightExcludedHttpPaths : List String :=
  ["/health/live", "/health/ready", "/health/startup", "/internal/drain/start",
    "/internal/drain/stop", "/internal/drain/status"]

def Scope.isHttp (scope : Scope) : Bool := scope.type = "http"

/-- `scope.get("path", "")` -/
def Scope.pathText (scope : Scope) : String := scope.path.getD ""

/-- A request on a counted path. -/
def Scope.counted (scope : Scope) : Bool :=
  scope.isHttp && scope.pathText ∉ inFlightExcludedHttpPaths

structure Response where
  statusCode : ℤ
  content : Json

def drainingResponse : Response where
  statusCode := 503
  content := .obj [("error", .obj [("type", .str "service_unavailable"),
    ("message", .str "Server is draining")])]

/-! ### Tasks -/

/-- Where a request stands, or a call of `set_draining` or of `wait_for_in_flight_drain`. -/
inductive Task where
  | arriving (scope : Scope)
  | refusing (scope : Scope) (response : Response)
  /-- In the application: `counted` when a `finally` gives the count back. -/
  | inside (scope : Scope) (counted : Bool)
  | ended
  | settingDraining (val : Bool)
  | polling (deadline : ℚ)
  | drained (result : Bool)

inductive Call where
  | request (scope : Scope)
  | setDraining (val : Bool)
  /-- `deadline` is the clock at the call plus the timeout. -/
  | waitForInFlightDrain (deadline : ℚ)

inductive Action where
  /-- The task runs up to its next suspension, at a time of the clock. -/
  | resume (now : ℚ)
  /-- An exception or a cancellation ends what the task waits for. -/
  | raise

def spawn (_ : ShutdownState) : Call → Task
  | .request scope => .arriving scope
  | .setDraining val => .settingDraining val
  | .waitForInFlightDrain deadline => .polling deadline

/-- `InFlightMiddleware.__call__`, up to the application or to the answer that is sent instead. -/
def arrive (state : ShutdownState) (scope : Scope) : ShutdownState × Task :=
  if !scope.isHttp then (state, .inside scope false)
  else if state.draining && scope.pathText ∉ drainAllowedHttpPaths then
    (state, .refusing scope drainingResponse)
  else if scope.pathText ∈ inFlightExcludedHttpPaths then (state, .inside scope false)
  else (state.incrementInFlight, .inside scope true)

/-- What follows the application, whether it returns or raises. -/
def leave (state : ShutdownState) (counted : Bool) : ShutdownState × Task :=
  (if counted then state.decrementInFlight else state, .ended)

/-- The loop of `wait_for_in_flight_drain`, up to its next sleep or to its end. -/
def poll (state : ShutdownState) (deadline now : ℚ) : ShutdownState × Task :=
  if 0 < state.inFlight ∧ now < deadline then (state, .polling deadline)
  else (state, .drained (state.inFlight = 0))

def act (state : ShutdownState) : Task → Action → Option (ShutdownState × Task)
  | .arriving scope, .resume _ => some (arrive state scope)
  | .refusing _ _, .resume _ => some (state, .ended)
  | .inside _ counted, .resume _ => some (leave state counted)
  | .inside _ counted, .raise => some (leave state counted)
  | .settingDraining val, .resume _ => some (state.setDraining val, .ended)
  | .polling deadline, .resume now => some (poll state deadline now)
  | .arriving _, .raise => some (state, .ended)
  | .refusing _ _, .raise => some (state, .ended)
  | .polling _, .raise => some (state, .ended)
  | _, _ => none

def shutdownProgram : Program ShutdownState Task Call Action := ⟨spawn, act⟩

abbrev step : Pool ShutdownState Task → Move Call Action → Option (Pool ShutdownState Task) :=
  shutdownProgram.step

/-! ### The count -/

/-- The scope of a request that is inside the application. -/
def Task.scopeInside : Task → Option Scope
  | .inside scope _ => some scope
  | _ => none

def Task.countedInside (t : Task) : Bool := t.scopeInside.any Scope.counted

/-- The number of requests on counted paths that are inside the application. -/
def countedInside (p : Pool ShutdownState Task) : ℕ := p.tasks.countP Task.countedInside

/-- The task in a place goes from one state to another. -/
def Becomes (p p' : Pool ShutdownState Task) (t t' : Task) : Prop :=
  ∃ tid : ℕ, p.tasks[tid]? = some t ∧ p'.tasks[tid]? = some t'

/-- A wait that returns `True` leaves no counted request inside, and a request that enters while
the process drains has a path that is allowed then. -/
structure Drains (p p' : Pool ShutdownState Task) : Prop where
  drained : ∀ deadline, Becomes p p' (.polling deadline) (.drained true) → countedInside p' = 0
  allowed : p.store.draining = true → ∀ scope counted,
    Becomes p p' (.arriving scope) (.inside scope counted) → scope.isHttp = true →
      scope.pathText ∈ drainAllowedHttpPaths

/-- The mark of a request inside says whether its path is counted. -/
def Task.Marked : Task → Prop
  | .inside scope counted => counted = scope.counted
  | _ => True

section Steps

variable {state state' : ShutdownState} {scope : Scope} {t t' : Task} {a : Action}

/-- **An arrival**: the request is refused, or let in with its mark and counted accordingly. -/
theorem arrive_cases (state : ShutdownState) (scope : Scope) :
    arrive state scope = (state, .refusing scope drainingResponse) ∨
    (scope.isHttp = true → state.draining = true → scope.pathText ∈ drainAllowedHttpPaths) ∧
      arrive state scope = ({ state with inFlight := state.inFlight + scope.counted.toNat },
        .inside scope scope.counted) := by
  unfold arrive Scope.counted
  by_cases hhttp : scope.isHttp = true
  · by_cases hrefused : state.draining = true ∧ scope.pathText ∉ drainAllowedHttpPaths
    · left
      simp [hhttp, hrefused]
    · right
      rw [not_and_not_right] at hrefused
      refine ⟨fun _ => hrefused, ?_⟩
      by_cases hexcluded : scope.pathText ∈ inFlightExcludedHttpPaths
      · simpa [hhttp, hexcluded] using hrefused
      · simpa [hhttp, hexcluded, ShutdownState.incrementInFlight] using hrefused
  · right
    simp [hhttp]

theorem leave_eq (h : scope.counted = true → 1 ≤ state.inFlight) : leave state scope.counted =
    ({ state with inFlight := state.inFlight - scope.counted.toNat }, .ended) := by
  unfold leave
  cases hcounted : scope.counted with
  | false => simp
  | true =>
    have hpos := h hcounted
    have hmax : max 0 (state.inFlight - 1) = state.inFlight - 1 := by omega
    simp [ShutdownState.decrementInFlight, hmax]

/-- **One step of a task** changes the count as it changes whether the task is counted. -/
theorem act_inFlight (hmark : t.Marked) (hpos : t.countedInside = true → 1 ≤ state.inFlight)
    (h : act state t a = some (state', t')) : t'.Marked ∧
      state'.inFlight + t.countedInside.toNat = state.inFlight + t'.countedInside.toNat := by
  -- returning and raising end in the same `finally`
  have hleave : ∀ scope counted, t = .inside scope counted →
      leave state counted = (state', t') → t'.Marked ∧
        state'.inFlight + t.countedInside.toNat = state.inFlight + t'.countedInside.toNat := by
    rintro scope counted rfl heq
    obtain rfl : counted = scope.counted := hmark
    rw [leave_eq hpos] at heq
    obtain ⟨rfl, rfl⟩ := Prod.mk.inj heq
    refine ⟨trivial, ?_⟩
    simp [Task.countedInside, Task.scopeInside]
  cases t with
  | arriving scope =>
    cases a with
    | resume now =>
      have heq : arrive state scope = (state', t') := Option.some.inj h
      rcases arrive_cases state scope with hrefused | ⟨-, hinside⟩
      · obtain ⟨rfl, rfl⟩ := Prod.mk.inj (hrefused.symm.trans heq)
        exact ⟨trivial, rfl⟩
      · obtain ⟨rfl, rfl⟩ := Prod.mk.inj (hinside.symm.trans heq)
        exact ⟨rfl, by simp [Task.countedInside, Task.scopeInside]⟩
    | raise =>
      obtain ⟨rfl, rfl⟩ := Prod.mk.inj (Option.some.inj h)
      exact ⟨trivial, rfl⟩
  | refusing scope response =>
    obtain ⟨rfl, rfl⟩ : state = state' ∧ Task.ended = t' := by
      cases a <;> exact Prod.mk.inj (Option.some.inj h)
    exact ⟨trivial, rfl⟩
  | inside scope counted =>
    have heq : leave state counted = (state', t') := by cases a <;> exact Option.some.inj h
    exact hleave scope counted rfl heq
  | ended => cases a <;> cases h
  | settingDraining val =>
    cases a with
    | resume now =>
      obtain ⟨rfl, rfl⟩ := Prod.mk.inj (Option.some.inj h)
      exact ⟨trivial, rfl⟩
    | raise => cases h
  | polling deadline =>
    cases a with
    | resume now =>
      have heq : poll state deadline now = (state', t') := Option.some.inj h
      unfold poll at heq
      split_ifs at heq <;> obtain ⟨rfl, rfl⟩ := Prod.mk.inj heq <;> exact ⟨trivial, rfl⟩
    | raise =>
      obtain ⟨rfl, rfl⟩ := Prod.mk.inj (Option.some.inj h)
      exact ⟨trivial, rfl⟩
  | drained result => cases a <;> cases h

theorem inFlight_of_drained {deadline : ℚ}
    (h : act state (.polling deadline) a = some (state', .drained true)) : state'.inFlight = 0 := by
  cases a with
  | resume now =>
    have heq : poll state deadline now = (state', .drained true) := Option.some.inj h
    unfold poll at heq
    split_ifs at heq
    · cases heq
    · obtain ⟨rfl, hzero⟩ := Prod.mk.inj heq
      simpa using hzero
  | raise => cases h

/-- A request that enters while the process drains has an allowed path. -/
theorem allowed_of_inside {counted : Bool} (hdraining : state.draining = true)
    (hhttp : scope.isHttp = true)
    (h : act state (.arriving scope) a = some (state', .inside scope counted)) :
    scope.pathText ∈ drainAllowedHttpPaths := by
  cases a with
  | resume now =>
    have heq : arrive state scope = (state', .inside scope counted) := Option.some.inj h
    rcases arrive_cases state scope with hrefused | ⟨hallowed, -⟩
    · rw [hrefused] at heq
      cases heq
    · exact hallowed hhttp hdraining
  | raise => cases h

end Steps

/-! ### Runs -/

/-- The count is the number of requests on counted paths inside, and they carry their marks. -/
structure Exact (p : Pool ShutdownState Task) : Prop where
  inFlight : p.store.inFlight = countedInside p
  marked : ∀ t ∈ p.tasks, t.Marked

section Runs

variable {p p' : Pool ShutdownState Task} {m : Move Call Action}

theorem Exact.one_le {t : Task} (h : Exact p) (ht : t ∈ p.tasks)
    (hinside : t.countedInside = true) : 1 ≤ p.store.inFlight := by
  have hpos : 0 < p.tasks.countP Task.countedInside := List.countP_pos_iff.2 ⟨t, ht, hinside⟩
  rw [h.inFlight, countedInside]
  omega

theorem Exact.next (h : Exact p) (hstep : step p m = some p') : Exact p' := by
  have hmarked : ∀ t ∈ p'.tasks, t.Marked := by
    obtain ⟨call, -, rfl⟩ | ⟨tid, a, t, state, t', -, ht, hact, rfl⟩ := Program.step_cases hstep
    · intro t ht
      rcases List.mem_append.1 ht with ht | ht
      · exact h.marked t ht
      · obtain rfl := List.mem_singleton.1 ht
        cases call <;> trivial
    · have hmem := List.mem_of_getElem? ht
      intro u hu
      rcases List.mem_or_eq_of_mem_set hu with hu | rfl
      · exact h.marked u hu
      · exact (act_inFlight (h.marked t hmem) (h.one_le hmem) hact).1
  refine ⟨?_, hmarked⟩
  obtain ⟨call, -, hstore, hsum⟩ | ⟨tid, a, t, t', -, ht, hact, hsum⟩ :=
    Program.sum_step_add (fun t : Task => t.countedInside.toNat) hstep
  · rw [← countP_eq_sum, ← countP_eq_sum] at hsum
    have hnone : (shutdownProgram.spawn p.store call).countedInside = false := by cases call <;> rfl
    rw [hstore, h.inFlight, countedInside, countedInside, hsum, hnone]
    rfl
  · rw [← countP_eq_sum, ← countP_eq_sum] at hsum
    have hmem := List.mem_of_getElem? ht
    have hcount := (act_inFlight (h.marked t hmem) (h.one_le hmem) hact).2
    have hinFlight := h.inFlight
    unfold countedInside at hinFlight ⊢
    omega

theorem act_of_becomes {t t' : Task} (hstep : step p m = some p') (h : Becomes p p' t t')
    (hne : t ≠ t') : ∃ a, act p.store t a = some (p'.store, t') := by
  obtain ⟨tid, ht, ht'⟩ := h
  rcases Program.getElem?_step hstep ht with hsame | ⟨a, u, -, hact, hu⟩
  · exact absurd (Option.some.inj (hsame.symm.trans ht')) hne
  · obtain rfl : u = t' := Option.some.inj (hu.symm.trans ht')
    exact ⟨a, hact⟩

theorem Exact.drains (h : Exact p) (hstep : step p m = some p') : Drains p p' := by
  refine ⟨fun deadline hbecomes => ?_, fun hdraining scope counted hbecomes hhttp => ?_⟩
  · obtain ⟨a, hact⟩ := act_of_becomes hstep hbecomes (by simp)
    have hzero := inFlight_of_drained hact
    rw [(h.next hstep).inFlight] at hzero
    exact Int.ofNat_eq_zero.1 hzero
  · obtain ⟨a, hact⟩ := act_of_becomes hstep hbecomes (by simp)
    exact allowed_of_inside hdraining hhttp hact

/-- **Draining is exact** over every interleaving from a process with no requests: the count is the
number of counted requests inside, a wait that returns `True` leaves none, and a request enters a
draining process on an allowed path only. -/
theorem draining_exact (draining : Bool) (ms : List (Move Call Action)) :
    Always step (fun p => p.store.inFlight = countedInside p) ⟨⟨draining, 0⟩, []⟩ ms ∧
    Meets step (fun p m => ∀ p', step p m = some p' → Drains p p') ⟨⟨draining, 0⟩, []⟩ ms := by
  have hexact : Exact ⟨⟨draining, 0⟩, []⟩ := ⟨rfl, by simp⟩
  constructor
  · exact (always_of_invariant (fun p m p' h hstep => h.next hstep) hexact).mono
      fun p h => h.inFlight
  · exact (meets_of_invariant (fun p m p' h hstep => h.next hstep) hexact).mono
      fun p m h p' hstep => h.drains hstep

end Runs

end FirecrawlLb.Core.Draining
