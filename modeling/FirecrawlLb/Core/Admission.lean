import FirecrawlLb.Lib.Tasks
import FirecrawlLb.Python.Json
import FirecrawlLb.Python.Semaphore
import Mathlib.Logic.Function.Basic

/-!
# Admission lanes

`BulkheadMiddleware` around `BackpressureMiddleware` around the application.  A request is one task:
from its arrival to the application it runs without a suspension, and it gives back its permits
when the application returns, raises or is cancelled.
-/

namespace FirecrawlLb.Core.Admission

open FirecrawlLb.Lib FirecrawlLb.Lib.Tasks FirecrawlLb.Python

/-! ### Requests and refusals -/

/-- The entries of an ASGI scope that are read. -/
structure Scope where
  type : String
  path : String := ""

def startsWith (path head : String) : Bool := head.toList.isPrefixOf path.toList

def isProxyPath (path : String) : Bool := path = "/v2" || startsWith path "/v2/"

/-- The scope is of a type that the middlewares look at. -/
def Scope.counted (scope : Scope) : Bool := scope.type = "http" || scope.type = "websocket"

def Scope.isHealth (scope : Scope) : Bool := startsWith scope.path "/health"

/-- A response the middlewares send themselves. -/
structure Refusal where
  statusCode : ℤ
  payload : Json
  headers : List (String × String)

/-- `api_error` -/
def apiError (code message errorType : String) : Json :=
  .obj [("error", .obj [("message", .str message), ("type", .str errorType), ("code", .str code)])]

/-- `local_overload_error` -/
def localOverloadError (message : String) : Json :=
  apiError "proxy_overloaded" message "rate_limit_error"

/-- `local_unavailable_error` -/
def localUnavailableError (message : String) : Json :=
  apiError "proxy_unavailable" message "server_error"

/-- `merge_retry_after_headers()` -/
def mergeRetryAfterHeaders : List (String × String) := [("Retry-After", "5")]

/-- A refusal: an error envelope on the paths of the proxy, a `detail` elsewhere. -/
def refusal (statusCode : ℤ) (message path : String) (envelope : String → Json) : Refusal where
  statusCode := statusCode
  payload := if isProxyPath path then envelope message else .obj [("detail", .str message)]
  headers := mergeRetryAfterHeaders

inductive Lane where
  | proxyHttp
  | dashboard
  deriving DecidableEq

def Lane.name : Lane → String
  | .proxyHttp => "proxy_http"
  | .dashboard => "dashboard"

def memoryRefusal (path : String) : Refusal :=
  refusal 503 "firecrawl-lb is temporarily unavailable due to local memory pressure" path
    localUnavailableError

def laneRefusal (lane : Lane) (path : String) : Refusal :=
  refusal 429 ("firecrawl-lb is temporarily overloaded in the " ++ lane.name ++ " lane") path
    localOverloadError

def backpressureRefusal (path : String) : Refusal :=
  refusal 429 "firecrawl-lb is temporarily overloaded by local backpressure" path
    localOverloadError

/-! ### The semaphores -/

/-- The semaphores of the two lanes and the global one. -/
structure Store where
  lanes : Lane → Option Semaphore
  backpressure : Semaphore

/-- `Semaphore(limit) if limit > 0 else None` -/
def laneSemaphore (limit : ℤ) : Option Semaphore :=
  if 0 < limit then some { value := limit.toNat } else none

/-- `BulkheadSemaphore.__init__`, and the semaphore of `BackpressureMiddleware`. -/
def initialStore (proxyHttpLimit dashboardLimit : ℤ) (maxConcurrent : ℕ) : Store where
  lanes
    | .proxyHttp => laneSemaphore proxyHttpLimit
    | .dashboard => laneSemaphore dashboardLimit
  backpressure := { value := maxConcurrent }

/-- The lane of `BulkheadSemaphore.get_semaphore`. -/
def Scope.lane (scope : Scope) : Lane :=
  if scope.type = "http" && isProxyPath scope.path then .proxyHttp else .dashboard

def Store.setLane (s : Store) (lane : Lane) (sem : Semaphore) : Store :=
  { s with lanes := Function.update s.lanes lane (some sem) }

def Store.releaseBackpressure (s : Store) : Store :=
  { s with backpressure := s.backpressure.release }

def Store.mapLane (s : Store) (lane : Lane) (f : Semaphore → Semaphore) : Store :=
  { s with lanes := Function.update s.lanes lane ((s.lanes lane).map f) }

/-- The `finally` of `BulkheadMiddleware`, when the request has taken a permit there. -/
def Store.releaseLane (s : Store) : Option Lane → Store
  | none => s
  | some lane => s.mapLane lane .release

/-! ### Tasks -/

/-- Where a request stands, with the permit of the lane it has taken. -/
inductive Task where
  | arriving (scope : Scope)
  | waitingLane (scope : Scope) (lane : Lane)
  | waitingBackpressure (scope : Scope) (lane : Option Lane)
  /-- A refusal is sent; that of a websocket waits for `websocket.connect` first. -/
  | refusing (scope : Scope) (lane : Option Lane) (refusal : Refusal) (connecting : Bool)
  /-- In the application, with or without a permit of the global semaphore. -/
  | running (scope : Scope) (lane : Option Lane) (backpressure : Bool)
  | ended (scope : Scope) (sent : Option Refusal)

inductive Outcome where
  | returned
  | raised
  | cancelled

inductive Action where
  /-- The request runs for the first time; the process is or is not under memory pressure. -/
  | arrive (memoryPressure : Bool)
  | resume
  | cancelWaiting (woken : Bool)
  /-- `receive` of a refused websocket: it is `websocket.connect`, or something else. -/
  | receive (connect : Bool)
  | finish (outcome : Outcome)

/-- Refuses, on an HTTP request at once. -/
def refuse (scope : Scope) (lane : Option Lane) (r : Refusal) : Task :=
  .refusing scope lane r (scope.type = "websocket")

/-- `BackpressureMiddleware.__call__` up to a suspension. -/
def backpressureCall (s : Store) (scope : Scope) (lane : Option Lane) : Store × Task :=
  if scope.counted = false || scope.isHealth then (s, .running scope lane false)
  else if s.backpressure.locked then (s, refuse scope lane (backpressureRefusal scope.path))
  else
    match s.backpressure.acquire with
    | (sem, true) => ({ s with backpressure := sem }, .running scope lane true)
    | (sem, false) => ({ s with backpressure := sem }, .waitingBackpressure scope lane)

/-- `BulkheadMiddleware.__call__` up to a suspension. -/
def bulkheadCall (s : Store) (scope : Scope) (memoryPressure : Bool) : Store × Task :=
  if scope.counted = false || scope.isHealth then backpressureCall s scope none
  else if memoryPressure then (s, refuse scope none (memoryRefusal scope.path))
  else
    match s.lanes scope.lane with
    | none => backpressureCall s scope none
    | some sem =>
      if sem.locked then (s, refuse scope none (laneRefusal scope.lane scope.path))
      else
        match sem.acquire with
        | (sem, true) => backpressureCall (s.setLane scope.lane sem) scope (some scope.lane)
        | (sem, false) => (s.setLane scope.lane sem, .waitingLane scope scope.lane)

/-- The response of a refusal that ends with `outcome`. -/
def sentBy (r : Refusal) (connecting : Bool) : Outcome → Option Refusal
  | .returned => if connecting then none else some r
  | _ => none

def act (s : Store) : Task → Action → Option (Store × Task)
  | .arriving scope, .arrive memoryPressure => some (bulkheadCall s scope memoryPressure)
  | .arriving scope, .finish .cancelled => some (s, .ended scope none)
  | .waitingLane scope lane, .resume =>
    ((s.lanes lane).bind Semaphore.resume).map fun sem =>
      backpressureCall (s.setLane lane sem) scope (some lane)
  | .waitingLane scope lane, .cancelWaiting woken =>
    ((s.lanes lane).bind (·.cancel woken)).map fun sem => (s.setLane lane sem, .ended scope none)
  | .waitingBackpressure scope lane, .resume =>
    s.backpressure.resume.map fun sem =>
      ({ s with backpressure := sem }, .running scope lane true)
  | .waitingBackpressure scope lane, .cancelWaiting woken =>
    (s.backpressure.cancel woken).map fun sem =>
      ({ s with backpressure := sem }.releaseLane lane, .ended scope none)
  | .refusing scope lane r true, .receive connect =>
    if connect then some (s, .refusing scope lane r false)
    else some (s.releaseLane lane, .ended scope none)
  | .refusing scope lane r connecting, .finish outcome =>
    some (s.releaseLane lane, .ended scope (sentBy r connecting outcome))
  | .running scope lane backpressure, .finish _ =>
    some ((if backpressure then s.releaseBackpressure else s).releaseLane lane, .ended scope none)
  | _, _ => none

/-- Requests of any scopes, in any order. -/
def program : Program Store Task Scope Action where
  spawn _ scope := .arriving scope
  act := act

abbrev State := Pool Store Task

abbrev Event := Move Scope Action

abbrev step : State → Event → Option State := program.step

/-! ### Permits -/

/-- The task executes with a permit of the lane. -/
def Task.holds (lane : Lane) : Task → Bool
  | .waitingBackpressure _ lane? => lane? = some lane
  | .refusing _ lane? _ _ => lane? = some lane
  | .running _ lane? _ => lane? = some lane
  | _ => false

/-- The task executes with a permit of the global semaphore. -/
def Task.holdsBackpressure : Task → Bool
  | .running _ _ backpressure => backpressure
  | _ => false

/-- The task is suspended in `acquire()`. -/
def Task.waits : Task → Bool
  | .waitingLane _ _ => true
  | .waitingBackpressure _ _ => true
  | _ => false

/-- The free permits of a lane. -/
def Store.free (s : Store) (lane : Lane) : ℕ := (s.lanes lane).elim 0 Semaphore.value

/-- Both lanes have a semaphore, and no semaphore has a queue. -/
structure Quiet (s : Store) : Prop where
  lanes : ∀ lane, ∃ sem, s.lanes lane = some sem ∧ sem.Idle
  backpressure : s.backpressure.Idle

/-- The store after a request has taken a permit of a lane. -/
def Store.takeLane (s : Store) (lane : Lane) : Store := s.mapLane lane .take

def Store.takeBackpressure (s : Store) : Store :=
  { s with backpressure := s.backpressure.take }

/-- **What becomes of a request at its arrival**, when no semaphore has a queue. -/
inductive Arrives (s : Store) (scope : Scope) (memoryPressure : Bool) : Store → Task → Prop
  | passes (h : (scope.counted = false || scope.isHealth) = true) :
      Arrives s scope memoryPressure s (.running scope none false)
  | unavailable (h : (scope.counted = false || scope.isHealth) = false)
      (hmemory : memoryPressure = true) :
      Arrives s scope memoryPressure s (refuse scope none (memoryRefusal scope.path))
  | laneFull (h : (scope.counted = false || scope.isHealth) = false)
      (hmemory : memoryPressure = false) (hfull : s.free scope.lane = 0) :
      Arrives s scope memoryPressure s (refuse scope none (laneRefusal scope.lane scope.path))
  | backpressureFull (h : (scope.counted = false || scope.isHealth) = false)
      (hmemory : memoryPressure = false) (hlane : 0 < s.free scope.lane)
      (hfull : s.backpressure.value = 0) :
      Arrives s scope memoryPressure (s.takeLane scope.lane)
        (refuse scope (some scope.lane) (backpressureRefusal scope.path))
  | admitted (h : (scope.counted = false || scope.isHealth) = false)
      (hmemory : memoryPressure = false) (hlane : 0 < s.free scope.lane)
      (hbackpressure : 0 < s.backpressure.value) :
      Arrives s scope memoryPressure (s.takeLane scope.lane).takeBackpressure
        (.running scope (some scope.lane) true)

/-- The store after a request has given back what it holds. -/
def Store.giveBack (s : Store) (t : Task) : Store :=
  match t with
  | .refusing _ lane _ _ => s.releaseLane lane
  | .running _ lane backpressure =>
    (if backpressure then s.releaseBackpressure else s).releaseLane lane
  | _ => s

/-- **The steps of a request** that does not wait for a permit. -/
inductive Steps (s : Store) : Task → Action → Store → Task → Prop
  | arrives {scope memoryPressure s' t'} (h : Arrives s scope memoryPressure s' t') :
      Steps s (.arriving scope) (.arrive memoryPressure) s' t'
  | connects {scope lane r} :
      Steps s (.refusing scope lane r true) (.receive true) s (.refusing scope lane r false)
  | leaves {t a scope sent} (h : t.waits = false)
      (ha : ∀ memoryPressure, a ≠ .arrive memoryPressure) :
      Steps s t a (s.giveBack t) (.ended scope sent)

section Step

variable {s s' : Store} {t t' : Task} {a : Action} {scope : Scope} {memoryPressure : Bool}

theorem Quiet.free_eq (hq : Quiet s) {lane : Lane} {sem : Semaphore}
    (h : s.lanes lane = some sem) : s.free lane = sem.value ∧ sem.Idle := by
  obtain ⟨sem', hsem', hidle⟩ := hq.lanes lane
  obtain rfl : sem = sem' := Option.some.inj (h.symm.trans hsem')
  exact ⟨by rw [Store.free, h]; rfl, hidle⟩

/-- **Nobody is suspended at its arrival**: a semaphore that is not locked is taken at once. -/
theorem arrives_bulkheadCall (hq : Quiet s) (scope : Scope) (memoryPressure : Bool) :
    Arrives s scope memoryPressure (bulkheadCall s scope memoryPressure).1
      (bulkheadCall s scope memoryPressure).2 := by
  unfold bulkheadCall backpressureCall
  by_cases hpass : (scope.counted = false || scope.isHealth) = true
  · simp only [if_pos hpass]
    exact .passes hpass
  · have hcounted : (scope.counted = false || scope.isHealth) = false := by simpa using hpass
    simp only [if_neg hpass]
    cases memoryPressure with
    | true => exact .unavailable hcounted rfl
    | false =>
      obtain ⟨sem, hsem, hidle⟩ := hq.lanes scope.lane
      have hfree : s.free scope.lane = sem.value := (hq.free_eq hsem).1
      simp only [hsem, Bool.false_eq_true, if_false]
      cases hlocked : sem.locked with
      | true =>
        simp only [if_true]
        exact .laneFull hcounted rfl (hfree.trans ((Semaphore.locked_iff hidle).1 hlocked))
      | false =>
        have hlane : 0 < s.free scope.lane := hfree ▸ Semaphore.value_pos_of_not_locked hlocked
        -- the lane is taken before the second semaphore is asked
        have htake : s.setLane scope.lane sem.take = s.takeLane scope.lane := by
          simp [Store.setLane, Store.takeLane, Store.mapLane, hsem]
        simp only [Bool.false_eq_true, if_false, Semaphore.acquire_of_not_locked hlocked, htake]
        have hsame : (s.takeLane scope.lane).backpressure = s.backpressure := rfl
        rw [hsame]
        cases hglobal : s.backpressure.locked with
        | true =>
          simp only [if_true]
          exact .backpressureFull hcounted rfl hlane
            ((Semaphore.locked_iff hq.backpressure).1 hglobal)
        | false =>
          simp only [Bool.false_eq_true, if_false, Semaphore.acquire_of_not_locked hglobal]
          exact .admitted hcounted rfl hlane (Semaphore.value_pos_of_not_locked hglobal)

theorem steps_of_act (hq : Quiet s) (hw : t.waits = false) (h : act s t a = some (s', t')) :
    Steps s t a s' t' := by
  unfold act at h
  split at h
  · obtain ⟨rfl, rfl⟩ := Prod.mk.inj (Option.some.inj h)
    exact .arrives (arrives_bulkheadCall hq _ _)
  · obtain ⟨rfl, rfl⟩ := Prod.mk.inj (Option.some.inj h)
    exact .leaves rfl nofun
  · cases hw
  · cases hw
  · cases hw
  · cases hw
  · split at h
    · rename_i hconnect
      obtain ⟨rfl, rfl⟩ := Prod.mk.inj (Option.some.inj h)
      subst hconnect
      exact .connects
    · obtain ⟨rfl, rfl⟩ := Prod.mk.inj (Option.some.inj h)
      exact .leaves rfl nofun
  · obtain ⟨rfl, rfl⟩ := Prod.mk.inj (Option.some.inj h)
    exact .leaves rfl nofun
  · obtain ⟨rfl, rfl⟩ := Prod.mk.inj (Option.some.inj h)
    exact .leaves rfl nofun
  · cases h

theorem free_mapLane (hq : Quiet s) (f : Semaphore → Semaphore) (lane lane' : Lane) :
    ∃ sem, s.lanes lane = some sem ∧ sem.Idle ∧
      (s.mapLane lane f).free lane' = if lane' = lane then (f sem).value else s.free lane' := by
  obtain ⟨sem, hsem, hidle⟩ := hq.lanes lane
  refine ⟨sem, hsem, hidle, ?_⟩
  unfold Store.free Store.mapLane
  by_cases hlane : lane' = lane
  · subst hlane
    simp [hsem]
  · simp [hlane]

theorem Quiet.mapLane (hq : Quiet s) (lane : Lane) {f : Semaphore → Semaphore}
    (hf : ∀ sem : Semaphore, sem.Idle → (f sem).Idle) : Quiet (s.mapLane lane f) := by
  refine ⟨fun lane' => ?_, hq.backpressure⟩
  unfold Store.mapLane
  by_cases hlane : lane' = lane
  · subst hlane
    obtain ⟨sem, hsem, hidle⟩ := hq.lanes lane'
    exact ⟨f sem, by simp [hsem], hf sem hidle⟩
  · simpa [hlane] using hq.lanes lane'

theorem Quiet.releaseLane (hq : Quiet s) (lane : Option Lane) : Quiet (s.releaseLane lane) := by
  cases lane with
  | none => exact hq
  | some lane => exact hq.mapLane lane fun _ => Semaphore.Idle.release

theorem free_releaseLane (hq : Quiet s) (lane? : Option Lane) (lane : Lane) :
    (s.releaseLane lane?).free lane = s.free lane + (decide (lane? = some lane)).toNat := by
  cases lane? with
  | none => rfl
  | some lane' =>
    obtain ⟨sem, hsem, hidle, hfree⟩ := free_mapLane hq .release lane' lane
    rw [Store.releaseLane, hfree, Semaphore.release_eq hidle]
    by_cases hlane : lane = lane'
    · subst hlane
      rw [if_pos rfl, (hq.free_eq hsem).1]
      simp
    · rw [if_neg hlane]
      simp [Ne.symm hlane]

theorem free_takeLane (hq : Quiet s) {lane : Lane} (hpos : 0 < s.free lane) (lane' : Lane) :
    (s.takeLane lane).free lane' + (decide (some lane = some lane')).toNat = s.free lane' := by
  obtain ⟨sem, hsem, -, hfree⟩ := free_mapLane hq .take lane lane'
  rw [(hq.free_eq hsem).1] at hpos
  rw [Store.takeLane, hfree]
  by_cases hlane : lane' = lane
  · subst hlane
    rw [if_pos rfl, (hq.free_eq hsem).1, Semaphore.take]
    simp only [decide_true, Bool.toNat_true]
    omega
  · rw [if_neg hlane]
    simp [Ne.symm hlane]

theorem Quiet.giveBack (hq : Quiet s) (t : Task) : Quiet (s.giveBack t) := by
  cases t with
  | refusing scope lane r connecting => exact hq.releaseLane lane
  | running scope lane backpressure =>
    cases backpressure with
    | true =>
      have hreleased : Quiet s.releaseBackpressure := ⟨hq.lanes, hq.backpressure.release⟩
      exact hreleased.releaseLane lane
    | false => exact hq.releaseLane lane
  | _ => exact hq

/-- **What a step keeps**: no queue comes up, nobody waits, and the permits of each semaphore are
only moved between the semaphore and the request. -/
theorem Steps.keeps (hq : Quiet s) (h : Steps s t a s' t') :
    Quiet s' ∧ t'.waits = false ∧
    (∀ lane, s'.free lane + (t'.holds lane).toNat = s.free lane + (t.holds lane).toNat) ∧
    s'.backpressure.value + t'.holdsBackpressure.toNat =
      s.backpressure.value + t.holdsBackpressure.toNat := by
  cases h with
  | @arrives scope memoryPressure _ _ harrives =>
    cases harrives with
    | passes => exact ⟨hq, rfl, fun _ => rfl, rfl⟩
    | unavailable => exact ⟨hq, rfl, fun _ => rfl, rfl⟩
    | laneFull => exact ⟨hq, rfl, fun _ => rfl, rfl⟩
    | backpressureFull _ _ hlane =>
      exact ⟨hq.mapLane _ fun _ => Semaphore.Idle.take, rfl,
        fun lane => free_takeLane hq hlane lane, rfl⟩
    | admitted _ _ hlane hbackpressure =>
      have hlanes := (hq.mapLane scope.lane fun _ => Semaphore.Idle.take).lanes
      exact ⟨⟨hlanes, hq.backpressure.take⟩, rfl, fun lane => free_takeLane hq hlane lane,
        Nat.sub_add_cancel hbackpressure⟩
  | connects => exact ⟨hq, rfl, fun _ => rfl, rfl⟩
  | leaves hw =>
    -- a task that leaves gives back what it holds, and no more
    refine ⟨hq.giveBack t, rfl, fun lane => ?_, ?_⟩
    · cases t with
      | refusing scope lane? r connecting => exact free_releaseLane hq lane? lane
      | running scope lane? backpressure =>
        cases backpressure with
        | true =>
          have hreleased : Quiet s.releaseBackpressure := ⟨hq.lanes, hq.backpressure.release⟩
          exact free_releaseLane hreleased lane? lane
        | false => exact free_releaseLane hq lane? lane
      | arriving => rfl
      | ended => rfl
      | waitingLane => cases hw
      | waitingBackpressure => cases hw
    · cases t with
      | refusing scope lane? r connecting => cases lane? <;> rfl
      | running scope lane? backpressure =>
        cases backpressure with
        | true =>
          have hvalue : s.backpressure.release.value = s.backpressure.value + 1 := by
            rw [Semaphore.release_eq hq.backpressure]
          cases lane? <;> exact hvalue
        | false => cases lane? <;> rfl
      | arriving => rfl
      | ended => rfl
      | waitingLane => cases hw
      | waitingBackpressure => cases hw

end Step

/-! ### Runs -/

/-- The configured number of permits of a lane. -/
def limitOf (proxyHttpLimit dashboardLimit : ℤ) : Lane → ℤ
  | .proxyHttp => proxyHttpLimit
  | .dashboard => dashboardLimit

/-- The requests that execute with a permit of a lane, those refused by the global semaphore
included. -/
def executing (lane : Lane) (p : State) : ℕ := p.tasks.countP (Task.holds lane)

/-- The requests that execute with a permit of the global semaphore. -/
def executingBackpressure (p : State) : ℕ := p.tasks.countP Task.holdsBackpressure

/-- **Permits are conserved** and no request waits for one. -/
structure Balanced (proxyHttpLimit dashboardLimit : ℤ) (maxConcurrent : ℕ) (p : State) : Prop where
  lanes : ∀ lane, ∃ sem, p.store.lanes lane = some sem ∧
    (sem.value + executing lane p : ℤ) = limitOf proxyHttpLimit dashboardLimit lane
  backpressure : p.store.backpressure.value + executingBackpressure p = maxConcurrent
  nobodyWaits : ∀ t ∈ p.tasks, t.waits = false

/-- The request is refused with 429. -/
def Task.refused : Task → Bool
  | .refusing _ _ r _ => r.statusCode = 429
  | _ => false

/-- The request is of a counted type, is no health probe, and the process has memory left: it comes
to the test of its lane. -/
def ComesToLane (scope : Scope) (memoryPressure : Bool) : Prop :=
  scope.counted = true ∧ scope.isHealth = false ∧ memoryPressure = false

/-- Every permit of the lane is held by a request. -/
def LaneFull (proxyHttpLimit dashboardLimit : ℤ) (lane : Lane) (p : State) : Prop :=
  executing lane p = limitOf proxyHttpLimit dashboardLimit lane

/-- **What decides at the arrival of a request**: its own lane and the global semaphore. -/
structure Decided (proxyHttpLimit dashboardLimit : ℤ) (maxConcurrent : ℕ) (p : State)
    (scope : Scope) (memoryPressure : Bool) (t' : Task) : Prop where
  refused : t'.refused = true ↔ ComesToLane scope memoryPressure ∧
    (LaneFull proxyHttpLimit dashboardLimit scope.lane p ∨ executingBackpressure p = maxConcurrent)
  byBulkhead : t' = refuse scope none (laneRefusal scope.lane scope.path) ↔
    ComesToLane scope memoryPressure ∧ LaneFull proxyHttpLimit dashboardLimit scope.lane p
  health : scope.isHealth = true → t' = .running scope none false

def Reachable (proxyHttpLimit dashboardLimit : ℤ) (maxConcurrent : ℕ) : State → Prop :=
  Run.Reachable step (· = ⟨initialStore proxyHttpLimit dashboardLimit maxConcurrent, []⟩)

section Runs

variable {proxyHttpLimit dashboardLimit : ℤ} {maxConcurrent : ℕ} {p p' : State} {m : Event}

/-- What every step keeps: nobody waits, and the sums of the permits. -/
structure Inv (proxyHttpLimit dashboardLimit : ℤ) (maxConcurrent : ℕ) (p : State) : Prop where
  quiet : Asserts Quiet (fun _ t => t.waits = false) p
  lanes : ∀ lane, (p.store.free lane + executing lane p : ℤ) =
    limitOf proxyHttpLimit dashboardLimit lane
  backpressure : p.store.backpressure.value + executingBackpressure p = maxConcurrent

theorem steps_of_inv {t t' : Task} {a : Action} {s' : Store}
    (h : Asserts Quiet (fun _ t => t.waits = false) p) {tid : ℕ} (ht : p.tasks[tid]? = some t)
    (ha : act p.store t a = some (s', t')) : Steps p.store t a s' t' :=
  steps_of_act h.1 (h.2 t (List.mem_of_getElem? ht)) ha

theorem Inv.step (h : Inv proxyHttpLimit dashboardLimit maxConcurrent p)
    (hs : step p m = some p') : Inv proxyHttpLimit dashboardLimit maxConcurrent p' := by
  have hkeeps : ∀ (tid : ℕ) t a st t', p.tasks[tid]? = some t →
      act p.store t a = some (st, t') → _ := fun tid t a st t' ht ha =>
    (steps_of_inv h.quiet ht ha).keeps h.quiet.1
  refine ⟨?_, fun lane => ?_, ?_⟩
  · refine Program.inv_step_local (C := fun q _ => q = p) (fun _ _ _ _ => rfl)
      (fun q tid a t st t' _ _ hq ht ha => ?_) h.quiet rfl hs
    subst hq
    obtain ⟨hquiet, hwaits, -, -⟩ := hkeeps tid t a st t' ht ha
    exact ⟨hquiet, hwaits⟩
  · have hsum := Program.sum_conserved (fun _ _ => rfl)
      (fun tid a t st t' ht ha => (hkeeps tid t a st t' ht ha).2.2.1 lane) hs
    rw [← countP_eq_sum, ← countP_eq_sum] at hsum
    have hlane := h.lanes lane
    unfold executing at *
    omega
  · have hsum := Program.sum_conserved (fun _ _ => rfl)
      (fun tid a t st t' ht ha => (hkeeps tid t a st t' ht ha).2.2.2) hs
    rw [← countP_eq_sum, ← countP_eq_sum] at hsum
    exact hsum.trans h.backpressure

theorem inv_start (hproxy : 0 < proxyHttpLimit) (hdashboard : 0 < dashboardLimit) :
    Inv proxyHttpLimit dashboardLimit maxConcurrent
      ⟨initialStore proxyHttpLimit dashboardLimit maxConcurrent, []⟩ := by
  have hlanes : ∀ lane, (initialStore proxyHttpLimit dashboardLimit maxConcurrent).lanes lane =
      some { value := (limitOf proxyHttpLimit dashboardLimit lane).toNat } := fun lane => by
    cases lane with
    | proxyHttp => exact if_pos hproxy
    | dashboard => exact if_pos hdashboard
  refine ⟨⟨⟨fun lane => ⟨_, hlanes lane, rfl, rfl⟩, rfl, rfl⟩, by simp⟩, fun lane => ?_, rfl⟩
  have hlimit : 0 < limitOf proxyHttpLimit dashboardLimit lane := by
    cases lane with
    | proxyHttp => exact hproxy
    | dashboard => exact hdashboard
  simp only [Store.free, hlanes lane, Option.elim_some, executing, List.countP_nil]
  omega

theorem Inv.balanced (h : Inv proxyHttpLimit dashboardLimit maxConcurrent p) :
    Balanced proxyHttpLimit dashboardLimit maxConcurrent p := by
  refine ⟨fun lane => ?_, h.backpressure, h.quiet.2⟩
  obtain ⟨sem, hsem, -⟩ := h.quiet.1.lanes lane
  exact ⟨sem, hsem, (h.quiet.1.free_eq hsem).1 ▸ h.lanes lane⟩

/-- **The decision** on a request that arrives. -/
theorem Inv.decided (h : Inv proxyHttpLimit dashboardLimit maxConcurrent p) {scope : Scope}
    {memoryPressure : Bool} {s' : Store} {t' : Task}
    (ha : Arrives p.store scope memoryPressure s' t') :
    Decided proxyHttpLimit dashboardLimit maxConcurrent p scope memoryPressure t' := by
  have hlane : p.store.free scope.lane = 0 ↔
      LaneFull proxyHttpLimit dashboardLimit scope.lane p := by
    have hsum := h.lanes scope.lane
    unfold LaneFull
    omega
  have hbackpressure : p.store.backpressure.value = 0 ↔
      executingBackpressure p = maxConcurrent := by
    have hsum := h.backpressure
    omega
  have hcomes : ComesToLane scope memoryPressure ↔
      (scope.counted = false || scope.isHealth) = false ∧ memoryPressure = false := by
    simp [ComesToLane, and_assoc]
  have hhealth : (scope.counted = false || scope.isHealth) = false → scope.isHealth ≠ true := by
    simp
  cases ha with
  | passes hpass =>
    have hnot : ¬ ComesToLane scope memoryPressure := by
      rw [hcomes, hpass]
      simp
    exact ⟨iff_of_false Bool.false_ne_true fun h => hnot h.1, iff_of_false nofun fun h => hnot h.1,
      fun _ => rfl⟩
  | unavailable hcounted hmemory =>
    have hnot : ¬ ComesToLane scope memoryPressure := by
      rw [hcomes, hmemory]
      simp
    refine ⟨iff_of_false Bool.false_ne_true fun h => hnot h.1,
      iff_of_false (fun h => ?_) fun h => hnot h.1,
      fun h => absurd h (hhealth hcounted)⟩
    -- neither refusal holds a lane; the status tells them apart
    have hstatus := congrArg Refusal.statusCode (Task.refusing.inj h).2.2.1
    exact absurd hstatus (show (503 : ℤ) ≠ 429 by decide)
  | laneFull hcounted hmemory hfull =>
    have hcome := hcomes.2 ⟨hcounted, hmemory⟩
    exact ⟨iff_of_true rfl ⟨hcome, Or.inl (hlane.1 hfull)⟩, iff_of_true rfl ⟨hcome, hlane.1 hfull⟩,
      fun h => absurd h (hhealth hcounted)⟩
  | backpressureFull hcounted hmemory hfree hfull =>
    have hcome := hcomes.2 ⟨hcounted, hmemory⟩
    have hnot : ¬ LaneFull proxyHttpLimit dashboardLimit scope.lane p := fun h =>
      hfree.ne' (hlane.2 h)
    refine ⟨iff_of_true rfl ⟨hcome, Or.inr (hbackpressure.1 hfull)⟩,
      iff_of_false (fun h => ?_) fun h => hnot h.2, fun h => absurd h (hhealth hcounted)⟩
    exact absurd (Task.refusing.inj h).2.1 (Option.some_ne_none _)
  | admitted hcounted hmemory hfree hfree' =>
    have hnot : ¬ LaneFull proxyHttpLimit dashboardLimit scope.lane p := fun h =>
      hfree.ne' (hlane.2 h)
    have hnot' : executingBackpressure p ≠ maxConcurrent := fun h =>
      hfree'.ne' (hbackpressure.2 h)
    exact ⟨iff_of_false Bool.false_ne_true fun h => h.2.elim hnot hnot',
      iff_of_false nofun fun h => hnot h.2, fun h => absurd h (hhealth hcounted)⟩

theorem Steps.arrival {s s' : Store} {t' : Task} {scope : Scope} {memoryPressure : Bool}
    (h : Steps s (.arriving scope) (.arrive memoryPressure) s' t') :
    Arrives s scope memoryPressure s' t' := by
  cases h with
  | arrives h => exact h
  | leaves _ ha => exact absurd rfl (ha memoryPressure)

theorem Steps.refused {s s' : Store} {t t' : Task} {a : Action} (h : Steps s t a s' t')
    (hrefused : t'.refused = true) : t.refused = true ∨
      ∃ scope memoryPressure, t = .arriving scope ∧ a = .arrive memoryPressure := by
  cases h with
  | arrives => exact Or.inr ⟨_, _, rfl, rfl⟩
  | connects => exact Or.inl hrefused
  | leaves => cases hrefused

/-- **Admission lanes conserve permits.**  In every reachable state the free permits of each
semaphore and the requests that execute with one add up to its limit and nobody waits; whether a
request is refused with 429 is decided at its arrival, by its own lane and the global semaphore. -/
theorem lanes_conserve_permits (hproxy : 0 < proxyHttpLimit) (hdashboard : 0 < dashboardLimit)
    (h : Reachable proxyHttpLimit dashboardLimit maxConcurrent p) :
    Balanced proxyHttpLimit dashboardLimit maxConcurrent p ∧
    (∀ (tid : ℕ) scope memoryPressure p', p.tasks[tid]? = some (.arriving scope) →
      step p (.act tid (.arrive memoryPressure)) = some p' → ∃ t', p'.tasks[tid]? = some t' ∧
        Decided proxyHttpLimit dashboardLimit maxConcurrent p scope memoryPressure t') ∧
    ∀ m p' (tid : ℕ) t', step p m = some p' → p'.tasks[tid]? = some t' → t'.refused = true →
      (∃ t, p.tasks[tid]? = some t ∧ t.refused = true) ∨
        ∃ scope memoryPressure, p.tasks[tid]? = some (.arriving scope) ∧
          m = .act tid (.arrive memoryPressure) := by
  obtain ⟨start, es, rfl, hrun⟩ := h
  have hinv : Inv proxyHttpLimit dashboardLimit maxConcurrent p :=
    Run.invariant (fun _ _ _ hI hs => hI.step hs) (inv_start hproxy hdashboard) hrun
  refine ⟨hinv.balanced, fun tid scope memoryPressure p' ht hs => ?_,
    fun m p' tid t' hs ht' hr => ?_⟩
  · obtain ⟨t', ha, ht'⟩ := Program.exists_act_of_step hs ht
    have hact : act p.store (.arriving scope) (.arrive memoryPressure) = some (p'.store, t') := ha
    exact ⟨t', ht', hinv.decided (steps_of_inv hinv.quiet ht hact).arrival⟩
  · obtain ⟨scope, rfl, rfl⟩ | ⟨tid', a, t, st, t'', rfl, ht, ha, rfl⟩ := Program.step_cases hs
    · rcases getElem?_append_cases ht' with ht' | rfl
      · exact Or.inl ⟨t', ht', hr⟩
      · cases hr
    · rcases getElem?_set_cases ht' with ⟨rfl, rfl⟩ | ⟨-, ht'⟩
      · rcases (steps_of_inv hinv.quiet ht ha).refused hr with hbefore | ⟨scope, mp, rfl, rfl⟩
        · exact Or.inl ⟨t, ht, hbefore⟩
        · exact Or.inr ⟨scope, mp, ht, rfl⟩
      · exact Or.inl ⟨t', ht', hr⟩

end Runs

/-- One permit in each lane: while a proxy request executes, the next one is refused, and the
dashboard is served. -/
theorem lanes_conserve_permits_sample :
    let es : List Event := [.spawn ⟨"http", "/v2/scrape"⟩, .act 0 (.arrive false),
      .spawn ⟨"http", "/v2/map"⟩, .spawn ⟨"http", "/api/status"⟩]
    ∃ p, Run.run step ⟨initialStore 1 1 10, []⟩ es = some p ∧ Balanced 1 1 10 p ∧
      executing .proxyHttp p = 1 ∧
      (step p (.act 1 (.arrive false))).bind (·.tasks[1]?.map Task.refused) = some true ∧
      (step p (.act 2 (.arrive false))).bind (·.tasks[2]?.map Task.refused) = some false := by
  intro es
  have hrun : Run.run step ⟨initialStore 1 1 10, []⟩ es = some _ := rfl
  exact ⟨_, hrun, (lanes_conserve_permits one_pos one_pos ⟨_, es, rfl, hrun⟩).1, by decide,
    by decide, by decide⟩

end FirecrawlLb.Core.Admission
