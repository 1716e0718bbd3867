import FirecrawlLb.Lib.Mutex
import FirecrawlLb.Python.Values
import Mathlib.Data.Rat.Defs
import Mathlib.Algebra.Order.Ring.Unbundled.Rat

/-!
# The circuit breaker

`CircuitBreaker.call` is a task: it is admitted, it awaits the upstream call, it records how that
ended, and it releases the probe it was admitted as.  The lock is held within one of these steps
only, so a step is atomic.  Nothing is assumed of the clock: each reading is an input.
-/

namespace FirecrawlLb.Core.Resilience

open FirecrawlLb.Lib FirecrawlLb.Lib.Tasks FirecrawlLb.Lib.Run FirecrawlLb.Python

/-! ### The breaker -/

inductive CircuitState where
  | closed
  | opened
  | halfOpen
  deriving DecidableEq

/-- What `CircuitBreaker.__init__` is given, which no method changes. -/
structure Thresholds where
  failureThreshold : ℤ := 5
  recoveryTimeoutSeconds : ℤ := 60
  successThreshold : ℤ := 2

/-- The fields of a `CircuitBreaker` that change. -/
structure CircuitBreaker where
  state : CircuitState := .closed
  failureCount : ℕ := 0
  successCount : ℕ := 0
  lastFailureTime : Option ℚ := none
  halfOpenProbeInFlight : Bool := false
  deriving DecidableEq

/-- What `getattr(exc, "status_code", None)` may be. -/
inductive StatusCode where
  | number (n : ℤ)
  | incomparable
  deriving DecidableEq

/-- An `Exception` of the upstream call. -/
inductive CallError where
  /-- `aiohttp.ClientResponseError` -/
  | clientResponse (status : ℤ)
  /-- `asyncio.TimeoutError` or `aiohttp.ServerTimeoutError` -/
  | timeout
  | other (statusCode : Option StatusCode)
  deriving DecidableEq

/-- `_is_server_error` -/
def isServerError : CallError → Except Raised Bool
  | .clientResponse status => .ok (500 ≤ status)
  | .timeout => .ok true
  | .other (some (.number statusCode)) => .ok (500 ≤ statusCode)
  | .other (some .incomparable) => .error .typeError
  | .other none => .ok true

/-- The HTTP status an error carries. -/
def CallError.status : CallError → Option ℤ
  | .clientResponse status => some status
  | .other (some (.number statusCode)) => some statusCode
  | _ => none

namespace CircuitBreaker

variable (c : Thresholds) (self : CircuitBreaker)

/-- The property `state`, when the clock reads `now`. -/
def stateAt (now : ℚ) : CircuitState :=
  if self.state = .opened &&
      self.lastFailureTime.any fun time => decide ((c.recoveryTimeoutSeconds : ℚ) ≤ now - time) then
    .halfOpen
  else self.state

/-- `pre_call_check`: whether the call is the probe, or the text of `CircuitBreakerOpenError`. -/
def preCallCheck (now : ℚ) : Except String (CircuitBreaker × Bool) :=
  match self.stateAt c now with
  | .opened => .error "Circuit breaker is OPEN"
  | .halfOpen =>
    if self.halfOpenProbeInFlight then .error "Circuit breaker is HALF_OPEN — probe in flight"
    else .ok ({ self with halfOpenProbeInFlight := true }, true)
  | .closed => .ok (self, false)

/-- `release_half_open_probe` -/
def releaseHalfOpenProbe : CircuitBreaker := { self with halfOpenProbeInFlight := false }

/-- The closed breaker that enough successes lead to. -/
def close : CircuitBreaker :=
  { self with state := .closed, failureCount := 0, successCount := 0 }

/-- `_record_success`, which reads the clock once more when the state is not HALF_OPEN. -/
def recordSuccess (now now' : ℚ) : CircuitBreaker :=
  if self.stateAt c now = .halfOpen then
    if c.successThreshold ≤ self.successCount + 1 then self.close
    else { self with successCount := self.successCount + 1 }
  else if self.stateAt c now' = .closed then
    if 0 < self.failureCount then { self with failureCount := 0 } else self
  else self

/-- `_record_failure`, for a server error. -/
def recordFailure (now : ℚ) : CircuitBreaker where
  state := if c.failureThreshold ≤ self.failureCount + 1 then .opened else self.state
  failureCount := self.failureCount + 1
  successCount := 0
  lastFailureTime := some now
  halfOpenProbeInFlight := self.halfOpenProbeInFlight

end CircuitBreaker

/-! ### Calls -/

/-- Where a call stands. -/
inductive Call where
  | starting
  /-- `CircuitBreakerOpenError` was raised. -/
  | refused (message : String)
  | awaiting (isProbe : Bool)
  /-- The upstream call has ended, and the outcome is recorded next. -/
  | returned (isProbe : Bool)
  | raised (isProbe : Bool) (exc : CallError)
  /-- The `finally` of a probe waits for the lock. -/
  | releasing
  | ended
  deriving DecidableEq

inductive Action where
  | preCallCheck (now : ℚ)
  /-- The upstream call returns, or raises. -/
  | complete (exc : Option CallError)
  | record (now now' : ℚ)
  | release
  /-- The task of the call is cancelled where it is suspended. -/
  | cancel

/-- The `finally` of `call` comes next. -/
def leave (isProbe : Bool) : Call := if isProbe then .releasing else .ended

section System

variable (c : Thresholds)

def act (s : CircuitBreaker) : Call → Action → Option (CircuitBreaker × Call)
  | .starting, .preCallCheck now =>
    match s.preCallCheck c now with
    | .ok (s', isProbe) => some (s', .awaiting isProbe)
    | .error message => some (s, .refused message)
  | .awaiting isProbe, .complete none => some (s, .returned isProbe)
  | .awaiting isProbe, .complete (some exc) => some (s, .raised isProbe exc)
  | .returned isProbe, .record now now' => some (s.recordSuccess c now now', leave isProbe)
  | .raised isProbe exc, .record now _ =>
    match isServerError exc with
    | .ok true => some (s.recordFailure c now, leave isProbe)
    | _ => some (s, leave isProbe)
  | .releasing, .release => some (s.releaseHalfOpenProbe, .ended)
  | .starting, .cancel => some (s, .ended)
  -- a cancellation is no `Exception`: nothing is recorded
  | .awaiting isProbe, .cancel => some (s, leave isProbe)
  | .returned isProbe, .cancel => some (s, leave isProbe)
  | .raised isProbe _, .cancel => some (s, leave isProbe)
  -- the probe is never released
  | .releasing, .cancel => some (s, .ended)
  | _, _ => none

/-- Calls of any number, in any order. -/
def program : Program CircuitBreaker Call Unit Action where
  spawn _ _ := .starting
  act := act c

abbrev State := Pool CircuitBreaker Call

abbrev Event := Move Unit Action

abbrev step : State → Event → Option State := (program c).step

end System

/-- The call is the probe in flight: it was admitted as one, and has not released it. -/
def Call.probe : Call → Bool
  | .awaiting isProbe => isProbe
  | .returned isProbe => isProbe
  | .raised isProbe _ => isProbe
  | .releasing => true
  | _ => false

/-! ### The history -/

/-- What a success is recorded as. -/
inductive Success where
  /-- In HALF_OPEN: it is counted, and closes the circuit or does not. -/
  | counted (closes : Bool)
  | inClosed
  | ignored
  deriving DecidableEq

/-- A call is admitted, or its outcome is recorded. -/
inductive Note where
  | admitted (tid : ℕ) (isProbe : Bool)
  | succeeded (tid : ℕ) (success : Success)
  /-- A server error, which opens the circuit or does not. -/
  | failed (tid : ℕ) (opens : Bool)
  deriving DecidableEq

section Notes

variable (c : Thresholds)

/-- What `recordSuccess` records at a time. -/
def successAt (s : CircuitBreaker) (now : ℚ) : Success :=
  if s.stateAt c now = .halfOpen then .counted (c.successThreshold ≤ s.successCount + 1)
  else if s.state = .closed then .inClosed
  else .ignored

/-- `recordFailure` takes the circuit from CLOSED to OPEN. -/
def opensAt (s : CircuitBreaker) (now : ℚ) : Bool :=
  s.state = .closed && (s.recordFailure c now).state = .opened

/-- What a step of a call shows. -/
def noteOf (s : CircuitBreaker) (tid : ℕ) : Call → Action → Option Note
  | .starting, .preCallCheck now =>
    match s.preCallCheck c now with
    | .ok (_, isProbe) => some (.admitted tid isProbe)
    | .error _ => none
  | .returned _, .record now _ => some (.succeeded tid (successAt c s now))
  | .raised _ exc, .record now _ =>
    if isServerError exc = .ok true then some (.failed tid (opensAt c s now)) else none
  | _, _ => none

def note (p : State) : Event → Option Note
  | .spawn _ => none
  | .act tid a => p.tasks[tid]?.bind fun t => noteOf c p.store tid t a

/-- The breaker and its calls, with the history of what they have recorded. -/
abbrev History := State × List Note

abbrev recordedStep : History → Event → Option History := recorded (step c) (note c)

/-- A new breaker, without a call or a history. -/
def Initial (r : History) : Prop := r = (⟨{}, []⟩, [])

end Notes

/-- A server error is recorded. -/
def Note.isFailure : Note → Bool
  | .failed _ _ => true
  | _ => false

/-- A success is recorded in CLOSED, or closes the circuit. -/
def Note.resets : Note → Bool
  | .succeeded _ .inClosed => true
  | .succeeded _ (.counted closes) => closes
  | _ => false

/-- The circuit opens. -/
def Note.opens : Note → Bool
  | .failed _ opens => opens
  | _ => false

/-! ### What a step can do -/

namespace CircuitBreaker

variable {c : Thresholds} {self : CircuitBreaker} {now : ℚ}

theorem stateAt_eq_closed : self.stateAt c now = .closed ↔ self.state = .closed := by
  unfold stateAt
  split_ifs with h
  · simp only [Bool.and_eq_true, decide_eq_true_eq] at h
    simp [h.1]
  · exact Iff.rfl

theorem opened_of_halfOpen (h : self.stateAt c now = .halfOpen) (hstored : self.state ≠ .halfOpen) :
    self.state = .opened := by
  unfold stateAt at h
  split_ifs at h with hopen
  · simp only [Bool.and_eq_true, decide_eq_true_eq] at hopen
    exact hopen.1
  · exact absurd h hstored

theorem recordSuccess_eq (now' : ℚ) : self.recordSuccess c now now' =
    match successAt c self now with
    | .counted true => self.close
    | .counted false => { self with successCount := self.successCount + 1 }
    | .inClosed => { self with failureCount := 0 }
    | .ignored => self := by
  unfold recordSuccess successAt
  by_cases hhalf : self.stateAt c now = .halfOpen
  · rw [if_pos hhalf, if_pos hhalf]
    by_cases hlast : c.successThreshold ≤ self.successCount + 1 <;> simp [hlast]
  · rw [if_neg hhalf, if_neg hhalf]
    by_cases hclosed : self.state = .closed
    · rw [if_pos (stateAt_eq_closed.2 hclosed), if_pos hclosed]
      split_ifs with hpos
      · rfl
      · have hzero : self.failureCount = 0 := by omega
        simp [← hzero]
    · rw [if_neg (stateAt_eq_closed.not.2 hclosed), if_neg hclosed]

end CircuitBreaker

/-- **The steps of a call**, with what they show: one rule for each thing a step can do. -/
inductive Steps (c : Thresholds) (s : CircuitBreaker) (tid : ℕ) :
    Call → Action → CircuitBreaker → Call → Option Note → Prop
  | admits {now} (h : s.stateAt c now = .closed) : Steps c s tid .starting (.preCallCheck now) s
      (.awaiting false) (some (.admitted tid false))
  | probe {now} (h : s.stateAt c now = .halfOpen) (hfree : s.halfOpenProbeInFlight = false) :
      Steps c s tid .starting (.preCallCheck now) { s with halfOpenProbeInFlight := true }
        (.awaiting true) (some (.admitted tid true))
  | refuse {now message} : Steps c s tid .starting (.preCallCheck now) s (.refused message) none
  | returns {isProbe} :
      Steps c s tid (.awaiting isProbe) (.complete none) s (.returned isProbe) none
  | raises {isProbe exc} :
      Steps c s tid (.awaiting isProbe) (.complete (some exc)) s (.raised isProbe exc) none
  | close {isProbe now now'} (h : s.stateAt c now = .halfOpen)
      (hlast : c.successThreshold ≤ s.successCount + 1) :
      Steps c s tid (.returned isProbe) (.record now now') s.close (leave isProbe)
        (some (.succeeded tid (.counted true)))
  | count {isProbe now now'} (h : s.stateAt c now = .halfOpen) :
      Steps c s tid (.returned isProbe) (.record now now')
        { s with successCount := s.successCount + 1 } (leave isProbe)
        (some (.succeeded tid (.counted false)))
  | reset {isProbe now now'} (h : s.state = .closed) :
      Steps c s tid (.returned isProbe) (.record now now') { s with failureCount := 0 }
        (leave isProbe) (some (.succeeded tid .inClosed))
  | ignore {isProbe now now'} : Steps c s tid (.returned isProbe) (.record now now') s
      (leave isProbe) (some (.succeeded tid .ignored))
  | fail {isProbe exc now now'} (h : isServerError exc = .ok true) :
      Steps c s tid (.raised isProbe exc) (.record now now') (s.recordFailure c now)
        (leave isProbe) (some (.failed tid (opensAt c s now)))
  | pass {isProbe exc now now'} (h : isServerError exc ≠ .ok true) :
      Steps c s tid (.raised isProbe exc) (.record now now') s (leave isProbe) none
  | release : Steps c s tid .releasing .release s.releaseHalfOpenProbe .ended none
  | cancel {t} (h : t ≠ .releasing) : Steps c s tid t .cancel s (leave t.probe) none
  | leak : Steps c s tid .releasing .cancel s .ended none

section Inversion

variable {c : Thresholds} {s s' : CircuitBreaker} {t t' : Call} {a : Action} {tid : ℕ}
  {r r' : History} {m : Event}

theorem steps_preCallCheck {now : ℚ} (h : act c s .starting (.preCallCheck now) = some (s', t')) :
    Steps c s tid .starting (.preCallCheck now) s' t'
      (noteOf c s tid .starting (.preCallCheck now)) := by
  simp only [act, noteOf, CircuitBreaker.preCallCheck] at h ⊢
  cases hstate : s.stateAt c now with
  | closed =>
    simp only [hstate] at h ⊢
    cases h
    exact .admits hstate
  | opened =>
    simp only [hstate] at h ⊢
    cases h
    exact .refuse
  | halfOpen =>
    cases hflight : s.halfOpenProbeInFlight with
    | true =>
      simp only [hstate, hflight, if_true] at h ⊢
      cases h
      exact .refuse
    | false =>
      simp only [hstate, hflight, Bool.false_eq_true, if_false] at h ⊢
      cases h
      exact .probe hstate hflight

theorem steps_recordSuccess {isProbe : Bool} {now now' : ℚ} :
    Steps c s tid (.returned isProbe) (.record now now') (s.recordSuccess c now now')
      (leave isProbe) (some (.succeeded tid (successAt c s now))) := by
  rw [CircuitBreaker.recordSuccess_eq]
  unfold successAt
  split_ifs with hhalf hclosed
  · by_cases hlast : c.successThreshold ≤ s.successCount + 1
    · simp only [hlast, decide_true]
      exact .close hhalf hlast
    · simp only [hlast, decide_false]
      exact .count hhalf
  · exact .reset hclosed
  · exact .ignore

theorem steps_of_act (h : act c s t a = some (s', t')) :
    Steps c s tid t a s' t' (noteOf c s tid t a) := by
  unfold act at h
  split at h
  · exact steps_preCallCheck h
  · cases h
    exact .returns
  · cases h
    exact .raises
  · cases h
    exact steps_recordSuccess
  · rename_i isProbe exc now now'
    by_cases herror : isServerError exc = .ok true
    · simp only [herror] at h
      cases h
      simpa [noteOf, herror] using Steps.fail herror
    · split at h
      · contradiction
      · cases h
        simpa [noteOf, herror] using Steps.pass herror
  · cases h
    exact .release
  · cases h
    exact .cancel (t := .starting) nofun
  · cases h
    exact .cancel (t := .awaiting _) nofun
  · cases h
    exact .cancel (t := .returned _) nofun
  · cases h
    exact .cancel (t := .raised _ _) nofun
  · cases h
    exact .leak
  · cases h

/-- **What a step can do**, to the breaker, the calls and the history. -/
theorem recordedStep_cases (h : recordedStep c r m = some r') :
    (∃ i, m = .spawn i ∧ r'.1.store = r.1.store ∧ r'.1.tasks = r.1.tasks ++ [.starting] ∧
      r'.2 = r.2) ∨
    (∃ tid a t t' n, m = .act tid a ∧ r.1.tasks[tid]? = some t ∧
      Steps c r.1.store tid t a r'.1.store t' n ∧ r'.1.tasks = r.1.tasks.set tid t' ∧
      r'.2 = r.2 ++ n.toList) := by
  obtain ⟨hstep, hnotes⟩ := recorded_eq_some.1 h
  obtain ⟨i, rfl, hp⟩ | ⟨tid, a, t, s', t', rfl, ht, hact, hp⟩ := Program.step_cases hstep
  · exact Or.inl ⟨i, rfl, by rw [hp], by rw [hp]; rfl, by simpa [note] using hnotes⟩
  · have hsteps : Steps c r.1.store tid t a s' t' (noteOf c r.1.store tid t a) :=
      steps_of_act hact
    refine Or.inr ⟨tid, a, t, t', noteOf c r.1.store tid t a, rfl, ht, ?_, by rw [hp], ?_⟩
    · rw [hp]
      exact hsteps
    · simpa [note, ht] using hnotes

@[simp] theorem probe_leave (isProbe : Bool) : (leave isProbe).probe = isProbe := by
  cases isProbe <;> rfl

theorem leave_ne_awaiting {isProbe : Bool} (isProbe' : Bool) :
    leave isProbe ≠ .awaiting isProbe' := by
  cases isProbe <;> nofun

/-- The flag is the lock of the probe: it is taken in HALF_OPEN, and freed by the release. -/
theorem locks_program (c : Thresholds) :
    Locks (program c) CircuitBreaker.halfOpenProbeInFlight Call.probe where
  starts _ _ := rfl
  acquires s t a s' t' h hout hin := by
    obtain ⟨n, hsteps⟩ : ∃ n, Steps c s 0 t a s' t' n := ⟨_, steps_of_act h⟩
    cases hsteps with
    | probe hhalf hfree => exact ⟨hfree, rfl⟩
    | admits | refuse | release | leak => cases hin
    | returns | raises => exact absurd (Eq.trans (Eq.symm hin) hout) Bool.noConfusion
    | _ =>
      rw [probe_leave] at hin
      rw [hin] at hout
      cases hout
  keeps s t a s' t' h hsame := by
    obtain ⟨n, hsteps⟩ : ∃ n, Steps c s 0 t a s' t' n := ⟨_, steps_of_act h⟩
    cases hsteps with
    | probe | release => cases hsame
    | _ => rfl

end Inversion

/-! ### Admission -/

/-- `failureCount` is the number of server errors recorded since the last success in CLOSED, or
since the circuit was closed. -/
def CountsFailures (r : History) : Prop :=
  r.1.store.failureCount = (since Note.resets r.2).countP Note.isFailure

section Admission

variable {c : Thresholds} {s s' : CircuitBreaker} {t t' : Call} {a : Action} {tid : ℕ}
  {r r' : History} {m : Event} {n : Option Note} {h : List Note} {exc : CallError} {status : ℤ}

/-- A note that is neither a reset nor a failure leaves the number as it is. -/
theorem countP_since_concat {b : Note} (hreset : b.resets = false) (hfail : b.isFailure = false) :
    (since Note.resets (h ++ [b])).countP Note.isFailure =
      (since Note.resets h).countP Note.isFailure := by
  rw [since_concat hreset, List.countP_append, List.countP_singleton, hfail]
  rfl

theorem Steps.countsFailures (hs : Steps c s tid t a s' t' n)
    (hcount : s.failureCount = (since Note.resets h).countP Note.isFailure) :
    s'.failureCount = (since Note.resets (h ++ n.toList)).countP Note.isFailure := by
  cases hs with
  | close | reset =>
    rw [Option.toList_some, since_concat_of_mark rfl]
    rfl
  | fail =>
    rw [Option.toList_some, since_concat rfl, List.countP_append, ← hcount]
    rfl
  | admits | probe | count | ignore =>
    rw [Option.toList_some, countP_since_concat rfl rfl]
    exact hcount
  | _ =>
    rw [Option.toList_none, List.append_nil]
    exact hcount

theorem CountsFailures.step (hr : CountsFailures r) (hs : recordedStep c r m = some r') :
    CountsFailures r' := by
  unfold CountsFailures at hr ⊢
  obtain ⟨i, -, hstore, -, hnotes⟩ | ⟨tid, a, t, t', n, -, -, hsteps, -, hnotes⟩ :=
    recordedStep_cases hs
  · rw [hstore, hnotes, hr]
  · rw [hnotes]
    exact hsteps.countsFailures hr

theorem isServerError_of_status (hexc : exc.status = some status) (hstatus : status < 500) :
    isServerError exc = .ok false := by
  have hlow : ¬ 500 ≤ status := not_le.2 hstatus
  unfold CallError.status at hexc
  split at hexc <;> cases hexc <;> simp [isServerError, hlow]

/-- Only the failure that reaches the threshold takes the breaker out of CLOSED. -/
theorem Steps.failed_of_leaves (hs : Steps c s tid t a s' t' n) (hclosed : s.state = .closed)
    (hleaves : s'.state ≠ .closed) :
    c.failureThreshold ≤ s'.failureCount := by
  cases hs with
  | fail =>
    by_contra hlow
    exact hleaves ((if_neg hlow).trans hclosed)
  | close => exact absurd rfl hleaves
  | _ => exact absurd hclosed hleaves

theorem Steps.closed_of_admitted (hs : Steps c s tid t a s' t' n) (ht' : t' = .awaiting false) :
    ∃ now, a = .preCallCheck now ∧ s.stateAt c now = .closed := by
  cases hs with
  | admits hclosed => exact ⟨_, rfl, hclosed⟩
  | probe | refuse | returns | raises | release | leak => cases ht'
  | _ => exact absurd ht' (leave_ne_awaiting _)

theorem Steps.unchanged_of_status {isProbe : Bool}
    (hs : Steps c s tid (.raised isProbe exc) a s' t' n) (hexc : exc.status = some status)
    (hstatus : status < 500) : s' = s ∧ n = none := by
  cases hs with
  | fail herror =>
    rw [isServerError_of_status hexc hstatus] at herror
    cases herror
  | pass | cancel => exact ⟨rfl, rfl⟩

theorem countsFailures_of_reachable (hr : Reachable (recordedStep c) Initial r) :
    CountsFailures r := by
  refine hr.invariant ?_ fun r m r' => CountsFailures.step
  rintro _ rfl
  rfl

theorem exclusive_of_reachable (hr : Reachable (recordedStep c) Initial r) :
    Exclusive CircuitBreaker.halfOpenProbeInFlight Call.probe r.1 := by
  refine hr.invariant (I := fun r => Exclusive _ _ r.1) ?_ fun r m r' h hs => ?_
  · rintro _ rfl
    exact exclusive_start _
  · exact h.step (locks_program c) (recorded_eq_some.1 hs).1

theorem closed_of_admitted (hs : recordedStep c r m = some r')
    (hbefore : r.1.tasks[tid]? ≠ some (.awaiting false))
    (hafter : r'.1.tasks[tid]? = some (.awaiting false)) :
    ∃ now, m = .act tid (.preCallCheck now) ∧ r.1.store.stateAt c now = .closed := by
  obtain ⟨i, -, -, htasks, -⟩ | ⟨tid', a, t, t', n, rfl, ht, hsteps, htasks, -⟩ :=
    recordedStep_cases hs
  · rw [htasks] at hafter
    rcases getElem?_append_cases hafter with h | h
    · exact absurd h hbefore
    · cases h
  · rw [htasks] at hafter
    rcases getElem?_set_cases hafter with ⟨rfl, rfl⟩ | ⟨-, h⟩
    · obtain ⟨now, rfl, hstate⟩ := hsteps.closed_of_admitted rfl
      exact ⟨now, rfl, hstate⟩
    · exact absurd h hbefore

theorem CountsFailures.of_leaves (hr : CountsFailures r) (hs : recordedStep c r m = some r')
    (hclosed : r.1.store.state = .closed) (hleaves : r'.1.store.state ≠ .closed) :
    c.failureThreshold ≤ (since Note.resets r'.2).countP Note.isFailure := by
  have hcount : r'.1.store.failureCount = (since Note.resets r'.2).countP Note.isFailure :=
    hr.step hs
  rw [← hcount]
  obtain ⟨i, -, hstore, -⟩ | ⟨tid, a, t, t', n, -, -, hsteps, -⟩ := recordedStep_cases hs
  · rw [hstore] at hleaves
    exact absurd hclosed hleaves
  · exact hsteps.failed_of_leaves hclosed hleaves

theorem unchanged_of_status {isProbe : Bool} (hs : recordedStep c r (.act tid a) = some r')
    (ht : r.1.tasks[tid]? = some (.raised isProbe exc)) (hexc : exc.status = some status)
    (hstatus : status < 500) : r'.1.store = r.1.store ∧ r'.2 = r.2 := by
  obtain ⟨i, hi, -⟩ | ⟨tid', a', t, t', n, hact, ht', hsteps, -, hnotes⟩ := recordedStep_cases hs
  · cases hi
  · cases hact
    obtain rfl := Option.some.inj (ht'.symm.trans ht)
    obtain ⟨hstore, rfl⟩ := hsteps.unchanged_of_status hexc hstatus
    exact ⟨hstore, by simpa using hnotes⟩

/-- **The probe, the admission of other calls and the way out of CLOSED**, in every state that any
interleaving of calls leads to and for every step from it. -/
theorem call_admission (hr : Reachable (recordedStep c) Initial r) :
    AtMostOne Call.probe r.1.tasks ∧
    ∀ m r', recordedStep c r m = some r' →
      (∀ tid : ℕ, r.1.tasks[tid]? ≠ some (.awaiting false) →
        r'.1.tasks[tid]? = some (.awaiting false) →
        ∃ now, m = .act tid (.preCallCheck now) ∧ r.1.store.stateAt c now = .closed) ∧
      (r.1.store.state = .closed → r'.1.store.state ≠ .closed →
        c.failureThreshold ≤ (since Note.resets r'.2).countP Note.isFailure) ∧
      (∀ (tid : ℕ) a isProbe exc status, m = .act tid a →
        r.1.tasks[tid]? = some (.raised isProbe exc) → exc.status = some status → status < 500 →
        r'.1.store = r.1.store ∧ r'.2 = r.2) := by
  have hcounts := countsFailures_of_reachable hr
  refine ⟨(exclusive_of_reachable hr).one, fun m r' hs => ⟨fun tid hbefore hafter => ?_,
    fun hclosed hleaves => ?_, fun tid a isProbe exc status hm ht hexc hstatus => ?_⟩⟩
  · exact closed_of_admitted hs hbefore hafter
  · exact hcounts.of_leaves hs hclosed hleaves
  · subst hm
    exact unchanged_of_status hs ht hexc hstatus

/-- The second timeout opens the circuit; a minute later one of two calls is the probe. -/
theorem call_admission_sample :
    let c : Thresholds := { failureThreshold := 2 }
    let failing : List Event := [.spawn (), .spawn (), .act 0 (.preCallCheck 0),
      .act 1 (.preCallCheck 0), .act 0 (.complete (some .timeout)),
      .act 1 (.complete (some (.clientResponse 503))), .act 0 (.record 3 3)]
    let probing : List Event := [.act 1 (.record 4 4), .spawn (), .spawn (),
      .act 2 (.preCallCheck 64), .act 3 (.preCallCheck 65)]
    let start : History := (⟨{}, []⟩, [])
    let r := endOf (recordedStep c) start failing
    let opened := endOf (recordedStep c) r [.act 1 (.record 4 4)]
    let probed := endOf (recordedStep c) r probing
    (r.1.store.state = .closed ∧ opened.1.store.state = .opened ∧
      c.failureThreshold ≤ (since Note.resets opened.2).countP Note.isFailure) ∧
    probed.1.tasks = [.ended, .ended, .awaiting true,
      .refused "Circuit breaker is HALF_OPEN — probe in flight"] ∧
    AtMostOne Call.probe probed.1.tasks := by
  intro c failing probing start r opened probed
  have hr : run (recordedStep c) start failing = some r := run_endOf (by decide +kernel)
  have hprobed : run (recordedStep c) r probing = some probed := run_endOf (by decide +kernel)
  have hreach : Reachable (recordedStep c) Initial r := ⟨start, failing, rfl, hr⟩
  have hopened : recordedStep c r (.act 1 (.record 4 4)) = some opened := rfl
  have hclosed : r.1.store.state = .closed := by decide +kernel
  have hleft : opened.1.store.state = .opened := by decide +kernel
  refine ⟨⟨hclosed, hleft, ?_⟩, by decide +kernel, (call_admission (hreach.run hprobed)).1⟩
  exact ((call_admission hreach).2 _ _ hopened).2.1 hclosed (by simp [hleft])

end Admission

end FirecrawlLb.Core.Resilience
