import FirecrawlLb.Core.RateLimiter
import FirecrawlLb.DashboardAuth.System
import Mathlib.Algebra.Order.BigOperators.Group.List

/-!
# Guessing passwords and codes

Four routes check a password or a one-time code, each behind the attempt limiter: the limiter
records the attempt of the client, the service checks what the client sent, and a check that passes
clears the client's attempts.  The limiter bounds what is recorded; here is what that means for what
the service checks, with all the calls of the dashboard interleaved.
-/

namespace FirecrawlLb.DashboardAuth.Guesses

open FirecrawlLb.Lib FirecrawlLb.Lib.Run FirecrawlLb.Lib.Tasks FirecrawlLb.Python
open FirecrawlLb.Db.Models FirecrawlLb.Core FirecrawlLb.Core.RateLimiter
open FirecrawlLb.DashboardAuth FirecrawlLb.DashboardAuth.Repository
open FirecrawlLb.DashboardAuth.Service
open FirecrawlLb.DashboardAuth.System (TotpCall)

/-! ### The routes -/

/-- `_password_rate_limiter` -/
def passwordRateLimiter : DatabaseRateLimiter := ⟨8, 60, "password", by decide, by decide⟩

/-- `_totp_rate_limiter` -/
def totpRateLimiter : DatabaseRateLimiter := ⟨8, 60, "totp", by decide, by decide⟩

/-- The routes behind a limiter. -/
inductive Route where
  | loginPassword
  | confirmTotpSetup
  | verifyTotp
  | disableTotp
  deriving DecidableEq

namespace Route

def limiter : Route → DatabaseRateLimiter
  | .loginPassword => passwordRateLimiter
  | .confirmTotpSetup | .verifyTotp | .disableTotp => totpRateLimiter

def keyStart : Route → String
  | .loginPassword => "password_login"
  | .confirmTotpSetup => "totp_setup_confirm"
  | .verifyTotp => "totp_verify"
  | .disableTotp => "totp_disable"

/-- The code of the answer to one attempt too many. -/
def limitedCode : Route → String
  | .loginPassword => "password_rate_limited"
  | .confirmTotpSetup | .verifyTotp | .disableTotp => "totp_rate_limited"

end Route

/-- The client as the limiter knows it. -/
def clientName (client : Option String) : String := client.getD "unknown"

/-- `_session_client_key` -/
def sessionClientKey (client : Option String) (keyStart : String) : String :=
  keyStart ++ ":" ++ clientName client

/-- A call of one of the routes. -/
inductive LimitedCall where
  | loginPassword (cached : DashboardSettings) (password : String)
  | confirmTotpSetup (session : Option DashboardSessionState) (secret code : String) (now : ℤ)
      (nonce : ℕ)
  | totp (call : TotpCall)

namespace LimitedCall

def route : LimitedCall → Route
  | .loginPassword _ _ => .loginPassword
  | .confirmTotpSetup _ _ _ _ _ => .confirmTotpSetup
  | .totp call => if call.disables then .disableTotp else .verifyTotp

/-- What the service is asked. -/
def request : LimitedCall → System.Request
  | .loginPassword cached password => .loginPassword cached password
  | .confirmTotpSetup session secret code now nonce =>
    .confirmTotpSetup session secret code now nonce
  | .totp call => .totp call

def ofRequest : System.Request → Option LimitedCall
  | .loginPassword cached password => some (.loginPassword cached password)
  | .confirmTotpSetup session secret code now nonce =>
    some (.confirmTotpSetup session secret code now nonce)
  | .totp call => some (.totp call)
  | .setupPassword _ | .changePassword _ _ _ _ _ | .removePassword _ _ _ _
  | .ensureAutoBootstrapToken _ => none

/-- The password or the code is right, or there is no password any more: the call that finds this
clears the attempts as one with the right password does. -/
def right (env : Env) (row : DashboardSettings) : LimitedCall → Bool
  | .loginPassword cached password =>
    match Service.loginPassword env cached row password with
    | .ok () => true
    | .error failure => failure = .passwordNotConfigured
  | .confirmTotpSetup session secret code now _ =>
    (Service.confirmTotpSetup env row session secret code now).isOk
  | .totp call => (matchTotpStep env row call.code call.now).isOk

/-- What a route checks before it asks the limiter, with the session as it decodes the cookie. -/
def entry (env : Env) (row : DashboardSettings) (session : Option DashboardSessionState) :
    LimitedCall → Except Failure Unit
  | .loginPassword cached _ =>
    if env.dashboardAuthMode = .disabled then
      .error (.badRequest "Password login is disabled while dashboard auth is bypassed"
        "password_management_disabled")
    else if cached.passwordHash.isNone then .error .passwordNotConfigured
    else .ok ()
  | .confirmTotpSetup _ _ _ _ _ => do
    ensurePasswordManagementEnabled env
    if row.passwordHash.isSome && session.any (·.passwordVerified) then .ok ()
    else .error (.auth "Authentication is required" "authentication_required")
  | .totp call => do
    ensurePasswordManagementEnabled env
    if call.disables then requireTotpVerifiedSession row session
    else requireActivePasswordSession row session

end LimitedCall

/-- An attempt that the limiter has recorded. -/
structure Attempt where
  client : Option String
  call : LimitedCall
  attemptedAt : ℤ

def Attempt.key (attempt : Attempt) : String :=
  sessionClientKey attempt.client attempt.call.route.keyStart

/-! ### The calls of the dashboard -/

structure Store where
  row : DashboardSettings
  attempts : List RateLimitAttempt

/-- A request from a client, with the session that its cookie first decodes to. -/
structure Request where
  client : Option String
  session : Option DashboardSessionState
  call : System.Request

inductive Task where
  /-- `check_and_increment` runs. -/
  | limiting (client : Option String) (call : LimitedCall) (progress : RateLimiter.Progress)
  /-- The attempt is recorded; the service is asked next. -/
  | admitted (attempt : Attempt)
  | running (attempt : Option Attempt) (task : System.Task)
  /-- The attempts of the client are cleared, after the service has answered. -/
  | cleared (task : System.Task)
  | refused (failure : Failure)
  | rateLimited (error : DashboardRateLimitError) (code : String)
  | failed

inductive Action where
  | limiter (a : RateLimiter.Action)
  | service (a : System.Action)

/-- The answer to one attempt too many. -/
def tooManyAttempts (route : Route) (error : DashboardRateLimitError) : Task :=
  .rateLimited ⟨s!"Too many attempts. Try again in {error.retryAfter} seconds.", error.retryAfter⟩
    route.limitedCode

/-- A call that `check_and_increment` has brought from one point to the next. -/
def limited (client : Option String) (call : LimitedCall) (before : RateLimiter.Progress) :
    RateLimiter.Progress → Task
  | .returned =>
    match before with
    | .timed now => .admitted ⟨client, call, now⟩
    | _ => .failed
  | .raised error => tooManyAttempts call.route error
  | .failed => .failed
  | progress => .limiting client call progress

/-- The route clears the attempts: the service has returned, or there is no password. -/
def clears (attempt : Attempt) : System.Task → Bool
  | .returned _ => true
  | .ended failure =>
    attempt.call.route = .loginPassword && failure = .passwordNotConfigured
  | _ => false

section Model

variable (env : Env)

def spawn (s : Store) (request : Request) : Task :=
  match LimitedCall.ofRequest request.call with
  | none => .running none (System.spawn env s.row request.call)
  | some call =>
    match call.entry env s.row request.session with
    | .error failure => .refused failure
    | .ok () => .limiting request.client call .started

def act (s : Store) : Task → Action → Option (Store × Task)
  | .limiting client call progress, a =>
    match a with
    | .limiter a =>
      (RateLimiter.act call.route.limiter s.attempts
        ⟨.checkAndIncrement (sessionClientKey client call.route.keyStart), progress⟩ a).map fun r =>
          ({ s with attempts := r.1 }, limited client call progress r.2.progress)
    | .service _ => none
  | .admitted attempt, a =>
    match a with
    | .service .resume =>
      some (s, .running (some attempt) (System.spawn env s.row attempt.call.request))
    | .service .fail => some (s, .failed)
    | .limiter _ => none
  | .running attempt task, a =>
    match a with
    | .service a =>
      (System.act env s.row task a).map fun r => ({ s with row := r.1 }, .running attempt r.2)
    | .limiter a =>
      match attempt with
      | none => none
      | some attempt =>
        if clears attempt task then
          (RateLimiter.act attempt.call.route.limiter s.attempts
            ⟨.clearForKey attempt.key, .started⟩ a).map fun r =>
              ({ s with attempts := r.1 },
                if r.2.progress = .returned then .cleared task else .failed)
        else none
  | .cleared _, _ | .refused _, _ | .rateLimited _ _, _ | .failed, _ => none

def program : Program Store Task Request Action where
  spawn := spawn env
  act := act env

abbrev State := Pool Store Task

abbrev Event := Move Request Action

def step : State → Event → Option State := (program env).step

end Model

/-! ### Guesses -/

/-- What the service has checked: an attempt, with the settings row that it has read. -/
structure Guess where
  attempt : Attempt
  row : DashboardSettings

/-- The guess of a step. -/
def guess (s : Store) : Task → Action → Option Guess
  | .admitted attempt, .service .resume => some ⟨attempt, s.row⟩
  | _, _ => none

def guessed (p : State) : Event → Option Guess
  | .spawn _ => none
  | .act tid a => (p.tasks[tid]?).bind fun t => guess p.store t a

/-- The guesses of a run, in order. -/
def guesses (env : Env) (s : Store) (ms : List Event) : List Guess :=
  trace (step env) guessed ⟨s, []⟩ ms

/-- The attempt is one of the client on the route. -/
def Attempt.isOf (route : Route) (client : Option String) (attempt : Attempt) : Bool :=
  attempt.call.route = route && clientName attempt.client = clientName client

/-- The attempt lies in the window of the route's limiter. -/
def Attempt.within (route : Route) (start : ℤ) (attempt : Attempt) : Bool :=
  start ≤ attempt.attemptedAt && attempt.attemptedAt ≤ start + route.limiter.window

/-- The guesses of the client on the route, in a window. -/
def guessesWithin (route : Route) (client : Option String) (start : ℤ) (gs : List Guess) : ℤ :=
  gs.countP fun g => g.attempt.isOf route client && g.attempt.within route start

/-- The right ones of the client's guesses on the route. -/
def rightGuesses (env : Env) (route : Route) (client : Option String) (gs : List Guess) : ℤ :=
  gs.countP fun g => g.attempt.isOf route client && g.attempt.call.right env g.row

/-- The recorded attempts of the client on the route, in a window. -/
def recordedWithin (route : Route) (client : Option String) (start : ℤ)
    (attempts : List RateLimitAttempt) : ℤ :=
  attemptsWithin route.limiter (sessionClientKey client route.keyStart) start attempts

/-! ### Keys -/

section Keys

variable {route route' : Route} {client client' : Option String}

/-- **No two routes share a key**, and no two clients of one. -/
theorem sessionClientKey_inj :
    sessionClientKey client route.keyStart = sessionClientKey client' route'.keyStart ↔
      route = route' ∧ clientName client = clientName client' := by
  constructor
  · intro h
    -- the texts differ in what is before the colon, unless the routes are the same
    have h := congrArg String.toList h
    cases route <;> cases route' <;>
      simp [sessionClientKey, Route.keyStart, String.toList_append] at h
    all_goals exact ⟨rfl, String.toList_inj.1 h⟩
  · rintro ⟨rfl, hclient⟩
    rw [sessionClientKey, sessionClientKey, hclient]

theorem isOf_iff {attempt : Attempt} : attempt.isOf route client = true ↔
    attempt.call.route = route ∧ clientName attempt.client = clientName client := by
  simp [Attempt.isOf]

theorem key_eq_iff {attempt : Attempt} :
    attempt.key = sessionClientKey client route.keyStart ↔ attempt.isOf route client = true := by
  rw [Attempt.key, sessionClientKey_inj, isOf_iff]

theorem isOf_row {attempt : Attempt} : route.limiter.isOf (sessionClientKey client route.keyStart)
    ⟨attempt.key, attempt.attemptedAt, attempt.call.route.limiter.type⟩ =
      attempt.isOf route client := by
  rw [Bool.eq_iff_iff, ← key_eq_iff]
  simp only [DatabaseRateLimiter.isOf, Bool.and_eq_true, decide_eq_true_eq, and_iff_left_iff_imp]
  intro hkey
  rw [(isOf_iff.1 (key_eq_iff.1 hkey)).1]

end Keys

/-! ### Single steps -/

section Steps

variable {env : Env} {s s' : Store} {t t' : Task} {a : Action} {route : Route}
  {client : Option String} {start : ℤ} {attempt : Attempt}

theorem recordedWithin_concat (route : Route) (client : Option String) (start : ℤ)
    (attempt : Attempt) (attempts : List RateLimitAttempt) :
    recordedWithin route client start (attempts ++
      [⟨attempt.key, attempt.attemptedAt, attempt.call.route.limiter.type⟩]) =
      recordedWithin route client start attempts +
        (attempt.isOf route client && attempt.within route start).toInt := by
  unfold recordedWithin attemptsWithin
  cases hof : attempt.isOf route client with
  | false =>
    rw [times_append_of_not_isOf (by rw [isOf_row, hof])]
    simp
  | true =>
    rw [times_append_of_isOf (by rw [isOf_row, hof]), inClosedWindow, inClosedWindow,
      List.countP_append, List.countP_singleton, Bool.true_and, Attempt.within]
    simp only [Bool.decide_and]
    split_ifs with hin <;> simp [hin, Bool.toInt]

theorem recordedWithin_delete (hof : attempt.isOf route client = false)
    (attempts : List RateLimitAttempt) :
    recordedWithin route client start
      (attempt.call.route.limiter.deleteAttempts attempt.key attempts) =
        recordedWithin route client start attempts := by
  have hkey : ∀ row ∈ attempts,
      (route.limiter.isOf (sessionClientKey client route.keyStart) row &&
        !attempt.call.route.limiter.isOf attempt.key row) =
      route.limiter.isOf (sessionClientKey client route.keyStart) row := by
    intro row _
    cases hown : route.limiter.isOf (sessionClientKey client route.keyStart) row with
    | false => rfl
    | true =>
      have hrow : row.key = sessionClientKey client route.keyStart := by
        simp only [DatabaseRateLimiter.isOf, Bool.and_eq_true, decide_eq_true_eq] at hown
        exact hown.1
      have hne : row.key ≠ attempt.key := fun heq => by
        rw [key_eq_iff.1 (heq.symm.trans hrow)] at hof
        cases hof
      simp [DatabaseRateLimiter.isOf, hne]
  have htimes : route.limiter.times (sessionClientKey client route.keyStart)
      (attempt.call.route.limiter.deleteAttempts attempt.key attempts) =
      route.limiter.times (sessionClientKey client route.keyStart) attempts := by
    rw [DatabaseRateLimiter.times, DatabaseRateLimiter.deleteAttempts, List.filter_filter,
      List.filter_congr hkey, DatabaseRateLimiter.times]
  rw [recordedWithin, attemptsWithin, htimes, recordedWithin, attemptsWithin]

end Steps

/-! ### What a step can do -/

/-- The service has not been asked, or has nothing more to do. -/
def Task.idle : Task → Bool
  | .admitted _ | .running _ _ => false
  | _ => true

/-- **How a call goes on**, one rule for each thing it can do to the store. -/
inductive Steps (env : Env) (s : Store) : Task → Action → Store → Task → Prop
  | enter {client call now}
      (h : countFrom (now - call.route.limiter.window)
          (call.route.limiter.times (sessionClientKey client call.route.keyStart) s.attempts) <
        call.route.limiter.maxAttempts) :
      Steps env s (.limiting client call (.timed now)) (.limiter .execute)
        { s with attempts := s.attempts ++
          [⟨sessionClientKey client call.route.keyStart, now, call.route.limiter.type⟩] }
        (.admitted ⟨client, call, now⟩)
  | ask {attempt} : Steps env s (.admitted attempt) (.service .resume) s
      (.running (some attempt) (System.spawn env s.row attempt.call.request))
  | serve {attempt task a row task'} (h : System.act env s.row task a = some (row, task')) :
      Steps env s (.running attempt task) (.service a) { s with row := row }
        (.running attempt task')
  | clear {attempt task} (h : clears attempt task = true) :
      Steps env s (.running (some attempt) task) (.limiter .execute)
        { s with attempts := attempt.call.route.limiter.deleteAttempts attempt.key s.attempts }
        (.cleared task)
  | rest {t a t'} (hguess : guess s t a = none) (hidle : t'.idle = true) : Steps env s t a s t'

section Inversion

variable {env : Env} {s s' : Store} {t t' : Task} {a : Action}

theorem steps_of_limiter {client : Option String} {call : LimitedCall}
    {progress : RateLimiter.Progress} {a : RateLimiter.Action} {attempts : List RateLimitAttempt}
    {check : RateLimiter.Task}
    (h : RateLimiter.act call.route.limiter s.attempts
      ⟨.checkAndIncrement (sessionClientKey client call.route.keyStart), progress⟩ a =
        some (attempts, check)) :
    Steps env s (.limiting client call progress) (.limiter a) { s with attempts := attempts }
      (limited client call progress check.progress) := by
  cases a with
  | readClock now =>
    cases progress <;> cases h
    exact .rest rfl rfl
  | fail =>
    cases progress <;> cases h <;> exact .rest rfl rfl
  | execute =>
    cases progress with
    | timed now =>
      simp only [RateLimiter.act] at h
      split at h
      · rename_i hinsert
        obtain ⟨hcount, rfl⟩ := insertAttempt_eq_some.1 hinsert
        cases h
        exact .enter hcount
      · cases h
        exact .rest rfl rfl
    | refused now =>
      cases h
      exact .rest rfl rfl
    | _ => cases h

theorem steps_of_act (h : act env s t a = some (s', t')) : Steps env s t a s' t' := by
  cases t with
  | limiting client call progress =>
    cases a with
    | service a => cases h
    | limiter a =>
      obtain ⟨⟨attempts, check⟩, hact, heq⟩ := Option.map_eq_some_iff.1 h
      cases heq
      exact steps_of_limiter hact
  | admitted attempt =>
    cases a with
    | limiter a => cases h
    | service a =>
      cases a <;> cases h
      exacts [.ask, .rest rfl rfl]
  | running attempt task =>
    cases a with
    | service a =>
      obtain ⟨⟨row, task'⟩, hact, heq⟩ := Option.map_eq_some_iff.1 h
      cases heq
      exact .serve hact
    | limiter a =>
      cases attempt with
      | none => cases h
      | some attempt =>
        simp only [act] at h
        split_ifs at h with hclears
        obtain ⟨⟨attempts, check⟩, hact, heq⟩ := Option.map_eq_some_iff.1 h
        cases a with
        | readClock now => cases hact
        | execute =>
          cases hact
          cases heq
          exact .clear hclears
        | fail =>
          cases hact
          cases heq
          exact .rest rfl rfl
  | cleared _ | refused _ | rateLimited _ _ | failed => cases h

end Inversion

/-! ### The budget of a client -/

/-- The route may still clear the client's attempts. -/
def mayClear (attempt : Attempt) : System.Task → Bool
  | .failed => false
  | .ended failure => clears attempt (.ended failure)
  | _ => true

/-- What a call may still add to the guesses, or to the room for them. -/
def held (route : Route) (client : Option String) (start : ℤ) : Task → ℤ
  | .admitted attempt => (attempt.isOf route client && attempt.within route start).toInt
  | .running (some attempt) task =>
    if attempt.isOf route client && mayClear attempt task then route.limiter.maxAttempts else 0
  | _ => 0

section Budget

variable {env : Env} {s s' : Store} {t t' : Task} {a : Action} {route : Route}
  {client : Option String} {start : ℤ} {attempt : Attempt}

theorem held_of_idle (h : t.idle = true) : held route client start t = 0 := by
  cases t <;> first | rfl | cases h

theorem held_spawn (env : Env) (s : Store) (request : Request) :
    held route client start (spawn env s request) = 0 := by
  unfold spawn
  split
  · rfl
  · split <;> rfl

theorem held_nonneg (route : Route) (client : Option String) (start : ℤ) (t : Task) :
    0 ≤ held route client start t := by
  have hpos := route.limiter.maxAttempts_pos.le
  cases t with
  | admitted attempt =>
    rw [held]
    cases attempt.isOf route client && attempt.within route start <;> decide
  | running attempt task =>
    cases attempt with
    | none => exact le_rfl
    | some attempt =>
      rw [held]
      split_ifs
      exacts [hpos, le_rfl]
  | _ => exact le_rfl

/-- Only a call whose check passes may clear the attempts. -/
theorem right_of_mayClear {row : DashboardSettings}
    (h : mayClear attempt (System.spawn env row attempt.call.request) = true) :
    attempt.call.right env row = true := by
  obtain ⟨client, call, attemptedAt⟩ := attempt
  cases call with
  | loginPassword cached password =>
    simp only [LimitedCall.request, System.spawn] at h
    cases hcheck : Service.loginPassword env cached row password with
    | ok _ => simp [LimitedCall.right, hcheck]
    | error failure =>
      rw [hcheck] at h
      simpa [System.after, mayClear, clears, LimitedCall.right, hcheck, LimitedCall.route] using h
  | confirmTotpSetup session secret code now nonce =>
    simp only [LimitedCall.request, System.spawn] at h
    cases hcheck : Service.confirmTotpSetup env row session secret code now with
    | ok _ => simp [LimitedCall.right, hcheck, Except.isOk, Except.toBool]
    | error failure =>
      rw [hcheck] at h
      simp [System.after, mayClear, clears, LimitedCall.route] at h
  | totp call =>
    have hstarts := System.starts_spawn env row (.totp call)
    generalize htask : System.spawn env row (.totp call) = task at hstarts
    rw [show System.spawn env row (LimitedCall.totp call).request = task from htask] at h
    cases hstarts with
    | totp hmatched => simp [LimitedCall.right, hmatched, Except.isOk, Except.toBool]
    | refuse =>
      simp only [mayClear, clears, LimitedCall.route] at h
      split_ifs at h <;> simp at h

/-- A service that goes on may have cleared the attempts before. -/
theorem mayClear_of_act {row row' : DashboardSettings} {task task' : System.Task}
    {a : System.Action} (h : System.act env row task a = some (row', task')) :
    mayClear attempt task = true := by
  cases task with
  | ended failure | failed => cases a <;> cases h
  | _ => rfl

theorem recordedWithin_nonneg (route : Route) (client : Option String) (start : ℤ)
    (attempts : List RateLimitAttempt) : 0 ≤ recordedWithin route client start attempts :=
  Int.natCast_nonneg _

/-- **No window ever holds more attempts than allowed.** -/
theorem recordedWithin_le (hsteps : Steps env s t a s' t')
    (hbound : recordedWithin route client start s.attempts ≤ route.limiter.maxAttempts) :
    recordedWithin route client start s'.attempts ≤ route.limiter.maxAttempts := by
  cases hsteps with
  | @enter client' call now hcount =>
    cases hof : Attempt.isOf route client ⟨client', call, now⟩ with
    | false =>
      have hconcat := recordedWithin_concat route client start ⟨client', call, now⟩ s.attempts
      rw [hof] at hconcat
      simp only [Attempt.key] at hconcat
      simpa [hconcat] using hbound
    | true =>
      have hkey := key_eq_iff.2 hof
      obtain ⟨rfl, -⟩ := isOf_iff.1 hof
      simp only [Attempt.key] at hkey
      rw [hkey] at hcount ⊢
      rw [recordedWithin, attemptsWithin, times_append_of_isOf (by simp [DatabaseRateLimiter.isOf])]
      exact inClosedWindow_append_singleton_le hbound hcount
  | clear _ =>
    refine (inClosedWindow_le_of_sublist ?_).trans hbound
    exact times_sublist _ _ List.filter_sublist
  | ask | serve _ | rest _ _ => exact hbound

theorem guessesWithin_append (gs gs' : List Guess) : guessesWithin route client start (gs ++ gs') =
    guessesWithin route client start gs + guessesWithin route client start gs' := by
  simp [guessesWithin]

theorem rightGuesses_append (gs gs' : List Guess) : rightGuesses env route client (gs ++ gs') =
    rightGuesses env route client gs + rightGuesses env route client gs' := by
  simp [rightGuesses]

theorem countP_singleton_eq_toInt {α : Type*} (q : α → Bool) (x : α) :
    (([x].countP q : ℕ) : ℤ) = (q x).toInt := by
  cases hq : q x <;> simp [hq]

/-- **One step keeps within the budget** of the client: what it guesses, and what the call may guess
later, is covered by the right guesses and by the attempts that are recorded. -/
theorem act_budget (hsteps : Steps env s t a s' t')
    (hbound : recordedWithin route client start s.attempts ≤ route.limiter.maxAttempts) :
    guessesWithin route client start (guess s t a).toList + held route client start t' +
        recordedWithin route client start s.attempts ≤
      route.limiter.maxAttempts * rightGuesses env route client (guess s t a).toList +
        held route client start t + recordedWithin route client start s'.attempts := by
  have hpos := route.limiter.maxAttempts_pos
  cases hsteps with
  | @enter client' call now _ =>
    have hconcat := recordedWithin_concat route client start ⟨client', call, now⟩ s.attempts
    simp only [Attempt.key] at hconcat
    rw [hconcat]
    simp only [guess, held, guessesWithin, rightGuesses, Option.toList_none, List.countP_nil]
    omega
  | @ask attempt =>
    simp only [guess, Option.toList_some, guessesWithin, rightGuesses, countP_singleton_eq_toInt,
      held]
    cases hof : attempt.isOf route client with
    | false => simp
    | true =>
      -- a call that may clear the attempts has guessed right, and this pays for the clearing
      have hmay : mayClear attempt (System.spawn env s.row attempt.call.request) = true →
          attempt.call.right env s.row = true := right_of_mayClear
      cases hright : attempt.call.right env s.row with
      | true => split_ifs <;> simp <;> omega
      | false =>
        rw [hright] at hmay
        simp [mt hmay]
  | @serve attempt task a row task' hact =>
    have hguess : guess s (.running attempt task) (.service a) = none := by cases a <;> rfl
    have hheld : held route client start (.running attempt task') ≤
        held route client start (.running attempt task) := by
      cases attempt with
      | none => exact le_rfl
      | some attempt =>
        rw [held, held, mayClear_of_act hact]
        split_ifs with h h' <;> simp_all
        omega
    simp only [hguess, guessesWithin, rightGuesses, Option.toList_none, List.countP_nil]
    omega
  | @clear attempt task hclears =>
    have hmay : mayClear attempt task = true := by
      cases task <;> first | rfl | exact hclears
    simp only [guess, guessesWithin, rightGuesses, Option.toList_none, List.countP_nil, held, hmay,
      Bool.and_true]
    cases hof : attempt.isOf route client with
    | false =>
      rw [recordedWithin_delete hof]
      simp
    | true =>
      -- what the call has held covers the attempts that are deleted
      have hnonneg := recordedWithin_nonneg route client start
        (attempt.call.route.limiter.deleteAttempts attempt.key s.attempts)
      simp
      omega
  | rest hguess hidle =>
    have hheld := held_nonneg route client start t
    rw [hguess, held_of_idle hidle]
    simp only [guessesWithin, rightGuesses, Option.toList_none, List.countP_nil]
    omega

end Budget

/-! ### Runs -/

section Runs

variable {env : Env} {route : Route} {client : Option String} {start : ℤ} {m : Event}

/-- The windows have no more attempts than allowed, and the client has kept within its budget. -/
def InBudget (env : Env) (route : Route) (client : Option String) (start : ℤ)
    (r : State × List Guess) : Prop :=
  recordedWithin route client start r.1.store.attempts ≤ route.limiter.maxAttempts ∧
    guessesWithin route client start r.2 + (r.1.tasks.map (held route client start)).sum ≤
      route.limiter.maxAttempts * rightGuesses env route client r.2 +
        recordedWithin route client start r.1.store.attempts

theorem InBudget.step {r r' : State × List Guess} (hr : InBudget env route client start r)
    (hs : recorded (Guesses.step env) guessed r m = some r') :
    InBudget env route client start r' := by
  obtain ⟨hbound, hbudget⟩ := hr
  obtain ⟨hstep, hhistory⟩ := recorded_eq_some.1 hs
  rw [InBudget, hhistory, guessesWithin_append, rightGuesses_append]
  obtain ⟨request, rfl, hstore, hsum⟩ | ⟨tid, a, t, t', rfl, ht, hact, hsum⟩ :=
    Program.sum_step_add (held route client start) hstep
  · have hspawn : held route client start ((program env).spawn r.1.store request) = 0 :=
      held_spawn env r.1.store request
    rw [hstore, hsum, hspawn]
    simpa [guessed, guessesWithin, rightGuesses] using ⟨hbound, hbudget⟩
  · have hsteps := steps_of_act hact
    have hone := act_budget hsteps hbound
    have hguessed : guessed r.1 (.act tid a) = guess r.1.store t a := by simp [guessed, ht]
    rw [hguessed, mul_add]
    exact ⟨recordedWithin_le hsteps hbound, by omega⟩

/-- **Guessing is slow.**  However the calls of the dashboard interleave and whatever the clocks
read, the guesses of a client on a route that fall in one window are no more than the limiter
allows, once for the start and once for each right guess of that client on that route: a client
that never guesses right has eight guesses in any minute.  A login that finds the password removed
meanwhile clears the attempts too, and counts as a right guess. -/
theorem guesses_bounded (env : Env) (s : Store) (ms : List Event) {p : State}
    (hs : ∀ route client start,
      recordedWithin route client start s.attempts ≤ route.limiter.maxAttempts)
    (hrun : run (step env) ⟨s, []⟩ ms = some p) (route : Route) (client : Option String)
    (start : ℤ) :
    guessesWithin route client start (guesses env s ms) ≤
      route.limiter.maxAttempts * (1 + rightGuesses env route client (guesses env s ms)) := by
  have hrec : run (recorded (step env) guessed) (⟨s, []⟩, []) ms = some (p, guesses env s ms) :=
    run_recorded.2 ⟨hrun, rfl⟩
  have hstart : InBudget env route client start (⟨s, []⟩, []) := by
    have hnonneg := recordedWithin_nonneg route client start s.attempts
    exact ⟨hs route client start, by simpa [guessesWithin, rightGuesses] using hnonneg⟩
  obtain ⟨hbound, hbudget⟩ := invariant (fun _ _ _ hr hm => hr.step hm) hstart hrec
  have hheld : 0 ≤ (p.tasks.map (held route client start)).sum :=
    List.sum_nonneg fun x hx => by
      obtain ⟨t, -, rfl⟩ := List.mem_map.1 hx
      exact held_nonneg route client start t
  dsimp only at hbound hbudget
  rw [mul_add, mul_one]
  omega

/-- A wrong guess and a right one, whose call clears both attempts. -/
theorem guesses_bounded_sample :
    let row : DashboardSettings := { passwordHash := some "password" }
    let login : String → Request := fun password => ⟨some "10.0.0.9", none,
      .loginPassword row password⟩
    let ms : List Event := [.spawn (login "guess"), .spawn (login "password"),
      .act 0 (.limiter (.readClock 5)), .act 1 (.limiter (.readClock 3)),
      .act 0 (.limiter .execute), .act 1 (.limiter .execute),
      .act 1 (.service .resume), .act 0 (.service .resume), .act 1 (.limiter .execute)]
    run (step System.sampleEnv) ⟨⟨row, []⟩, []⟩ ms = some ⟨⟨row, []⟩,
      [.running (some ⟨some "10.0.0.9", .loginPassword row "guess", 5⟩)
        (.ended .invalidCredentials), .cleared (.returned none)]⟩ ∧
    rightGuesses System.sampleEnv .loginPassword (some "10.0.0.9")
      (guesses System.sampleEnv ⟨row, []⟩ ms) = 1 ∧
    guessesWithin .loginPassword (some "10.0.0.9") 3
        (guesses System.sampleEnv ⟨row, []⟩ ms) ≤
      8 * (1 + rightGuesses System.sampleEnv .loginPassword (some "10.0.0.9")
        (guesses System.sampleEnv ⟨row, []⟩ ms)) := by
  intro row login ms
  refine ⟨rfl, rfl, guesses_bounded System.sampleEnv ⟨row, []⟩ ms (fun route _ _ => ?_) rfl
    .loginPassword _ 3⟩
  exact route.limiter.maxAttempts_pos.le

end Runs

end FirecrawlLb.DashboardAuth.Guesses
