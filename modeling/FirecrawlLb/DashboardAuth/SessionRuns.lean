import FirecrawlLb.DashboardAuth.Access
import FirecrawlLb.DashboardAuth.TotpSteps

/-!
# Sessions in a run

The calls of the dashboard run as tasks over the settings row; those that verify a password or a
one-time code end with a session cookie, and clients present their cookies to the calls and to the
guard.  The store collects what the calls do, in order; the program keeps no such list.  `Earned` is
the derivation of a session: who is let in with one has given a password, and a one-time code where
the session says so.
-/

namespace FirecrawlLb.DashboardAuth.SessionRuns

open FirecrawlLb.Lib FirecrawlLb.Lib.Run FirecrawlLb.Lib.Tasks FirecrawlLb.Python
open FirecrawlLb.Db.Models FirecrawlLb.DashboardAuth FirecrawlLb.DashboardAuth.Repository
open FirecrawlLb.DashboardAuth.Service FirecrawlLb.DashboardAuth.Access
open FirecrawlLb.DashboardAuth.Sessions (seconds Tokens SessionFailure)
open FirecrawlLb.DashboardAuth.System (TotpCall)

/-- What the calls have done. -/
inductive Entry where
  /-- `verify_password` has found the hash of this row to be one of the password. -/
  | passwordVerified (row : DashboardSettings) (password : String)
  /-- The first password is set. -/
  | passwordSet (setup : PasswordSetup)
  /-- The step of a code is stored. -/
  | codeAccepted (call : TotpCall) (settings : DashboardSettings) (matchedStep : ℤ)
  | issued (sessionId : String) (state : DashboardSessionState)
  /-- `validate_dashboard_session` has let a request in. -/
  | granted (cached : DashboardSettings) (request : Access.Request) (now : ℚ)

structure Store where
  row : DashboardSettings
  history : List Entry

inductive Request where
  /-- A call of the dashboard.  `verify_totp` is the other case. -/
  | call (request : System.Request)
  | verifyTotp (sessionId : Option String) (code : String)
  /-- A guarded route, with the settings that the cache returns. -/
  | guarded (cached : DashboardSettings) (request : Access.Request)

/-- The session that a call ends with. -/
inductive Origin where
  | password
  | totp (existingState : DashboardSessionState)
  | none

inductive Task where
  | started (request : Request)
  | running (origin : Origin) (task : System.Task)
  | issued (sessionId : String)
  | answered (result : Except SessionFailure Unit)
  | failed

/-- A task goes on, with two readings of the clock, the nonce of a cookie and the lifetime that the
cached settings give a session; or it fails. -/
inductive Action where
  | resume (now later : ℚ) (nonce : ℕ) (ttlSeconds : ℤ)
  | fail

def Origin.ofRequest : System.Request → Origin
  | .setupPassword _ | .loginPassword _ _ => .password
  | _ => .none

/-- What the start of a call has done. -/
def startEntries (row : DashboardSettings) : System.Request → System.Task → List Entry
  | .loginPassword _ password, .returned _ => [.passwordVerified row password]
  | _, _ => []

/-- What a step of a call has done. -/
def stepEntries : System.Task → System.Task → List Entry
  | .settingPassword setup _ _, .passwordSet _ _ => [.passwordSet setup]
  | .advancing call settings matchedStep, .returned _ => [.codeAccepted call settings matchedStep]
  | _, _ => []

/-- A call has done its work and may issue a session. -/
def done : System.Task → Bool
  | .passwordSet _ _ | .returned _ => true
  | _ => false

/-- The session of a call that is done: `_create_dashboard_session`, or the end of
`verify_totp`. -/
def newSession (tokens : Tokens) (now later : ℚ) (nonce : ℕ) (ttlSeconds : ℤ) :
    Origin → Option (String × DashboardSessionState)
  | .password => (Sessions.create tokens nonce true false ttlSeconds now).map
      (·, ⟨seconds now + ttlSeconds, true, false⟩)
  | .totp existingState =>
    let inheritedTtl := max 1 (existingState.expiresAt - seconds now)
    (Sessions.create tokens nonce true true inheritedTtl later).map
      (·, ⟨seconds later + inheritedTtl, true, true⟩)
  | .none => none

section Model

variable (env : Env) (settings : ProxySettings) (tokens : Tokens)

/-- The first step of a call. -/
def start (s : Store) (now later : ℚ) : Request → Store × Task
  | .call request =>
    let task := System.spawn env s.row request
    ({ s with history := s.history ++ startEntries s.row request task },
      .running (.ofRequest request) task)
  | .verifyTotp sessionId code =>
    match Sessions.get tokens sessionId now with
    | none => (s, .failed)
    | some session =>
      (s, .running (session.elim .none .totp)
        (System.spawn env s.row (.totp ⟨false, session, code, seconds later⟩)))
  | .guarded cached request =>
    match validateDashboardSession env settings tokens cached request now with
    | .ok () =>
      ({ s with history := s.history ++ [.granted cached request now] }, .answered (.ok ()))
    | .error failure => (s, .answered (.error failure))

/-- The next step of a task. -/
def resume (s : Store) (now later : ℚ) (nonce : ℕ) (ttlSeconds : ℤ) : Task → Option (Store × Task)
  | .started request => some (start env settings tokens s now later request)
  | .running origin task =>
    if done task then
      (newSession tokens now later nonce ttlSeconds origin).map fun (sessionId, state) =>
        ({ s with history := s.history ++ [.issued sessionId state] }, .issued sessionId)
    else
      (System.resume env s.row task).map fun (row, task') =>
        (⟨row, s.history ++ stepEntries task task'⟩, .running origin task')
  | .issued _ | .answered _ | .failed => none

def act (s : Store) (t : Task) : Action → Option (Store × Task)
  | .resume now later nonce ttlSeconds =>
    resume env settings tokens s now later nonce ttlSeconds t
  | .fail =>
    match t with
    | .started _ | .running _ _ => some (s, .failed)
    | .issued _ | .answered _ | .failed => none

def program : Program Store Task Request Action where
  spawn _ := .started
  act := act env settings tokens

abbrev State := Pool Store Task

abbrev Event := Move Request Action

def step : State → Event → Option State := (program env settings tokens).step

end Model

/-! ### Sessions that are earned -/

/-- How a session comes about: by a password that fits a hash of the row or becomes the first one,
and then by a code for a session that was earned. -/
inductive Earned (env : Env) (h : List Entry) : DashboardSessionState → Prop
  | login {row password expiresAt} (hmem : .passwordVerified row password ∈ h)
      (hverified : verifyPassword env row password = .ok ()) : Earned env h ⟨expiresAt, true, false⟩
  | setup {setup expiresAt} (hmem : .passwordSet setup ∈ h) : Earned env h ⟨expiresAt, true, false⟩
  | totp {existing call settings matchedStep expiresAt} (hexisting : Earned env h existing)
      (hsession : call.session = some existing)
      (hmem : .codeAccepted call settings matchedStep ∈ h)
      (hmatched : matchTotpStep env settings call.code call.now = .ok matchedStep) :
      Earned env h ⟨expiresAt, true, true⟩

/-- The cookie decodes to the session until the session expires. -/
def Decodes (tokens : Tokens) (sessionId : String) (state : DashboardSessionState) : Prop :=
  ∀ now, Sessions.get tokens (some sessionId) now =
    some (if state.expiresAt < seconds now then none else some state)

/-- The client presents a cookie that was issued, or one that decodes to no session. -/
def Presented (tokens : Tokens) (h : List Entry) (sessionId : Option String) : Prop :=
  ∀ id ∈ sessionId, (∃ state, .issued (strip id) state ∈ h) ∨
    ∀ now state, Sessions.get tokens (some id) now ≠ some (some state)

/-- A session that was issued under the cookie, was earned and has not expired. -/
def HoldsSession (env : Env) (h : List Entry) (sessionId : Option String) (now : ℚ)
    (state : DashboardSessionState) : Prop :=
  ∃ id, sessionId = some id ∧ .issued (strip id) state ∈ h ∧ Earned env h state ∧
    seconds now ≤ state.expiresAt

/-- What justifies an entry, in the list of those before it. -/
def Entry.Ok (env : Env) (settings : ProxySettings) (tokens : Tokens) (h : List Entry) :
    Entry → Prop
  | .issued sessionId state => Earned env h state ∧ Decodes tokens sessionId state
  | .granted cached request now => getDashboardRequestAuth env settings request = none →
      (hasPassword cached || cached.totpRequiredOnLogin) = true →
      ∃ state, HoldsSession env h request.sessionId now state ∧
        (cached.totpRequiredOnLogin = true → state.totpVerified = true)
  | .passwordVerified _ _ | .passwordSet _ | .codeAccepted _ _ _ => True

section Earned

variable {env : Env} {settings : ProxySettings} {tokens : Tokens} {h h' : List Entry}
  {state : DashboardSessionState} {sessionId : Option String} {now : ℚ}

theorem Earned.mono (hsub : h ⊆ h') (hearned : Earned env h state) : Earned env h' state := by
  induction hearned with
  | login hmem hverified => exact .login (hsub hmem) hverified
  | setup hmem => exact .setup (hsub hmem)
  | totp _ hsession hmem hmatched ih => exact .totp ih hsession (hsub hmem) hmatched

theorem Presented.mono (hsub : h ⊆ h') (hpresented : Presented tokens h sessionId) :
    Presented tokens h' sessionId := fun id hid =>
  (hpresented id hid).imp_left fun ⟨state, hmem⟩ => ⟨state, hsub hmem⟩

/-- The store strips a cookie before it decodes it. -/
theorem get_strip (tokens : Tokens) (id : String) (now : ℚ) :
    Sessions.get tokens (some (strip id)) now = Sessions.get tokens (some id) now := by
  simp only [Sessions.get, strip_strip]

/-- **A cookie that decodes to a session was issued for it**, and the session was earned. -/
theorem holdsSession_of_get (hok : Justified (Entry.Ok env settings tokens) h)
    (hpresented : Presented tokens h sessionId)
    (hget : Sessions.get tokens sessionId now = some (some state)) :
    HoldsSession env h sessionId now state := by
  cases sessionId with
  | none => cases hget
  | some id =>
    rcases hpresented id rfl with ⟨issued, hmem⟩ | hnone
    · obtain ⟨before, after, rfl, hearned, hdecodes⟩ := hok.of_mem hmem
      have hread := hdecodes now
      rw [get_strip, hget] at hread
      split at hread
      · cases hread
      · rename_i hexpired
        obtain rfl := Option.some.inj (Option.some.inj hread)
        exact ⟨id, rfl, hmem, hearned.mono (List.subset_append_left _ _), not_lt.1 hexpired⟩
    · exact absurd hget (hnone now state)

/-- What lets a request in where a session is needed. -/
theorem granted_ok {cached : DashboardSettings} {request : Access.Request}
    (hok : Justified (Entry.Ok env settings tokens) h)
    (hpresented : Presented tokens h request.sessionId)
    (hvalid : validateDashboardSession env settings tokens cached request now = .ok ()) :
    Entry.Ok env settings tokens h (.granted cached request now) := by
  intro hauth hrequires
  simp only [validateDashboardSession, hauth, hrequires, Option.isSome_none, Bool.not_true,
    Bool.and_false, Bool.false_eq_true, if_false] at hvalid
  split at hvalid
  · cases hvalid
  · rename_i session hget
    cases session with
    | none => cases hvalid
    | some state =>
      refine ⟨state, holdsSession_of_get hok hpresented hget, fun htotp => ?_⟩
      simp only [checkSession, htotp, Bool.true_and] at hvalid
      split_ifs at hvalid with hpassword hverified
      simpa using hverified

end Earned

/-! ### What the tasks hold -/

/-- A call that verifies a password has done so when it is done. -/
def PasswordOk (env : Env) (h : List Entry) : System.Task → Prop
  | .validating _ _ | .settingPassword _ _ _ | .ended _ | .failed => True
  | .passwordSet setup _ => .passwordSet setup ∈ h
  | .returned _ => ∃ row password,
    .passwordVerified row password ∈ h ∧ verifyPassword env row password = .ok ()
  | _ => False

/-- A call that verifies a code has matched it before it stores the step. -/
def TotpOk (env : Env) (h : List Entry) (existing : DashboardSessionState) : System.Task → Prop
  | .advancing call settings matchedStep => call.disables = false ∧
    call.session = some existing ∧ Earned env h existing ∧
    matchTotpStep env settings call.code call.now = .ok matchedStep
  | .returned _ => ∀ expiresAt, Earned env h ⟨expiresAt, true, true⟩
  | .ended _ | .failed => True
  | _ => False

/-- The cookie that a request carries, where it matters. -/
def Request.sessionId : Request → Option String
  | .call _ => none
  | .verifyTotp sessionId _ => sessionId
  | .guarded _ request => request.sessionId

def Task.Ok (env : Env) (tokens : Tokens) (h : List Entry) : Task → Prop
  | .started request => Presented tokens h request.sessionId
  | .running .password task => PasswordOk env h task
  | .running (.totp existing) task => TotpOk env h existing task
  | .running .none _ | .issued _ | .answered _ | .failed => True

section Tasks

variable {env : Env} {settings : ProxySettings} {tokens : Tokens} {h h' : List Entry}
  {row row' : DashboardSettings} {t t' : System.Task} {existing : DashboardSessionState}

theorem Task.Ok.mono {t : Task} (hsub : h ⊆ h') (ht : t.Ok env tokens h) : t.Ok env tokens h' := by
  cases t with
  | started request => exact Presented.mono hsub ht
  | running origin task =>
    cases origin with
    | none => trivial
    | password =>
      cases task with
      | passwordSet setup validationStatus => exact hsub ht
      | returned token =>
        obtain ⟨row, password, hmem, hverified⟩ := ht
        exact ⟨row, password, hsub hmem, hverified⟩
      | _ => exact ht
    | totp existing =>
      cases task with
      | advancing call settings matchedStep =>
        obtain ⟨hdisables, hsession, hearned, hmatched⟩ := ht
        exact ⟨hdisables, hsession, hearned.mono hsub, hmatched⟩
      | returned token => exact fun expiresAt => (ht expiresAt).mono hsub
      | _ => exact ht
  | issued _ | answered _ | failed => trivial

theorem passwordOk_starts {request : System.Request} (hstarts : System.Starts env row request t)
    (horigin : Origin.ofRequest request = .password) :
    PasswordOk env (h ++ startEntries row request t) t := by
  cases hstarts with
  | @login cached password hlogin =>
    have hverified : verifyPassword env row password = .ok () := by
      unfold loginPassword at hlogin
      split_ifs at hlogin
      exact hlogin
    exact ⟨row, password, List.mem_append_right _ List.mem_cons_self, hverified⟩
  | validate _ | setPassword _ | refuse => trivial
  | _ => cases horigin

theorem passwordOk_steps (ht : PasswordOk env h t)
    (hsteps : System.Steps env row t .resume row' t') :
    PasswordOk env (h ++ stepEntries t t') t' := by
  cases hsteps with
  | validate _ | refuse => trivial
  | setPassword _ _ => exact List.mem_append_right _ List.mem_cons_self
  | _ => exact ht.elim

theorem totpOk_starts {code : String} {now : ℤ} (hexisting : Earned env h existing)
    (hstarts : System.Starts env row (.totp ⟨false, some existing, code, now⟩) t) :
    TotpOk env h existing t := by
  cases hstarts with
  | totp hmatched => exact ⟨rfl, rfl, hexisting, hmatched⟩
  | refuse => trivial

theorem totpOk_steps (ht : TotpOk env h existing t)
    (hsteps : System.Steps env row t .resume row' t') :
    TotpOk env (h ++ stepEntries t t') existing t' := by
  cases hsteps with
  | @advance call settings matchedStep _ =>
    obtain ⟨hdisables, hsession, hearned, hmatched⟩ := ht
    simp only [System.advanced, hdisables, Bool.false_eq_true, if_false]
    exact fun expiresAt => .totp (hearned.mono (List.subset_append_left _ _)) hsession
      (List.mem_append_right _ List.mem_cons_self) hmatched
  | refuse => trivial
  | _ => exact ht.elim

theorem ok_of_mem_startEntries {request : System.Request} {entry : Entry}
    (hentry : entry ∈ startEntries row request t) (h : List Entry) :
    entry.Ok env settings tokens h := by
  unfold startEntries at hentry
  split at hentry
  · obtain rfl := List.mem_singleton.1 hentry
    trivial
  · cases hentry

theorem ok_of_mem_stepEntries {entry : Entry} (hentry : entry ∈ stepEntries t t')
    (h : List Entry) : entry.Ok env settings tokens h := by
  unfold stepEntries at hentry
  split at hentry
  · obtain rfl := List.mem_singleton.1 hentry
    trivial
  · obtain rfl := List.mem_singleton.1 hentry
    trivial
  · cases hentry

/-- **The session of a call that is done** was earned, and its cookie decodes to it. -/
theorem newSession_ok (lawful : tokens.Lawful) {origin : Origin} {now later : ℚ} {nonce : ℕ}
    {ttlSeconds : ℤ} {sessionId : String} {state : DashboardSessionState}
    (ht : Task.Ok env tokens h (.running origin t)) (hdone : done t = true)
    (hnew : newSession tokens now later nonce ttlSeconds origin = some (sessionId, state)) :
    Entry.Ok env settings tokens h (.issued sessionId state) := by
  cases origin with
  | none => cases hnew
  | password =>
    obtain ⟨id, hcreate, hpair⟩ := Option.map_eq_some_iff.1 hnew
    cases hpair
    refine ⟨?_, fun now' => Sessions.get_create lawful hcreate⟩
    cases t with
    | passwordSet setup validationStatus => exact .setup ht
    | returned token =>
      obtain ⟨row, password, hmem, hverified⟩ := ht
      exact .login hmem hverified
    | _ => cases hdone
  | totp existing =>
    obtain ⟨id, hcreate, hpair⟩ := Option.map_eq_some_iff.1 hnew
    cases hpair
    refine ⟨?_, fun now' => Sessions.get_create lawful hcreate⟩
    cases t with
    | returned token => exact ht _
    | passwordSet _ _ => exact ht.elim
    | _ => cases hdone

end Tasks

/-! ### Runs -/

section Runs

variable {env : Env} {settings : ProxySettings} {tokens : Tokens} {s s' : Store} {t t' : Task}
  {a : Action} {now later : ℚ}

theorem start_ok (hok : Justified (Entry.Ok env settings tokens) s.history) {request : Request}
    (hrequest : Presented tokens s.history request.sessionId)
    (h : start env settings tokens s now later request = (s', t')) :
    (∃ l, s'.history = s.history ++ l) ∧ Justified (Entry.Ok env settings tokens) s'.history ∧
      t'.Ok env tokens s'.history := by
  cases request with
  | call request =>
    cases h
    refine ⟨⟨_, rfl⟩, hok.append fun _ => ok_of_mem_startEntries, ?_⟩
    have hstarts := System.starts_spawn env s.row request
    cases horigin : Origin.ofRequest request with
    | none => trivial
    | password => exact passwordOk_starts hstarts horigin
    | totp existing => cases request <;> cases horigin
  | verifyTotp sessionId code =>
    simp only [start] at h
    split at h
    · cases h
      exact ⟨⟨[], by simp⟩, hok, trivial⟩
    · rename_i session hget
      cases h
      refine ⟨⟨[], by simp⟩, hok, ?_⟩
      cases session with
      | none => trivial
      | some existing =>
        obtain ⟨-, -, -, hearned, -⟩ := holdsSession_of_get hok hrequest hget
        exact totpOk_starts hearned (System.starts_spawn env s.row _)
  | guarded cached request =>
    simp only [start] at h
    split at h
    · rename_i hvalid
      cases h
      exact ⟨⟨_, rfl⟩, justified_concat.2 ⟨hok, granted_ok hok hrequest hvalid⟩, trivial⟩
    · cases h
      exact ⟨⟨[], by simp⟩, hok, trivial⟩

/-- **A step of a task** adds entries that are justified. -/
theorem act_ok (lawful : tokens.Lawful) (hok : Justified (Entry.Ok env settings tokens) s.history)
    (ht : t.Ok env tokens s.history) (h : act env settings tokens s t a = some (s', t')) :
    (∃ l, s'.history = s.history ++ l) ∧ Justified (Entry.Ok env settings tokens) s'.history ∧
      t'.Ok env tokens s'.history := by
  cases a with
  | fail =>
    simp only [act] at h
    split at h <;> cases h <;> exact ⟨⟨[], by simp⟩, hok, trivial⟩
  | resume now later nonce ttlSeconds =>
    simp only [act] at h
    cases t with
    | started request => exact start_ok hok ht (Option.some.inj h)
    | running origin task =>
      simp only [resume] at h
      split at h
      · rename_i hdone
        obtain ⟨⟨sessionId, state⟩, hnew, hpair⟩ := Option.map_eq_some_iff.1 h
        cases hpair
        exact ⟨⟨_, rfl⟩, justified_concat.2 ⟨hok, newSession_ok lawful ht hdone hnew⟩, trivial⟩
      · obtain ⟨⟨row, task'⟩, hresume, hpair⟩ := Option.map_eq_some_iff.1 h
        cases hpair
        have hsteps := System.steps_of_resume hresume
        refine ⟨⟨_, rfl⟩, hok.append fun _ => ok_of_mem_stepEntries, ?_⟩
        cases origin with
        | none => trivial
        | password => exact passwordOk_steps ht hsteps
        | totp existing => exact totpOk_steps ht hsteps
    | issued _ | answered _ | failed => cases h

variable (tokens) in
/-- A client that makes a request presents a cookie that was issued. -/
def PresentsIssued (p : State) : Event → Prop
  | .spawn request => Presented tokens p.store.history request.sessionId
  | .act _ _ => True

/-- The invariant of the runs. -/
def Inv (env : Env) (settings : ProxySettings) (tokens : Tokens) : State → Prop :=
  Asserts (fun s => Justified (Entry.Ok env settings tokens) s.history)
    (fun s t => t.Ok env tokens s.history)

theorem inv_step (lawful : tokens.Lawful) (p : State) (e : Event) (p' : State)
    (hp : Inv env settings tokens p) (he : PresentsIssued tokens p e)
    (h : step env settings tokens p e = some p') : Inv env settings tokens p' := by
  refine Program.inv_step (P := program env settings tokens) (C := PresentsIssued tokens)
    (fun _ _ _ hrequest => hrequest) (fun p tid a t st t' hI hJ _ _ hact => ?_)
    (fun p tid a t st t' u hI hJ hu _ _ hact => ?_) hp he h
  · exact (act_ok lawful hI hJ hact).2
  · obtain ⟨⟨l, hl⟩, -⟩ := act_ok lawful hI hJ hact
    exact hu.mono (hl ▸ List.subset_append_left _ _)

/-- The row of a deployment with a password and a second factor. -/
def sampleRow : DashboardSettings := { Sessions.sampleSettings with totpRequiredOnLogin := true }

/-- The cookie of a session that ends at 1700000100. -/
def cookie (totpVerified : Bool) : String :=
  Sessions.sampleTokens.encrypt 0 (String.ofList
    (Sessions.expText ++ ("1700000100".toList ++ Sessions.flagsText true totpVerified)))

/-- A step at 1700000000. -/
def sampleAction : Action := .resume (1700000000 : ℕ) (1700000000 : ℕ) 0 100

/-- A login, a one-time code, and a guarded route with the second cookie. -/
def sampleEvents : List Event :=
  [.spawn (.call (.loginPassword sampleRow "local-password")), .act 0 sampleAction,
    .act 0 sampleAction, .spawn (.verifyTotp (some (cookie false)) "666666"), .act 1 sampleAction,
    .act 1 sampleAction, .act 1 sampleAction,
    .spawn (.guarded sampleRow ⟨⟨[], some "203.0.113.5", none⟩, some (cookie true)⟩),
    .act 2 sampleAction]

/-- The sample deployment. -/
abbrev sampleStep : State → Event → Option State :=
  step System.sampleEnv ⟨⟨false, []⟩, "remote-user"⟩ Sessions.sampleTokens

abbrev sampleStart : State := ⟨⟨sampleRow, []⟩, []⟩

/-- The cookies that were issued. -/
def issuedIds (h : List Entry) : List String :=
  h.filterMap fun
    | .issued sessionId _ => some sessionId
    | _ => none

/-- The cookie of a request was issued. -/
def PresentsIssuedId (p : State) : Event → Prop
  | .spawn request => ∀ id ∈ request.sessionId, strip id ∈ issuedIds p.store.history
  | .act _ _ => True

instance (p : State) : ∀ e, Decidable (PresentsIssuedId p e)
  | .spawn request =>
    inferInstanceAs (Decidable (∀ id ∈ request.sessionId, strip id ∈ issuedIds p.store.history))
  | .act _ _ => isTrue trivial

theorem presentsIssued_of_id {p : State} {e : Event} (h : PresentsIssuedId p e) :
    PresentsIssued tokens p e := by
  cases e with
  | act tid a => trivial
  | spawn request =>
    refine fun id hid => Or.inl ?_
    obtain ⟨entry, hentry, hissued⟩ := List.mem_filterMap.1 (h id hid)
    cases entry with
    | issued sessionId state =>
      obtain rfl := Option.some.inj hissued
      exact ⟨state, hentry⟩
    | _ => cases hissued

/-- A request under the sample row is let in. -/
def isSampleGrant : Entry → Bool
  | .granted cached _ _ => cached = sampleRow
  | _ => false

end Runs

end FirecrawlLb.DashboardAuth.SessionRuns
