import FirecrawlLb.DashboardAuth.System

/-!
# Remote password setup

A client that is not local needs a bootstrap token to set the first password.  `setup_password`
asks for it when the row it reads first has no password, and writes the password when the row has
none at the `UPDATE`.  A setup that reads a password is not refused: if the password is removed
before its `UPDATE`, it writes its own without a token.
-/

namespace FirecrawlLb.DashboardAuth.RemoteSetup

open FirecrawlLb.Lib FirecrawlLb.Lib.Tasks FirecrawlLb.Lib.Run FirecrawlLb.Python
open FirecrawlLb.Db.Models FirecrawlLb.Core.Bootstrap FirecrawlLb.DashboardAuth.Repository
open FirecrawlLb.DashboardAuth.Service FirecrawlLb.DashboardAuth.System

/-- A setup that has written the password for a client that is not local has seen its bootstrap
token validated. -/
def Validated : Task → Prop
  | .passwordSet setup validationStatus => setup.isLocal = false → validationStatus = some .valid
  | _ => True

/-- Every setup that has written the password was entitled to. -/
def Guarded (p : State) : Prop := ∀ t ∈ p.tasks, Validated t

/-- A setup of a client that is not local, which has read a password, is about to write its own over
none. -/
structure Bypasses (env : Env) (row : DashboardSettings) (setup : PasswordSetup)
    (current : DashboardSettings) : Prop where
  remote : setup.isLocal = false
  configured : current.passwordHash ≠ none
  removed : row.passwordHash = none
  hashes : (env.hashPassword setup.salt (strip setup.password)).isSome = true

instance (env : Env) (row : DashboardSettings) (setup : PasswordSetup)
    (current : DashboardSettings) : Decidable (Bypasses env row setup current) :=
  decidable_of_iff (setup.isLocal = false ∧ current.passwordHash ≠ none ∧ row.passwordHash = none ∧
    (env.hashPassword setup.salt (strip setup.password)).isSome = true)
    ⟨fun h => ⟨h.1, h.2.1, h.2.2.1, h.2.2.2⟩, fun h => ⟨h.1, h.2, h.3, h.4⟩⟩

/-- The next step of the task is no bypass. -/
def NoBypass (env : Env) (row : DashboardSettings) : Task → Prop
  | .settingPassword setup current _ => ¬ Bypasses env row setup current
  | _ => True

instance (env : Env) (row : DashboardSettings) : ∀ t, Decidable (NoBypass env row t)
  | .settingPassword _ _ _ => instDecidableNot
  | .validating _ _ | .passwordSet _ _ | .loading _ | .committing _ _ | .bootstrapping _
  | .clearingToken | .storingToken _ | .advancing _ _ _ | .returned _ | .ended _ | .failed =>
    isTrue trivial

/-- The event writes no password past the check of the token. -/
def KeepsGuard (env : Env) (p : State) : Event → Prop
  | .act tid .resume => ∀ t ∈ p.tasks[tid]?, NoBypass env p.store t
  | _ => True

instance (env : Env) (p : State) : ∀ m, Decidable (KeepsGuard env p m)
  | .act tid .resume => inferInstanceAs (Decidable (∀ t ∈ p.tasks[tid]?, NoBypass env p.store t))
  | .act _ .fail | .spawn _ => isTrue trivial

/-- A setup that is about to write has read no password and seen its token validated, or it has read
a password and no token. -/
def Checked : Task → Prop
  | .validating _ current => current.passwordHash = none
  | .settingPassword setup current validationStatus => setup.isLocal = false →
      (validationStatus = some .valid ∧ current.passwordHash = none) ∨
        (validationStatus = none ∧ current.passwordHash ≠ none)
  | _ => True

section Checks

variable {env : Env} {row row' : DashboardSettings} {t t' : Task} {a : Action}

/-- In the standard mode a client that is not local has to show a token if no password is read. -/
theorem passwordHash_of_checks {setup : PasswordSetup} {current : DashboardSettings}
    {needsToken : Bool} (hmode : env.dashboardAuthMode = .standard)
    (h : setupPasswordChecks env setup current = .ok needsToken) :
    needsToken = (current.passwordHash.isNone && !setup.isLocal) := by
  simp only [setupPasswordChecks, hmode] at h
  simpa using (Except.ok.inj h).symm

theorem checked_starts {r : Request} (hmode : env.dashboardAuthMode = .standard)
    (h : Starts env row r t) : Checked t ∧ Validated t := by
  cases h with
  | @validate setup hchecks =>
    have hneeds := passwordHash_of_checks hmode hchecks
    have hnone : row.passwordHash = none := by simpa using (Bool.and_eq_true_iff.1 hneeds.symm).1
    exact ⟨hnone, trivial⟩
  | @setPassword setup hchecks =>
    refine ⟨fun hremote => Or.inr ⟨rfl, fun hnone => ?_⟩, trivial⟩
    have hneeds := passwordHash_of_checks hmode hchecks
    simp [hnone, hremote] at hneeds
  | _ => exact ⟨trivial, trivial⟩

theorem checked_steps (ht : Checked t) (h : Steps env row t a row' t') : Checked t' := by
  cases h with
  | validate => exact fun _ => Or.inl ⟨rfl, ht⟩
  | @commit _ write => cases write <;> trivial
  | @advance call settings matchedStep =>
    unfold advanced
    split_ifs <;> trivial
  | _ => trivial

/-- A step writes a password without a valid token only as a bypass. -/
theorem validated_steps (ht : Checked t) (h : Steps env row t a row' t')
    (hguard : a = .resume → NoBypass env row t) : Validated t' := by
  cases h with
  | @setPassword setup current validationStatus passwordHash hhash hnone =>
    intro hremote
    rcases ht hremote with ⟨hvalid, -⟩ | ⟨-, hconfigured⟩
    · exact hvalid
    · exact absurd ⟨hremote, hconfigured, hnone, by rw [hhash]; rfl⟩ (hguard rfl)
  | @commit _ write => cases write <;> trivial
  | @advance call settings matchedStep =>
    unfold advanced
    split_ifs <;> trivial
  | _ => trivial

theorem act_of_bypasses {setup : PasswordSetup} {current : DashboardSettings}
    {validationStatus : Option ValidationStatus} (h : Bypasses env row setup current)
    (ht : Checked (.settingPassword setup current validationStatus)) :
    ∃ row', act env row (.settingPassword setup current validationStatus) .resume =
      some (row', .passwordSet setup validationStatus) ∧
        ¬ Validated (.passwordSet setup validationStatus) := by
  obtain ⟨passwordHash, hhash⟩ := Option.isSome_iff_exists.1 h.hashes
  have hset : trySetPasswordHash row passwordHash = some (setPasswordHash passwordHash row) :=
    trySetPasswordHash_eq_some.2 ⟨h.removed, rfl⟩
  refine ⟨setPasswordHash passwordHash row, ?_, fun hvalidated => ?_⟩
  · simp only [act, resume, hashPassword, hhash, hset]
  · have hvalid := hvalidated h.remote
    rcases ht h.remote with ⟨-, hnone⟩ | ⟨hstatus, -⟩
    · exact h.configured hnone
    · rw [hstatus] at hvalid
      cases hvalid

end Checks

/-! ### Runs -/

/-- What the tasks of the system have checked. -/
def Inv (p : State) : Prop := ∀ t ∈ p.tasks, Checked t

section Runs

variable {env : Env} {p p' : State} {m : Event}

theorem Inv.step (hmode : env.dashboardAuthMode = .standard) (h : Inv p)
    (hs : step env p m = some p') : Inv p' :=
  forall_tasks_step (fun _ _ _ hstarts => (checked_starts hmode hstarts).1)
    (fun _ _ _ _ _ ht hsteps => checked_steps ht hsteps) h hs

/-- **A step keeps the guard exactly if it is no bypass.** -/
theorem guarded_step_iff (hmode : env.dashboardAuthMode = .standard) (h : Inv p)
    (hp : Guarded p) (m : Event) :
    (∀ p', step env p m = some p' → Guarded p') ↔ KeepsGuard env p m := by
  constructor
  · intro hnext
    cases m with
    | spawn r => trivial
    | act tid a =>
      cases a with
      | fail => trivial
      | resume =>
        intro t (ht : p.tasks[tid]? = some t)
        cases t with
        | settingPassword setup current validationStatus =>
          intro hbypass
          -- the step writes the password, and its task is then one that broke the guard
          have hchecked := h _ (List.mem_of_getElem? ht)
          obtain ⟨row', hact, hnot⟩ := act_of_bypasses hbypass hchecked
          have hstep : step env p (.act tid .resume) =
              some ⟨row', p.tasks.set tid (.passwordSet setup validationStatus)⟩ :=
            Program.step_act ht hact
          have htid : tid < p.tasks.length := (List.getElem?_eq_some_iff.1 ht).1
          exact hnot (hnext _ hstep _ (List.mem_set htid _))
        | _ => trivial
  · intro hguard p' hs t hmem
    obtain ⟨r, rfl, rfl⟩ | ⟨tid, a, t₀, row, t', rfl, ht, ha, rfl⟩ := Program.step_cases hs
    · rcases List.mem_append.1 hmem with hmem | hmem
      · exact hp t hmem
      · obtain rfl := List.mem_singleton.1 hmem
        exact (checked_starts hmode (starts_spawn env p.store r)).2
    · rcases List.mem_or_eq_of_mem_set hmem with hmem | rfl
      · exact hp t hmem
      · refine validated_steps (h t₀ (List.mem_of_getElem? ht)) (steps_of_act ha) ?_
        rintro rfl
        exact hguard t₀ ht

/-- **The guard of remote setup holds up to a bypass.**  In the standard mode, every setup that a
run lets write the password for a client that is not local has had its bootstrap token validated,
exactly if no such setup that has read a password writes its own after the password is removed. -/
theorem guarded_iff (hmode : env.dashboardAuthMode = .standard) (row : DashboardSettings)
    (ms : List Event) :
    Always (step env) Guarded ⟨row, []⟩ ms ↔ Meets (step env) (KeepsGuard env) ⟨row, []⟩ ms :=
  always_iff_meets (I := Inv) (B := fun _ _ => True) (fun _ _ _ hI _ _ hs => hI.step hmode hs)
    (fun _ m hI _ hp => guarded_step_iff hmode hI hp m) (by simp [Inv]) meets_true
    (by simp [Guarded])

/-- A replica stores a token, and a client that is not local sets the password with it. -/
theorem guarded_sample :
    let ms : List Event := [.spawn (.ensureAutoBootstrapToken ⟨"token", 7⟩), .act 0 .resume,
      .act 0 .resume, .spawn (.setupPassword (remoteSetup (some "token"))), .act 1 .resume,
      .act 1 .resume]
    (endOf (step sampleEnv) ⟨{}, []⟩ ms).store.passwordHash = some "remote-password" ∧
      Always (step sampleEnv) Guarded ⟨{}, []⟩ ms := by
  intro ms
  have hguard : Meets (step sampleEnv) (KeepsGuard sampleEnv) ⟨{}, []⟩ ms := by decide
  exact ⟨by decide, (guarded_iff rfl {} ms).2 hguard⟩

/-- The events of a setup by a client without a token, which reads the row while it has a password,
and writes its own after an operator has logged in and removed this password. -/
def bypassEvents : List Event :=
  [.spawn (.setupPassword ⟨true, false, "local-password", none, 0⟩), .act 0 .resume,
    .spawn (.setupPassword (remoteSetup none)),
    .spawn (.loginPassword { passwordHash := some "local-password" } "local-password"),
    .spawn (.removePassword { passwordHash := some "local-password" } (some sampleSession)
      "local-password" ⟨"token", 7⟩),
    .act 3 .resume, .act 3 .resume, .act 1 .resume]

/-- The password is written without a token. -/
theorem not_guarded_sample : sampleEnv.dashboardAuthMode = .standard ∧
    (endOf (step sampleEnv) ⟨{}, []⟩ bypassEvents).store.passwordHash = some "remote-password" ∧
    ¬ Always (step sampleEnv) Guarded ⟨{}, []⟩ bypassEvents := by
  refine ⟨rfl, by decide, fun h => ?_⟩
  have hrun : run (step sampleEnv) ⟨{}, []⟩ bypassEvents =
      some (endOf (step sampleEnv) ⟨{}, []⟩ bypassEvents) := run_endOf (by decide)
  have hset : (endOf (step sampleEnv) ⟨{}, []⟩ bypassEvents).tasks[1]? =
      some (.passwordSet (remoteSetup none) none) := by rfl
  cases h.last hrun _ (List.mem_of_getElem? hset) rfl

end Runs

end FirecrawlLb.DashboardAuth.RemoteSetup
