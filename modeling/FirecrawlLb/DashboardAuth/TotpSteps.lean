import FirecrawlLb.DashboardAuth.System
import FirecrawlLb.Lib.Epochs

/-!
# Verified time steps

A code is checked against settings that may be out of date, and its step is stored by one `UPDATE`
that requires it to be later than the step stored then.  So between two writes of the secret the
stored step only rises, and no step is accepted twice.
-/

namespace FirecrawlLb.DashboardAuth.TotpSteps

open FirecrawlLb.Lib FirecrawlLb.Lib.Tasks FirecrawlLb.Lib.Run FirecrawlLb.Lib.Epochs
open FirecrawlLb.Db.Models FirecrawlLb.Core.Totp FirecrawlLb.DashboardAuth.Repository
open FirecrawlLb.DashboardAuth.Service FirecrawlLb.DashboardAuth.System

/-! ### What a run shows -/

inductive TotpEvent where
  /-- `set_totp_secret` writes the secret, or the removal of the password clears it.  A
  confirmation has matched a step with its code. -/
  | secretWritten (secretEncrypted : Option (List UInt8)) (confirmedStep : Option ℤ)
  /-- The step of a call is stored, and its code is accepted. -/
  | advanced (call : TotpCall) (settings : DashboardSettings) (matchedStep : ℤ)

/-- The step that is accepted. -/
def TotpEvent.accepted : TotpEvent → Option ℤ
  | .advanced _ _ matchedStep => some matchedStep
  | .secretWritten _ _ => none

/-- What the next step of a task shows. -/
def taskShows (row : DashboardSettings) : Task → Option TotpEvent
  | .committing _ (.removePassword _) => some (.secretWritten none none)
  | .committing _ (.confirmTotpSetup secretEncrypted confirmedStep) =>
    some (.secretWritten (some secretEncrypted) confirmedStep)
  | .committing _ .disableTotp => some (.secretWritten none none)
  | .advancing call settings matchedStep =>
    (tryAdvanceTotpLastVerifiedStep row matchedStep).map fun _ =>
      .advanced call settings matchedStep
  | _ => none

/-- What an event shows. -/
def shows (p : State) : Event → Option TotpEvent
  | .act tid .resume => p.tasks[tid]?.bind (taskShows p.store)
  | _ => none

/-! ### What the tasks hold -/

/-- The code that a call submits matches the step, in the settings it has read: by the secret's code
at this step, and at no earlier one of those around the clock that are later than the last verified
one. -/
def Verified (env : Env) (call : TotpCall) (settings : DashboardSettings) (matchedStep : ℤ) :
    Prop :=
  ∃ secretEncrypted secret, settings.totpSecretEncrypted = some secretEncrypted ∧
    env.decrypt secretEncrypted = some secret ∧
    FirstMatch env.totpAt secret call.code 1 call.now settings.totpLastVerifiedStep matchedStep

/-- An object to be written has what its write assigns, and a step to be stored is matched. -/
def TaskOk (env : Env) : Task → Prop
  | .committing o write => o.value = write.apply o.read
  | .advancing call settings matchedStep => Verified env call settings matchedStep
  | _ => True

section TaskOk

variable {env : Env} {row row' : DashboardSettings} {t t' : Task} {a : Action}

theorem Verified.unique {call : TotpCall} {settings : DashboardSettings} {k k' : ℤ}
    (h : Verified env call settings k) (h' : Verified env call settings k') : k = k' := by
  obtain ⟨enc, secret, henc, hsecret, hmatch⟩ := h
  obtain ⟨enc', secret', henc', hsecret', hmatch'⟩ := h'
  obtain rfl : enc = enc' := Option.some.inj (henc.symm.trans henc')
  obtain rfl : secret = secret' := Option.some.inj (hsecret.symm.trans hsecret')
  exact hmatch.unique hmatch'

theorem verified_of_matchTotpStep {call : TotpCall} {settings : DashboardSettings}
    {matchedStep : ℤ}
    (h : matchTotpStep env settings call.code call.now = .ok matchedStep) :
    Verified env call settings matchedStep := by
  unfold matchTotpStep at h
  split at h
  · cases h
  · rename_i secretEncrypted hencrypted
    split at h
    · cases h
    · rename_i secret hsecret
      split at h
      · cases h
      · rename_i hverify
        obtain rfl := Except.ok.inj h
        exact ⟨secretEncrypted, secret, hencrypted, hsecret, firstMatch_of_verifyTotpCode hverify⟩
      · cases h

theorem taskOk_starts {r : Request} (h : Starts env row r t) : TaskOk env t := by
  cases h with
  | confirm => rfl
  | totp hmatch => exact verified_of_matchTotpStep hmatch
  | _ => trivial

theorem taskOk_steps (h : Steps env row t a row' t') : TaskOk env t' := by
  cases h with
  | load => rfl
  | @commit _ write => cases write <;> trivial
  | @advance call settings matchedStep =>
    unfold advanced
    split_ifs
    · rfl
    · trivial
  | _ => trivial

/-- The tasks of a state. -/
def TasksOk (env : Env) (p : State) : Prop := ∀ t ∈ p.tasks, TaskOk env t

theorem TasksOk.step {p p' : State} {m : Event} (h : TasksOk env p)
    (hs : step env p m = some p') : TasksOk env p' :=
  forall_tasks_step (fun _ _ _ hstarts => taskOk_starts hstarts)
    (fun _ _ _ _ _ _ hsteps => taskOk_steps hsteps) h hs

end TaskOk

/-! ### The stored step -/

section StoredStep

variable {env : Env} {row row' : DashboardSettings} {t t' : Task} {a : Action} {p p' : State}
  {m : Event}

theorem taskShows_of_resume (h : resume env row t = none) : taskShows row t = none := by
  cases t with
  | committing => cases h
  | advancing call settings matchedStep =>
    cases hadvance : tryAdvanceTotpLastVerifiedStep row matchedStep <;>
      simp [resume, hadvance] at h
  | _ => rfl

theorem shows_of_step (h : step env p m = none) : shows p m = none := by
  cases m with
  | spawn r => rfl
  | act tid a =>
    cases a with
    | fail => rfl
    | resume =>
      cases ht : p.tasks[tid]? with
      | none => simp [shows, ht]
      | some t =>
        have hresume : resume env p.store t = none := by
          simpa [step, Program.step, program, act, ht] using h
        simpa [shows, ht] using taskShows_of_resume hresume

/-- Nothing but a write of the secret and an accepted code changes the stored step. -/
theorem step_kept (ht : TaskOk env t) (h : Steps env row t a row' t')
    (hshows : a = .resume → taskShows row t = none) :
    row'.totpLastVerifiedStep = row.totpLastVerifiedStep := by
  cases h with
  | @commit o write =>
    cases write with
    | changePassword passwordHash =>
      have hvalue : o.value.totpLastVerifiedStep = o.read.totpLastVerifiedStep := by
        rw [show o.value = setPasswordHash passwordHash o.read from ht]
        rfl
      simp only [DashboardSettings.flush, hvalue, column_unchanged]
    | _ => cases hshows rfl
  | clearToken => rcases getD_clearBootstrapToken row with hclear | hclear <;> rw [hclear]
  | storeToken hstore =>
    obtain ⟨-, rfl⟩ := storeBootstrapTokenIfAbsent_eq_some.1 hstore
    rfl
  | @advance call settings matchedStep hlast =>
    have hshown := hshows rfl
    rw [taskShows, tryAdvance_eq_some.2 ⟨hlast, rfl⟩] at hshown
    cases hshown
  | _ => rfl

variable {call : TotpCall} {settings : DashboardSettings} {matchedStep : ℤ}

theorem taskShows_eq_advanced : taskShows row t = some (.advanced call settings matchedStep) ↔
    t = .advancing call settings matchedStep ∧
      ∀ last ∈ row.totpLastVerifiedStep, last < matchedStep := by
  constructor
  · intro h
    unfold taskShows at h
    split at h
    case h_4 =>
      obtain ⟨row', hadvance, hevent⟩ := Option.map_eq_some_iff.1 h
      cases hevent
      exact ⟨rfl, (tryAdvance_eq_some.1 hadvance).1⟩
    all_goals cases h
  · rintro ⟨rfl, hlast⟩
    rw [taskShows, tryAdvance_eq_some.2 ⟨hlast, rfl⟩, Option.map_some]

/-- A code is accepted when its call stores the step, which is later than the stored one. -/
theorem shows_eq_advanced : shows p m = some (.advanced call settings matchedStep) ↔
    ∃ tid, m = .act tid .resume ∧ p.tasks[tid]? = some (.advancing call settings matchedStep) ∧
      ∀ last ∈ p.store.totpLastVerifiedStep, last < matchedStep := by
  constructor
  · intro h
    unfold shows at h
    split at h
    · rename_i tid
      obtain ⟨t, ht, hshown⟩ := Option.bind_eq_some_iff.1 h
      obtain ⟨rfl, hlast⟩ := taskShows_eq_advanced.1 hshown
      exact ⟨tid, rfl, ht, hlast⟩
    · cases h
  · rintro ⟨tid, rfl, ht, hlast⟩
    exact Option.bind_eq_some_iff.2 ⟨_, ht, taskShows_eq_advanced.2 ⟨rfl, hlast⟩⟩

theorem stored_of_shows (hs : step env p m = some p')
    (h : shows p m = some (.advanced call settings matchedStep)) :
    p'.store.totpLastVerifiedStep = some matchedStep := by
  obtain ⟨tid, rfl, ht, hlast⟩ := shows_eq_advanced.1 h
  obtain ⟨t', ha, -⟩ := Program.exists_act_of_step hs ht
  have hadvance := tryAdvance_eq_some.2 ⟨hlast, rfl⟩
  have ha : resume env p.store (.advancing call settings matchedStep) = some (p'.store, t') := ha
  simp only [resume, hadvance, Option.some.injEq, Prod.mk.injEq] at ha
  rw [← ha.1]

theorem stored_of_shows_none (hok : TasksOk env p) (hs : step env p m = some p')
    (h : shows p m = none) : p'.store.totpLastVerifiedStep = p.store.totpLastVerifiedStep := by
  obtain ⟨r, rfl, rfl⟩ | ⟨tid, a, t, row, t', rfl, ht, ha, rfl⟩ := Program.step_cases hs
  · rfl
  · refine step_kept (hok t (List.mem_of_getElem? ht)) (steps_of_act ha) ?_
    rintro rfl
    simpa [shows, ht] using h

end StoredStep

/-! ### Runs -/

/-- What a run from a settings row shows. -/
def history (env : Env) (row : DashboardSettings) (ms : List Event) : List TotpEvent :=
  trace (step env) shows ⟨row, []⟩ ms

section Runs

variable (env : Env) (row : DashboardSettings) (ms : List Event)

theorem meets_tasksOk : Meets (step env) (fun p _ => TasksOk env p) ⟨row, []⟩ ms :=
  meets_of_invariant (I := TasksOk env) (fun _ _ _ hI hs => hI.step hs) (by simp [TasksOk])

theorem rises_history : Rises (· < ·) TotpEvent.accepted none (history env row ms) := by
  refine rises_trace (fun p => p.store.totpLastVerifiedStep)
    (fun p m p' hok hs hshows => stored_of_shows_none hok hs hshows)
    (fun p m p' event k _ hs hshows hk => ?_) (meets_tasksOk env row ms) (by simp)
  cases event with
  | secretWritten => cases hk
  | advanced call settings matchedStep =>
    obtain rfl := Option.some.inj hk
    obtain ⟨tid, -, -, hlast⟩ := shows_eq_advanced.1 hshows
    exact ⟨hlast, stored_of_shows hs hshows⟩

theorem verified_of_mem_history {call : TotpCall} {settings : DashboardSettings} {matchedStep : ℤ}
    (h : .advanced call settings matchedStep ∈ history env row ms) :
    Verified env call settings matchedStep := by
  have hall : ∀ event ∈ history env row ms, ∀ call settings matchedStep,
      event = .advanced call settings matchedStep → Verified env call settings matchedStep := by
    refine forall_mem_trace ((meets_tasksOk env row ms).mono fun p m hok event hshows => ?_)
    rintro call settings matchedStep rfl
    obtain ⟨tid, -, ht, -⟩ := shows_eq_advanced.1 hshows
    exact hok _ (List.mem_of_getElem? ht)
  exact hall _ h _ _ _ rfl

/-- **No time step is accepted twice.**  Whatever calls and replicas interleave, and whichever
settings they have read, the steps accepted between two writes of the secret rise.  An accepted step
lies within one step of the clock of its call, and its code is that of the submitted digits. -/
theorem accepted_steps_rise :
    (∀ before between after, history env row ms = before ++ between ++ after →
      (∀ event ∈ between, event.accepted.isSome = true) →
      (between.filterMap TotpEvent.accepted).Pairwise (· < ·)) ∧
    ∀ call settings matchedStep, .advanced call settings matchedStep ∈ history env row ms →
      timeStep call.now - 1 ≤ matchedStep ∧ matchedStep ≤ timeStep call.now + 1 ∧
      ∃ secretEncrypted secret, settings.totpSecretEncrypted = some secretEncrypted ∧
        env.decrypt secretEncrypted = some secret ∧
        Matches env.totpAt secret call.code settings.totpLastVerifiedStep matchedStep := by
  constructor
  · intro before between after hhistory hbetween
    have hrises := rises_history env row ms
    rw [hhistory, List.append_assoc] at hrises
    obtain ⟨bound, hrest⟩ := hrises.of_append
    exact (hrest.pairwise hbetween).1
  · intro call settings matchedStep hmem
    obtain ⟨enc, secret, henc, hsecret, hmatch⟩ := verified_of_mem_history env row ms hmem
    exact ⟨hmatch.lower, hmatch.upper, enc, secret, henc, hsecret, hmatch.matched⟩

end Runs

end FirecrawlLb.DashboardAuth.TotpSteps
