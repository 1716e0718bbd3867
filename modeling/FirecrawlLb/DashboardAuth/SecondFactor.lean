import FirecrawlLb.DashboardAuth.Access
import FirecrawlLb.DashboardAuth.Consistency

/-!
# The requirement of a second factor

The guard asks a session for a one-time code only where the settings row requires one.  The row is
written by calls that run side by side on objects they have loaded before, and none of them turns
the requirement on: a new deployment never asks for a code, whatever is set up.
-/

namespace FirecrawlLb.DashboardAuth.SecondFactor

open FirecrawlLb.Lib FirecrawlLb.Lib.Run FirecrawlLb.Lib.Tasks FirecrawlLb.Db.Models
open FirecrawlLb.DashboardAuth FirecrawlLb.DashboardAuth.Repository
open FirecrawlLb.DashboardAuth.Service FirecrawlLb.DashboardAuth.System
open FirecrawlLb.DashboardAuth.Access FirecrawlLb.DashboardAuth.Consistency
open FirecrawlLb.DashboardAuth.Sessions (Tokens)

/-- The guard lets a request in that has given a password and no code. -/
def LetsPasswordIn (env : Env) (row : DashboardSettings) : Prop :=
  ∀ (settings : ProxySettings) (tokens : Tokens) (request : Access.Request) (now : ℚ)
    (state : DashboardSessionState),
    Sessions.get tokens request.sessionId now = some (some state) →
    state.passwordVerified = true →
    validateDashboardSession env settings tokens row request now = .ok ()

section Guard

variable {env : Env} {row : DashboardSettings}

theorem letsPasswordIn_of_not_required (hpassword : hasPassword row = true)
    (hoff : row.totpRequiredOnLogin = false) : LetsPasswordIn env row := by
  intro settings tokens request now state hget hverified
  simp [validateDashboardSession, hpassword, hget, checkSession, hverified, hoff]

end Guard

section Runs

variable {env : Env} {p p' : State} {m : Event} {row : DashboardSettings} {ms ms' : List Event}

/-- The requirement is off, and no call will commit what turns it on. -/
def Off (p : State) : Prop := Consistency.Inv p ∧ p.store.totpRequiredOnLogin = false

theorem Off.step (hp : Off p) (hs : System.step env p m = some p') : Off p' := by
  obtain ⟨hinv, hoff⟩ := hp
  refine ⟨hinv.step hs, ?_⟩
  obtain ⟨r, rfl, rfl⟩ | ⟨tid, a, t, row, t', rfl, ht, ha, rfl⟩ := Program.step_cases hs
  · exact hoff
  · have hcommit := hinv t (List.mem_of_getElem? ht)
    have hkeeps := required_steps hcommit (steps_of_act ha)
    rw [hoff] at hkeeps
    simpa using hkeeps

/-- **The requirement is never turned on.**  Once it is off in a run, with any calls under way, it
stays off through all that follows; and as long as there is a password, the guard lets a session in
that has given it, also when one-time codes are set up. -/
theorem second_factor_never_required
    (hrun : run (System.step env) ⟨row, []⟩ ms = some p)
    (hoff : p.store.totpRequiredOnLogin = false)
    (hrun' : run (System.step env) p ms' = some p') :
    p'.store.totpRequiredOnLogin = false ∧
      (hasPassword p'.store = true → LetsPasswordIn env p'.store) := by
  have hstart : Consistency.Inv ⟨row, []⟩ := by simp [Consistency.Inv]
  have hinv : Consistency.Inv p := invariant (fun _ _ _ hp hs => hp.step hs) hstart hrun
  have hend : Off p' := invariant (fun _ _ _ hp hs => hp.step hs) ⟨hinv, hoff⟩ hrun'
  exact ⟨hend.2, fun hpassword => letsPasswordIn_of_not_required hpassword hend.2⟩

/-- A password and a secret are set up, and the guard still asks for no code. -/
theorem second_factor_never_required_sample :
    let p := endOf (System.step sampleEnv) ⟨{}, []⟩ setupEvents
    let p' := endOf (System.step sampleEnv) p (confirmEvents ++ [.act 1 .resume])
    p'.store.totpSecretEncrypted ≠ none ∧ p'.store.totpRequiredOnLogin = false ∧
      LetsPasswordIn sampleEnv p'.store := by
  intro p p'
  have hrun : run (System.step sampleEnv) ⟨{}, []⟩ setupEvents = some p := run_endOf (by decide)
  have hrun' : run (System.step sampleEnv) p (confirmEvents ++ [.act 1 .resume]) = some p' :=
    run_endOf (by decide)
  have hend := second_factor_never_required hrun (by decide) hrun'
  exact ⟨by decide, hend.1, hend.2 (by decide)⟩

end Runs

end FirecrawlLb.DashboardAuth.SecondFactor
