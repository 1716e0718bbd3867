import FirecrawlLb.DashboardAuth.TotpSteps

/-!
# The code that confirms a setup

`confirm_totp_setup` checks a code against the new secret, and `set_totp_secret` then resets the
stored step.  The step that the code has matched is not stored, so the code is accepted again for as
long as it lies in the window of a later call.
-/

namespace FirecrawlLb.DashboardAuth.TotpReplay

open FirecrawlLb.Lib FirecrawlLb.Lib.Tasks FirecrawlLb.Lib.Run FirecrawlLb.Db.Models
open FirecrawlLb.Core.Totp FirecrawlLb.DashboardAuth.Repository FirecrawlLb.DashboardAuth.Service
open FirecrawlLb.DashboardAuth.System FirecrawlLb.DashboardAuth.TotpSteps

/-- A code that is accepted on a secret has a later step than the code that confirmed the secret. -/
def NotReplayed (earlier later : TotpEvent) : Prop :=
  ∀ secretEncrypted confirmedStep call settings matchedStep,
    earlier = .secretWritten (some secretEncrypted) (some confirmedStep) →
    later = .advanced call settings matchedStep →
    settings.totpSecretEncrypted = some secretEncrypted → confirmedStep < matchedStep

/-- The digits a call submits match a step up to the confirmed one, before any other step in the
window, and the stored step does not exclude it. -/
def SubmitsOldCode (env : Env) (row : DashboardSettings) (call : TotpCall)
    (settings : DashboardSettings) (confirmedStep : ℤ) : Prop :=
  ∃ k ≤ confirmedStep, Verified env call settings k ∧ ∀ last ∈ row.totpLastVerifiedStep, last < k

/-- No call submits an old code of a secret that was confirmed before. -/
def NoOldCode (env : Env) (r : State × List TotpEvent) : Event → Prop
  | .act tid .resume => ∀ call settings matchedStep secretEncrypted confirmedStep,
      r.1.tasks[tid]? = some (.advancing call settings matchedStep) →
      .secretWritten (some secretEncrypted) (some confirmedStep) ∈ r.2 →
      settings.totpSecretEncrypted = some secretEncrypted →
      ¬ SubmitsOldCode env r.1.store call settings confirmedStep
  | _ => True

section Replay

variable {env : Env} {r : State × List TotpEvent}

/-- **A step accepts no replayed code exactly if no old code is submitted.** -/
theorem notReplayed_step_iff (hok : TasksOk env r.1) (m : Event) :
    (∀ event ∈ shows r.1 m, ∀ earlier ∈ r.2, NotReplayed earlier event) ↔ NoOldCode env r m := by
  constructor
  · intro hreplay
    cases m with
    | spawn r => trivial
    | act tid a =>
      cases a with
      | fail => trivial
      | resume =>
        rintro call settings matchedStep enc confirmedStep ht hconfirmed henc
          ⟨k, hk, hverified, hlast⟩
        obtain rfl : k = matchedStep := hverified.unique (hok _ (List.mem_of_getElem? ht))
        have hshows := shows_eq_advanced.2 ⟨tid, rfl, ht, hlast⟩
        have hlt : confirmedStep < k := hreplay _ hshows _ hconfirmed _ _ _ _ _ rfl rfl henc
        omega
  · rintro hold event hshows earlier hearlier enc confirmedStep call settings matchedStep rfl rfl
      henc
    obtain ⟨tid, rfl, ht, hlast⟩ := shows_eq_advanced.1 hshows
    have hverified : Verified env call settings matchedStep := hok _ (List.mem_of_getElem? ht)
    by_contra hle
    exact hold call settings matchedStep enc confirmedStep ht hearlier henc
      ⟨matchedStep, not_lt.1 hle, hverified, hlast⟩

/-- **The code of a setup is not replayed exactly if it is not submitted again.**  In every run,
each code accepted on a secret has a later step than the code that confirmed this secret, if and
only if no call that is about to store its step has submitted digits that first match a step up to
the confirmed one, later than the step stored. -/
theorem not_replayed_iff (env : Env) (row : DashboardSettings) (ms : List Event) :
    (history env row ms).Pairwise NotReplayed ↔
      Meets (recorded (step env) shows) (NoOldCode env) (⟨row, []⟩, []) ms := by
  have htrace : ([] ++ history env row ms).Pairwise NotReplayed ↔ _ :=
    pairwise_append_trace (fun _ _ h => shows_of_step h)
  rw [List.nil_append, and_iff_right List.Pairwise.nil] at htrace
  rw [htrace]
  refine meets_iff_meets (I := fun r => TasksOk env r.1) (fun r m r' hok hs => ?_)
    (fun r m hok => notReplayed_step_iff hok m) (by simp [TasksOk])
  exact TasksOk.step hok (recorded_eq_some.1 hs).1

end Replay

/-- A setup is confirmed with a code, and the same code is submitted at once to log in. -/
def replayEvents : List Event :=
  [.spawn (.confirmTotpSetup (some sampleSession) "JBSWY3DPEHPK3PXP" "666666" 1700000000 0),
    .act 0 .resume, .spawn (.totp ⟨false, some sampleSession, "666666", 1700000000⟩),
    .act 1 .resume]

/-- It is accepted again. -/
theorem not_not_replayed_sample : let row : DashboardSettings := { passwordHash := some "password" }
    ¬ (history sampleEnv row replayEvents).Pairwise NotReplayed := by
  intro row h
  have hhistory : history sampleEnv row replayEvents =
      [.secretWritten (some (sampleEnv.encrypt 0 "JBSWY3DPEHPK3PXP")) (some 56666666),
        .advanced ⟨false, some sampleSession, "666666", 1700000000⟩
          { passwordHash := some "password"
            totpSecretEncrypted := some (sampleEnv.encrypt 0 "JBSWY3DPEHPK3PXP") } 56666666] := by
    rfl
  rw [hhistory] at h
  have hreplay := (List.pairwise_cons.1 h).1 _ (List.mem_singleton_self _)
  exact absurd (hreplay _ _ _ _ _ rfl rfl rfl) (lt_irrefl _)

end FirecrawlLb.DashboardAuth.TotpReplay
