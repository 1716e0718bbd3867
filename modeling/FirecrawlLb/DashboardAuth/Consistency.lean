import FirecrawlLb.DashboardAuth.TotpSteps

/-!
# The consistency of the settings row

Without a password there is no second factor, and with one there is no bootstrap token.  The
conditional updates keep this.  A call that has loaded the row commits the columns it has changed,
whatever others have committed since: its commit keeps the row consistent exactly if it fits the row
it finds.
-/

namespace FirecrawlLb.DashboardAuth.Consistency

open FirecrawlLb.Lib FirecrawlLb.Lib.Tasks FirecrawlLb.Lib.Run FirecrawlLb.Db.Models
open FirecrawlLb.Core.Bootstrap FirecrawlLb.DashboardAuth.Repository
open FirecrawlLb.DashboardAuth.Service FirecrawlLb.DashboardAuth.System

structure Consistent (row : DashboardSettings) : Prop where
  unconfigured : row.passwordHash = none →
    row.totpSecretEncrypted = none ∧ row.totpRequiredOnLogin = false
  configured : row.passwordHash ≠ none →
    row.bootstrapTokenEncrypted = none ∧ row.bootstrapTokenHash = none

/-- What a call commits fits the row, in which others may have changed what the call has loaded.  A
secret is written while there is still a password; the password is not removed next to a secret that
was confirmed since; and it is not set next to a bootstrap token that was stored since. -/
def WriteFits (row : DashboardSettings) (o : Loaded DashboardSettings) : SettingsWrite → Prop
  | .confirmTotpSetup _ _ => row.passwordHash ≠ none
  | .removePassword _ => o.read.passwordHash ≠ none →
      row.totpSecretEncrypted ≠ none → o.read.totpSecretEncrypted ≠ none
  | .changePassword passwordHash => o.read.passwordHash ≠ some passwordHash →
      (row.bootstrapTokenEncrypted ≠ none → o.read.bootstrapTokenEncrypted ≠ none) ∧
      (row.bootstrapTokenHash ≠ none → o.read.bootstrapTokenHash ≠ none)
  | .disableTotp => True

instance (row : DashboardSettings) (o : Loaded DashboardSettings) :
    ∀ write, Decidable (WriteFits row o write)
  | .confirmTotpSetup _ _ => inferInstanceAs (Decidable (_ ≠ _))
  | .removePassword _ => inferInstanceAs (Decidable (_ ≠ _ → _ ≠ _ → _ ≠ _))
  | .changePassword _ => inferInstanceAs (Decidable (_ ≠ _ → (_ ≠ _ → _ ≠ _) ∧ (_ ≠ _ → _ ≠ _)))
  | .disableTotp => isTrue trivial

/-- The commit that comes next fits the row. -/
def TaskFits (row : DashboardSettings) : Task → Prop
  | .committing o write => WriteFits row o write
  | _ => True

instance (row : DashboardSettings) : ∀ t, Decidable (TaskFits row t)
  | .committing o write => inferInstanceAs (Decidable (WriteFits row o write))
  | .validating _ _ | .settingPassword _ _ _ | .passwordSet _ _ | .loading _ | .bootstrapping _
  | .clearingToken | .storingToken _ | .advancing _ _ _ | .returned _ | .ended _ | .failed =>
    isTrue trivial

/-- The event commits what fits the row. -/
def Fits (p : State) : Event → Prop
  | .act tid .resume => ∀ t ∈ p.tasks[tid]?, TaskFits p.store t
  | _ => True

instance (p : State) : ∀ m, Decidable (Fits p m)
  | .act tid .resume => inferInstanceAs (Decidable (∀ t ∈ p.tasks[tid]?, TaskFits p.store t))
  | .act _ .fail | .spawn _ => isTrue trivial

/-! ### Commits -/

section Commits

variable {row : DashboardSettings} {o : Loaded DashboardSettings}

theorem consistent_confirm {secretEncrypted : List UInt8} (hrow : Consistent row)
    (hread : o.read.totpSecretEncrypted = none)
    (hvalue : o.value = setTotpSecret (some secretEncrypted) o.read) :
    Consistent (row.flush o) ↔ row.passwordHash ≠ none := by
  have hpassword : (row.flush o).passwordHash = row.passwordHash := by
    simp [DashboardSettings.flush, hvalue, setTotpSecret]
  have hsecret : (row.flush o).totpSecretEncrypted = some secretEncrypted := by
    simp [DashboardSettings.flush, hvalue, setTotpSecret, hread, column, asIs]
  have htoken : (row.flush o).bootstrapTokenEncrypted = row.bootstrapTokenEncrypted ∧
      (row.flush o).bootstrapTokenHash = row.bootstrapTokenHash := by
    simp [DashboardSettings.flush, hvalue, setTotpSecret]
  constructor
  · intro h hnone
    have := (h.unconfigured (hpassword.trans hnone)).1
    rw [hsecret] at this
    cases this
  · intro hsome
    refine ⟨fun hnone => absurd (hpassword.symm.trans hnone) hsome, fun _ => ?_⟩
    rw [htoken.1, htoken.2]
    exact hrow.configured hsome

theorem consistent_remove (hrow : Consistent row)
    (hrequired : row.totpRequiredOnLogin = true → o.read.totpRequiredOnLogin = true)
    (hvalue : o.value = clearPasswordAndTotp o.read) :
    Consistent (row.flush o) ↔ (o.read.passwordHash ≠ none →
      row.totpSecretEncrypted ≠ none → o.read.totpSecretEncrypted ≠ none) := by
  have hpassword : (row.flush o).passwordHash =
      column asIs o.read.passwordHash none row.passwordHash := by
    simp [DashboardSettings.flush, hvalue, clearPasswordAndTotp]
  have hsecret : (row.flush o).totpSecretEncrypted =
      column asIs o.read.totpSecretEncrypted none row.totpSecretEncrypted := by
    simp [DashboardSettings.flush, hvalue, clearPasswordAndTotp]
  have hrequired : (row.flush o).totpRequiredOnLogin = false := by
    cases hread : o.read.totpRequiredOnLogin with
    | false =>
      have hoff : row.totpRequiredOnLogin = false := by
        by_contra hon
        rw [hread] at hrequired
        cases hrequired (by simpa using hon)
      simp [DashboardSettings.flush, hvalue, clearPasswordAndTotp, hread, hoff, column]
    | true => simp [DashboardSettings.flush, hvalue, clearPasswordAndTotp, hread, column, asIs]
  constructor
  · intro h hread
    have hnone : (row.flush o).passwordHash = none := by
      rw [hpassword, column_changed (Ne.symm hread), asIs]
    have hcleared := (h.unconfigured hnone).1
    rwa [hsecret, column_none_eq_none rfl] at hcleared
  · intro hfits
    by_cases hread : o.read.passwordHash = none
    · -- another has removed the password before: it is left as it is
      have hkept : (row.flush o).passwordHash = row.passwordHash := by
        rw [hpassword, hread, column_unchanged]
      refine ⟨fun hnone => ⟨?_, hrequired⟩, fun hsome => ?_⟩
      · have hnone := (hrow.unconfigured (hkept.symm.trans hnone)).1
        rw [hsecret, column_none_eq_none rfl, hnone]
        exact fun h => absurd rfl h
      · obtain ⟨hencrypted, hhash⟩ := hrow.configured (hkept ▸ hsome)
        constructor
        · simp [DashboardSettings.flush, hvalue, clearPasswordAndTotp, hencrypted, column, asIs]
        · simp [DashboardSettings.flush, hvalue, clearPasswordAndTotp, hhash, column, asIs]
    · have hnone : (row.flush o).passwordHash = none := by
        rw [hpassword, column_changed (Ne.symm hread), asIs]
      refine ⟨fun _ => ⟨?_, hrequired⟩, fun hsome => absurd hnone hsome⟩
      rw [hsecret, column_none_eq_none rfl]
      exact hfits hread

theorem consistent_change {passwordHash : String} (hrow : Consistent row)
    (hvalue : o.value = setPasswordHash passwordHash o.read) :
    Consistent (row.flush o) ↔ (o.read.passwordHash ≠ some passwordHash →
      (row.bootstrapTokenEncrypted ≠ none → o.read.bootstrapTokenEncrypted ≠ none) ∧
      (row.bootstrapTokenHash ≠ none → o.read.bootstrapTokenHash ≠ none)) := by
  have hpassword : (row.flush o).passwordHash =
      column asIs o.read.passwordHash (some passwordHash) row.passwordHash := by
    simp [DashboardSettings.flush, hvalue, setPasswordHash]
  have hencrypted : (row.flush o).bootstrapTokenEncrypted =
      column asIs o.read.bootstrapTokenEncrypted none row.bootstrapTokenEncrypted := by
    simp [DashboardSettings.flush, hvalue, setPasswordHash]
  have hhash : (row.flush o).bootstrapTokenHash =
      column asIs o.read.bootstrapTokenHash none row.bootstrapTokenHash := by
    simp [DashboardSettings.flush, hvalue, setPasswordHash]
  have hrest : (row.flush o).totpSecretEncrypted = row.totpSecretEncrypted ∧
      (row.flush o).totpRequiredOnLogin = row.totpRequiredOnLogin := by
    simp [DashboardSettings.flush, hvalue, setPasswordHash]
  constructor
  · intro h hread
    have hsome : (row.flush o).passwordHash ≠ none := by
      rw [hpassword, column_changed (Ne.symm hread)]
      simp [asIs]
    have hcleared := h.configured hsome
    rwa [hencrypted, hhash, column_none_eq_none rfl, column_none_eq_none rfl] at hcleared
  · intro hfits
    by_cases hread : o.read.passwordHash = some passwordHash
    · -- the password is not written
      have hkept : (row.flush o).passwordHash = row.passwordHash := by
        rw [hpassword, hread, column_unchanged]
      refine ⟨fun hnone => ?_, fun hsome => ?_⟩
      · rw [hrest.1, hrest.2]
        exact hrow.unconfigured (hkept.symm.trans hnone)
      · obtain ⟨henc, hh⟩ := hrow.configured (hkept ▸ hsome)
        rw [hencrypted, hhash, column_none_eq_none rfl, column_none_eq_none rfl, henc, hh]
        exact ⟨fun h => absurd rfl h, fun h => absurd rfl h⟩
    · have hsome : (row.flush o).passwordHash ≠ none := by
        rw [hpassword, column_changed (Ne.symm hread)]
        simp [asIs]
      refine ⟨fun hnone => absurd hnone hsome, fun _ => ?_⟩
      rw [hencrypted, hhash, column_none_eq_none rfl, column_none_eq_none rfl]
      exact hfits hread

theorem consistent_disable (hrow : Consistent row) (hvalue : o.value = setTotpSecret none o.read) :
    Consistent (row.flush o) := by
  have hpassword : (row.flush o).passwordHash = row.passwordHash := by
    simp [DashboardSettings.flush, hvalue, setTotpSecret]
  refine ⟨fun hnone => ?_, fun hsome => ?_⟩
  · obtain ⟨hsecret, hrequired⟩ := hrow.unconfigured (hpassword.symm.trans hnone)
    constructor
    · simp [DashboardSettings.flush, hvalue, setTotpSecret, hsecret, column, asIs]
    · simp [DashboardSettings.flush, hvalue, setTotpSecret, hrequired, column, asIs]
  · have hcleared := hrow.configured (hpassword ▸ hsome)
    simpa [DashboardSettings.flush, hvalue, setTotpSecret] using hcleared

end Commits

/-! ### What the tasks hold -/

/-- What a task is about to commit is what its call makes of the row it has loaded.  A confirmation
has seen no secret, and loads the row before its checks; a removal has seen that the second factor
is required, if it still is. -/
def CommitOk (row : DashboardSettings) : Task → Prop
  | .loading write => ∀ secretEncrypted step, write ≠ .confirmTotpSetup secretEncrypted step
  | .committing o write => o.value = write.apply o.read ∧
      (∀ secretEncrypted step, write = .confirmTotpSetup secretEncrypted step →
        o.read.totpSecretEncrypted = none) ∧
      (∀ generated, write = .removePassword generated →
        row.totpRequiredOnLogin = true → o.read.totpRequiredOnLogin = true)
  | _ => True

section Steps

variable {env : Env} {row row' : DashboardSettings} {t t' u : Task} {a : Action}

/-- **A commit keeps the row consistent exactly if it fits the row.** -/
theorem consistent_flush_iff {o : Loaded DashboardSettings} {write : SettingsWrite}
    (hrow : Consistent row) (ht : CommitOk row (.committing o write)) :
    Consistent (row.flush o) ↔ WriteFits row o write := by
  obtain ⟨hvalue, hconfirm, hremove⟩ := ht
  cases write with
  | confirmTotpSetup secretEncrypted step =>
    exact consistent_confirm hrow (hconfirm _ _ rfl) hvalue
  | removePassword generated => exact consistent_remove hrow (hremove _ rfl) hvalue
  | changePassword passwordHash => exact consistent_change hrow hvalue
  | disableTotp => exact iff_of_true (consistent_disable hrow hvalue) trivial

theorem totpSecretEncrypted_of_confirm {session : Option DashboardSessionState}
    {secret code : String} {now : ℤ} {matchedStep : Option ℤ}
    (h : confirmTotpSetup env row session secret code now = .ok matchedStep) :
    row.totpSecretEncrypted = none := by
  obtain ⟨-, -, h⟩ := bind_eq_ok.1 h
  obtain ⟨-, -, h⟩ := bind_eq_ok.1 h
  split_ifs at h with hconfigured
  simpa using hconfigured

theorem commitOk_starts {r : Request} (h : Starts env row r t) : CommitOk row t := by
  cases h with
  | change | remove =>
    intro _ _ hwrite
    cases hwrite
  | confirm hchecks hwrite =>
    subst hwrite
    refine ⟨rfl, fun _ _ _ => totpSecretEncrypted_of_confirm hchecks, ?_⟩
    intro _ hwrite
    cases hwrite
  | _ => trivial

theorem commitOk_steps (ht : CommitOk row t) (h : Steps env row t a row' t') :
    CommitOk row' t' := by
  cases h with
  | load => exact ⟨rfl, fun _ _ hwrite => absurd hwrite (ht _ _), fun _ _ hrequired => hrequired⟩
  | @commit _ write => cases write <;> trivial
  | @advance call settings matchedStep =>
    unfold advanced
    split_ifs
    · refine ⟨rfl, ?_, ?_⟩
      · intro _ _ hwrite
        cases hwrite
      · intro _ hwrite
        cases hwrite
    · trivial
  | _ => trivial

/-- No call sets the requirement of a second factor. -/
theorem required_flush {o : Loaded DashboardSettings} {write : SettingsWrite}
    (hvalue : o.value = write.apply o.read) (h : (row.flush o).totpRequiredOnLogin = true) :
    row.totpRequiredOnLogin = true := by
  have hkeeps : o.value.totpRequiredOnLogin = o.read.totpRequiredOnLogin ∨
      o.value.totpRequiredOnLogin = false := by
    rw [hvalue]
    cases write with
    | changePassword | confirmTotpSetup => exact Or.inl rfl
    | removePassword | disableTotp => exact Or.inr rfl
  rcases column_eq_or asIs o.read.totpRequiredOnLogin o.value.totpRequiredOnLogin
    row.totpRequiredOnLogin with hsame | ⟨hne, hchanged⟩
  · exact hsame.symm.trans h
  · have hon : o.value.totpRequiredOnLogin = true := hchanged.symm.trans h
    rcases hkeeps with hkept | hoff
    · exact absurd hkept hne
    · rw [hoff] at hon
      cases hon

theorem required_steps (ht : CommitOk row t) (h : Steps env row t a row' t')
    (hrequired : row'.totpRequiredOnLogin = true) : row.totpRequiredOnLogin = true := by
  cases h with
  | commit => exact required_flush ht.1 hrequired
  | clearToken =>
    rcases getD_clearBootstrapToken row with hclear | hclear <;> rw [hclear] at hrequired <;>
      exact hrequired
  | storeToken hstore =>
    obtain ⟨-, rfl⟩ := storeBootstrapTokenIfAbsent_eq_some.1 hstore
    exact hrequired
  | _ => exact hrequired

theorem CommitOk.other (hu : CommitOk row u) (ht : CommitOk row t)
    (h : Steps env row t a row' t') : CommitOk row' u := by
  cases u with
  | committing o write =>
    obtain ⟨hvalue, hconfirm, hremove⟩ := hu
    refine ⟨hvalue, hconfirm, fun generated hwrite hrequired => ?_⟩
    exact hremove generated hwrite (required_steps ht h hrequired)
  | _ => exact hu

theorem consistent_steps (hrow : Consistent row) (ht : CommitOk row t)
    (h : Steps env row t a row' t') (hfits : a = .resume → TaskFits row t) : Consistent row' := by
  cases h with
  | @setPassword _ _ _ passwordHash _ hnone =>
    exact ⟨fun h => (by cases h), fun _ => ⟨rfl, rfl⟩⟩
  | commit => exact (consistent_flush_iff hrow ht).2 (hfits rfl)
  | clearToken =>
    rcases getD_clearBootstrapToken row with hclear | hclear <;> rw [hclear]
    · exact hrow
    · exact ⟨hrow.unconfigured, fun _ => ⟨rfl, rfl⟩⟩
  | storeToken hstore =>
    obtain ⟨habsent, rfl⟩ := storeBootstrapTokenIfAbsent_eq_some.1 hstore
    exact ⟨hrow.unconfigured, fun h => absurd habsent.1 h⟩
  | advance => exact ⟨hrow.unconfigured, hrow.configured⟩
  | _ => exact hrow

end Steps

/-! ### Runs -/

/-- What every state of a run satisfies. -/
def Inv (p : State) : Prop := ∀ t ∈ p.tasks, CommitOk p.store t

section Runs

variable {env : Env} {p p' : State} {m : Event}

theorem Inv.step (hp : Inv p) (hs : step env p m = some p') : Inv p' := by
  have hall : Asserts (fun _ => True) CommitOk p' := by
    refine Program.inv_step (C := fun _ _ => True) (fun p r _ _ => ?_)
      (fun p tid a t row t' _ ht _ _ ha => ?_) (fun p tid a t row t' u _ ht hu _ _ ha => ?_)
      ⟨trivial, hp⟩ trivial hs
    · exact commitOk_starts (starts_spawn env p.store r)
    · exact ⟨trivial, commitOk_steps ht (steps_of_act ha)⟩
    · exact hu.other ht (steps_of_act ha)
  exact hall.2

/-- **A step keeps the row consistent exactly if it commits what fits.** -/
theorem consistent_step_iff (hp : Inv p) (hrow : Consistent p.store) (m : Event) :
    (∀ p', step env p m = some p' → Consistent p'.store) ↔ Fits p m := by
  constructor
  · intro hnext
    cases m with
    | spawn r => trivial
    | act tid a =>
      cases a with
      | fail => trivial
      | resume =>
        intro t (ht : p.tasks[tid]? = some t)
        cases t with
        | committing o write =>
          have hstep : step env p (.act tid .resume) =
              some ⟨p.store.flush o, p.tasks.set tid (committed write)⟩ :=
            Program.step_act ht rfl
          exact (consistent_flush_iff hrow (hp _ (List.mem_of_getElem? ht))).1 (hnext _ hstep)
        | _ => trivial
  · intro hfits p' hs
    obtain ⟨r, rfl, rfl⟩ | ⟨tid, a, t, row, t', rfl, ht, ha, rfl⟩ := Program.step_cases hs
    · exact hrow
    · refine consistent_steps hrow (hp t (List.mem_of_getElem? ht)) (steps_of_act ha) ?_
      rintro rfl
      exact hfits t ht

/-- **The row stays consistent** in every state of a run exactly if every commit of the run fits the
row it finds. -/
theorem consistent_iff_fits (env : Env) (row : DashboardSettings) (hrow : Consistent row)
    (ms : List Event) :
    Always (step env) (fun p => Consistent p.store) ⟨row, []⟩ ms ↔
      Meets (step env) Fits ⟨row, []⟩ ms :=
  always_iff_meets (I := Inv) (B := fun _ _ => True) (fun _ _ _ hp _ _ hs => hp.step hs)
    (fun _ m hp _ hrow => consistent_step_iff hp hrow m) (by simp [Inv]) meets_true hrow

/-- The first password is set. -/
def setupEvents : List Event :=
  [.spawn (.setupPassword ⟨true, false, "local-password", none, 0⟩), .act 0 .resume]

/-- A confirmation of a new secret, which is about to be committed. -/
def confirmEvents : List Event :=
  [.spawn (.confirmTotpSetup (some sampleSession) "JBSWY3DPEHPK3PXP" "666666" 1700000000 0)]

/-- A removal of the password in the given place, up to its commit. -/
def removeEvents (tid : ℕ) : List Event :=
  [.spawn (.removePassword { passwordHash := some "local-password" } (some sampleSession)
      "local-password" ⟨"token", 7⟩), .act tid .resume, .act tid .resume]

/-- The secret is written before the removal loads the row, and is removed with the password. -/
theorem consistent_iff_fits_sample :
    let ms := setupEvents ++ confirmEvents ++ [.act 1 .resume] ++ removeEvents 2
    (endOf (step sampleEnv) ⟨{}, []⟩ ms).store = {} ∧
      Always (step sampleEnv) (fun p => Consistent p.store) ⟨{}, []⟩ ms := by
  intro ms
  have hfits : Meets (step sampleEnv) Fits ⟨{}, []⟩ ms := by decide
  exact ⟨by decide, (consistent_iff_fits sampleEnv {} ⟨by simp, by simp⟩ ms).2 hfits⟩

/-- The password is removed between the checks of a confirmation and its commit, which leaves a
secret without a password. -/
theorem secret_without_password :
    let ms := setupEvents ++ confirmEvents ++ removeEvents 2 ++ [.act 1 .resume]
    (endOf (step sampleEnv) ⟨{}, []⟩ ms).store =
        { totpSecretEncrypted := some (sampleEnv.encrypt 0 "JBSWY3DPEHPK3PXP") } ∧
      ¬ Always (step sampleEnv) (fun p => Consistent p.store) ⟨{}, []⟩ ms := by
  intro ms
  have hrun : run (step sampleEnv) ⟨{}, []⟩ ms =
      some (endOf (step sampleEnv) ⟨{}, []⟩ ms) := run_endOf (by decide)
  have hpassword : (endOf (step sampleEnv) ⟨{}, []⟩ ms).store.passwordHash = none := by decide
  have hsecret : (endOf (step sampleEnv) ⟨{}, []⟩ ms).store.totpSecretEncrypted ≠ none := by
    decide
  refine ⟨by decide, fun h => ?_⟩
  exact absurd ((h.last hrun).unconfigured hpassword).1 hsecret

end Runs

end FirecrawlLb.DashboardAuth.Consistency
