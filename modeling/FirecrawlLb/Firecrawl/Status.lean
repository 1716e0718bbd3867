import FirecrawlLb.Firecrawl.Selection
import FirecrawlLb.Firecrawl.Stored

/-!
# Status and cooldown over runs

Which commits change the status and the cooldown of an account, and what that means for the
selections that follow: a pause, a rate limit before its end, and a rate limit after its end.
-/

namespace FirecrawlLb.Firecrawl.Status

open FirecrawlLb.Lib FirecrawlLb.Lib.Tasks FirecrawlLb.Lib.Run FirecrawlLb.Python
open FirecrawlLb.Db.Models FirecrawlLb.Firecrawl.Models FirecrawlLb.Firecrawl.Schemas
open FirecrawlLb.Firecrawl.Usage FirecrawlLb.Firecrawl.Routing FirecrawlLb.Firecrawl.Selection
open FirecrawlLb.Firecrawl.Repository FirecrawlLb.Firecrawl.Service FirecrawlLb.Firecrawl.System
open FirecrawlLb.Firecrawl.Stored

/-! ### What a session does to the two columns -/

/-- The session restores the account: an `apply_success` that read it as rate limited. -/
def restores (id : String) (s : Session) : Bool :=
  match s.edit? id with
  | some ⟨read, .applySuccess _⟩ => read.status = some FirecrawlAccountStatus.rateLimited.value
  | _ => false

/-- The update of an operator the session writes to the account. -/
def operatorUpdate? (id : String) (s : Session) : Option FirecrawlAccountUpdateRequest :=
  match s.edit? id with
  | some ⟨_, .operatorUpdate payload⟩ => some payload
  | _ => none

/-- The end of the cooldown the session writes to the account after a 429. -/
def rateLimit? (id : String) (s : Session) : Option DateTime :=
  match s.edit? id with
  | some ⟨_, .markRateLimited cooldownUntil⟩ => some cooldownUntil
  | _ => none

section Edit

variable {id : String} {s : Session} {e : AccountEdit}

theorem restores_of_edit {creditsUsed : ℤ} (he : s.edit? id = some e)
    (hw : e.write = .applySuccess creditsUsed)
    (hread : e.read.status = some FirecrawlAccountStatus.rateLimited.value) :
    restores id s = true := by
  obtain ⟨read, write⟩ := e
  obtain rfl : write = _ := hw
  simpa [restores, he] using hread

theorem operatorUpdate?_of_edit {payload : FirecrawlAccountUpdateRequest}
    (he : s.edit? id = some e) (hw : e.write = .operatorUpdate payload) :
    operatorUpdate? id s = some payload := by
  obtain ⟨read, write⟩ := e
  obtain rfl : write = _ := hw
  simp [operatorUpdate?, he]

theorem exists_edit_of_rateLimit? {u : DateTime} (h : rateLimit? id s = some u) :
    ∃ e, s.edit? id = some e ∧ e.write = .markRateLimited u := by
  unfold rateLimit? at h
  split at h
  · rename_i read cooldownUntil he
    exact ⟨_, he, by rw [Option.some.inj h]⟩
  · cases h

end Edit

/-- **What a method does to the status and the cooldown.** -/
theorem status_cooldown_cases (e : AccountEdit) :
    (e.object.value.status = e.read.status ∧ e.object.value.cooldownUntil = e.read.cooldownUntil) ∨
    (∃ creditsUsed, e.write = .applySuccess creditsUsed ∧
      e.read.status = some FirecrawlAccountStatus.rateLimited.value ∧
      e.object.value.status = some FirecrawlAccountStatus.active.value ∧
      e.object.value.cooldownUntil = none) ∨
    (e.write = .markCreditExhausted ∧
      e.object.value.status = some FirecrawlAccountStatus.creditExhausted.value ∧
      e.object.value.cooldownUntil = e.read.cooldownUntil) ∨
    (∃ cooldownUntil, e.write = .markRateLimited cooldownUntil ∧
      e.object.value.status = some FirecrawlAccountStatus.rateLimited.value ∧
      e.object.value.cooldownUntil = some cooldownUntil) ∨
    (∃ payload, e.write = .operatorUpdate payload ∧
      e.object.value.status = payload.status.getD e.read.status ∧
      e.object.value.cooldownUntil = payload.cooldownUntil.getD e.read.cooldownUntil) := by
  obtain ⟨read, write⟩ := e
  cases write with
  | applySuccess creditsUsed =>
    simp only [AccountEdit.object, AccountWrite.apply, applySuccess_status,
      applySuccess_cooldownUntil]
    by_cases h : read.status = some FirecrawlAccountStatus.rateLimited.value
    · exact Or.inr (Or.inl ⟨creditsUsed, rfl, h, by rw [if_pos h], by rw [if_pos h]⟩)
    · exact Or.inl ⟨by rw [if_neg h], by rw [if_neg h]⟩
  | markCreditExhausted => exact Or.inr (Or.inr (Or.inl ⟨rfl, rfl, rfl⟩))
  | markRateLimited cooldownUntil =>
    exact Or.inr (Or.inr (Or.inr (Or.inl ⟨cooldownUntil, rfl, rfl, rfl⟩)))
  | refreshSuccess r => exact Or.inl ⟨rfl, rfl⟩
  | refreshError message errorAt => exact Or.inl ⟨rfl, rfl⟩
  | operatorUpdate payload =>
    exact Or.inr (Or.inr (Or.inr (Or.inr ⟨payload, rfl, rfl, rfl⟩)))

section Flush

variable {s : Session} {row : FirecrawlAccountRecord}

theorem flush_status (e : AccountEdit) (row : FirecrawlAccountRecord) :
    (FirecrawlAccountRecord.flush e.object row).status =
      column asIs e.read.status e.object.value.status row.status := rfl

theorem flush_cooldownUntil (e : AccountEdit) (row : FirecrawlAccountRecord) :
    (FirecrawlAccountRecord.flush e.object row).cooldownUntil =
      column storeDateTime e.read.cooldownUntil e.object.value.cooldownUntil row.cooldownUntil :=
  rfl

/-- An account that is not active becomes active by a restoring success or by its operator. -/
theorem notActive_flush (hrestores : restores row.id s = false)
    (hoperator : ∀ payload ∈ operatorUpdate? row.id s, payload.status = none)
    (h : row.status ≠ some FirecrawlAccountStatus.active.value) :
    (s.flushAccount row).status ≠ some FirecrawlAccountStatus.active.value := by
  rcases flushAccount_cases s row with ⟨-, hf⟩ | ⟨e, -, he, -, hf⟩ <;> rw [hf]
  · exact h
  · rw [flush_status]
    have hwritten : e.object.value.status ≠ some FirecrawlAccountStatus.active.value →
        column asIs e.read.status e.object.value.status row.status ≠
          some FirecrawlAccountStatus.active.value := by
      intro hvalue
      rcases column_eq_or asIs e.read.status e.object.value.status row.status with
        hc | ⟨-, hc⟩ <;> rw [hc]
      exacts [h, hvalue]
    rcases status_cooldown_cases e with ⟨hst, -⟩ | ⟨c, hw, hread, -⟩ | ⟨-, hst, -⟩ |
      ⟨u, -, hst, -⟩ | ⟨payload, hw, hst, -⟩
    · rwa [hst, column_unchanged]
    · rw [restores_of_edit he hw hread] at hrestores
      cases hrestores
    · exact hwritten (by rw [hst]; decide)
    · exact hwritten (by rw [hst]; decide)
    · rw [hst, hoperator payload (operatorUpdate?_of_edit he hw), Option.getD_none,
        column_unchanged]
      exact h

/-- The account is not active, or its cooldown cannot be compared with an aware clock. -/
def Barred (row : FirecrawlAccountRecord) : Prop :=
  row.status = some FirecrawlAccountStatus.active.value → ∃ c ∈ row.cooldownUntil, c.isNaive = true

instance : DecidablePred Barred := fun row => by unfold Barred; infer_instance

/-- A barred account stays barred until a restoring success or its operator. -/
theorem barred_flush (hrestores : restores row.id s = false)
    (hoperator : ∀ payload ∈ operatorUpdate? row.id s,
      payload.status = none ∧ payload.cooldownUntil = none) (h : Barred row) :
    Barred (s.flushAccount row) := by
  intro hactive
  have hstatus : row.status = some FirecrawlAccountStatus.active.value := by
    by_contra hne
    exact notActive_flush hrestores (fun payload hp => (hoperator payload hp).1) hne hactive
  obtain ⟨c, hc, hnaive⟩ := h hstatus
  rcases flushAccount_cases s row with ⟨-, hf⟩ | ⟨e, -, he, -, hf⟩ <;> rw [hf]
  · exact ⟨c, hc, hnaive⟩
  · rw [flush_cooldownUntil]
    rcases status_cooldown_cases e with ⟨-, hcd⟩ | ⟨u, hw, hread, -⟩ | ⟨-, -, hcd⟩ |
      ⟨u, -, -, hcd⟩ | ⟨payload, hw, -, hcd⟩
    · exact ⟨c, by rwa [hcd, column_unchanged], hnaive⟩
    · rw [restores_of_edit he hw hread] at hrestores
      cases hrestores
    · exact ⟨c, by rwa [hcd, column_unchanged], hnaive⟩
    · rcases column_eq_or storeDateTime e.read.cooldownUntil e.object.value.cooldownUntil
        row.cooldownUntil with hcol | ⟨-, hcol⟩
      · exact ⟨c, by rwa [hcol], hnaive⟩
      · exact ⟨u.dropTzinfo, by rw [hcol, hcd]; rfl, u.isNaive_dropTzinfo⟩
    · have hnone := (hoperator payload (operatorUpdate?_of_edit he hw)).2
      exact ⟨c, by rwa [hcd, hnone, Option.getD_none, column_unchanged], hnaive⟩

end Flush

/-! ### The selections that follow -/

/-- The event is not a selection that returns the account. -/
def PassesOver (id : String) (p : State) (m : Event) : Prop :=
  ∀ selected ∈ sends p m, selected.account.id ≠ id

instance (id : String) (p : State) (m : Event) : Decidable (PassesOver id p m) := by
  unfold PassesOver; infer_instance

/-- An active account with a cooldown that cannot be compared, or one that is not active. -/
def Shut (a : FirecrawlAccount) : Prop :=
  a.status = .active → ∃ c ∈ a.cooldownUntil, c.isNaive = true

instance : DecidablePred Shut := fun a => by unfold Shut; infer_instance

/-- A task that lists the accounts has not read the account while it could be selected. -/
def SeenShut (id : String) : Task → Prop
  | .listing _ rows accounts =>
    (∀ row ∈ rows, row.id = id → Barred row) ∧ ∀ a ∈ accounts, a.id = id → Shut a
  | _ => True

instance (id : String) : DecidablePred (SeenShut id)
  | .listing _ _ _ => by unfold SeenShut; infer_instance
  | .forwarding _ _ | .polling _ _ | .refreshListing _ _ | .refreshing _ _ _ | .writing _ _
  | .committing _ | .committed _ | .failed => isTrue trivial

theorem shut_of_barred {env : Env} {row : FirecrawlAccountRecord}
    {records : List FirecrawlCredentialRecord} {a : FirecrawlAccount}
    (h : toDomainAccount env row records = .ok a) (hrow : Barred row) : Shut a := by
  obtain ⟨credentials, status, -, hst, rfl⟩ := toDomainAccount_eq_ok.1 h
  intro hactive
  obtain rfl : status = .active := hactive
  exact hrow hst

theorem not_shut_of_selectAccount {accounts : List FirecrawlAccount} {endpoint : String}
    {payload : JsonObject} {now : ℤ} {selected : FirecrawlSelectedAccount}
    (h : selectAccount accounts endpoint payload (.utc now) = .ok selected) :
    selected.account ∈ accounts ∧ ¬ Shut selected.account := by
  obtain ⟨estimate, -, hmem, hcmp, helig⟩ := selectAccount_eligible h
  refine ⟨hmem, fun hshut => ?_⟩
  obtain ⟨c, hc, hnaive⟩ := hshut helig.status
  have := hcmp helig.status c hc
  rw [DateTime.Comparable, hnaive, DateTime.isNaive_utc] at this
  cases this

theorem commits_commit {env : Env} {p : State} {tid : ℕ} {session : Session} {dbNow : ℤ}
    (ht : p.tasks[tid]? = some (.committing session))
    (hb : session.binds env.backend p.store = true) :
    commits env p (.act tid (.commit dbNow)) = some session := by
  simp [commits, ht, hb]

section Later

variable {env : Env} {id : String} {K : FirecrawlAccountRecord → Prop} {C : Session → Prop}

theorem seenShut_starts {db : Database} {r : Request} {t : Task}
    (hdb : ∀ row ∈ db.accounts, row.id = id → Barred row) (h : Starts env db r t) :
    SeenShut id t := by
  cases h with
  | post => exact ⟨fun row hrow => hdb row (mem_orderById.1 hrow), by simp⟩
  | _ => trivial

theorem seenShut_steps {db db' : Database} {t t' : Task} {a : Action} (ht : SeenShut id t)
    (h : Steps env db t a db' t') : SeenShut id t' := by
  cases h with
  | @refreshCredentials p row rows accounts account h =>
    refine ⟨fun r hr => ht.1 r (by simp [hr]), fun a ha hid => ?_⟩
    rcases List.mem_append.1 ha with ha | ha
    · exact ht.2 a ha hid
    · obtain rfl := List.mem_singleton.1 ha
      exact shut_of_barred h (ht.1 row (by simp) (by rw [← toDomainAccount_id h, hid]))
  | @answer p selected response now latencyMs session target h => cases target <;> trivial
  | @jobAnswer method job response now latencyMs =>
    cases (jobAnswered method response (.utc now) job).2 <;> trivial
  | selectCredentials | refreshAccount =>
    unfold nextRound
    split_ifs <;> trivial
  | select | get | commit | fail => trivial

/-- **No selection returns the account**, as long as commits keep its row in a state that bars it,
and the selections under way have not read it in another. -/
theorem meets_passesOver (hK : ∀ row, K row → Barred row)
    (hkeep : ∀ s row, C s → row.id = id → K row → K (s.flushAccount row)) {p : State}
    {ms : List Event} {row : FirecrawlAccountRecord}
    (hids : (p.store.accounts.map (·.id)).Nodup) (hrow : p.store.account? id = some row)
    (hKrow : K row) (hseen : ∀ t ∈ p.tasks, SeenShut id t)
    (hms : Meets (step env) (fun p m => ∀ s ∈ commits env p m, C s) p ms) :
    Meets (step env) (PassesOver id) p ms := by
  let I : Database → Prop := fun db =>
    (db.accounts.map (·.id)).Nodup ∧ ∃ row, db.account? id = some row ∧ K row
  have hstart : Asserts I (fun _ => SeenShut id) p := ⟨⟨hids, row, hrow, hKrow⟩, hseen⟩
  -- a new listing reads the row as it is stored
  have hspawn : ∀ (p : State) r, I p.store → SeenShut id (spawn env p.store r) := by
    rintro p r ⟨hnodup, row, hrow, hKrow⟩
    refine seenShut_starts (fun r hr hid => ?_) (starts_spawn env p.store r)
    have hr' := account?_of_mem hnodup hr
    rw [hid, hrow] at hr'
    exact hK r (Option.some.inj hr' ▸ hKrow)
  have hstep : ∀ p m p', Asserts I (fun _ => SeenShut id) p → (∀ s ∈ commits env p m, C s) →
      step env p m = some p' → Asserts I (fun _ => SeenShut id) p' := by
    intro p m p' hI hC hs
    refine Program.inv_step_local (C := fun p m => ∀ s ∈ commits env p m, C s)
      (fun p r hI _ => hspawn p r hI) (fun p tid a t db t' hI ht hC hget ha => ?_) hI hC hs
    have hsteps := steps_of_act ha
    refine ⟨?_, seenShut_steps ht hsteps⟩
    cases hsteps with
    | @commit s dbNow hb =>
      obtain ⟨hnodup, row, hrow, hKrow⟩ := hI
      have hkept := hkeep s row (hC s (commits_commit hget hb)) (id_of_account? hrow) hKrow
      exact ⟨nodup_flush hnodup hb, _, account?_flush hrow, hkept⟩
    | _ => exact hI
  refine (meets_of_meets hstep hstart hms).mono fun p m hI selected hsends hid => ?_
  obtain ⟨tid, post, accounts, now, -, hget, hsel⟩ := exists_select_of_sends hsends
  obtain ⟨hmem, hopen⟩ := not_shut_of_selectAccount hsel
  have hseen : SeenShut id (.listing post [] accounts) := hI.2 _ (List.mem_of_getElem? hget)
  exact hopen (hseen.2 _ hmem hid)

end Later

/-! ### A pause -/

section Pause

variable {env : Env} {id : String} {p : State} {ms : List Event} {row : FirecrawlAccountRecord}

/-- **A pause holds** until the operator changes the status again, as long as no selection under way
has read the account as active before, and no success that read it as rate limited is committed. -/
theorem pause_respected (hf : RoundTrips env) (hp : Reachable env p)
    (hrow : p.store.account? id = some row)
    (hpaused : row.status = some FirecrawlAccountStatus.paused.value)
    (hseen : ∀ t ∈ p.tasks, SeenShut id t)
    (hms : Meets (step env) (fun p m => ∀ s ∈ commits env p m, restores id s = false ∧
      ∀ payload ∈ operatorUpdate? id s, payload.status = none) p ms) :
    Meets (step env) (PassesOver id) p ms := by
  refine meets_passesOver
    (K := fun row => row.status ≠ some FirecrawlAccountStatus.active.value)
    (fun row h hactive => absurd hactive h) (fun s row hC hid h => ?_)
    (Reachable.sound hf hp).1.ids hrow (by rw [hpaused]; decide) hseen hms
  subst hid
  exact notActive_flush hC.1 hC.2 h

/-- Two requests of the sample account are with the upstream, and its operator pauses it. -/
def pauseSample : List Event :=
  sendPost 2 mapPost 0 ++ sendPost 3 mapPost 0 ++
    [.spawn (.updateAccount "account-1" { status := some (some "paused") })]

/-- The one request is answered 429, then the other one 200, and a new request finds the paused
account active. -/
theorem pause_undone : let env := sampleEnv .sqlite
    let p₀ := after env (sampleState .sqlite) pauseSample
    let p := after env p₀ [.act 4 (.commit 0)]
    let ms := settle 2 { status := 429 } 1 ++ settle 3 { status := 200 } 2 ++ sendPost 5 mapPost 3
    Reachable env p₀ ∧ step env p₀ (.act 4 (.commit 0)) = some p ∧
    ((commits env p₀ (.act 4 (.commit 0))).bind (operatorUpdate? "account-1")).map (·.status) =
      some (some (some "paused")) ∧
    (p.store.account? "account-1").map (·.status) = some (some "paused") ∧
    (∀ t ∈ p.tasks, SeenShut "account-1" t) ∧
    Meets (step env) (fun p m => ∀ s ∈ commits env p m, operatorUpdate? "account-1" s = none) p ms ∧
    Run.run (step env) p ms = some (after env p ms) ∧
    ¬ Meets (step env) (PassesOver "account-1") p ms :=
  ⟨reachable_after (reachable_sampleState _) _, rfl, by decide, by decide, by decide, by decide,
    run_after (by decide), by decide⟩

/-- The request in flight is answered 200, and a new one finds no account. -/
theorem pause_respected_sample : let env := sampleEnv .sqlite
    let p := after env (sampleState .sqlite) (pauseSample ++ [.act 4 (.commit 0)])
    Meets (step env) (PassesOver "account-1") p
      (settle 2 { status := 200 } 2 ++ sendPost 5 mapPost 3) :=
  pause_respected (roundTrips_sampleEnv _) (reachable_after (reachable_sampleState _) _)
    (by rfl) (by rfl) (by decide) (by decide)

end Pause

end FirecrawlLb.Firecrawl.Status
