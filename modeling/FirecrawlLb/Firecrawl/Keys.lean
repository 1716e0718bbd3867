import FirecrawlLb.Firecrawl.Ownership

/-!
# The keys that are sent

Three kinds of requests carry an API key: a POST, an operation on a job, and the requests of a
refresh pass.  Each carries a key that an operator has stored for the account that it is about.  A
credential that the upstream has refused is used by no POST and no pass that starts later, until an
operator turns it on again; operations on its jobs go on with it.
-/

namespace FirecrawlLb.Firecrawl.Keys

open FirecrawlLb.Lib FirecrawlLb.Lib.Tasks FirecrawlLb.Lib.Run FirecrawlLb.Python
open FirecrawlLb.Db.Models FirecrawlLb.Firecrawl.Models FirecrawlLb.Firecrawl.Routing
open FirecrawlLb.Firecrawl.Selection FirecrawlLb.Firecrawl.Repository FirecrawlLb.Firecrawl.Service
open FirecrawlLb.Firecrawl.System FirecrawlLb.Firecrawl.Stored FirecrawlLb.Firecrawl.Ownership

/-- A key, with the account and the credential it is used for. -/
structure KeyUse where
  accountId : Option String
  credentialId : String
  apiKey : String
  deriving DecidableEq

/-- The key that an operator hands in. -/
def createdBy : Event → Option KeyUse
  | .spawn (.createCredential accountId payload _) =>
    some ⟨some accountId, payload.id, payload.apiKey⟩
  | _ => none

/-- The key of an operation on a job, which is about the account of the job. -/
def jobKeyUse (env : Env) (db : Database) (job : FirecrawlJobRecord) : Option KeyUse :=
  (job.credentialId.bind db.credential?).bind fun credential =>
    (env.decrypt credential.apiKeyEncrypted).map (⟨job.accountId, credential.id, ·⟩)

/-- The key of the requests that an event sends. -/
def sentBy (env : Env) (p : State) : Event → Option KeyUse
  | .spawn (.jobOperation endpoint upstreamJobId _) =>
    match getJobRecord p.store endpoint upstreamJobId with
    | .ok (some job) => jobKeyUse env p.store job
    | _ => none
  | .act tid (.refreshAccount _ _) =>
    match p.tasks[tid]? with
    | some (.refreshing _ ((row, credential) :: _) _) =>
      (env.decrypt credential.apiKeyEncrypted).map (⟨some row.id, credential.id, ·⟩)
    | _ => none
  | m => (sends p m).map fun selected =>
    ⟨some selected.account.id, selected.credential.id, selected.credential.apiKey⟩

theorem spawn_jobOperation (env : Env) (p : State) (endpoint upstreamJobId : String)
    (method : JobMethod) :
    (∃ use job, sentBy env p (.spawn (.jobOperation endpoint upstreamJobId method)) = some use ∧
      spawn env p.store (.jobOperation endpoint upstreamJobId method) = .polling method job) ∨
    (sentBy env p (.spawn (.jobOperation endpoint upstreamJobId method)) = none ∧
      spawn env p.store (.jobOperation endpoint upstreamJobId method) = .failed) := by
  simp only [sentBy, spawn]
  cases hjob : getJobRecord p.store endpoint upstreamJobId with
  | error raised => exact .inr ⟨rfl, rfl⟩
  | ok job? =>
    cases job? with
    | none => exact .inr ⟨rfl, rfl⟩
    | some job =>
      simp only [jobKeyUse, jobKey]
      cases job.credentialId.bind p.store.credential? with
      | none => exact .inr ⟨rfl, rfl⟩
      | some credential =>
        cases hkey : env.decrypt credential.apiKeyEncrypted with
        | none => exact .inr ⟨by simp [hkey], by simp [hkey]⟩
        | some key => exact .inl ⟨_, job, by simp [hkey]; rfl, by simp [hkey]⟩

/-! ### Keys come from operators -/

/-- The row holds a key that was handed in for it, encrypted. -/
def Created (env : Env) (created : List KeyUse) (row : FirecrawlCredentialRecord) : Prop :=
  ∃ nonce key, row.apiKeyEncrypted = env.encrypt nonce key ∧
    ⟨some row.accountId, row.id, key⟩ ∈ created

/-- The credentials a task is about to store or to use in a pass. -/
def TaskCreated (env : Env) (created : List KeyUse) : Task → Prop
  | .refreshing _ todo session =>
    (∀ r ∈ todo, r.2.accountId = r.1.id ∧ Created env created r.2) ∧ session.newCredential = none
  | .writing session _ => session.newCredential = none
  | .committing session => ∀ row ∈ session.newCredential, Created env created row
  | _ => True

/-- Every credential was created by an operator. -/
def AllCreated (env : Env) (created : List KeyUse) : State → Prop :=
  Asserts (fun db => ∀ row ∈ db.credentials, Created env created row)
    (fun _ => TaskCreated env created)

section Created

variable {env : Env} {created : List KeyUse} {row : FirecrawlCredentialRecord} {s : Session}
  {db db' : Database} {t t' : Task} {a : Action} {p p' : State} {m : Event} {dbNow : ℤ}

theorem Created.flush (h : Created env created row) :
    Created env created (s.flushCredential row) := by
  obtain ⟨nonce, key, hkey, hmem⟩ := h
  obtain ⟨hid, haccount, hsame⟩ := flushCredential_key s row
  exact ⟨nonce, key, hsame.trans hkey, by rwa [hid, haccount]⟩

theorem taskCreated_awaitRow (hs : s.newCredential = none) (target : Option RowWrite) :
    TaskCreated env created (awaitRow s target) := by
  cases target with
  | some target => exact hs
  | none => exact fun row hrow => by simp [hs] at hrow

theorem taskCreated_nextRound {now : ℤ}
    {todo : List (FirecrawlAccountRecord × FirecrawlCredentialRecord)}
    (htodo : ∀ r ∈ todo, r.2.accountId = r.1.id ∧ Created env created r.2)
    (hs : s.newCredential = none) : TaskCreated env created (nextRound now todo s) := by
  unfold nextRound
  split_ifs
  · exact fun row hrow => by simp [hs] at hrow
  · exact ⟨htodo, hs⟩

theorem newCredential_perform (s : Session) (db : Database) (target : RowWrite) :
    (s.perform db target).newCredential = s.newCredential := by
  rcases perform_cases s db target with h | ⟨_, _, _, -, -, h⟩ | ⟨e, h⟩ <;> rw [h]

theorem mem_refreshTargets {rows : List FirecrawlAccountRecord}
    {r : FirecrawlAccountRecord × FirecrawlCredentialRecord} (h : r ∈ refreshTargets db rows) :
    r.2 ∈ db.credentials ∧ r.2.accountId = r.1.id ∧ r.2.status = "active" := by
  obtain ⟨row, -, hrow⟩ := List.mem_filterMap.1 h
  obtain ⟨credential, hfind, rfl⟩ := Option.map_eq_some_iff.1 hrow
  obtain ⟨hmem, haccount⟩ := List.mem_filter.1 (List.mem_of_find?_eq_some hfind)
  exact ⟨hmem, by simpa using haccount, by simpa using List.find?_some hfind⟩

theorem taskCreated_starts {r : Request} (hr : ∀ use ∈ createdBy (.spawn r), use ∈ created)
    (h : Starts env db r t) : TaskCreated env created t := by
  cases h with
  | post | jobOperation | refused | refreshOnce => trivial
  | createAccount | updateAccount | updateCredential =>
    exact fun row hrow => by simp at hrow
  | @createCredential accountId payload nonce =>
    intro row hrow
    obtain rfl := Option.some.inj hrow
    exact ⟨nonce, payload.apiKey, rfl, hr _ rfl⟩

theorem taskCreated_steps (hdb : ∀ row ∈ db.credentials, Created env created row)
    (ht : TaskCreated env created t) (h : Steps env db t a db' t') :
    (∀ row ∈ db'.credentials, Created env created row) ∧ TaskCreated env created t' := by
  cases h with
  | refreshCredentials | select | fail => exact ⟨hdb, trivial⟩
  | answer h =>
    obtain ⟨⟨log, rfl, -⟩, -⟩ := Post.answered_eq_ok h
    exact ⟨hdb, taskCreated_awaitRow rfl _⟩
  | jobAnswer => exact ⟨hdb, taskCreated_awaitRow rfl _⟩
  | selectCredentials =>
    refine ⟨hdb, taskCreated_nextRound (fun r hr => ?_) rfl⟩
    obtain ⟨hmem, haccount, -⟩ := mem_refreshTargets hr
    exact ⟨haccount, hdb _ hmem⟩
  | refreshAccount =>
    exact ⟨hdb, taskCreated_nextRound (fun r hr => ht.1 r (List.mem_cons_of_mem _ hr)) ht.2⟩
  | @get session target =>
    refine ⟨hdb, fun row hrow => ?_⟩
    rw [newCredential_perform, show session.newCredential = none from ht] at hrow
    cases hrow
  | commit hb =>
    refine ⟨fun row hrow => ?_, trivial⟩
    rcases mem_flush_credentials.1 hrow with ⟨r, hr, rfl⟩ | hnew
    · exact (hdb r hr).flush
    · exact ht row hnew

theorem AllCreated.step (h : AllCreated env created p) (hm : ∀ use ∈ createdBy m, use ∈ created)
    (hs : step env p m = some p') : AllCreated env created p' :=
  Program.inv_step_local (C := fun _ m => ∀ use ∈ createdBy m, use ∈ created)
    (fun p r _ hr => taskCreated_starts hr (starts_spawn env p.store r))
    (fun _ _ _ _ _ _ hdb ht _ _ ha => taskCreated_steps hdb ht (steps_of_act ha)) h hm hs

theorem allCreated_of_run {es : List Event}
    (hrun : run (step env) ⟨Database.empty, []⟩ es = some p) :
    AllCreated env (es.filterMap createdBy) p := by
  have hstart : AllCreated env (es.filterMap createdBy) ⟨Database.empty, []⟩ :=
    ⟨by simp [Database.empty], by simp⟩
  refine invariant_of_meets (C := fun _ m => ∀ use ∈ createdBy m, use ∈ es.filterMap createdBy)
    (fun p m p' hI hm hs => hI.step hm hs) hstart ?_ hrun
  exact meets_of_forall fun m hm use huse => List.mem_filterMap.2 ⟨m, hm, huse⟩

/-- A stored key that decrypts to `key` was handed in. -/
theorem Created.mem (hf : RoundTrips env) (h : Created env created row) {key : String}
    (hkey : env.decrypt row.apiKeyEncrypted = some key) :
    ⟨some row.accountId, row.id, key⟩ ∈ created := by
  obtain ⟨nonce, handed, hencrypted, hmem⟩ := h
  rw [hencrypted, hf nonce handed] at hkey
  rwa [← Option.some.inj hkey]

end Created

section Sent

variable {env : Env} {p : State} {es : List Event} {use : KeyUse}

/-- **Every key that is sent was handed in by an operator**, for the account that the request is
about and under the credential it is used as.  The table holds keys that were handed in, and holds
them encrypted. -/
theorem sent_key_created (hf : RoundTrips env)
    (hrun : run (step env) ⟨Database.empty, []⟩ es = some p) :
    (∀ m, ∀ use ∈ sentBy env p m, use ∈ es.filterMap createdBy) ∧
    ∀ row ∈ p.store.credentials, ∃ nonce key, row.apiKeyEncrypted = env.encrypt nonce key ∧
      ⟨some row.accountId, row.id, key⟩ ∈ es.filterMap createdBy := by
  have hcreated := allCreated_of_run hrun
  have howned := owned_of_run hrun
  refine ⟨fun m use huse => ?_, hcreated.1⟩
  have hstored : ∀ {accountId credential}, HasKey env accountId credential p.store →
      ⟨some accountId, credential.id, credential.apiKey⟩ ∈ es.filterMap createdBy := by
    rintro accountId credential ⟨row, hrow, rfl, hkey⟩
    have hid : row.id = credential.id := by simpa using List.find?_some hrow
    rw [← hid]
    exact (hcreated.1 row (List.mem_of_find?_eq_some hrow)).mem hf hkey
  unfold sentBy at huse
  split at huse
  · split at huse
    · rename_i job hjob
      -- a job operation takes the key that the submission of its job was sent with
      obtain ⟨sub, hsub, howner⟩ := howned.exists_submission (mem_of_getJobRecord hjob).1.1
      have haccount : some sub.selected.account.id = job.accountId :=
        congrArg Owner.accountId howner
      have hcredential : some sub.selected.credential.id = job.credentialId :=
        congrArg Owner.credentialId howner
      obtain ⟨row, hrow, hrowAccount, hrowKey⟩ := howned.keys sub hsub
      simp only [jobKeyUse, ← hcredential, ← haccount, Option.bind_some, hrow, Option.map_some,
        hrowKey, Option.mem_def, Option.some.injEq] at huse
      rw [← huse, show row.id = sub.selected.credential.id by simpa using List.find?_some hrow]
      exact hstored ⟨row, hrow, hrowAccount, hrowKey⟩
    · cases huse
  · split at huse
    · rename_i now row credential todo session ht
      obtain ⟨key, hkey, rfl⟩ := Option.map_eq_some_iff.1 huse
      obtain ⟨haccount, hrow⟩ := (hcreated.2 _ (List.mem_of_getElem? ht)).1 _ List.mem_cons_self
      rw [← show credential.accountId = row.id from haccount]
      exact hrow.mem hf hkey
    · cases huse
  · obtain ⟨selected, hselected, rfl⟩ := Option.map_eq_some_iff.1 huse
    obtain ⟨tid, post, accounts, now, -, ht, hselect⟩ := exists_select_of_sends hselected
    obtain ⟨-, -, haccount, -, hactive⟩ := selectAccount_candidate hselect
    have hkeys := howned.keysStored.2 _ (List.mem_of_getElem? ht)
    exact hstored (hkeys _ haccount _ (List.mem_of_find?_eq_some hactive))

/-- The key of a POST that is sent. -/
theorem sent_key_created_sample : let env := sampleEnv .sqlite
    let es := sampleSetup ++ [.spawn (.post mapPost), .act 2 .refreshCredentials]
    ⟨some "account-1", "credential-1", "fc-1"⟩ ∈ es.filterMap createdBy ∧
      sentBy env (after env ⟨Database.empty, []⟩ es) (.act 2 (.select 0)) =
        some ⟨some "account-1", "credential-1", "fc-1"⟩ := by
  intro env es
  have hrun : run (step env) ⟨Database.empty, []⟩ es = some (after env ⟨Database.empty, []⟩ es) :=
    run_after (by decide)
  have hsent : sentBy env (after env ⟨Database.empty, []⟩ es) (.act 2 (.select 0)) =
      some ⟨some "account-1", "credential-1", "fc-1"⟩ := by decide
  exact ⟨(sent_key_created (roundTrips_sampleEnv _) hrun).1 _ _ hsent, hsent⟩

end Sent

/-! ### A refused credential rests -/

/-- The session turns the credential on. -/
def reactivates (id : String) (s : Session) : Bool :=
  match s.credential with
  | some ⟨read, .operatorUpdate payload⟩ => read.id = id && payload.status = "active"
  | _ => false

/-- The credential is stored, and is not active. -/
def Resting (id : String) (db : Database) : Prop :=
  (db.credentials.map (·.id)).Nodup ∧
    ∃ row, db.credential? id = some row ∧ row.status ≠ FirecrawlCredentialStatus.active.value

/-- The task has not read the credential as active. -/
def SeenResting (id : String) : Task → Prop
  | .listing _ _ accounts =>
    ∀ a ∈ accounts, ∀ c ∈ a.credentials, c.id = id → c.status ≠ .active
  | .refreshing _ todo _ => ∀ r ∈ todo, r.2.id ≠ id
  | _ => True

/-- The event sends no request with the credential for a task from this place on. -/
def SparesFrom (env : Env) (n : ℕ) (id : String) (p : State) : Event → Prop
  | .act tid a => n ≤ tid → ∀ use ∈ sentBy env p (.act tid a), use.credentialId ≠ id
  | .spawn _ => True

section Resting

variable {env : Env} {id : String} {s : Session} {db db' : Database} {t t' : Task} {a : Action}
  {dbNow : ℤ}

/-- Only an operator turns a credential on. -/
theorem notActive_flushCredential {row : FirecrawlCredentialRecord}
    (hoperator : reactivates row.id s = false)
    (h : row.status ≠ FirecrawlCredentialStatus.active.value) :
    (s.flushCredential row).status ≠ FirecrawlCredentialStatus.active.value := by
  obtain hf | ⟨⟨read, write⟩, he, hid, hf⟩ := flushCredential_cases s row <;> rw [hf]
  · exact h
  · change column asIs read.status (write.apply read).status row.status ≠ _
    rcases column_eq_or asIs read.status (write.apply read).status row.status with
      hc | ⟨-, hc⟩ <;> rw [hc]
    · exact h
    · cases write with
      | markInvalid message errorAt => exact show "invalid" ≠ "active" by decide
      | operatorUpdate payload =>
        have hset : payload.status ≠ "active" := by
          simpa [reactivates, he, show read.id = row.id from hid] using hoperator
        exact hset

theorem Resting.flush (h : Resting id db) (hoperator : reactivates id s = false)
    (hb : s.binds env.backend db = true) : Resting id (s.flush dbNow db) := by
  obtain ⟨hids, row, hrow, hstatus⟩ := h
  obtain rfl : row.id = id := by simpa using List.find?_some hrow
  exact ⟨nodup_flush_credentials hids hb, _, credential?_flush hrow,
    notActive_flushCredential hoperator hstatus⟩

theorem Resting.status_ne (h : Resting id db) {row : FirecrawlCredentialRecord}
    (hrow : row ∈ db.credentials) (hid : row.id = id) :
    row.status ≠ FirecrawlCredentialStatus.active.value := by
  obtain ⟨hids, resting, hresting, hstatus⟩ := h
  have hfind := credential?_of_mem hids hrow
  rw [hid, hresting] at hfind
  rwa [← Option.some.inj hfind]

theorem seenResting_starts {r : Request} (h : Starts env db r t) : SeenResting id t := by
  cases h with
  | post => exact fun a ha => by cases ha
  | _ => trivial

theorem seenResting_steps (hdb : Resting id db) (ht : SeenResting id t)
    (h : Steps env db t a db' t') : SeenResting id t' := by
  have hnext : ∀ {now todo session}, (∀ r ∈ todo, r.2.id ≠ id) →
      SeenResting id (nextRound now todo session) := by
    intro now todo session htodo
    unfold nextRound
    split_ifs
    · trivial
    · exact htodo
  cases h with
  | @refreshCredentials p row rows accounts account h =>
    intro a ha c hc hid hactive
    rcases List.mem_append.1 ha with ha | ha
    · exact ht a ha c hc hid hactive
    · obtain rfl := List.mem_singleton.1 ha
      obtain ⟨credentials, status, hcredentials, -, rfl⟩ := toDomainAccount_eq_ok.1 h
      obtain ⟨record, hrecord, hc⟩ := exists_of_mem_mapM hcredentials hc
      obtain ⟨key, -, hc⟩ := bind_eq_ok.1 hc
      obtain ⟨status', hstatus, hc⟩ := bind_eq_ok.1 hc
      obtain rfl := pure_eq_ok.1 hc
      refine hdb.status_ne (List.mem_of_mem_filter hrecord) hid ?_
      rw [FirecrawlCredentialStatus.ofValue_eq_ok.1 hstatus, show status' = .active from hactive]
  | @answer _ _ _ _ _ session target => cases target <;> trivial
  | @jobAnswer method job response now latencyMs =>
    cases (jobAnswered method response (.utc now) job).2 <;> trivial
  | selectCredentials =>
    refine hnext fun r hr hid => ?_
    obtain ⟨hmem, -, hactive⟩ := mem_refreshTargets hr
    exact hdb.status_ne hmem hid hactive
  | refreshAccount => exact hnext fun r hr => ht r (List.mem_cons_of_mem _ hr)
  | select | get | commit | fail => trivial

/-- **A credential that is not active rests** until its operator turns it on. -/
theorem meets_sparesFrom {p : State} {es : List Event} (hp : Resting id p.store)
    (hms : Meets (step env) (fun p m => ∀ s ∈ commits env p m, reactivates id s = false) p es) :
    Meets (step env) (SparesFrom env p.tasks.length id) p es := by
  -- no task from this place on has started
  have hstart : AssertsFrom p.tasks.length (Resting id) (SeenResting id) p := by
    refine ⟨hp, fun tid t hle ht => ?_⟩
    rw [List.getElem?_eq_none hle] at ht
    cases ht
  have hstep : ∀ q m q', AssertsFrom p.tasks.length (Resting id) (SeenResting id) q →
      (∀ s ∈ commits env q m, reactivates id s = false) → step env q m = some q' →
      AssertsFrom p.tasks.length (Resting id) (SeenResting id) q' := by
    intro q m q' hI hC hs
    refine Program.inv_step_from (C := fun p m => ∀ s ∈ commits env p m, reactivates id s = false)
      (fun db r _ => seenResting_starts (starts_spawn env db r))
      (fun q tid a t db' t' hI hC hget ha => ?_)
      (fun db t a db' t' hI ht ha => seenResting_steps hI ht (steps_of_act ha)) hI hC hs
    have hsteps := steps_of_act ha
    cases hsteps with
    | @commit s dbNow hb => exact hI.flush (hC s (by simp [commits, hget, hb])) hb
    | _ => exact hI
  refine (meets_of_meets hstep hstart hms).mono fun q m hI => ?_
  cases m with
  | spawn r => trivial
  | act tid a =>
    intro hle use huse hid
    unfold sentBy at huse
    split at huse
    · rename_i heq
      cases heq
    · rename_i heq
      cases heq
      split at huse
      · rename_i ht
        obtain ⟨key, -, rfl⟩ := Option.map_eq_some_iff.1 huse
        exact hI.2 tid _ hle ht _ List.mem_cons_self hid
      · cases huse
    · obtain ⟨selected, hselected, rfl⟩ := Option.map_eq_some_iff.1 huse
      obtain ⟨tid', post, accounts, now, hm, ht, hselect⟩ := exists_select_of_sends hselected
      cases hm
      obtain ⟨-, -, haccount, -, hactive⟩ := selectAccount_candidate hselect
      refine hI.2 tid _ hle ht _ haccount _ (List.mem_of_find?_eq_some hactive) hid ?_
      simpa using List.find?_some hactive

end Resting

/-! ### A refusal is stored -/

/-- The credential that a session writes to is stored. -/
def EditStored (db : Database) : Task → Prop
  | .refreshing _ _ session => session.credential = none
  | .writing session _ | .committing session =>
    ∀ e ∈ session.credential, (db.credential? e.read.id).isSome = true
  | _ => True

section Refusal

variable {env : Env} {db db' : Database} {t t' : Task} {a : Action} {p p' : State} {m : Event}

theorem EditStored.mono (h : EditStored db t)
    (hle : ∀ id, (db.credential? id).isSome = true → (db'.credential? id).isSome = true) :
    EditStored db' t := by
  cases t with
  | writing session target | committing session => exact fun e he => hle _ (h e he)
  | _ => exact h

theorem editStored_awaitRow {s : Session} (hs : s.credential = none) (target : Option RowWrite) :
    EditStored db (awaitRow s target) := by
  cases target <;> exact fun e he => by simp [hs] at he

theorem editStored_nextRound {now : ℤ}
    {todo : List (FirecrawlAccountRecord × FirecrawlCredentialRecord)} {s : Session}
    (hs : s.credential = none) : EditStored db (nextRound now todo s) := by
  unfold nextRound
  split_ifs
  · exact fun e he => by simp [hs] at he
  · exact hs

theorem credential?_isSome {id : String} {row : FirecrawlCredentialRecord}
    (h : db.credential? id = some row) : (db.credential? row.id).isSome = true := by
  rw [show row.id = id by simpa using List.find?_some h, h]
  rfl

theorem editStored_spawn (env : Env) (db : Database) (r : Request) :
    EditStored db (spawn env db r) := by
  cases r with
  | updateCredential accountId credentialId payload =>
    simp only [spawn]
    split
    · rename_i row hrow
      intro e he
      obtain rfl := Option.some.inj he
      obtain ⟨-, -, hrow⟩ := Option.bind_eq_some_iff.1 hrow
      exact credential?_isSome (Option.filter_eq_some_iff.1 hrow).1
    · trivial
  | jobOperation endpoint upstreamJobId method =>
    rcases spawn_jobOperation env ⟨db, []⟩ endpoint upstreamJobId method with
      ⟨use, job, -, h⟩ | ⟨-, h⟩ <;> exact h ▸ trivial
  | _ =>
    simp only [spawn]
    repeat' split
    all_goals first | trivial | exact fun e he => by simp at he

theorem editStored_steps (ht : EditStored db t) (h : Steps env db t a db' t') :
    EditStored db' t' := by
  cases h with
  | refreshCredentials | select | commit | fail => trivial
  | answer h =>
    obtain ⟨⟨log, rfl, -⟩, -⟩ := Post.answered_eq_ok h
    exact editStored_awaitRow rfl _
  | jobAnswer => exact editStored_awaitRow rfl _
  | selectCredentials => exact editStored_nextRound rfl
  | refreshAccount => exact editStored_nextRound ht
  | @get session target =>
    cases target with
    | account id write =>
      intro e he
      simp only [Session.perform] at he
      split at he <;> exact ht e he
    | credential id write =>
      intro e he
      simp only [Session.perform] at he
      split at he
      · rename_i row hrow
        obtain rfl := Option.some.inj he
        exact credential?_isSome hrow
      · exact ht e he

theorem credential?_isSome_step (h : step env p m = some p') (id : String)
    (hid : (p.store.credential? id).isSome = true) : (p'.store.credential? id).isSome = true := by
  obtain ⟨row, hrow⟩ := Option.isSome_iff_exists.1 hid
  rcases step_store h with ⟨-, hstore, -⟩ | ⟨s, dbNow, -, -, -, hstore, -⟩ <;> rw [hstore]
  · exact hid
  · rw [credential?_flush hrow]
    rfl

theorem editsStored_step (h : ∀ t ∈ p.tasks, EditStored p.store t) (hs : step env p m = some p') :
    ∀ t ∈ p'.tasks, EditStored p'.store t := by
  have hle := credential?_isSome_step hs
  obtain ⟨r, rfl, rfl⟩ | ⟨tid, a, t, db', t', rfl, ht, ha, rfl⟩ := Program.step_cases hs
  · intro u hu
    rcases List.mem_append.1 hu with hu | hu
    · exact h u hu
    · obtain rfl := List.mem_singleton.1 hu
      exact editStored_spawn env p.store r
  · intro u hu
    rcases List.mem_or_eq_of_mem_set hu with hu | rfl
    · exact (h u hu).mono hle
    · exact editStored_steps (h t (List.mem_of_getElem? ht)) (steps_of_act ha)

/-- **A credential that the upstream refuses rests.**  A commit that marks a credential invalid
leaves it so, unless its session has read it invalid and it has been turned on since; and no POST
and no refresh pass that starts later is sent with it, in any run in which no commit of an operator
turns it on again. -/
theorem refused_credential_rests (hp : Reachable env p) {s : Session}
    (hcommit : commits env p m = some s) {read : FirecrawlCredentialRecord}
    {message : Option String} {errorAt : DateTime}
    (hrefused : s.credential = some ⟨read, .markInvalid message errorAt⟩)
    (hstep : step env p m = some p') :
    ((p'.store.credential? read.id).map (·.status) = some FirecrawlCredentialStatus.invalid.value ↔
      (read.status ≠ FirecrawlCredentialStatus.invalid.value ∨
        (p.store.credential? read.id).map (·.status) =
          some FirecrawlCredentialStatus.invalid.value)) ∧
    ∀ es, (p'.store.credential? read.id).map (·.status) =
        some FirecrawlCredentialStatus.invalid.value →
      Meets (step env) (fun p m => ∀ s ∈ commits env p m, reactivates read.id s = false) p' es →
      Meets (step env) (SparesFrom env p'.tasks.length read.id) p' es := by
  obtain ⟨p₀, es₀, rfl, hrun⟩ := hp
  have hedits : ∀ t ∈ p.tasks, EditStored p.store t :=
    invariant (I := fun p => ∀ t ∈ p.tasks, EditStored p.store t)
      (fun _ _ _ hI hs => editsStored_step hI hs) (fun t ht => by cases ht) hrun
  have hids := (owned_of_run hrun).keysStored.1
  obtain ⟨hmem, dbNow, hstore, -⟩ := store_of_commits hcommit hstep
  have hrun' := run_append.2 ⟨p, hrun, run_cons.2 ⟨p', hstep, run_nil⟩⟩
  have hids' := (owned_of_run hrun').keysStored.1
  obtain ⟨row, hrow⟩ := Option.isSome_iff_exists.1 (hedits _ hmem _ hrefused)
  have hrowId : row.id = read.id := by simpa using List.find?_some hrow
  have hrow' : p'.store.credential? read.id = some (s.flushCredential row) := by
    rw [hstore, credential?_flush hrow]
  have hstatus : (s.flushCredential row).status =
      column id read.status FirecrawlCredentialStatus.invalid.value row.status := by
    simp only [Session.flushCredential, hrefused, hrowId, if_true]
    rfl
  rw [hrow', hrow, Option.map_some, Option.map_some, Option.some_inj, Option.some_inj, hstatus]
  constructor
  · -- The column is written when the session has read another status, and else stays as it is.
    by_cases hread : FirecrawlCredentialStatus.invalid.value = read.status
    · rw [← hread, column_unchanged, or_iff_right (not_not_intro rfl)]
    · rw [column_changed hread]
      exact iff_of_true rfl (Or.inl (Ne.symm hread))
  · intro es hinvalid hms
    rw [← hstatus] at hinvalid
    exact meets_sparesFrom ⟨hids', _, hrow', by rw [hinvalid]; decide⟩ hms

/-- A request that is answered 401. -/
def refusalSample : List Event :=
  sendPost 2 mapPost 0 ++ [.act 2 (.answer { status := 401 } 1 0), .act 2 .get]

/-- The sample credential is marked invalid, and the next request is not sent with it. -/
theorem refused_credential_rests_sample : let env := sampleEnv .sqlite
    let p := after env (sampleState .sqlite) (refusalSample ++ [.act 2 (.commit 1)])
    (p.store.credential? "credential-1").map (·.status) = some "invalid" ∧
    Meets (step env) (SparesFrom env 3 "credential-1") p (sendPost 3 mapPost 2) := by
  intro env p
  have hstep : step env (after env (sampleState .sqlite) refusalSample) (.act 2 (.commit 1)) =
      some p := by rfl
  have hp : Reachable env (after env (sampleState .sqlite) refusalSample) :=
    reachable_after (reachable_sampleState _) _
  have hms : Meets (step env) (fun p m => ∀ s ∈ commits env p m,
      reactivates "credential-1" s = false) p (sendPost 3 mapPost 2) := by decide
  obtain ⟨hinvalid, hrests⟩ :=
    refused_credential_rests hp (m := .act 2 (.commit 1)) (by rfl) (by rfl) hstep
  have hleft := hinvalid.2 (Or.inl (by decide))
  exact ⟨hleft, hrests _ hleft hms⟩

end Refusal

end FirecrawlLb.Firecrawl.Keys
