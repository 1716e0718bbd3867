import FirecrawlLb.Firecrawl.System

/-!
# The well-formedness of the stored rows

Whatever runs, ids stay distinct, every stored status is one the router knows, every stored cooldown
is naive, and every stored key can be decrypted (`Reachable.wellFormed`).  So the listing of the
accounts never fails (`WellFormed.listAccounts_isOk`).
-/

namespace FirecrawlLb.Firecrawl.Stored

open FirecrawlLb.Lib FirecrawlLb.Lib.Tasks FirecrawlLb.Python FirecrawlLb.Db.Models
open FirecrawlLb.Firecrawl.Models FirecrawlLb.Firecrawl.Schemas FirecrawlLb.Firecrawl.Routing
open FirecrawlLb.Firecrawl.Repository FirecrawlLb.Firecrawl.Service FirecrawlLb.Firecrawl.Refresh
open FirecrawlLb.Firecrawl.System

/-- What the Fernet key promises: what it encrypted it decrypts. -/
def RoundTrips (env : Env) : Prop :=
  ∀ nonce key, env.decrypt (env.encrypt nonce key) = some key

/-! ### Rows -/

structure AccountOk (row : FirecrawlAccountRecord) : Prop where
  status : ∃ st : FirecrawlAccountStatus, row.status = some st.value
  cooldown : ∀ c, row.cooldownUntil = some c → c.isNaive = true

structure CredentialOk (env : Env) (row : FirecrawlCredentialRecord) : Prop where
  status : ∃ st : FirecrawlCredentialStatus, row.status = st.value
  key : ∃ key, env.decrypt row.apiKeyEncrypted = some key

theorem mem_accountStatusPattern {s : String} :
    s ∈ accountStatusPattern ↔ ∃ st : FirecrawlAccountStatus, s = st.value := by
  constructor
  · intro h
    simp only [accountStatusPattern, List.mem_cons, List.not_mem_nil, or_false] at h
    rcases h with rfl | rfl | rfl | rfl | rfl
    exacts [⟨.active, rfl⟩, ⟨.rateLimited, rfl⟩, ⟨.creditExhausted, rfl⟩, ⟨.paused, rfl⟩,
      ⟨.invalid, rfl⟩]
  · rintro ⟨st, rfl⟩
    cases st <;> decide

theorem mem_credentialStatusPattern {s : String} :
    s ∈ credentialStatusPattern ↔ ∃ st : FirecrawlCredentialStatus, s = st.value := by
  constructor
  · intro h
    simp only [credentialStatusPattern, List.mem_cons, List.not_mem_nil, or_false] at h
    rcases h with rfl | rfl | rfl
    exacts [⟨.active, rfl⟩, ⟨.paused, rfl⟩, ⟨.invalid, rfl⟩]
  · rintro ⟨st, rfl⟩
    cases st <;> decide

theorem status_written {e : AccountEdit} (hne : e.object.value.status ≠ e.read.status)
    (hb : e.object.value.status.isSome = true) :
    ∃ st : FirecrawlAccountStatus, e.object.value.status = some st.value := by
  obtain ⟨read, write⟩ := e
  cases write with
  | applySuccess creditsUsed =>
    simp only [AccountEdit.object, AccountWrite.apply, applySuccess] at hne ⊢
    split at hne <;> split_ifs at hne ⊢ with h <;> first
      | exact ⟨.active, rfl⟩
      | exact absurd rfl hne
  | markCreditExhausted => exact ⟨.creditExhausted, rfl⟩
  | markRateLimited cooldownUntil => exact ⟨.rateLimited, rfl⟩
  | refreshSuccess r => exact absurd rfl hne
  | refreshError message errorAt => exact absurd rfl hne
  | operatorUpdate payload =>
    simp only [AccountEdit.object, AccountWrite.apply, setFields] at hne hb ⊢
    rcases hst : payload.status with _ | _ | s
    · rw [hst] at hne
      exact absurd rfl hne
    · rw [hst] at hb
      cases hb
    · obtain ⟨st, rfl⟩ := mem_accountStatusPattern.1 (payload.status_pattern s hst)
      exact ⟨st, rfl⟩

/-- **A flush keeps an account row well-formed.** -/
theorem AccountOk.flush {b : Backend} {e : AccountEdit} {row : FirecrawlAccountRecord}
    (h : AccountOk row) (hb : FirecrawlAccountRecord.binds b e.object = true) :
    AccountOk (FirecrawlAccountRecord.flush e.object row) where
  status := by
    simp only [FirecrawlAccountRecord.binds, Bool.and_eq_true] at hb
    have hstatus : columnBinds Option.isSome e.object.read.status e.object.value.status = true := by
      tauto
    exact column_ind (p := fun s => ∃ st : FirecrawlAccountStatus, s = some st.value) h.status
      (fun hne hsome => status_written hne hsome) hstatus
  cooldown := by
    rcases column_eq_or storeDateTime e.object.read.cooldownUntil
      e.object.value.cooldownUntil row.cooldownUntil with hc | ⟨-, hc⟩
    · intro c hrow
      exact h.cooldown c (hc ▸ hrow)
    · intro c hrow
      have hst : storeDateTime e.object.value.cooldownUntil = some c := hc ▸ hrow
      obtain ⟨d, -, rfl⟩ := Option.map_eq_some_iff.1 hst
      exact d.isNaive_dropTzinfo

theorem credential_status_written {e : CredentialEdit}
    (hne : e.object.value.status ≠ e.read.status) :
    ∃ st : FirecrawlCredentialStatus, e.object.value.status = st.value := by
  obtain ⟨read, write⟩ := e
  cases write with
  | markInvalid message errorAt => exact ⟨.invalid, rfl⟩
  | operatorUpdate payload => exact mem_credentialStatusPattern.1 payload.status_pattern

theorem CredentialOk.flush {env : Env} {e : CredentialEdit} {row : FirecrawlCredentialRecord}
    (h : CredentialOk env row) :
    CredentialOk env (FirecrawlCredentialRecord.flush e.object row) where
  status := by
    rcases column_eq_or asIs e.object.read.status e.object.value.status row.status with
      hc | ⟨hne, hc⟩
    · exact (show (FirecrawlCredentialRecord.flush e.object row).status = _ from hc) ▸ h.status
    · exact (show (FirecrawlCredentialRecord.flush e.object row).status = _ from hc) ▸
        credential_status_written hne
  key := h.key

/-! ### The database -/

structure WellFormed (env : Env) (db : Database) : Prop where
  ids : (db.accounts.map (·.id)).Nodup
  accounts : ∀ row ∈ db.accounts, AccountOk row
  credentials : ∀ row ∈ db.credentials, CredentialOk env row

/-- What a session reads and adds is well-formed. -/
structure SessionOk (env : Env) (s : Session) : Prop where
  reads : ∀ e ∈ s.accounts, AccountOk e.read
  newAccount : ∀ row, s.newAccount = some row → AccountOk row ∧ row.cooldownUntil = none
  newCredential : ∀ row, s.newCredential = some row → CredentialOk env row

section Sessions

variable {env : Env} {s : Session} {db : Database} {dbNow : ℤ}

/-- **A commit keeps the database well-formed.** -/
theorem WellFormed.flush (h : WellFormed env db) (hs : SessionOk env s)
    (hb : s.binds env.backend db = true) : WellFormed env (s.flush dbNow db) where
  ids := nodup_flush h.ids hb
  accounts := by
    intro row hrow
    rcases mem_flush_accounts.1 hrow with ⟨r, hr, rfl⟩ | hnew
    · rcases flushAccount_cases s r with ⟨-, hf⟩ | ⟨e, he, -, -, hf⟩
      · rw [hf]
        exact h.accounts r hr
      · rw [hf]
        exact (h.accounts r hr).flush (binds_accounts hb he)
    · exact (hs.newAccount row hnew).1
  credentials := by
    intro row hrow
    rcases mem_flush_credentials.1 hrow with ⟨r, hr, rfl⟩ | hnew
    · rcases flushCredential_cases s r with hf | ⟨e, -, -, hf⟩
      · rw [hf]
        exact h.credentials r hr
      · rw [hf]
        exact (h.credentials r hr).flush
    · exact hs.newCredential row hnew

theorem SessionOk.perform (h : SessionOk env s) (hdb : WellFormed env db) (target : RowWrite) :
    SessionOk env (s.perform db target) := by
  rcases perform_cases s db target with hp | ⟨id, write, row, -, hrow, hp⟩ | ⟨e, hp⟩ <;> rw [hp]
  · exact h
  · refine ⟨fun e he => ?_, h.newAccount, h.newCredential⟩
    rcases List.mem_append.1 he with he | he
    · exact h.reads e he
    · obtain rfl := List.mem_singleton.1 he
      exact hdb.accounts row (List.mem_of_find?_eq_some hrow)
  · exact ⟨h.reads, h.newAccount, h.newCredential⟩

end Sessions

/-! ### Tasks -/

/-- What a task holds is well-formed. -/
def TaskOk (env : Env) : Task → Prop
  | .refreshListing _ rows => ∀ row ∈ rows, AccountOk row
  | .refreshing _ todo session => (∀ r ∈ todo, AccountOk r.1) ∧ SessionOk env session
  | .writing session _ => SessionOk env session
  | .committing session => SessionOk env session
  | .committed session => SessionOk env session
  | _ => True

variable {env : Env} {db db' : Database}

theorem taskOk_awaitRow {session : Session} {target : Option RowWrite}
    (h : SessionOk env session) : TaskOk env (awaitRow session target) := by
  cases target <;> exact h

theorem taskOk_nextRound {now : ℤ} {session : Session}
    {todo : List (FirecrawlAccountRecord × FirecrawlCredentialRecord)}
    (htodo : ∀ r ∈ todo, AccountOk r.1) (h : SessionOk env session) :
    TaskOk env (nextRound now todo session) := by
  unfold nextRound
  split_ifs
  · exact h
  · exact ⟨htodo, h⟩

theorem accountOk_of_mem_refreshTargets {rows : List FirecrawlAccountRecord}
    (h : ∀ row ∈ rows, AccountOk row) : ∀ r ∈ refreshTargets db rows, AccountOk r.1 := by
  intro r hr
  obtain ⟨row, hrow, hc⟩ := List.mem_filterMap.1 hr
  obtain ⟨credential, -, rfl⟩ := Option.map_eq_some_iff.1 hc
  exact h row hrow

theorem taskOk_starts {r : Request} {t : Task} (hf : RoundTrips env) (hdb : WellFormed env db)
    (h : Starts env db r t) : TaskOk env t := by
  cases h with
  | post | jobOperation | refused => trivial
  | @createAccount payload h =>
    refine ⟨by simp, fun row hrow => ?_, by simp⟩
    obtain rfl : accountRecordOf payload = row := by simpa using hrow
    exact ⟨⟨⟨.active, rfl⟩, by simp [accountRecordOf]⟩, rfl⟩
  | updateAccount h =>
    refine ⟨fun e he => ?_, by simp, by simp⟩
    obtain rfl := List.mem_singleton.1 he
    exact hdb.accounts _ (List.mem_of_find?_eq_some h)
  | @createCredential accountId payload nonce =>
    refine ⟨by simp, by simp, fun row hrow => ?_⟩
    obtain rfl : credentialRecordOf env accountId payload nonce = row := by simpa using hrow
    exact ⟨mem_credentialStatusPattern.1 payload.status_pattern, payload.apiKey,
      hf nonce payload.apiKey⟩
  | updateCredential => exact ⟨by simp, by simp, by simp⟩
  | refreshOnce => exact fun row hrow => hdb.accounts row (mem_orderById.1 hrow)

theorem wellFormed_steps {t t' : Task} {a : Action} (hdb : WellFormed env db) (ht : TaskOk env t)
    (h : Steps env db t a db' t') : WellFormed env db' ∧ TaskOk env t' := by
  cases h with
  | refreshCredentials h => exact ⟨hdb, trivial⟩
  | select h => exact ⟨hdb, trivial⟩
  | answer h =>
    obtain ⟨⟨log, rfl, -⟩, -⟩ := Post.answered_eq_ok h
    exact ⟨hdb, taskOk_awaitRow ⟨by simp, by simp, by simp⟩⟩
  | jobAnswer => exact ⟨hdb, taskOk_awaitRow ⟨by simp, by simp, by simp⟩⟩
  | selectCredentials =>
    exact ⟨hdb, taskOk_nextRound (accountOk_of_mem_refreshTargets ht) ⟨by simp, by simp, by simp⟩⟩
  | @refreshAccount now row credential todo session usage queue =>
    obtain ⟨htodo, hs⟩ := ht
    refine ⟨hdb, taskOk_nextRound (fun r hr => htodo r (by simp [hr]))
      ⟨fun e he => ?_, hs.newAccount, hs.newCredential⟩⟩
    rcases List.mem_append.1 he with he | he
    · exact hs.reads e he
    · obtain rfl := List.mem_singleton.1 he
      exact htodo (row, credential) (by simp)
  | @get session target =>
    exact ⟨hdb, SessionOk.perform ht hdb target⟩
  | commit h => exact ⟨hdb.flush ht h, ht⟩
  | fail => exact ⟨hdb, trivial⟩

/-- The invariant of the system. -/
def Sound (env : Env) : State → Prop := Asserts (WellFormed env) fun _ => TaskOk env

theorem Sound.step (hf : RoundTrips env) {p p' : State} {m : Event} (h : Sound env p)
    (hs : step env p m = some p') : Sound env p' :=
  Program.inv_step_local (C := fun _ _ => True)
    (fun p r hdb _ => taskOk_starts hf hdb (starts_spawn env p.store r))
    (fun _ _ _ _ _ _ hdb ht _ _ ha => wellFormed_steps hdb ht (steps_of_act ha)) h trivial hs

/-- **Every reachable database is well-formed.** -/
theorem Reachable.sound (hf : RoundTrips env) {p : State} (h : Reachable env p) :
    Sound env p := by
  have hempty : WellFormed env Database.empty :=
    ⟨by simp [Database.empty], by simp [Database.empty], by simp [Database.empty]⟩
  refine Run.Reachable.invariant (I := Sound env) ?_ (fun _ _ _ hI hs => hI.step hf hs) h
  rintro _ rfl
  exact ⟨hempty, by simp⟩

/-- **The listing of the accounts never fails.** -/
theorem WellFormed.listAccounts_isOk (h : WellFormed env db) :
    ∃ accounts, listAccounts env db = .ok accounts := by
  refine mapM_isOk fun row hrow => ?_
  obtain ⟨status, hstatus⟩ := (h.accounts row (mem_orderById.1 hrow)).status
  obtain ⟨credentials, hc⟩ := mapM_isOk (f := toDomainCredential env)
    (l := db.credentialsOf row.id) fun r hr =>
      toDomainCredential_isOk (h.credentials r (List.mem_of_mem_filter hr)).key
        (h.credentials r (List.mem_of_mem_filter hr)).status
  exact ⟨_, toDomainAccount_eq_ok.2 ⟨credentials, status, hc, hstatus, rfl⟩⟩

/-! ### A small deployment -/

/-- Three bytes for every character. -/
def encodeKey (cs : List Char) : List UInt8 :=
  cs.flatMap fun c => [.ofNat (c.toNat / 65536), .ofNat (c.toNat / 256), .ofNat c.toNat]

def decodeKey : List UInt8 → Option (List Char)
  | [] => some []
  | a :: b :: c :: bytes =>
    (decodeKey bytes).map (Char.ofNat (a.toNat * 65536 + b.toNat * 256 + c.toNat) :: ·)
  | _ => none

theorem decodeKey_encodeKey (cs : List Char) : decodeKey (encodeKey cs) = some cs := by
  induction cs with
  | nil => rfl
  | cons c cs ih =>
    have hlt : c.toNat < 1114112 := by
      rcases c.valid with h | ⟨-, h⟩
      · exact lt_trans h (by decide)
      · exact h
    have hsum : c.toNat / 65536 % 256 * 65536 + c.toNat / 256 % 256 * 256 + c.toNat % 256 =
        c.toNat := by omega
    have hcons : encodeKey (c :: cs) = .ofNat (c.toNat / 65536) :: .ofNat (c.toNat / 256) ::
        .ofNat c.toNat :: encodeKey cs := rfl
    rw [hcons, decodeKey, ih]
    simp only [UInt8.toNat_ofNat', Option.map_some, Nat.reducePow, hsum, Char.ofNat_toNat]

/-- A deployment whose keys are stored in a plain encoding. -/
def sampleEnv (backend : Backend) : Env where
  backend := backend
  encrypt := fun _ key => encodeKey key.toList
  decrypt := fun bytes => (decodeKey bytes).map String.ofList
  fromisoformat := fun _ => none

theorem roundTrips_sampleEnv (backend : Backend) : RoundTrips (sampleEnv backend) := by
  intro nonce key
  simp [sampleEnv, decodeKey_encodeKey]

/-- The state after the events, or the state before them when they cannot all be taken. -/
def after (env : Env) (p : State) (ms : List Event) : State := (Run.run (step env) p ms).getD p

theorem run_after {env : Env} {p : State} {ms : List Event}
    (h : (Run.run (step env) p ms).isSome = true) :
    Run.run (step env) p ms = some (after env p ms) :=
  Run.run_endOf h

theorem reachable_after {env : Env} {p : State} (hp : Reachable env p) (ms : List Event) :
    Reachable env (after env p ms) := by
  unfold after
  cases h : Run.run (step env) p ms with
  | none => exact hp
  | some p' => exact hp.run h

theorem reachable_empty (env : Env) : Reachable env ⟨Database.empty, []⟩ := ⟨_, [], rfl, rfl⟩

/-- One account with one credential, both created through the API. -/
def sampleSetup : List Event :=
  [.spawn (.createAccount {
      id := "account-1", teamLabel := "team-1", planType := "free", remainingCreditsLive := some 100
      remainingCreditsLive_ge := by simp [AtLeast] }),
    .act 0 (.commit 0),
    .spawn (.createCredential "account-1" { id := "credential-1", apiKey := "fc-1" } 0),
    .act 1 (.commit 0)]

/-- The state after `sampleSetup`: two tasks, both committed. -/
def sampleState (backend : Backend) : State :=
  after (sampleEnv backend) ⟨Database.empty, []⟩ sampleSetup

theorem reachable_sampleState (backend : Backend) :
    Reachable (sampleEnv backend) (sampleState backend) :=
  reachable_after (reachable_empty _) _

/-- The events of a POST from its start to the answer awaited, as the task `tid`. -/
def sendPost (tid : ℕ) (post : Post) (now : ℤ) : List Event :=
  [.spawn (.post post), .act tid .refreshCredentials, .act tid (.select now)]

/-- The events of an answer, from its arrival to the commit. -/
def settle (tid : ℕ) (response : FirecrawlUpstreamResponse) (now : ℤ) : List Event :=
  [.act tid (.answer response now 0), .act tid .get, .act tid (.commit now)]

/-- A synchronous request. -/
def mapPost : Post := ⟨.proxy, "map", "/v2/map", [], none⟩

/-- The events of the submission of a crawl by the sample account, as the task `tid`. -/
def submitCrawl (tid : ℕ) : List Event :=
  sendPost tid ⟨.submitJob, "crawl", "/v2/crawl", [], none⟩ 0 ++
    [.act tid (.answer { status := 200, jsonBody := some [("id", .str "job-1")] } 0 0),
      .act tid (.commit 0)]

end FirecrawlLb.Firecrawl.Stored
