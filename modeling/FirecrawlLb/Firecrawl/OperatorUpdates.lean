import FirecrawlLb.Firecrawl.AdminService

/-!
# The updates of an account by the operator

`update_account` assigns what the payload sets, a `null` like a value, to an account of its own
session.  A sequence of updates leaves the last value of each field and the other columns as they
were, as long as the table takes what is set and the last cooldown is in UTC (`clean_iff`).
-/

namespace FirecrawlLb.Firecrawl.OperatorUpdates

open FirecrawlLb.Lib FirecrawlLb.Python FirecrawlLb.Db.Models FirecrawlLb.Firecrawl.Schemas
open FirecrawlLb.Firecrawl.AdminService FirecrawlLb.Firecrawl.System
open FirecrawlLb.Firecrawl.Service
open FirecrawlLb.Firecrawl.Repository hiding listAccounts

/-! ### The calls -/

/-- `update_account`: the database after the call, and its result. -/
def updateAccount (b : Backend) (accountId : String) (dbNow : ℤ)
    (payload : FirecrawlAccountUpdateRequest) (db : Database) :
    Database × Except Raised FirecrawlAccountResponse :=
  match db.account? accountId with
  | none => (db, .error .accountNotFound)
  | some row =>
    let edit : AccountEdit := ⟨row, .operatorUpdate payload⟩
    match Session.commit { accounts := [edit] } b dbNow db with
    | .ok db' => (db', accountResponse edit.object.value (db.credentialsOf accountId))
    | .error raised => (db, .error raised)

/-- One call after the other, each with the time of the database at its commit. -/
def updateAccounts (b : Backend) (accountId : String) :
    List (ℤ × FirecrawlAccountUpdateRequest) → Database →
      Database × List (Except Raised FirecrawlAccountResponse)
  | [], db => (db, [])
  | (dbNow, payload) :: calls, db =>
    let (db', result) := updateAccount b accountId dbNow payload db
    let (db'', results) := updateAccounts b accountId calls db'
    (db'', result :: results)

/-- An integer field of an update, and the column it is stored in. -/
structure IntegerField where
  set : FirecrawlAccountUpdateRequest → Option (Option ℤ)
  column : FirecrawlAccountRecord → Option ℤ

def integerFields : List IntegerField :=
  [⟨(·.monthlyBudgetCredits), (·.monthlyBudgetCredits)⟩,
    ⟨(·.remainingCreditsLive), (·.remainingCreditsLive)⟩,
    ⟨(·.planCreditsLive), (·.planCreditsLive)⟩, ⟨(·.rpmLimit), (·.rpmLimit)⟩,
    ⟨(·.maxConcurrency), (·.queueMaxConcurrency)⟩]

/-- The columns of the account hold what their types allow. -/
structure Columns (b : Backend) (row : FirecrawlAccountRecord) : Prop where
  status : row.status.isSome = true
  integers : ∀ f ∈ integerFields, b.bindsInteger (f.column row) = true
  cooldownUntil : ∀ c, row.cooldownUntil = some c → c.isNaive = true

/-- The table takes what the payload sets. -/
structure Accepted (b : Backend) (payload : FirecrawlAccountUpdateRequest) : Prop where
  status : payload.status.all Option.isSome = true
  integers : ∀ f ∈ integerFields, (f.set payload).all b.bindsInteger = true
  cooldownUntil : payload.cooldownUntil.all b.bindsDateTime = true

/-- The row holds the last value of each field that was set, and is unchanged elsewhere. -/
structure Holds (payloads : List FirecrawlAccountUpdateRequest)
    (row row' : FirecrawlAccountRecord) : Prop where
  status : row'.status = (lastSet (·.status) payloads).getD row.status
  integers : ∀ f ∈ integerFields, f.column row' = (lastSet f.set payloads).getD (f.column row)
  cooldownUntil : ∀ d, lastSet (·.cooldownUntil) payloads = some d →
    row'.cooldownUntil.map DateTime.instant = d.map DateTime.instant
  cooldown_unset : lastSet (·.cooldownUntil) payloads = none →
    row'.cooldownUntil = row.cooldownUntil
  others : { row' with
    status := row.status
    monthlyBudgetCredits := row.monthlyBudgetCredits
    remainingCreditsLive := row.remainingCreditsLive
    planCreditsLive := row.planCreditsLive
    rpmLimit := row.rpmLimit
    queueMaxConcurrency := row.queueMaxConcurrency
    cooldownUntil := row.cooldownUntil } = row

/-- No call fails in the database, and the row holds what the payloads set. -/
structure Clean (b : Backend) (accountId : String)
    (calls : List (ℤ × FirecrawlAccountUpdateRequest)) (db : Database)
    (row : FirecrawlAccountRecord) : Prop where
  completes : ∀ result ∈ (updateAccounts b accountId calls db).2, result ≠ .error .databaseError
  holds : ∃ row', (updateAccounts b accountId calls db).1.account? accountId = some row' ∧
    Holds (calls.map (·.2)) row row'

/-! ### One call -/

section Call

variable {b : Backend} {accountId : String} {payload : FirecrawlAccountUpdateRequest}
  {db : Database} {row : FirecrawlAccountRecord}

/-- The row after an update that the table takes. -/
def written (row : FirecrawlAccountRecord) (payload : FirecrawlAccountUpdateRequest) :
    FirecrawlAccountRecord :=
  { setFields payload row with
    cooldownUntil := (payload.cooldownUntil.map storeDateTime).getD row.cooldownUntil }

theorem storeDateTime_naive {d : Option DateTime} (h : ∀ c, d = some c → c.isNaive = true) :
    storeDateTime d = d := by
  cases d with
  | none => rfl
  | some c =>
    obtain ⟨wall, offset⟩ := c
    cases offset with
    | none => rfl
    | some offset => cases h _ rfl

@[simp] theorem column_asIs {γ : Type} [DecidableEq γ] (row value : γ) :
    column asIs row value row = value :=
  column_fresh rfl

theorem flush_setFields (h : Columns b row) :
    FirecrawlAccountRecord.flush ⟨row, setFields payload row⟩ row = written row payload := by
  have hcooldown : column storeDateTime row.cooldownUntil
      (payload.cooldownUntil.getD row.cooldownUntil) row.cooldownUntil =
      (payload.cooldownUntil.map storeDateTime).getD row.cooldownUntil := by
    cases payload.cooldownUntil with
    | none => simp
    | some d =>
      by_cases hd : d = row.cooldownUntil
      · rw [hd, Option.getD_some, column_unchanged, Option.map_some, Option.getD_some,
          storeDateTime_naive h.cooldownUntil]
      · exact column_changed hd
  simp [FirecrawlAccountRecord.flush, written, hcooldown, setFields]

theorem forall_integerFields {p : IntegerField → Prop} : (∀ f ∈ integerFields, p f) ↔
    p ⟨(·.monthlyBudgetCredits), (·.monthlyBudgetCredits)⟩ ∧
    p ⟨(·.remainingCreditsLive), (·.remainingCreditsLive)⟩ ∧
    p ⟨(·.planCreditsLive), (·.planCreditsLive)⟩ ∧ p ⟨(·.rpmLimit), (·.rpmLimit)⟩ ∧
    p ⟨(·.maxConcurrency), (·.queueMaxConcurrency)⟩ := by
  simp only [integerFields, List.forall_mem_cons, List.not_mem_nil, IsEmpty.forall_iff,
    implies_true, and_true]

theorem binds_setFields (h : Columns b row) :
    FirecrawlAccountRecord.binds b ⟨row, setFields payload row⟩ = true ↔ Accepted b payload := by
  obtain ⟨hmonthly, hremaining, hplan, hrpm, hmax⟩ := forall_integerFields.1 h.integers
  have hcooldown : b.bindsDateTime row.cooldownUntil = true := by
    cases hc : row.cooldownUntil with
    | none => rfl
    | some c => simp [Backend.bindsDateTime, h.cooldownUntil c hc]
  simp only [FirecrawlAccountRecord.binds, setFields, columnBinds_unchanged, Bool.and_true,
    Bool.and_eq_true, columnBinds_getD h.status, columnBinds_getD hmonthly,
    columnBinds_getD hremaining, columnBinds_getD hplan, columnBinds_getD hrpm,
    columnBinds_getD hmax, columnBinds_getD hcooldown]
  constructor
  · rintro ⟨⟨⟨⟨⟨⟨hst, h₁⟩, h₂⟩, h₃⟩, h₄⟩, h₅⟩, hc⟩
    exact ⟨hst, forall_integerFields.2 ⟨h₁, h₂, h₃, h₄, h₅⟩, hc⟩
  · rintro ⟨hst, hintegers, hc⟩
    obtain ⟨h₁, h₂, h₃, h₄, h₅⟩ := forall_integerFields.1 hintegers
    exact ⟨⟨⟨⟨⟨⟨hst, h₁⟩, h₂⟩, h₃⟩, h₄⟩, h₅⟩, hc⟩

theorem getD_of_all {γ : Type} {p : γ → Bool} {set : Option γ} {old : γ}
    (hset : set.all p = true) (hold : p old = true) : p (set.getD old) = true := by
  cases set with
  | none => exact hold
  | some value => exact hset

theorem Columns.written (h : Columns b row) (ha : Accepted b payload) :
    Columns b (written row payload) where
  status := getD_of_all ha.status h.status
  integers := by
    obtain ⟨h₁, h₂, h₃, h₄, h₅⟩ := forall_integerFields.1 h.integers
    obtain ⟨ha₁, ha₂, ha₃, ha₄, ha₅⟩ := forall_integerFields.1 ha.integers
    exact forall_integerFields.2 ⟨getD_of_all ha₁ h₁, getD_of_all ha₂ h₂, getD_of_all ha₃ h₃,
      getD_of_all ha₄ h₄, getD_of_all ha₅ h₅⟩
  cooldownUntil := by
    intro c hc
    cases hset : payload.cooldownUntil with
    | none => exact h.cooldownUntil c (by simpa [OperatorUpdates.written, hset] using hc)
    | some d =>
      have hd : storeDateTime d = some c := by simpa [OperatorUpdates.written, hset] using hc
      obtain ⟨submitted, -, rfl⟩ := Option.map_eq_some_iff.1 hd
      exact submitted.isNaive_dropTzinfo

/-- The response of an account may fail its validation, and fails in no other way. -/
theorem accountResponse_ne_databaseError (credentials : List FirecrawlCredentialRecord) :
    accountResponse row credentials ≠ .error .databaseError := by
  intro h
  unfold accountResponse at h
  rcases bind_eq_error.1 h with h | ⟨responses, -, h⟩
  · obtain ⟨credential, -, h⟩ := exists_of_mapM_eq_error h
    unfold credentialResponse at h
    split_ifs at h
    cases h
  · split at h
    · cases h
    · split_ifs at h <;> cases h

section Found

variable (hfound : db.account? accountId = some row) (h : Columns b row)

include h in
theorem session_binds : Session.binds { accounts := [⟨row, .operatorUpdate payload⟩] } b db = true ↔
    Accepted b payload := by
  simp only [Session.binds, List.all_cons, List.all_nil, Option.all_none, Bool.and_true]
  exact binds_setFields h

include hfound h in
theorem updateAccount_accepted (dbNow : ℤ) (ha : Accepted b payload) :
    (updateAccount b accountId dbNow payload db).1.account? accountId =
      some (written row payload) ∧
    (updateAccount b accountId dbNow payload db).2 ≠ .error .databaseError := by
  let session : Session := { accounts := [⟨row, .operatorUpdate payload⟩] }
  have hcommit : session.commit b dbNow db = .ok (session.flush dbNow db) :=
    commit_eq_ok.2 ⟨(session_binds h).2 ha, rfl⟩
  have hflush : session.flushAccount row = written row payload := by
    have hedit : session.edit? row.id = some ⟨row, .operatorUpdate payload⟩ := by
      simp [session, Session.edit?]
    rw [Session.flushAccount, hedit]
    exact flush_setFields h
  simp only [updateAccount, hfound]
  rw [hcommit]
  refine ⟨?_, accountResponse_ne_databaseError _⟩
  rw [account?_flush hfound, hflush]

include hfound h in
theorem updateAccount_refused (dbNow : ℤ) (ha : ¬ Accepted b payload) :
    updateAccount b accountId dbNow payload db = (db, .error .databaseError) := by
  have hcommit : Session.commit { accounts := [⟨row, .operatorUpdate payload⟩] } b dbNow db =
      .error .databaseError := if_neg (mt (session_binds h).1 ha)
  simp only [updateAccount, hfound, hcommit]

end Found

end Call

/-! ### Sequences of calls -/

section Calls

variable {b : Backend} {accountId : String} {db : Database} {row : FirecrawlAccountRecord}
  {calls : List (ℤ × FirecrawlAccountUpdateRequest)}
  {payloads : List FirecrawlAccountUpdateRequest}

theorem updateAccounts_accepted (hfound : db.account? accountId = some row) (h : Columns b row)
    (ha : ∀ call ∈ calls, Accepted b call.2) :
    (updateAccounts b accountId calls db).1.account? accountId =
      some ((calls.map (·.2)).foldl written row) ∧
    ∀ result ∈ (updateAccounts b accountId calls db).2, result ≠ .error .databaseError := by
  induction calls generalizing db row with
  | nil => exact ⟨hfound, by simp [updateAccounts]⟩
  | cons call calls ih =>
    obtain ⟨dbNow, payload⟩ := call
    obtain ⟨hcall, hcalls⟩ := List.forall_mem_cons.1 ha
    obtain ⟨hrow, hresult⟩ := updateAccount_accepted hfound h dbNow hcall
    obtain ⟨hrows, hresults⟩ := ih hrow (h.written hcall) hcalls
    exact ⟨hrows, List.forall_mem_cons.2 ⟨hresult, hresults⟩⟩

theorem accepted_of_completes (hfound : db.account? accountId = some row) (h : Columns b row)
    (hcompletes : ∀ result ∈ (updateAccounts b accountId calls db).2,
      result ≠ .error .databaseError) : ∀ call ∈ calls, Accepted b call.2 := by
  induction calls generalizing db row with
  | nil => simp
  | cons call calls ih =>
    obtain ⟨dbNow, payload⟩ := call
    obtain ⟨hresult, hresults⟩ := List.forall_mem_cons.1 hcompletes
    have hcall : Accepted b payload := by
      by_contra ha
      exact hresult (congrArg Prod.snd (updateAccount_refused hfound h dbNow ha))
    have hrow := (updateAccount_accepted hfound h dbNow hcall).1
    exact List.forall_mem_cons.2 ⟨hcall, ih hrow (h.written hcall) hresults⟩

theorem cooldown_foldl (row : FirecrawlAccountRecord)
    (payloads : List FirecrawlAccountUpdateRequest) :
    (payloads.foldl written row).cooldownUntil =
      ((lastSet (·.cooldownUntil) payloads).map storeDateTime).getD row.cooldownUntil := by
  have hwritten : ∀ row payload, (written row payload).cooldownUntil =
      (payload.cooldownUntil.map storeDateTime).getD row.cooldownUntil := fun _ _ => rfl
  rw [get_foldl _ _ hwritten, lastSet_map]

theorem status_written (row : FirecrawlAccountRecord) (payload : FirecrawlAccountUpdateRequest) :
    (written row payload).status = payload.status.getD row.status :=
  rfl

theorem integers_written : ∀ f ∈ integerFields, ∀ row payload,
    f.column (written row payload) = (f.set payload).getD (f.column row) :=
  forall_integerFields.2
    ⟨fun _ _ => rfl, fun _ _ => rfl, fun _ _ => rfl, fun _ _ => rfl, fun _ _ => rfl⟩

theorem others_foldl (row : FirecrawlAccountRecord)
    (payloads : List FirecrawlAccountUpdateRequest) :
    { payloads.foldl written row with
      status := row.status
      monthlyBudgetCredits := row.monthlyBudgetCredits
      remainingCreditsLive := row.remainingCreditsLive
      planCreditsLive := row.planCreditsLive
      rpmLimit := row.rpmLimit
      queueMaxConcurrency := row.queueMaxConcurrency
      cooldownUntil := row.cooldownUntil } = row := by
  induction payloads using List.reverseRecOn with
  | nil => rfl
  | append_singleton payloads payload ih =>
    rw [List.foldl_append]
    exact ih

theorem instant_storeDateTime_iff {d : Option DateTime} :
    (storeDateTime d).map DateTime.instant = d.map DateTime.instant ↔
      ∀ c, d = some c → c.offset.getD 0 = 0 := by
  cases d with
  | none => simp [storeDateTime]
  | some c =>
    simp only [storeDateTime, Option.map_some, Option.some.injEq, DateTime.instant,
      DateTime.dropTzinfo, Option.getD_none, forall_eq']
    omega

/-- What the calls set is what the row holds, but for the time zone of the cooldown. -/
theorem holds_foldl_iff : Holds payloads row (payloads.foldl written row) ↔
    ∀ d, lastSet (·.cooldownUntil) payloads = some (some d) → d.offset.getD 0 = 0 := by
  constructor
  · intro h d hlast
    have hd := h.cooldownUntil _ hlast
    rw [cooldown_foldl, hlast, Option.map_some, Option.getD_some] at hd
    exact instant_storeDateTime_iff.1 hd d rfl
  · intro hutc
    refine ⟨get_foldl _ _ status_written _ _,
      fun f hf => get_foldl _ _ (integers_written f hf) _ _, ?_, ?_, others_foldl row payloads⟩
    · intro d hlast
      rw [cooldown_foldl, hlast, Option.map_some, Option.getD_some]
      exact instant_storeDateTime_iff.2 fun c hc => hutc c (hc ▸ hlast)
    · intro hlast
      rw [cooldown_foldl, hlast, Option.map_none, Option.getD_none]

/-- **The updates of the operator** are clean exactly when the table takes every value that is set
and the cooldown that is set last, if any, is naive or has the offset of UTC. -/
theorem clean_iff (hfound : db.account? accountId = some row) (h : Columns b row) :
    Clean b accountId calls db row ↔ (∀ call ∈ calls, Accepted b call.2) ∧
      ∀ d, lastSet (·.cooldownUntil) (calls.map (·.2)) = some (some d) → d.offset.getD 0 = 0 := by
  constructor
  · rintro ⟨hcompletes, row', hrow', hholds⟩
    have ha := accepted_of_completes hfound h hcompletes
    obtain rfl : (calls.map (·.2)).foldl written row = row' :=
      Option.some.inj ((updateAccounts_accepted hfound h ha).1.symm.trans hrow')
    exact ⟨ha, holds_foldl_iff.1 hholds⟩
  · rintro ⟨ha, hutc⟩
    obtain ⟨hrow, hcompletes⟩ := updateAccounts_accepted hfound h ha
    exact ⟨hcompletes, _, hrow, holds_foldl_iff.2 hutc⟩

end Calls

def sampleAccount : FirecrawlAccountRecord where
  id := "account-1"
  teamLabel := "team"
  planType := "hobby"
  rpmLimit := some 60

def sampleDatabase : Database := { Database.empty with accounts := [sampleAccount] }

/-- The status set to `null`, and on PostgreSQL a cooldown in UTC or a limit beyond 32 bits, fail in
the database.  SQLite stores the wall clock of a cooldown of another time zone. -/
theorem not_clean_sample : let db := sampleDatabase
    let call b payload := updateAccount b "account-1" 0 payload db
    let dropStatus : FirecrawlAccountUpdateRequest := { status := some none }
    let summer : DateTime := ⟨50000000000, some 7200000000⟩
    (call .sqlite dropStatus).2 = .error .databaseError ∧
    (call .postgresql { cooldownUntil := some (some (.utc 0)) }).2 = .error .databaseError ∧
    (call .postgresql { rpmLimit := some (some 2147483648)
                        rpmLimit_ge := setAtLeast_some (by decide) }).2 =
      .error .databaseError ∧
    ((call .sqlite { cooldownUntil := some (some summer) }).1.account? "account-1").map
      (·.cooldownUntil) = some (some (.naive 50000000000)) ∧
    ¬ Clean .sqlite "account-1" [(0, dropStatus)] db sampleAccount := by
  intro db call dropStatus summer
  have hfails : (call .sqlite dropStatus).2 = .error .databaseError := by rfl
  refine ⟨hfails, by rfl, by rfl, by rfl, fun h => ?_⟩
  exact h.completes _ List.mem_cons_self hfails

/-- A pause that also sets a limit to `null`, and then a cooldown in UTC. -/
theorem clean_sample : Clean .sqlite "account-1"
    [(0, { status := some (some "paused"), rpmLimit := some none
           maxConcurrency := some (some 5)
           maxConcurrency_ge := setAtLeast_some (by decide) }),
      (1, { cooldownUntil := some (some (.utc 50000000000)) })] sampleDatabase sampleAccount :=
  (clean_iff rfl ⟨rfl, by decide, by simp [sampleAccount]⟩).2
    ⟨List.forall_mem_cons.2 ⟨⟨rfl, by decide, rfl⟩, List.forall_mem_cons.2
      ⟨⟨rfl, by decide, rfl⟩, by simp⟩⟩, by simp [lastSet, DateTime.utc]⟩

end FirecrawlLb.Firecrawl.OperatorUpdates
