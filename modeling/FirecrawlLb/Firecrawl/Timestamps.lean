import FirecrawlLb.Firecrawl.AdminService

/-!
# The encoding of timestamps

The timestamp columns have no time zone, and a naive value in them is in UTC.  A refresh strips its
times to this form.  The times of answers and of job operations are assigned with their time zone,
and the cooldown of an operator as it was submitted.  SQLite then keeps the wall-clock fields and
PostgreSQL refuses the value.
-/

namespace FirecrawlLb.Firecrawl.Timestamps

open FirecrawlLb.Lib FirecrawlLb.Python FirecrawlLb.Db.Models FirecrawlLb.Firecrawl.Models
open FirecrawlLb.Firecrawl.Schemas FirecrawlLb.Firecrawl.Service FirecrawlLb.Firecrawl.Refresh
open FirecrawlLb.Firecrawl.System FirecrawlLb.Firecrawl.Stored FirecrawlLb.Firecrawl.AdminService
open FirecrawlLb.Firecrawl.Repository hiding listAccounts

/-- The seconds of a cooldown after an answer with these headers. -/
def retryAfterSeconds (headers : List (String × String)) : ℤ :=
  ((rawRetryAfter headers).bind intOfStr).elim 60 (max 0 ·)

theorem cooldownUntil_eq (headers : List (String × String)) (now : DateTime) :
    cooldownUntil headers now = now.addSeconds (retryAfterSeconds headers) := by
  unfold cooldownUntil retryAfterSeconds
  cases rawRetryAfter headers with
  | none => rfl
  | some raw =>
    cases hseconds : intOfStr raw <;> simp [hseconds]

/-! ### The writers -/

/-- A write of timestamps, with what its time comes from and the row it is about. -/
inductive Writer where
  /-- `cooldown_until`, after an answer with status 429 -/
  | rateLimited (headers : List (String × String)) (now : ℤ) (row : FirecrawlAccountRecord)
  /-- `last_error_at`, after an answer with status 401 -/
  | credentialInvalid (message : Option String) (now : ℤ) (row : FirecrawlCredentialRecord)
  /-- `last_polled_at`, after the answer to a poll -/
  | polled (response : FirecrawlUpstreamResponse) (now : ℤ) (job : FirecrawlJobRecord)
  /-- `completed_at` and `last_polled_at` of a settlement -/
  | settled (status : String) (creditsUsed now : ℤ) (job : FirecrawlJobRecord)
  /-- `completed_at`, after the answer to a cancel -/
  | cancelled (response : FirecrawlUpstreamResponse) (now : ℤ) (job : FirecrawlJobRecord)
  /-- `cooldown_until` of an update by the operator -/
  | operator (payload : FirecrawlAccountUpdateRequest) (submitted : DateTime)
      (set : payload.cooldownUntil = some (some submitted)) (row : FirecrawlAccountRecord)
  /-- the refresh times, or the error time, of a refresh -/
  | refreshed (usage queue : RequestResult) (now : ℤ) (row : FirecrawlAccountRecord)
  /-- a billing date of a refresh -/
  | billing (value : String)

namespace Writer

/-- The values that are assigned; none when the call assigns nothing. -/
def assigned (env : Env) : Writer → List DateTime
  | .rateLimited headers now row =>
    match cooldownUntil headers (.utc now) with
    | .ok c => (markAccountRateLimited c row).cooldownUntil.toList
    | .error _ => []
  | .credentialInvalid message now row =>
    (markCredentialInvalid message (.utc now) row).lastErrorAt.toList
  | .polled response now job =>
    if response.isSuccess then (jobAnswered .get response (.utc now) job).1.lastPolledAt.toList
    else []
  | .settled status creditsUsed now job =>
    let job' := (settleJobOnce status creditsUsed (.utc now) job).1
    job'.completedAt.toList ++ job'.lastPolledAt.toList
  | .cancelled response now job =>
    if response.isSuccess then (jobAnswered .delete response (.utc now) job).1.completedAt.toList
    else []
  | .operator payload _ _ row => (setFields payload row).cooldownUntil.toList
  | .refreshed usage queue now row =>
    let write := refreshAccount env usage queue (.naive now)
    let row' := write.apply row
    match write with
    | .refreshSuccess _ => row'.lastUsageRefreshAt.toList ++ row'.lastQueueRefreshAt.toList
    | _ => row'.lastRefreshErrorAt.toList
  | .billing value =>
    match parseDatetime env value with
    | .ok d => d.toList
    | .error _ => []

/-- The instant the values are for. -/
def instant (env : Env) : Writer → ℤ
  | .rateLimited headers now _ => now + retryAfterSeconds headers * 1000000
  | .credentialInvalid _ now _ => now
  | .polled _ now _ => now
  | .settled _ _ now _ => now
  | .cancelled _ now _ => now
  | .operator _ submitted _ _ => submitted.instant
  | .refreshed _ _ now _ => now
  | .billing value =>
    ((env.fromisoformat (strReplace value "Z" "+00:00")).map DateTime.instant).getD 0

/-- The account object with the cooldown a writer assigns. -/
def cooldownEdit : Writer → Option AccountEdit
  | .rateLimited headers now row =>
    match cooldownUntil headers (.utc now) with
    | .ok c => some ⟨row, .markRateLimited c⟩
    | .error _ => none
  | .operator payload _ _ row => some ⟨row, .operatorUpdate payload⟩
  | _ => none

/-- **What keeps the encoding**: the times of a refresh do, and the cooldown of an operator that is
submitted without a time zone.  A cooldown beyond the last datetime, and an answer to a job
operation that is not in the 2xx range, assign nothing. -/
def Strips : Writer → Prop
  | .rateLimited headers now _ => DateTime.maxWall < now + retryAfterSeconds headers * 1000000
  | .credentialInvalid _ _ _ => False
  | .polled response _ _ => response.isSuccess = false
  | .settled _ _ _ _ => False
  | .cancelled response _ _ => response.isSuccess = false
  | .operator _ submitted _ _ => submitted.isNaive = true
  | .refreshed _ _ _ _ => True
  | .billing _ => True

end Writer

/-! ### Reading a cooldown back -/

/-- The database takes what an account object writes beside its cooldown. -/
def bindsOthers (b : Backend) (e : AccountEdit) : Bool :=
  FirecrawlAccountRecord.binds b
    ⟨e.read, { e.object.value with cooldownUntil := e.read.cooldownUntil }⟩

/-- After the commit of the account object, the router and the listing of the accounts read a
cooldown that denotes the instant. -/
def ReadsBack (env : Env) (e : AccountEdit) (t : ℤ) : Prop :=
  ∀ db dbNow, db.account? e.read.id = some e.read → bindsOthers env.backend e = true →
    ∃ db' row, Session.commit { accounts := [e] } env.backend dbNow db = .ok db' ∧
      db'.account? e.read.id = some row ∧ row.cooldownUntil.map DateTime.instant = some t ∧
      (∀ records a, toDomainAccount env row records = .ok a →
        a.cooldownUntil.map DateTime.instant = some t) ∧
      ∀ records r, accountResponse row records = .ok r →
        r.cooldownUntil.map DateTime.instant = some t

/-- Every value the writer assigns is the naive UTC form of its instant, and a cooldown is read back
as this instant. -/
def Encodes (env : Env) (w : Writer) : Prop :=
  (∀ v ∈ w.assigned env, v = .naive (w.instant env)) ∧
  ∀ e ∈ w.cooldownEdit, ReadsBack env e (w.instant env)

section Cooldowns

variable {env : Env} {e : AccountEdit} {d : DateTime} {row : FirecrawlAccountRecord} {b : Backend}

theorem binds_eq_bindsOthers (b : Backend) (e : AccountEdit) :
    FirecrawlAccountRecord.binds b e.object = (bindsOthers b e &&
      columnBinds b.bindsDateTime e.read.cooldownUntil e.object.value.cooldownUntil) := by
  simp only [bindsOthers, FirecrawlAccountRecord.binds, columnBinds_unchanged, Bool.and_true,
    AccountEdit.object]
  ac_rfl

theorem cooldownUntil_of_accountResponse {records : List FirecrawlCredentialRecord}
    {r : FirecrawlAccountResponse} (h : accountResponse row records = .ok r) :
    r.cooldownUntil = row.cooldownUntil := by
  unfold accountResponse at h
  obtain ⟨credentials, -, h⟩ := bind_eq_ok.1 h
  split at h
  · cases h
  · split_ifs at h
    obtain rfl := pure_eq_ok.1 h
    rfl

theorem cooldownUntil_of_toDomainAccount {records : List FirecrawlCredentialRecord}
    {a : FirecrawlAccount} (h : toDomainAccount env row records = .ok a) :
    a.cooldownUntil = row.cooldownUntil := by
  obtain ⟨credentials, status, -, -, rfl⟩ := toDomainAccount_eq_ok.1 h
  rfl

theorem account?_commit {db : Database} {dbNow : ℤ} (hrow : db.account? e.read.id = some e.read) :
    (Session.flush { accounts := [e] } dbNow db).account? e.read.id =
      some (FirecrawlAccountRecord.flush e.object e.read) := by
  have hedit : Session.edit? { accounts := [e] } e.read.id = some e := by
    simp [Session.edit?]
  rw [account?_flush hrow, Session.flushAccount, hedit]

/-- A naive cooldown is read back as it was assigned. -/
theorem readsBack_of_naive (hvalue : e.object.value.cooldownUntil = some d)
    (hnaive : d.isNaive = true) : ReadsBack env e d.instant := by
  intro db dbNow hrow hothers
  have hcolumn : (FirecrawlAccountRecord.flush e.object e.read).cooldownUntil = some d := by
    have hkeeps : storeDateTime (some d) = some d := by
      obtain ⟨wall, offset⟩ := d
      cases offset with
      | none => rfl
      | some offset => cases hnaive
    rw [← hvalue] at hkeeps
    exact (column_fresh hkeeps).trans hvalue
  have hbinds : Session.binds { accounts := [e] } env.backend db = true := by
    have hcooldown : columnBinds env.backend.bindsDateTime e.read.cooldownUntil
        e.object.value.cooldownUntil = true := by
      rw [hvalue]
      exact columnBinds_of_binds (by simp [Backend.bindsDateTime, hnaive])
    simp [Session.binds, binds_eq_bindsOthers, hothers, hcooldown]
  refine ⟨_, _, commit_eq_ok.2 ⟨hbinds, rfl⟩, account?_commit hrow, ?_, fun records a ha => ?_,
    fun records r hr => ?_⟩
  · rw [hcolumn, Option.map_some]
  · rw [cooldownUntil_of_toDomainAccount ha, hcolumn, Option.map_some]
  · rw [cooldownUntil_of_accountResponse hr, hcolumn, Option.map_some]

end Cooldowns

/-! ### The writers that strip -/

section Writers

variable {env : Env}

theorem ne_naive {wall offset t : ℤ} : DateTime.mk wall (some offset) ≠ .naive t := by
  simp [DateTime.naive]

theorem assigned_rateLimited (env : Env) (headers : List (String × String)) (now : ℤ)
    (row : FirecrawlAccountRecord) : Writer.assigned env (.rateLimited headers now row) =
      if now + retryAfterSeconds headers * 1000000 ≤ DateTime.maxWall then
        [⟨now + retryAfterSeconds headers * 1000000, some 0⟩]
      else [] := by
  simp only [Writer.assigned, cooldownUntil_eq, DateTime.addSeconds, DateTime.utc]
  split_ifs <;> rfl

theorem assigned_polled (env : Env) (response : FirecrawlUpstreamResponse) (now : ℤ)
    (job : FirecrawlJobRecord) : Writer.assigned env (.polled response now job) =
      if response.isSuccess then [.utc now] else [] := by
  simp only [Writer.assigned]
  by_cases hs : response.isSuccess = true
  · simp only [hs, if_true]
    have hpolled : (jobAnswered .get response (.utc now) job).1.lastPolledAt = some (.utc now) := by
      unfold jobAnswered
      simp only [hs, Bool.not_true, Bool.false_eq_true, if_false]
      cases jobStatus response.jsonBody with
      | none => rfl
      | some status =>
        cases creditsUsed response.jsonBody with
        | none => rfl
        | some credits =>
          cases ht : isTerminalJobStatus status <;> cases job.creditsUsedFinal <;>
            simp [ht, settleJobOnce]
    rw [hpolled, Option.toList_some]
  · simp [hs]

theorem assigned_settled (env : Env) (status : String) (creditsUsed now : ℤ)
    (job : FirecrawlJobRecord) : Writer.assigned env (.settled status creditsUsed now job) =
      [.utc now, .utc now] := by
  simp only [Writer.assigned, settleJobOnce]
  split_ifs <;> rfl

theorem assigned_cancelled (env : Env) (response : FirecrawlUpstreamResponse) (now : ℤ)
    (job : FirecrawlJobRecord) : Writer.assigned env (.cancelled response now job) =
      if response.isSuccess then [.utc now] else [] := by
  simp only [Writer.assigned]
  by_cases hs : response.isSuccess = true
  · simp [jobAnswered, hs]
  · simp [hs]

theorem assigned_refreshed (env : Env) (usage queue : RequestResult) (now : ℤ)
    (row : FirecrawlAccountRecord) :
    ∀ v ∈ Writer.assigned env (.refreshed usage queue now row), v = .naive now := by
  simp only [Writer.assigned, refreshAccount]
  cases hrefresh : refreshSuccess env usage queue (.naive now) with
  | error failure => simp [AccountWrite.apply, markAccountRefreshError]
  | ok r =>
    have hat : r.refreshedAt = .naive now := by
      unfold refreshSuccess at hrefresh
      obtain ⟨_, -, hrefresh⟩ := bind_eq_ok.1 hrefresh
      obtain ⟨_, -, hrefresh⟩ := bind_eq_ok.1 hrefresh
      obtain ⟨_, -, hrefresh⟩ := bind_eq_ok.1 hrefresh
      obtain ⟨_, -, hrefresh⟩ := bind_eq_ok.1 hrefresh
      obtain ⟨_, -, hrefresh⟩ := bind_eq_ok.1 hrefresh
      rw [← pure_eq_ok.1 hrefresh]
    simp [AccountWrite.apply, updateAccountRefreshSuccess, hat]

theorem assigned_billing (env : Env) (value : String) : ∀ v ∈ Writer.assigned env (.billing value),
    v = .naive (Writer.instant env (.billing value)) := by
  simp only [Writer.assigned, Writer.instant, parseDatetime]
  cases hparsed : env.fromisoformat (strReplace value "Z" "+00:00") with
  | none => simp
  | some parsed =>
    cases hutc : parsed.toNaiveUtc with
    | error raised => simp [hutc]
    | ok naive => simp [hutc, DateTime.toNaiveUtc_eq hutc]

/-- **A writer keeps the encoding exactly when it strips the time zone.** -/
theorem encodes_iff (w : Writer) : Encodes env w ↔ w.Strips := by
  unfold Encodes
  cases w with
  | rateLimited headers now row =>
    rw [assigned_rateLimited]
    simp only [Writer.Strips, Writer.cooldownEdit, cooldownUntil_eq, DateTime.addSeconds,
      DateTime.utc]
    split_ifs with hmax
    · simp [ne_naive, hmax]
    · simpa using hmax
  | credentialInvalid message now row =>
    simp [Writer.assigned, markCredentialInvalid, Writer.Strips, DateTime.utc, ne_naive]
  | polled response now job =>
    rw [assigned_polled]
    cases hs : response.isSuccess <;>
      simp [Writer.Strips, Writer.cooldownEdit, hs, DateTime.utc, ne_naive]
  | settled status creditsUsed now job =>
    simp [assigned_settled, Writer.Strips, DateTime.utc, ne_naive]
  | cancelled response now job =>
    rw [assigned_cancelled]
    cases hs : response.isSuccess <;>
      simp [Writer.Strips, Writer.cooldownEdit, hs, DateTime.utc, ne_naive]
  | operator payload submitted hset row =>
    -- the operator's cooldown is assigned as it was submitted
    have hvalue : (setFields payload row).cooldownUntil = some submitted := by
      simp [setFields, hset]
    constructor
    · rintro ⟨hassigned, -⟩
      have hnaive := hassigned submitted (by simp [Writer.assigned, hvalue])
      change submitted.isNaive = true
      rw [hnaive]
      rfl
    · intro hnaive
      refine ⟨fun v hv => ?_, fun e he => ?_⟩
      · obtain rfl : v = submitted := by simpa [Writer.assigned, hvalue] using hv
        exact DateTime.eq_naive_instant hnaive
      · obtain rfl : AccountEdit.mk row (.operatorUpdate payload) = e := Option.some.inj he
        exact readsBack_of_naive hvalue hnaive
  | refreshed usage queue now row =>
    exact iff_of_true ⟨assigned_refreshed env usage queue now row, by simp [Writer.cooldownEdit]⟩
      trivial
  | billing value =>
    exact iff_of_true ⟨assigned_billing env value, by simp [Writer.cooldownEdit]⟩ trivial

/-- Noon at an offset of two hours, which is ten o'clock UTC. -/
def sampleCooldown : DateTime := ⟨43200000000, some 7200000000⟩

/-- The operator submits a cooldown until 12:00+02:00, and SQLite stores one until 12:00 UTC. -/
theorem not_encodes_sample : let env := sampleEnv .sqlite
    let patch : FirecrawlAccountUpdateRequest := { cooldownUntil := some (some sampleCooldown) }
    let p := after env (sampleState .sqlite)
      [.spawn (.updateAccount "account-1" patch), .act 2 (.commit 0)]
    Reachable env p ∧ sampleCooldown.instant = 36000000000 ∧
    (p.store.account? "account-1").bind (·.cooldownUntil) = some (.naive 43200000000) ∧
    ∀ row, ¬ Encodes env (.operator patch sampleCooldown rfl row) := by
  intro env patch p
  refine ⟨reachable_after (reachable_sampleState _) _, by decide, by decide, ?_⟩
  rintro row ⟨hassigned, -⟩
  exact ne_naive (hassigned sampleCooldown (List.mem_singleton_self _))

end Writers

end FirecrawlLb.Firecrawl.Timestamps
