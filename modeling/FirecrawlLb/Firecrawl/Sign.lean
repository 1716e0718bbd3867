import FirecrawlLb.Firecrawl.Charges

/-!
# The sign of the balance

Five methods write the balance of an account.  The schemas keep the two of the operator from writing
a negative one and `apply_success` stops at zero, but a refresh stores what the upstream reports.  A
settlement lowers the balance unless its charge is negative, or smaller than what the balance has
fallen since the call read it.
-/

namespace FirecrawlLb.Firecrawl.Sign

open FirecrawlLb.Lib FirecrawlLb.Lib.Tasks FirecrawlLb.Lib.Run FirecrawlLb.Python
open FirecrawlLb.Db.Models FirecrawlLb.Firecrawl.Schemas FirecrawlLb.Firecrawl.Repository
open FirecrawlLb.Firecrawl.Service FirecrawlLb.Firecrawl.System FirecrawlLb.Firecrawl.Stored
open FirecrawlLb.Firecrawl.Charges

/-! ### What the tasks have read -/

/-- The account rows a session has read, and the one it adds, satisfy `Q`. -/
structure SessionReads (Q : FirecrawlAccountRecord → Prop) (s : Session) : Prop where
  reads : ∀ e ∈ s.accounts, Q e.read
  newAccount : ∀ row, s.newAccount = some row → Q row

/-- The account rows a task holds satisfy `Q`. -/
def TaskReads (Q : FirecrawlAccountRecord → Prop) : Task → Prop
  | .refreshListing _ rows => ∀ row ∈ rows, Q row
  | .refreshing _ todo session => (∀ r ∈ todo, Q r.1) ∧ SessionReads Q session
  | .writing session _ => SessionReads Q session
  | .committing session => SessionReads Q session
  | .committed session => SessionReads Q session
  | _ => True

section Reads

variable {Q : FirecrawlAccountRecord → Prop} {env : Env} {db db' : Database} {t t' : Task}
  {a : Action} {s : Session}

theorem sessionReads_of_nil (h : s.accounts = []) (hnew : s.newAccount = none) :
    SessionReads Q s :=
  ⟨by simp [h], by simp [hnew]⟩

theorem SessionReads.perform (h : SessionReads Q s) (hdb : ∀ row ∈ db.accounts, Q row)
    (target : RowWrite) : SessionReads Q (s.perform db target) := by
  rcases perform_cases s db target with hp | ⟨id, write, row, -, hrow, hp⟩ | ⟨e, hp⟩ <;> rw [hp]
  · exact h
  · refine ⟨fun e he => ?_, h.newAccount⟩
    rcases List.mem_append.1 he with he | he
    · exact h.reads e he
    · obtain rfl := List.mem_singleton.1 he
      exact hdb row (List.mem_of_find?_eq_some hrow)
  · exact ⟨h.reads, h.newAccount⟩

theorem taskReads_awaitRow {target : Option RowWrite} (h : SessionReads Q s) :
    TaskReads Q (awaitRow s target) := by
  cases target <;> exact h

theorem taskReads_nextRound {now : ℤ}
    {todo : List (FirecrawlAccountRecord × FirecrawlCredentialRecord)}
    (htodo : ∀ r ∈ todo, Q r.1) (h : SessionReads Q s) : TaskReads Q (nextRound now todo s) := by
  unfold nextRound
  split_ifs
  · exact h
  · exact ⟨htodo, h⟩

theorem taskReads_starts {r : Request} (hdb : ∀ row ∈ db.accounts, Q row)
    (hnew : ∀ payload, Q (accountRecordOf payload)) (h : Starts env db r t) : TaskReads Q t := by
  cases h with
  | post | jobOperation | refused => trivial
  | @createAccount payload =>
    refine ⟨by simp, fun row hrow => ?_⟩
    obtain rfl : accountRecordOf payload = row := by simpa using hrow
    exact hnew payload
  | updateAccount h =>
    refine ⟨fun e he => ?_, by simp⟩
    obtain rfl := List.mem_singleton.1 he
    exact hdb _ (List.mem_of_find?_eq_some h)
  | createCredential => exact sessionReads_of_nil rfl rfl
  | updateCredential => exact sessionReads_of_nil rfl rfl
  | refreshOnce => exact fun row hrow => hdb row (mem_orderById.1 hrow)

theorem taskReads_steps (hdb : ∀ row ∈ db.accounts, Q row) (ht : TaskReads Q t)
    (h : Steps env db t a db' t') : TaskReads Q t' := by
  cases h with
  | refreshCredentials | select | fail => trivial
  | answer h =>
    obtain ⟨⟨log, rfl, -⟩, -⟩ := Post.answered_eq_ok h
    exact taskReads_awaitRow (sessionReads_of_nil rfl rfl)
  | jobAnswer => exact taskReads_awaitRow (sessionReads_of_nil rfl rfl)
  | @selectCredentials now rows =>
    refine taskReads_nextRound (fun r hr => ?_) (sessionReads_of_nil rfl rfl)
    obtain ⟨row, hrow, hc⟩ := List.mem_filterMap.1 hr
    obtain ⟨credential, -, rfl⟩ := Option.map_eq_some_iff.1 hc
    exact ht row hrow
  | @refreshAccount now row credential todo session usage queue =>
    obtain ⟨htodo, hs⟩ := ht
    refine taskReads_nextRound (fun r hr => htodo r (by simp [hr])) ⟨fun e he => ?_, hs.newAccount⟩
    rcases List.mem_append.1 he with he | he
    · exact hs.reads e he
    · obtain rfl := List.mem_singleton.1 he
      exact htodo (row, credential) (by simp)
  | get => exact SessionReads.perform ht hdb _
  | commit => exact ht

end Reads

/-! ### The balance a commit writes -/

/-- The balance of the row is not negative. -/
def NonNeg (row : FirecrawlAccountRecord) : Prop := ∀ b ∈ row.remainingCreditsLive, 0 ≤ b

/-- The balance a refresh stores for an account. -/
def refreshed? (s : Session) (id : String) : Option ℤ :=
  match s.edit? id with
  | some ⟨_, .refreshSuccess r⟩ => r.remainingCredits
  | _ => none

/-- The balance a session has read of an account. -/
def read? (s : Session) (id : String) : Option ℤ :=
  (s.edit? id).bind (·.read.remainingCreditsLive)

section Flush

variable {s : Session} {row : FirecrawlAccountRecord}

/-- **The schemas, and `apply_success`, write no negative balance**; a refresh writes what it has
been told. -/
theorem nonNeg_flushAccount_iff (hrow : NonNeg row) (hs : SessionReads NonNeg s) :
    NonNeg (s.flushAccount row) ↔ ∀ n ∈ refreshed? s row.id, 0 ≤ n := by
  unfold refreshed?
  rcases flushAccount_cases s row with ⟨he, hf⟩ | ⟨e, hmem, he, -, hf⟩ <;> rw [hf, he]
  · simpa using hrow
  have hread : NonNeg e.read := hs.reads e hmem
  have hcolumn : (FirecrawlAccountRecord.flush e.object row).remainingCreditsLive =
      column asIs e.read.remainingCreditsLive e.object.value.remainingCreditsLive
        row.remainingCreditsLive := rfl
  -- the column keeps its value or takes the written one, so both have to be checked
  have hkeep : NonNeg e.object.value → NonNeg (FirecrawlAccountRecord.flush e.object row) := by
    intro hvalue b hb
    rw [hcolumn] at hb
    rcases column_eq_or asIs e.read.remainingCreditsLive e.object.value.remainingCreditsLive
      row.remainingCreditsLive with hc | ⟨-, hc⟩ <;> rw [hc] at hb
    exacts [hrow b hb, hvalue b hb]
  obtain ⟨read, write⟩ := e
  cases write with
  | applySuccess credits =>
    refine iff_of_true (hkeep fun b hb => ?_) (by simp)
    change b ∈ (applySuccess credits read).remainingCreditsLive at hb
    rw [applySuccess_remainingCreditsLive] at hb
    obtain ⟨live, -, rfl⟩ := Option.map_eq_some_iff.1 hb
    exact le_max_left _ _
  | markCreditExhausted | markRateLimited | refreshError =>
    exact iff_of_true (hkeep hread) (by simp)
  | operatorUpdate payload =>
    refine iff_of_true (hkeep fun b hb => ?_) (by simp)
    change payload.remainingCreditsLive.getD read.remainingCreditsLive = some b at hb
    cases hset : payload.remainingCreditsLive with
    | none =>
      rw [hset] at hb
      exact hread b hb
    | some live =>
      rw [hset, Option.getD_some] at hb
      exact payload.remainingCreditsLive_ge b (by rw [hset, hb])
  | refreshSuccess r =>
    constructor
    · intro h n hn
      have hvalue : (AccountEdit.mk read (.refreshSuccess r)).object.value.remainingCreditsLive =
          some n := by
        change (r.remainingCredits <|> read.remainingCreditsLive) = some n
        rw [show r.remainingCredits = some n from hn]
        rfl
      -- a balance equal to the one that was read is not written
      by_cases hsame : read.remainingCreditsLive = some n
      · exact hread n hsame
      · refine h n ?_
        rw [hcolumn, hvalue]
        exact column_changed (Ne.symm hsame)
    · intro h
      refine hkeep fun b hb => ?_
      change (r.remainingCredits <|> read.remainingCreditsLive) = some b at hb
      cases hr : r.remainingCredits with
      | none =>
        rw [hr] at hb
        exact hread b hb
      | some n =>
        rw [hr] at hb
        obtain rfl := Option.some.inj hb
        exact h n hr

/-- A settlement raises no balance when it is free, or costs what the balance has fallen since the
call read it. -/
theorem settlement_le_iff {credits : ℤ} (hrow : NonNeg row) (hs : SessionReads NonNeg s)
    (hcharge : s.charge? row.id = some credits) :
    (∀ b ∈ row.remainingCreditsLive, ∀ b' ∈ (s.flushAccount row).remainingCreditsLive, b' ≤ b) ↔
      ∀ r ∈ read? s row.id, ∀ b ∈ row.remainingCreditsLive, credits = 0 ∨ r - b ≤ credits := by
  rcases flushAccount_cases s row with ⟨he, -⟩ | ⟨e, hmem, he, -, hf⟩
  · simp [Session.charge?, he] at hcharge
  obtain ⟨read, write⟩ := e
  have hread : NonNeg read := hs.reads _ hmem
  cases write with
  | applySuccess c =>
    obtain rfl : c = credits := by simpa [Session.charge?, he] using hcharge
    have hvalue : (s.flushAccount row).remainingCreditsLive = column asIs read.remainingCreditsLive
        (read.remainingCreditsLive.map fun live => max 0 (live - c)) row.remainingCreditsLive := by
      rw [hf, ← applySuccess_remainingCreditsLive]
      rfl
    rw [hvalue, read?, he, Option.bind_some]
    cases hr : read.remainingCreditsLive with
    | none =>
      simp only [Option.map_none, column_unchanged, Option.mem_def, reduceCtorEq, false_imp_iff,
        implies_true, iff_true]
      intro b hb b' hb'
      exact (Option.some.inj (hb.symm.trans hb')).ge
    | some r =>
      cases hb : row.remainingCreditsLive with
      | none => simp
      | some b =>
        have hr := hread r hr
        have hb := hrow b hb
        rw [Option.map_some, column_some]
        simp only [Option.mem_def, Option.some.injEq, forall_eq']
        -- a charge that leaves the value as it was read is not written
        by_cases hsame : max 0 (r - c) = r
        · rw [hsame, column_unchanged]
          omega
        · rw [column_changed hsame, asIs]
          omega
  | _ => simp [Session.charge?, he] at hcharge

end Flush

/-! ### Runs -/

/-- No stored balance is negative. -/
def NonNegative (p : State) : Prop := ∀ row ∈ p.store.accounts, NonNeg row

/-- The settlements the event commits raise no balance. -/
def NotRaised (env : Env) (p : State) (m : Event) : Prop :=
  ∀ p', step env p m = some p' → ∀ s ∈ commits env p m, ∀ id, (s.charge? id).isSome = true →
    ∀ b ∈ balance id p.store, ∀ b' ∈ balance id p'.store, b' ≤ b

/-- **What keeps the sign.**  Every balance that a committed refresh stores is not negative, and
every charge that is committed is zero, or at least what the balance has fallen since it was
read. -/
def KeepsSign (env : Env) (p : State) (m : Event) : Prop :=
  ∀ s ∈ commits env p m, ∀ row ∈ p.store.accounts,
    (∀ n ∈ refreshed? s row.id, 0 ≤ n) ∧
    ∀ c ∈ s.charge? row.id, ∀ r ∈ read? s row.id, ∀ b ∈ row.remainingCreditsLive,
      c = 0 ∨ r - b ≤ c

instance {env : Env} {p : State} {m : Event} : Decidable (KeepsSign env p m) :=
  inferInstanceAs (Decidable (∀ s ∈ commits env p m, _))

section Runs

variable {env : Env} {p p' : State} {m : Event}

theorem nonNeg_accountRecordOf (payload : FirecrawlAccountCreateRequest) :
    NonNeg (accountRecordOf payload) := by
  intro b hb
  exact payload.remainingCreditsLive_ge b hb

/-- The invariant: ids differ, and neither a stored balance nor one that a task has read is
negative. -/
def Signed : State → Prop :=
  Asserts (fun db => (db.accounts.map (·.id)).Nodup ∧ ∀ row ∈ db.accounts, NonNeg row)
    fun _ => TaskReads NonNeg

theorem Signed.step (h : Signed p) (hm : KeepsSign env p m) (hs : step env p m = some p') :
    Signed p' := by
  refine Program.inv_step_local (C := KeepsSign env) (fun p r hI _ => ?_)
    (fun p tid a t db t' hI ht hC hget ha => ?_) h hm hs
  · exact taskReads_starts hI.2 nonNeg_accountRecordOf (starts_spawn env p.store r)
  · have hsteps := steps_of_act ha
    refine ⟨?_, taskReads_steps hI.2 ht hsteps⟩
    cases hsteps with
    | @commit session dbNow hb =>
      have hcommit : commits env p (.act tid (.commit dbNow)) = some session := by
        simp [commits, hget, hb]
      refine ⟨nodup_flush hI.1 hb, fun row hrow => ?_⟩
      rcases mem_flush_accounts.1 hrow with ⟨r, hr, rfl⟩ | hnew
      · exact (nonNeg_flushAccount_iff (hI.2 r hr) ht).2 (hC session hcommit r hr).1
      · exact ht.newAccount row hnew
    | _ => exact hI

theorem balance_of_mem {db : Database} {row : FirecrawlAccountRecord} (s : Session) (dbNow : ℤ)
    (hids : (db.accounts.map (·.id)).Nodup) (hrow : row ∈ db.accounts) :
    balance row.id db = row.remainingCreditsLive ∧
      balance row.id (s.flush dbNow db) = (s.flushAccount row).remainingCreditsLive := by
  have hget := account?_of_mem hids hrow
  exact ⟨by rw [balance, hget, Option.bind_some], balance_of_flush hget⟩

/-- A step keeps the sign exactly when it commits nothing that breaks it. -/
theorem step_keepsSign_iff (h : Signed p) :
    ((∀ p', step env p m = some p' → NonNegative p') ∧ NotRaised env p m) ↔ KeepsSign env p m := by
  constructor
  · rintro ⟨hnext, hraised⟩ s hcommit row hrow
    obtain ⟨p', hs⟩ := step_of_commits hcommit
    obtain ⟨hmem, dbNow, hstore, -⟩ := store_of_commits hcommit hs
    have hreads : SessionReads NonNeg s := h.2 _ hmem
    have hrow' : NonNeg row := h.1.2 row hrow
    have hnonneg := hnext p' hs
    unfold NonNegative at hnonneg
    rw [hstore] at hnonneg
    refine ⟨(nonNeg_flushAccount_iff hrow' hreads).1
      (hnonneg _ (mem_flush_accounts.2 (Or.inl ⟨row, hrow, rfl⟩))), fun c hc => ?_⟩
    have hle := hraised p' hs s hcommit row.id (by rw [hc]; rfl)
    obtain ⟨hbefore, hafter⟩ := balance_of_mem s dbNow h.1.1 hrow
    rw [hstore, hbefore, hafter] at hle
    exact (settlement_le_iff hrow' hreads hc).1 hle
  · intro hC
    refine ⟨fun p' hs => (h.step hC hs).1.2, fun p' hs s hcommit id hcharge b hb b' hb' => ?_⟩
    obtain ⟨hmem, dbNow, hstore, -⟩ := store_of_commits hcommit hs
    obtain ⟨row, hget, hlive⟩ := Option.bind_eq_some_iff.1 hb
    obtain rfl : row.id = id := id_of_account? hget
    obtain ⟨c, hc⟩ := Option.isSome_iff_exists.1 hcharge
    have hrow : row ∈ p.store.accounts := List.mem_of_find?_eq_some hget
    rw [hstore, balance_of_flush hget] at hb'
    exact (settlement_le_iff (h.1.2 row hrow) (h.2 _ hmem) hc).2 ((hC s hcommit row hrow).2 c hc)
      b hlive b' hb'

/-- **No balance is negative and no settlement raises one**, along a run from the empty database,
exactly when its refreshes store no negative balance and each of its charges is zero or at least
what the balance has fallen since the call read it. -/
theorem nonNegative_and_notRaised_iff {env : Env} {ms : List Event} :
    Always (step env) NonNegative ⟨Database.empty, []⟩ ms ∧
        Meets (step env) (NotRaised env) ⟨Database.empty, []⟩ ms ↔
      Meets (step env) (KeepsSign env) ⟨Database.empty, []⟩ ms := by
  have hstart : Signed ⟨Database.empty, []⟩ := ⟨by simp [Database.empty], by simp⟩
  exact always_and_meets_iff (fun _ _ _ hI _ hC hs => hI.step hC hs)
    (fun _ _ hI _ _ => step_keepsSign_iff hI) hstart meets_true
    (by simp [NonNegative, Database.empty])

/-- The events of a refresh pass over the sample account, whose upstream balance is `n`. -/
def refreshTo (tid : ℕ) (n : ℤ) : List Event :=
  [.spawn (.refreshOnce 0), .act tid .selectCredentials,
    .act tid (.refreshAccount
      (.answered { status := 200, jsonBody := some [("remainingCredits", .int n)] })
      (.answered { status := 200, jsonBody := some [] })),
    .act tid (.commit 0)]

/-- The upstream reports a balance of -5, and then that a request has used -5 credits. -/
theorem not_nonNegative_sample : let env := sampleEnv .sqlite
    let p := after env (sampleState .sqlite) (refreshTo 2 (-5))
    let q := after env (sampleState .sqlite)
      (sendPost 2 mapPost 0 ++ [.act 2 (.answer (usedResponse (-5)) 0 0), .act 2 .get])
    Reachable env p ∧ balance "account-1" p.store = some (-5) ∧ ¬ NonNegative p ∧
    Reachable env q ∧ balance "account-1" q.store = some 100 ∧
    balance "account-1" (after env q [.act 2 (.commit 0)]).store = some 105 ∧
    ¬ NotRaised env q (.act 2 (.commit 0)) := by
  intro env p q
  refine ⟨reachable_after (reachable_sampleState _) _, by decide, fun h => ?_,
    reachable_after (reachable_sampleState _) _, by decide, by decide, fun h => ?_⟩
  · have hrow : p.store.account? "account-1" = some _ := rfl
    exact absurd (h _ (List.mem_of_find?_eq_some hrow) (-5) (by decide)) (by decide)
  · exact absurd (h _ rfl _ rfl "account-1" (by decide) 100 (by decide) 105 (by decide)) (by decide)

end Runs

end FirecrawlLb.Firecrawl.Sign
