import FirecrawlLb.Firecrawl.Reconciliation
import FirecrawlLb.Firecrawl.RefreshAccount

/-!
# A refresh pass over all accounts

* `allOrNothing`: whatever a pass does, an account keeps its row or gets the one its own two
  answers give, and nothing else changes;
* `allCommitted_iff`: a pass commits the outcome of every account exactly when every active key can
  be decrypted, the dates of usable answers exist in UTC and the database takes every value.
-/

namespace FirecrawlLb.Firecrawl.RefreshPass

open FirecrawlLb.Lib FirecrawlLb.Python FirecrawlLb.Db.Models FirecrawlLb.Firecrawl.Repository
open FirecrawlLb.Firecrawl.Service FirecrawlLb.Firecrawl.Refresh FirecrawlLb.Firecrawl.System
open FirecrawlLb.Firecrawl.Stored FirecrawlLb.Firecrawl.Reconciliation
open FirecrawlLb.Firecrawl.RefreshAccount

/-! ### The write back of one account -/

section Flush

variable {env : Env}

theorem column_orElse {γ : Type} [DecidableEq γ] {store : Option γ → Option γ} {new old : Option γ}
    (h : ∀ v ∈ new, store (some v) = some v) :
    column store old (new <|> old) old = (new <|> old) := by
  cases new with
  | none => exact column_unchanged
  | some v => exact column_fresh (h v rfl)

theorem naive_of_dateMerged {data : JsonObject} {keys : List String} {new : Option DateTime}
    (h : ∀ old, DateMerged env data keys old (new <|> old)) :
    ∀ d ∈ new, storeDateTime (some d) = some d := by
  rintro d hd
  obtain rfl : new = some d := hd
  rcases h none with ⟨parsed, -, hnew⟩ | ⟨-, hnew⟩
  · obtain rfl : d = .naive parsed.instant := Option.some.inj hnew
    rfl
  · cases hnew

/-- **The write back of a round** leaves the record as the round changed it. -/
theorem flush_refreshAccount (env : Env) (usageResult queueResult : RequestResult) (now : ℤ)
    (row : FirecrawlAccountRecord) :
    FirecrawlAccountRecord.flush
        (AccountEdit.mk row (refreshAccount env usageResult queueResult (.naive now))).object row =
      (refreshAccount env usageResult queueResult (.naive now)).apply row := by
  rcases refreshAccount_cases env usageResult queueResult (.naive now) with
    ⟨usage, queue, r, -, hwrite, hreads⟩ | ⟨-, failure, hwrite, -⟩
  · have hat : storeDateTime (some r.refreshedAt) = some r.refreshedAt := by
      rw [hreads.refreshedAt]
      rfl
    have hfigure : ∀ new old : Option ℤ, column asIs old (new <|> old) old = (new <|> old) :=
      fun new old => column_orElse fun _ _ => rfl
    rw [hwrite]
    unfold AccountEdit.object AccountWrite.apply updateAccountRefreshSuccess
      FirecrawlAccountRecord.flush
    simp only [column_unchanged, column_orElse (naive_of_dateMerged hreads.billingStart),
      column_orElse (naive_of_dateMerged hreads.billingEnd), column_fresh hat,
      hfigure, column_fresh (show storeDateTime none = none from rfl),
      column_fresh (show asIs (none : Option String) = none from rfl)]
  · rw [hwrite]
    unfold AccountEdit.object AccountWrite.apply markAccountRefreshError
      FirecrawlAccountRecord.flush
    simp only [column_unchanged,
      column_fresh (show storeDateTime (some (.naive now)) = some (.naive now) from rfl),
      column_fresh (show asIs (some (safeErrorMessage failure)) = _ from rfl)]

end Flush

/-! ### The pass -/

/-- The credential a pass uses for an account. -/
def activeRecord? (db : Database) (row : FirecrawlAccountRecord) :
    Option FirecrawlCredentialRecord :=
  (db.credentialsOf row.id).find? (·.status = "active")

/-- The edit of a round. -/
def roundEdit (env : Env) (now : ℤ) (answers : String → RequestResult × RequestResult)
    (row : FirecrawlAccountRecord) : AccountEdit :=
  ⟨row, refreshAccount env (answers row.id).1 (answers row.id).2 (.naive now)⟩

/-- The database after a pass; a pass that raises commits nothing. -/
def afterPass (env : Env) (db : Database) (now : ℤ)
    (answers : String → RequestResult × RequestResult) (committedAt : ℤ) : Database :=
  (refreshOnce env db now answers committedAt).toOption.getD db

section Pass

variable {env : Env} {db db' : Database} {now committedAt : ℤ}
  {answers : String → RequestResult × RequestResult} {row : FirecrawlAccountRecord}
  {credential : FirecrawlCredentialRecord}

theorem mem_refreshTargets {target : FirecrawlAccountRecord × FirecrawlCredentialRecord} :
    target ∈ refreshTargets db (orderById db.accounts) ↔
      target.1 ∈ db.accounts ∧ activeRecord? db target.1 = some target.2 := by
  obtain ⟨row, credential⟩ := target
  unfold refreshTargets
  rw [List.mem_filterMap]
  constructor
  · rintro ⟨row', hrow', h⟩
    obtain ⟨credential', hc, heq⟩ := Option.map_eq_some_iff.1 h
    obtain ⟨rfl, rfl⟩ := Prod.mk.inj heq
    exact ⟨mem_orderById.1 hrow', hc⟩
  · rintro ⟨hrow, hc⟩
    exact ⟨row, mem_orderById.2 hrow, Option.map_eq_some_iff.2 ⟨credential, hc, rfl⟩⟩

/-- The edits of a pass. -/
def passEdits (env : Env) (db : Database) (now : ℤ)
    (answers : String → RequestResult × RequestResult) : List AccountEdit :=
  (refreshTargets db (orderById db.accounts)).map fun target => roundEdit env now answers target.1

/-- **When a pass commits**, and what it then leaves. -/
theorem refreshOnce_eq_ok_iff : refreshOnce env db now answers committedAt = .ok db' ↔
    (∀ row ∈ db.accounts, ∀ credential, activeRecord? db row = some credential →
      (env.decrypt credential.apiKeyEncrypted).isSome = true ∧
      FirecrawlAccountRecord.binds env.backend (roundEdit env now answers row).object = true) ∧
    db' = Session.flush { accounts := passEdits env db now answers } committedAt db := by
  have hedit : ∀ target e, refreshEdit env now answers target = .ok e ↔
      (env.decrypt target.2.apiKeyEncrypted).isSome = true ∧
        e = roundEdit env now answers target.1 := by
    intro target e
    unfold refreshEdit roundEdit
    cases env.decrypt target.2.apiKeyEncrypted with
    | some key => simp [eq_comm]
    | none => simp
  have hbinds : ∀ edits : List AccountEdit, Session.binds { accounts := edits } env.backend db =
      edits.all fun e => FirecrawlAccountRecord.binds env.backend e.object := fun edits => by
    simp [Session.binds]
  unfold refreshOnce
  rw [bind_eq_ok]
  simp only [mapM_eq_ok_map hedit, commit_eq_ok, hbinds, List.all_eq_true]
  constructor
  · rintro ⟨edits, ⟨hkeys, rfl⟩, htaken, rfl⟩
    refine ⟨fun row hrow credential hc => ?_, rfl⟩
    have htarget : (row, credential) ∈ refreshTargets db (orderById db.accounts) :=
      mem_refreshTargets.2 ⟨hrow, hc⟩
    exact ⟨hkeys _ htarget, htaken _ (List.mem_map_of_mem htarget)⟩
  · rintro ⟨h, rfl⟩
    refine ⟨_, ⟨fun target htarget => ?_, rfl⟩, fun e he => ?_, rfl⟩
    · obtain ⟨hrow, hc⟩ := mem_refreshTargets.1 htarget
      exact (h _ hrow _ hc).1
    · obtain ⟨target, htarget, rfl⟩ := List.mem_map.1 he
      obtain ⟨hrow, hc⟩ := mem_refreshTargets.1 htarget
      exact (h _ hrow _ hc).2

theorem account?_of_target (hids : (db.accounts.map (·.id)).Nodup) (hrow : row ∈ db.accounts)
    (hc : activeRecord? db row = some credential) :
    (Session.flush { accounts := passEdits env db now answers } committedAt db).account? row.id =
      some ((roundEdit env now answers row).write.apply row) := by
  rw [account?_flush (account?_of_mem hids hrow)]
  have hmem : roundEdit env now answers row ∈ passEdits env db now answers :=
    List.mem_map_of_mem (f := fun target => roundEdit env now answers target.1)
      (mem_refreshTargets.2 ⟨hrow, hc⟩ : (row, credential) ∈ _)
  rcases flushAccount_cases { accounts := passEdits env db now answers } row with
    ⟨hnone, -⟩ | ⟨e, he, -, hid, hf⟩
  · have hother := List.find?_eq_none.1 hnone _ hmem
    simp [roundEdit] at hother
  · obtain ⟨target, htarget, rfl⟩ := List.mem_map.1 he
    obtain rfl : target.1 = row :=
      List.inj_on_of_nodup_map hids (mem_refreshTargets.1 htarget).1 hrow hid
    rw [hf]
    exact congrArg some (flush_refreshAccount env _ _ now _)

theorem account?_of_no_target (hids : (db.accounts.map (·.id)).Nodup) (hrow : row ∈ db.accounts)
    (hnone : activeRecord? db row = none) :
    (Session.flush { accounts := passEdits env db now answers } committedAt db).account? row.id =
      some row := by
  rw [account?_flush (account?_of_mem hids hrow)]
  rcases flushAccount_cases { accounts := passEdits env db now answers } row with
    ⟨-, hf⟩ | ⟨e, he, -, hid, -⟩
  · rw [hf]
  · obtain ⟨target, htarget, rfl⟩ := List.mem_map.1 he
    obtain ⟨htarget, hc⟩ := mem_refreshTargets.1 htarget
    obtain rfl : target.1 = row := List.inj_on_of_nodup_map hids htarget hrow hid
    rw [hnone] at hc
    cases hc

/-- The row of an account as a round makes it. -/
def roundRow (env : Env) (now : ℤ) (answers : String → RequestResult × RequestResult)
    (row : FirecrawlAccountRecord) : FirecrawlAccountRecord :=
  (refreshAccount env (answers row.id).1 (answers row.id).2 (.naive now)).apply row

/-- **Refreshing one account is all or nothing.**  A round gives the record of its account all of
the recognised values, or at most new error fields, and never another status, cooldown or rate
limit; a pass leaves the row as it was or as the round made it, and every credential as it was. -/
theorem allOrNothing (hids : (db.accounts.map (·.id)).Nodup) (hrow : row ∈ db.accounts) :
    AllOrNothing env (answers row.id).1 (answers row.id).2 (.naive now) row
      (roundRow env now answers row) ∧
    (roundRow env now answers row).status = row.status ∧
    (roundRow env now answers row).cooldownUntil = row.cooldownUntil ∧
    (roundRow env now answers row).rpmLimit = row.rpmLimit ∧
    ((afterPass env db now answers committedAt).account? row.id = some row ∨
      (afterPass env db now answers committedAt).account? row.id =
        some (roundRow env now answers row)) ∧
    (afterPass env db now answers committedAt).credentials = db.credentials := by
  have hall :=
    allOrNothing_refreshAccount env (answers row.id).1 (answers row.id).2 (.naive now) row
  refine ⟨hall, hall.kept.1, hall.kept.2.1, hall.kept.2.2, ?_⟩
  cases hpass : refreshOnce env db now answers committedAt with
  | error raised =>
    have hdb : afterPass env db now answers committedAt = db := by
      simp [afterPass, hpass, Except.toOption]
    rw [hdb]
    exact ⟨Or.inl (account?_of_mem hids hrow), rfl⟩
  | ok committed =>
    have hdb : afterPass env db now answers committedAt = committed := by
      simp [afterPass, hpass, Except.toOption]
    obtain ⟨-, rfl⟩ := refreshOnce_eq_ok_iff.1 hpass
    rw [hdb]
    have hcredentials : db.credentials.map (fun c => c) ++ [] = db.credentials := by simp
    refine ⟨?_, hcredentials⟩
    cases hc : activeRecord? db row with
    | none => exact Or.inl (account?_of_no_target hids hrow hc)
    | some credential => exact Or.inr (account?_of_target hids hrow hc)

end Pass

def healthyAnswers : String → RequestResult × RequestResult := fun _ =>
  (.answered { status := 200, jsonBody := some [("remainingCredits", .int 40)] },
    .answered { status := 200, jsonBody := some [("data", .obj [("activeJobs", .int 1)])] })

/-- The balance of the sample account falls from 100 to the 40 that are reported. -/
theorem allOrNothing_sample : let env := sampleEnv .sqlite
    let db := (sampleState .sqlite).store
    ∃ row row', db.account? "account-1" = some row ∧
      (afterPass env db 0 healthyAnswers 0).account? "account-1" = some row' ∧
      row'.remainingCreditsLive = some 40 ∧
      AllOrNothing env (healthyAnswers "account-1").1 (healthyAnswers "account-1").2 (.naive 0)
        row row' := by
  intro env db
  have hids : (db.accounts.map (·.id)).Nodup := by decide
  have hrow : db.accounts.head (by decide) ∈ db.accounts := List.head_mem _
  have hall := @allOrNothing env db 0 0 healthyAnswers _ hids hrow
  exact ⟨_, _, rfl, rfl, rfl, hall.1⟩

/-! ### What the database takes -/

/-- The database takes the number, or the column holds it already. -/
def Fits (b : Backend) (old : Option ℤ) (v : ℤ) : Prop :=
  old = some v ∨ b.bindsInteger (some v) = true

def TextFits (b : Backend) (old : Option String) (text : String) : Prop :=
  old = some text ∨ b.bindsText (some text) = true

/-- The database takes every number two answers give. -/
structure FiguresFit (b : Backend) (usage queue : JsonObject) (row : FirecrawlAccountRecord) :
    Prop where
  remaining : ∀ v, FirstOf IsFigure (nestedData usage) remainingKeys v →
    Fits b row.remainingCreditsLive v
  plan : ∀ v, FirstOf IsFigure (nestedData usage) planKeys v → Fits b row.planCreditsLive v
  active : ∀ v, FirstOf IsFigure (nestedData queue) activeKeys v → Fits b row.queueActiveJobs v
  concurrency : ∀ v, FirstOf IsFigure (nestedData queue) concurrencyKeys v →
    Fits b row.queueMaxConcurrency v

section Binds

variable {b : Backend} {env : Env} {usageResult queueResult : RequestResult} {now : DateTime}
  {row : FirecrawlAccountRecord}

theorem columnBinds_figure_iff {data : JsonObject} {keys : List String} {new old : Option ℤ}
    (hnew : new = intFromKeys data keys) :
    columnBinds b.bindsInteger old (new <|> old) = true ↔
      ∀ v, FirstOf IsFigure data keys v → Fits b old v := by
  simp only [← intFromKeys_eq_some, ← hnew]
  cases new with
  | none => simp
  | some v =>
    simp only [Option.some.injEq, forall_eq']
    exact columnBinds_iff.trans (or_congr_left eq_comm)

theorem columnBinds_date {data : JsonObject} {keys : List String} {new old : Option DateTime}
    (hnew : ∀ old, DateMerged env data keys old (new <|> old)) :
    columnBinds b.bindsDateTime old (new <|> old) = true := by
  cases hd : new with
  | none => exact columnBinds_unchanged
  | some d =>
    refine columnBinds_of_binds ?_
    have hstore : storeDateTime (some d) = some d := naive_of_dateMerged hnew d hd
    have hnaive : d.isNaive = true := by
      rw [← Option.some.inj hstore]
      rfl
    change (b = .sqlite || d.isNaive) = true
    rw [hnaive, Bool.or_true]

/-- The failures of a round itself have a text the database takes. -/
theorem bindsText_ownFailures (b : Backend) :
    ∀ failure ∈ ownFailures, b.bindsText (some (safeErrorMessage failure)) = true := by
  cases b with
  | sqlite => exact fun _ _ => rfl
  | postgresql => decide +kernel

theorem refreshAccount_of_raises {failure : Failure}
    (h : Raises usageResult queueResult failure) :
    refreshAccount env usageResult queueResult now =
      .refreshError (safeErrorMessage failure) now := by
  cases h <;> rfl

theorem columnBinds_now (hnaive : now.isNaive = true) (old : Option DateTime) :
    columnBinds b.bindsDateTime old (some now) = true :=
  columnBinds_of_binds (by simp [Backend.bindsDateTime, hnaive])

theorem binds_refreshSuccess_iff {usage queue : JsonObject} {r : RefreshSuccess}
    (hnaive : now.isNaive = true) (hreads : Reads env usage queue now r) :
    FirecrawlAccountRecord.binds b (AccountEdit.mk row (.refreshSuccess r)).object = true ↔
      FiguresFit b usage queue row := by
  have hclear : ∀ old, columnBinds b.bindsDateTime old none = true := fun old =>
    columnBinds_of_binds rfl
  have hcleared : ∀ old, columnBinds b.bindsText old none = true := fun old =>
    columnBinds_of_binds rfl
  have hfit : FiguresFit b usage queue row ↔ _ ∧ _ ∧ _ ∧ _ :=
    ⟨fun h => ⟨h.remaining, h.plan, h.active, h.concurrency⟩,
      fun ⟨h1, h2, h3, h4⟩ => ⟨h1, h2, h3, h4⟩⟩
  rw [hfit, ← columnBinds_figure_iff hreads.remaining, ← columnBinds_figure_iff hreads.plan,
    ← columnBinds_figure_iff hreads.active, ← columnBinds_figure_iff hreads.concurrency]
  unfold AccountEdit.object AccountWrite.apply updateAccountRefreshSuccess
    FirecrawlAccountRecord.binds
  simp only [columnBinds_unchanged, columnBinds_date hreads.billingStart,
    columnBinds_date hreads.billingEnd, hreads.refreshedAt, columnBinds_now hnaive, hclear,
    hcleared, Bool.and_eq_true, true_and, and_true, and_assoc]

theorem binds_refreshError_iff (hnaive : now.isNaive = true) (text : String) :
    FirecrawlAccountRecord.binds b (AccountEdit.mk row (.refreshError text now)).object = true ↔
      TextFits b row.lastRefreshErrorMessage text := by
  have hbinds : FirecrawlAccountRecord.binds b
      (AccountEdit.mk row (.refreshError text now)).object =
      columnBinds b.bindsText row.lastRefreshErrorMessage (some text) := by
    unfold AccountEdit.object AccountWrite.apply markAccountRefreshError
      FirecrawlAccountRecord.binds
    simp only [columnBinds_unchanged, columnBinds_now hnaive, Bool.true_and]
  rw [hbinds]
  exact columnBinds_iff.trans (or_congr_left eq_comm)

/-- **The database takes the edit of a round** exactly when it takes its numbers or its text. -/
theorem binds_refreshAccount_iff (hnaive : now.isNaive = true)
    (hdates : ∀ usage queue, successJson usageResult = some usage →
      successJson queueResult = some queue → DatesInRange env usage) :
    FirecrawlAccountRecord.binds b
        (AccountEdit.mk row (refreshAccount env usageResult queueResult now)).object = true ↔
      (∀ usage queue, successJson usageResult = some usage → successJson queueResult = some queue →
        FiguresFit b usage queue row) ∧
      ∀ failure, Raises usageResult queueResult failure →
        TextFits b row.lastRefreshErrorMessage (safeErrorMessage failure) := by
  rcases refreshAccount_cases env usageResult queueResult now with
    ⟨usage, queue, r, husable, hwrite, hreads⟩ | ⟨hnot, failure, hwrite, hfailure⟩
  · have hanswers : ∀ failure, ¬ Raises usageResult queueResult failure := by
      rintro failure (⟨⟩ | ⟨⟩)
      · exact nomatch husable.1
      · exact nomatch husable.2.1
    rw [hwrite, binds_refreshSuccess_iff hnaive hreads]
    simp [husable.1, husable.2.1, hanswers]
  · have hnone : ∀ usage queue, successJson usageResult = some usage →
        successJson queueResult = some queue → FiguresFit b usage queue row :=
      fun usage queue husage hqueue =>
        absurd ⟨husage, hqueue, hdates usage queue husage hqueue⟩ (hnot usage queue)
    rw [hwrite, binds_refreshError_iff hnaive]
    constructor
    · refine fun h => ⟨hnone, fun failure' hraises => ?_⟩
      obtain ⟨hsame, -⟩ :=
        AccountWrite.refreshError.inj (hwrite.symm.trans (refreshAccount_of_raises hraises))
      rwa [← hsame]
    · rintro ⟨-, h⟩
      rcases hfailure with hraises | hown
      · exact h failure hraises
      · exact Or.inr (bindsText_ownFailures b failure hown)

end Binds

/-! ### Every outcome committed -/

/-- The error fields hold the time of the pass and a text, that of the exception if a request or
the round has raised one. -/
structure ErrorRecorded (env : Env) (usageResult queueResult : RequestResult) (now : DateTime)
    (row' : FirecrawlAccountRecord) : Prop where
  errorAt : row'.lastRefreshErrorAt = some now
  message : row'.lastRefreshErrorMessage ≠ none
  ofFailure : ∀ failure, refreshSuccess env usageResult queueResult now = .error failure →
    row'.lastRefreshErrorMessage = some (safeErrorMessage failure)

/-- **The outcome of an account is stored**: the refreshed values when both calls succeed, and else
the error fields; a key that cannot be decrypted is a failure too. -/
structure Outcome (env : Env) (usageResult queueResult : RequestResult)
    (credential : FirecrawlCredentialRecord) (now : DateTime)
    (row row' : FirecrawlAccountRecord) : Prop where
  refreshed : (env.decrypt credential.apiKeyEncrypted).isSome = true → ∀ usage queue,
    successJson usageResult = some usage → successJson queueResult = some queue →
    Refreshed env usage queue now row row'
  failed : env.decrypt credential.apiKeyEncrypted = none ∨ successJson usageResult = none ∨
    successJson queueResult = none → ErrorRecorded env usageResult queueResult now row'

/-- **One pass commits the outcome of every account** with an active credential. -/
def AllCommitted (env : Env) (db : Database) (now : ℤ)
    (answers : String → RequestResult × RequestResult) (committedAt : ℤ) : Prop :=
  ∃ db', refreshOnce env db now answers committedAt = .ok db' ∧
    ∀ row ∈ db.accounts, ∀ credential, activeRecord? db row = some credential →
      ∃ row', db'.account? row.id = some row' ∧
        Outcome env (answers row.id).1 (answers row.id).2 credential (.naive now) row row'

/-- The round of an account does not stop the pass: its key can be decrypted, the dates of its
answers exist in UTC, and the database takes what is stored. -/
structure Committable (env : Env) (usageResult queueResult : RequestResult)
    (credential : FirecrawlCredentialRecord) (row : FirecrawlAccountRecord) : Prop where
  key : (env.decrypt credential.apiKeyEncrypted).isSome = true
  dates : ∀ usage queue, successJson usageResult = some usage →
    successJson queueResult = some queue → DatesInRange env usage
  figures : ∀ usage queue, successJson usageResult = some usage →
    successJson queueResult = some queue → FiguresFit env.backend usage queue row
  text : ∀ failure, Raises usageResult queueResult failure →
    TextFits env.backend row.lastRefreshErrorMessage (safeErrorMessage failure)

section Outcomes

variable {env : Env} {db : Database} {now committedAt : ℤ}
  {answers : String → RequestResult × RequestResult} {row : FirecrawlAccountRecord}
  {credential : FirecrawlCredentialRecord} {usageResult queueResult : RequestResult}

theorem outcome_refreshAccount (hkey : (env.decrypt credential.apiKeyEncrypted).isSome = true)
    (hdates : ∀ usage queue, successJson usageResult = some usage →
      successJson queueResult = some queue → DatesInRange env usage) :
    Outcome env usageResult queueResult credential (.naive now) row
      ((refreshAccount env usageResult queueResult (.naive now)).apply row) := by
  rcases refreshSuccess_cases env usageResult queueResult (.naive now) with
    ⟨usage, queue, r, husable, hok, hreads⟩ | ⟨hnot, failure, herror, -⟩
  · unfold refreshAccount
    rw [hok]
    refine ⟨fun _ usage' queue' husage hqueue => ?_, ?_⟩
    · obtain rfl : usage = usage' := Option.some.inj (husable.1.symm.trans husage)
      obtain rfl : queue = queue' := Option.some.inj (husable.2.1.symm.trans hqueue)
      exact hreads.refreshed row
    · rintro (hnone | hnone | hnone)
      · rw [hnone] at hkey
        cases hkey
      · rw [husable.1] at hnone
        cases hnone
      · rw [husable.2.1] at hnone
        cases hnone
  · unfold refreshAccount
    rw [herror]
    refine ⟨fun _ usage queue husage hqueue =>
      absurd ⟨husage, hqueue, hdates usage queue husage hqueue⟩ (hnot usage queue),
      fun _ => ⟨rfl, Option.some_ne_none _, fun failure' herror' => ?_⟩⟩
    rw [Except.error.inj (herror.symm.trans herror')]
    rfl

/-- A stored outcome of a round that goes through tells that the dates of its answers exist. -/
theorem dates_of_outcome (hkey : (env.decrypt credential.apiKeyEncrypted).isSome = true)
    (h : Outcome env usageResult queueResult credential (.naive now) row
      ((refreshAccount env usageResult queueResult (.naive now)).apply row)) :
    ∀ usage queue, successJson usageResult = some usage → successJson queueResult = some queue →
      DatesInRange env usage := by
  intro usage queue husage hqueue
  rcases refreshAccount_cases env usageResult queueResult (.naive now) with
    ⟨usage', queue', r, husable, -, -⟩ | ⟨-, failure, hwrite, -⟩
  · obtain rfl : usage' = usage := Option.some.inj (husable.1.symm.trans husage)
    exact husable.2.2
  · have herror := (h.refreshed hkey usage queue husage hqueue).errorAt
    rw [hwrite] at herror
    cases herror

/-- **One failure stops the others**: a pass commits the outcome of every account exactly when each
round, of whatever account, is committable. -/
theorem allCommitted_iff (hids : (db.accounts.map (·.id)).Nodup) :
    AllCommitted env db now answers committedAt ↔
      ∀ row ∈ db.accounts, ∀ credential, activeRecord? db row = some credential →
        Committable env (answers row.id).1 (answers row.id).2 credential row := by
  constructor
  · rintro ⟨db', hpass, h⟩ row hrow credential hc
    obtain ⟨htaken, rfl⟩ := refreshOnce_eq_ok_iff.1 hpass
    obtain ⟨hkey, hbinds⟩ := htaken row hrow credential hc
    obtain ⟨row', hrow', houtcome⟩ := h row hrow credential hc
    obtain rfl := Option.some.inj ((account?_of_target hids hrow hc).symm.trans hrow')
    have hdates := dates_of_outcome hkey houtcome
    obtain ⟨hfigures, htext⟩ := (binds_refreshAccount_iff rfl hdates).1 hbinds
    exact ⟨hkey, hdates, hfigures, htext⟩
  · intro h
    refine ⟨_, refreshOnce_eq_ok_iff.2 ⟨fun row hrow credential hc => ?_, rfl⟩,
      fun row hrow credential hc => ?_⟩
    · obtain ⟨hkey, hdates, hfigures, htext⟩ := h row hrow credential hc
      exact ⟨hkey, (binds_refreshAccount_iff rfl hdates).2 ⟨hfigures, htext⟩⟩
    · obtain ⟨hkey, hdates, -, -⟩ := h row hrow credential hc
      exact ⟨_, account?_of_target hids hrow hc, outcome_refreshAccount hkey hdates⟩

end Outcomes

/-! ### A key that cannot be decrypted -/

/-- The sample deployment with a second account, whose stored key is damaged. -/
def damagedDatabase : Database :=
  let db := (sampleState .sqlite).store
  { db with
    accounts := db.accounts ++ [{ id := "account-2", teamLabel := "team-2", planType := "free" }]
    credentials := db.credentials ++
      [{ id := "credential-2", accountId := "account-2", name := none, apiKeyEncrypted := [0] }] }

/-- Both calls for the first account succeed, and nothing of it is stored. -/
theorem not_allCommitted_sample : let env := sampleEnv .sqlite
    refreshOnce env damagedDatabase 0 healthyAnswers 0 = .error .invalidToken ∧
    ¬ AllCommitted env damagedDatabase 0 healthyAnswers 0 := by
  intro env
  have hpass : refreshOnce env damagedDatabase 0 healthyAnswers 0 = .error .invalidToken := rfl
  refine ⟨hpass, ?_⟩
  rintro ⟨db', hok, -⟩
  rw [hpass] at hok
  cases hok

/-- Without the second account the pass commits. -/
theorem allCommitted_iff_sample :
    AllCommitted (sampleEnv .sqlite) (sampleState .sqlite).store 0 healthyAnswers 0 := by
  have hids : ((sampleState .sqlite).store.accounts.map (·.id)).Nodup := by decide
  refine (allCommitted_iff hids).2 fun row hrow credential hc => ?_
  obtain rfl : row = (sampleState .sqlite).store.accounts.head (by decide) :=
    List.mem_singleton.1 hrow
  obtain rfl := Option.some.inj hc
  have hdates : ∀ keys ∈ [startKeys, endKeys], ∀ parsed, ¬ DateOf (sampleEnv .sqlite)
      [("remainingCredits", .int 40)] keys parsed := by
    rintro keys hkeys parsed ⟨s, hfirst, -⟩
    rw [← findSome?_eq_some_iff_firstOf str?_eq_some] at hfirst
    simp only [List.mem_cons, List.not_mem_nil, or_false] at hkeys
    rcases hkeys with rfl | rfl <;> cases hfirst
  refine ⟨rfl, fun usage queue husage _ => ?_, fun usage queue husage hqueue => ?_,
    fun _ h => by cases h⟩
  · obtain rfl := Option.some.inj husage
    exact ⟨fun parsed h => absurd h (hdates _ (by simp) parsed),
      fun parsed h => absurd h (hdates _ (by simp) parsed)⟩
  · obtain rfl := Option.some.inj husage
    obtain rfl := Option.some.inj hqueue
    exact ⟨(columnBinds_figure_iff rfl).1 rfl, (columnBinds_figure_iff rfl).1 rfl,
      (columnBinds_figure_iff rfl).1 rfl, (columnBinds_figure_iff rfl).1 rfl⟩

end FirecrawlLb.Firecrawl.RefreshPass
