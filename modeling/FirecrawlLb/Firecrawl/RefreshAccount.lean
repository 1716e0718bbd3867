import FirecrawlLb.Firecrawl.Refresh

/-!
# One account of a refresh pass

* `Refreshed`: the record of an account after two answers, the recognised values of both stored;
* `OnlyErrors`: a record of which at most the error fields differ;
* `refreshAccount_cases`: one round leaves the first after two usable answers, else the second.
-/

namespace FirecrawlLb.Firecrawl.RefreshAccount

open FirecrawlLb.Lib FirecrawlLb.Python FirecrawlLb.Db.Models FirecrawlLb.Firecrawl.Repository
open FirecrawlLb.Firecrawl.Service FirecrawlLb.Firecrawl.Refresh

/-! ### The first key with a value -/

/-- A number that stands for an integer; a Boolean is none. -/
inductive IsFigure : Json → ℤ → Prop
  | int (i : ℤ) : IsFigure (.int i) i
  | float (i : ℤ) : IsFigure (.float (.finite i)) i

def IsText (value : Json) (s : String) : Prop := value = .str s

/-- The value `v` of the first of the keys that has one. -/
def FirstOf {γ : Type} (p : Json → γ → Prop) (data : JsonObject) (keys : List String) (v : γ) :
    Prop :=
  ∃ before key after, keys = before ++ key :: after ∧ p (data.get key) v ∧
    ∀ k ∈ before, ∀ w, ¬ p (data.get k) w

/-- The first value under the keys is stored, and without one the old value stays. -/
def Merged {γ : Type} (p : Json → γ → Prop) (data : JsonObject) (keys : List String)
    (old new : Option γ) : Prop :=
  (∃ v, FirstOf p data keys v ∧ new = some v) ∨ ((∀ v, ¬ FirstOf p data keys v) ∧ new = old)

/-- The first text under the keys denotes the datetime. -/
def DateOf (env : Env) (data : JsonObject) (keys : List String) (parsed : DateTime) : Prop :=
  ∃ s, FirstOf IsText data keys s ∧ env.fromisoformat (strReplace s "Z" "+00:00") = some parsed

/-- The datetime of the first text is stored as naive UTC, and without one the old value stays. -/
def DateMerged (env : Env) (data : JsonObject) (keys : List String) (old new : Option DateTime) :
    Prop :=
  (∃ parsed, DateOf env data keys parsed ∧ new = some (.naive parsed.instant)) ∨
    ((∀ parsed, ¬ DateOf env data keys parsed) ∧ new = old)

theorem integral?_eq_some (value : Json) (v : ℤ) :
    integral? value = some v ↔ IsFigure value v := by
  constructor
  · intro h
    unfold integral? at h
    split at h
    · rename_i i
      obtain rfl := Option.some.inj h
      exact .int i
    · rename_i q
      split at h
      · rename_i hden
        obtain rfl := Option.some.inj h
        have hq : q = (q.num : ℚ) := (Rat.den_eq_one_iff q).1 hden |>.symm
        rw [hq, Rat.num_intCast]
        exact .float _
      · cases h
    · cases h
  · rintro (i | i)
    · rfl
    · simp [integral?]

theorem str?_eq_some (value : Json) (s : String) : value.str? = some s ↔ IsText value s :=
  Json.str?_eq_some

section Keys

variable {γ : Type} {f : Json → Option γ} {p : Json → γ → Prop} {data : JsonObject}
  {keys : List String}

theorem findSome?_eq_some_iff_firstOf (hf : ∀ value v, f value = some v ↔ p value v) {v : γ} :
    keys.findSome? (fun key => f (data.get key)) = some v ↔ FirstOf p data keys v := by
  have hnone : ∀ value, f value = none ↔ ∀ w, ¬ p value w := fun value => by
    simp only [← hf, Option.eq_none_iff_forall_ne_some, ne_eq]
  simp only [List.findSome?_eq_some_iff, FirstOf, hf, hnone]

theorem findSome?_eq_none_iff_firstOf (hf : ∀ value v, f value = some v ↔ p value v) :
    keys.findSome? (fun key => f (data.get key)) = none ↔ ∀ v, ¬ FirstOf p data keys v := by
  simp only [← findSome?_eq_some_iff_firstOf hf, Option.eq_none_iff_forall_ne_some, ne_eq]

end Keys

section Merge

variable {env : Env} {data : JsonObject} {keys : List String}

theorem intFromKeys_eq_some {v : ℤ} :
    intFromKeys data keys = some v ↔ FirstOf IsFigure data keys v :=
  findSome?_eq_some_iff_firstOf integral?_eq_some

theorem merged_intFromKeys (data : JsonObject) (keys : List String) (old : Option ℤ) :
    Merged IsFigure data keys old (intFromKeys data keys <|> old) := by
  cases h : intFromKeys data keys with
  | some v => exact Or.inl ⟨v, intFromKeys_eq_some.1 h, rfl⟩
  | none => exact Or.inr ⟨(findSome?_eq_none_iff_firstOf integral?_eq_some).1 h, rfl⟩

/-- The UTC form of a datetime is between the first and the last one there is. -/
def InRange (d : DateTime) : Prop :=
  d.isNaive = true ∨ (DateTime.minWall ≤ d.instant ∧ d.instant ≤ DateTime.maxWall)

theorem toNaiveUtc_of_inRange {d : DateTime} (h : InRange d) :
    d.toNaiveUtc = .ok (.naive d.instant) := by
  obtain ⟨wall, offset⟩ := d
  cases offset with
  | none => simp [DateTime.toNaiveUtc, DateTime.naive, DateTime.instant]
  | some offset =>
    rcases h with h | h
    · cases h
    · exact if_pos h

theorem toNaiveUtc_of_not_inRange {d : DateTime} (h : ¬ InRange d) :
    d.toNaiveUtc = .error .overflowError := by
  obtain ⟨wall, offset⟩ := d
  cases offset with
  | none => exact absurd (Or.inl rfl) h
  | some offset => exact if_neg fun hin => h (Or.inr hin)

/-- The failure of a datetime whose UTC form does not exist. -/
def outOfRange : Failure := ⟨"date value out of range", "OverflowError"⟩

/-- **Reading a datetime** fails when it is out of range, and else gives what is to be stored. -/
theorem datetimeFromKeys_spec (env : Env) (data : JsonObject) (keys : List String) :
    ((∀ parsed, DateOf env data keys parsed → InRange parsed) ∧
      ∃ d, datetimeFromKeys env data keys = .ok d ∧
        ∀ old, DateMerged env data keys old (d <|> old)) ∨
    ((∃ parsed, DateOf env data keys parsed ∧ ¬ InRange parsed) ∧
      datetimeFromKeys env data keys = .error outOfRange) := by
  have hfirst : ∀ s, keys.findSome? (fun key => (data.get key).str?) = some s ↔
      FirstOf IsText data keys s := fun s => findSome?_eq_some_iff_firstOf str?_eq_some
  unfold datetimeFromKeys
  cases hs : keys.findSome? (fun key => (data.get key).str?) with
  | none =>
    have hno : ∀ parsed, ¬ DateOf env data keys parsed := by
      rintro parsed ⟨s, hfirsts, -⟩
      rw [(hfirst s).2 hfirsts] at hs
      cases hs
    exact Or.inl ⟨fun parsed h => absurd h (hno parsed), none, rfl, fun old => Or.inr ⟨hno, rfl⟩⟩
  | some s =>
    -- the first text under the keys is the only one that counts
    have honly : ∀ parsed, DateOf env data keys parsed ↔
        env.fromisoformat (strReplace s "Z" "+00:00") = some parsed := by
      intro parsed
      constructor
      · rintro ⟨s', hfirsts', hparsed⟩
        obtain rfl : s = s' := Option.some.inj (hs.symm.trans ((hfirst s').2 hfirsts'))
        exact hparsed
      · exact fun hparsed => ⟨s, (hfirst s).1 hs, hparsed⟩
    simp only [parseDatetime]
    cases hiso : env.fromisoformat (strReplace s "Z" "+00:00") with
    | none =>
      have hno : ∀ parsed, ¬ DateOf env data keys parsed := fun parsed h => by
        rw [honly, hiso] at h
        cases h
      exact Or.inl ⟨fun parsed h => absurd h (hno parsed), none, rfl, fun old => Or.inr ⟨hno, rfl⟩⟩
    | some parsed =>
      have hparsed : DateOf env data keys parsed := (honly parsed).2 hiso
      have hunique : ∀ other, DateOf env data keys other → other = parsed := fun other h =>
        (Option.some.inj (hiso.symm.trans ((honly other).1 h))).symm
      by_cases hrange : InRange parsed
      · refine Or.inl ⟨fun other h => hunique other h ▸ hrange, some (.naive parsed.instant), ?_,
          fun old => Or.inl ⟨parsed, hparsed, rfl⟩⟩
        simp only [toNaiveUtc_of_inRange hrange]
      · refine Or.inr ⟨⟨parsed, hparsed, hrange⟩, ?_⟩
        simp only [toNaiveUtc_of_not_inRange hrange, outOfRange]

end Merge

/-! ### Two answers -/

def remainingKeys : List String := ["remaining", "remainingCredits", "remaining_credits"]

def planKeys : List String := ["plan", "planCredits", "plan_credits", "totalCredits"]

def startKeys : List String := ["billingPeriodStart", "billing_period_start", "periodStart"]

def endKeys : List String := ["billingPeriodEnd", "billing_period_end", "periodEnd"]

def activeKeys : List String := ["active", "activeJobs", "active_jobs", "queueActiveJobs"]

def concurrencyKeys : List String := ["maxConcurrency", "max_concurrency", "concurrency"]

/-- The JSON object of an answer with a 2xx status. -/
def successJson : RequestResult → Option JsonObject
  | .answered response => if response.isSuccess then response.jsonBody else none
  | .raised _ => none

structure DatesInRange (env : Env) (usage : JsonObject) : Prop where
  billingStart : ∀ parsed, DateOf env (nestedData usage) startKeys parsed → InRange parsed
  billingEnd : ∀ parsed, DateOf env (nestedData usage) endKeys parsed → InRange parsed

/-- **Both answers can be used**: they are 2xx JSON objects, and the dates exist in UTC. -/
def Usable (env : Env) (usageResult queueResult : RequestResult) (usage queue : JsonObject) :
    Prop :=
  successJson usageResult = some usage ∧ successJson queueResult = some queue ∧
    DatesInRange env usage

/-- What the `try` block takes from two usable answers. -/
structure Reads (env : Env) (usage queue : JsonObject) (now : DateTime) (r : RefreshSuccess) :
    Prop where
  remaining : r.remainingCredits = intFromKeys (nestedData usage) remainingKeys
  plan : r.planCredits = intFromKeys (nestedData usage) planKeys
  billingStart :
    ∀ old, DateMerged env (nestedData usage) startKeys old (r.billingPeriodStart <|> old)
  billingEnd : ∀ old, DateMerged env (nestedData usage) endKeys old (r.billingPeriodEnd <|> old)
  active : r.queueActiveJobs = intFromKeys (nestedData queue) activeKeys
  concurrency : r.queueMaxConcurrency = intFromKeys (nestedData queue) concurrencyKeys
  refreshedAt : r.refreshedAt = now

/-- The exception of a request that ends a round. -/
inductive Raises : RequestResult → RequestResult → Failure → Prop
  | usage (failure : Failure) (queueResult : RequestResult) :
      Raises (.raised failure) queueResult failure
  | queue (response : FirecrawlUpstreamResponse) (failure : Failure) :
      Raises (.answered response) (.raised failure) failure

/-- The failures of the round itself. -/
def ownFailures : List Failure :=
  [⟨"credit usage refresh failed", "ValueError"⟩, ⟨"queue status refresh failed", "ValueError"⟩,
    outOfRange]

section Answers

variable {env : Env}

theorem requireSuccessJson_cases (response : FirecrawlUpstreamResponse) (label : String) :
    (∃ json, successJson (.answered response) = some json ∧
      requireSuccessJson response label = .ok json) ∨
    (successJson (.answered response) = none ∧
      requireSuccessJson response label = .error ⟨label, "ValueError"⟩) := by
  unfold requireSuccessJson successJson FirecrawlUpstreamResponse.isSuccess
  by_cases hstatus : response.status < 200 ∨ response.status ≥ 300
  · refine Or.inr ⟨if_neg ?_, if_pos hstatus⟩
    simp only [Bool.and_eq_true, decide_eq_true_eq]
    omega
  · have hsuccess : (200 ≤ response.status && response.status < 300) = true := by
      simp only [Bool.and_eq_true, decide_eq_true_eq]
      omega
    simp only [if_neg hstatus, if_pos hsuccess]
    cases response.jsonBody with
    | none => exact Or.inr ⟨rfl, rfl⟩
    | some json => exact Or.inl ⟨json, rfl, rfl⟩

theorem parseCreditUsage_cases (env : Env) (usage : JsonObject) :
    (DatesInRange env usage ∧ ∃ start stop, parseCreditUsage env usage =
        .ok ⟨intFromKeys (nestedData usage) remainingKeys, intFromKeys (nestedData usage) planKeys,
          start, stop⟩ ∧
      (∀ old, DateMerged env (nestedData usage) startKeys old (start <|> old)) ∧
      ∀ old, DateMerged env (nestedData usage) endKeys old (stop <|> old)) ∨
    (¬ DatesInRange env usage ∧ parseCreditUsage env usage = .error outOfRange) := by
  have hparse : parseCreditUsage env usage =
      (datetimeFromKeys env (nestedData usage) startKeys).bind fun start =>
        (datetimeFromKeys env (nestedData usage) endKeys).bind fun stop =>
          .ok ⟨intFromKeys (nestedData usage) remainingKeys,
            intFromKeys (nestedData usage) planKeys, start, stop⟩ := rfl
  rw [hparse]
  rcases datetimeFromKeys_spec env (nestedData usage) startKeys with
    ⟨hstartRange, start, hstart, hstartMerged⟩ | ⟨⟨parsed, hdate, hout⟩, hstart⟩
  · rcases datetimeFromKeys_spec env (nestedData usage) endKeys with
      ⟨hstopRange, stop, hstop, hstopMerged⟩ | ⟨⟨parsed, hdate, hout⟩, hstop⟩
    · exact Or.inl ⟨⟨hstartRange, hstopRange⟩, start, stop, by rw [hstart, hstop]; rfl,
        hstartMerged, hstopMerged⟩
    · exact Or.inr ⟨fun h => hout (h.billingEnd parsed hdate), by rw [hstart, hstop]; rfl⟩
  · exact Or.inr ⟨fun h => hout (h.billingStart parsed hdate), by rw [hstart]; rfl⟩

/-- **The `try` block** goes through after two usable answers; else it ends with the exception of a
request, or with one of its own. -/
theorem refreshSuccess_cases (env : Env) (usageResult queueResult : RequestResult)
    (now : DateTime) :
    (∃ usage queue r, Usable env usageResult queueResult usage queue ∧
      refreshSuccess env usageResult queueResult now = .ok r ∧ Reads env usage queue now r) ∨
    ((∀ usage queue, ¬ Usable env usageResult queueResult usage queue) ∧
      ∃ failure, refreshSuccess env usageResult queueResult now = .error failure ∧
        (Raises usageResult queueResult failure ∨ failure ∈ ownFailures)) := by
  cases usageResult with
  | raised failure =>
    exact Or.inr ⟨fun _ _ h => (nomatch h.1), failure, rfl, Or.inl (.usage failure _)⟩
  | answered usageResponse =>
    cases queueResult with
    | raised failure =>
      exact Or.inr ⟨fun _ _ h => (nomatch h.2.1), failure, rfl, Or.inl (.queue _ failure)⟩
    | answered queueResponse =>
      have htry : refreshSuccess env (.answered usageResponse) (.answered queueResponse) now =
          (requireSuccessJson usageResponse "credit usage refresh failed").bind fun usage =>
            (parseCreditUsage env usage).bind fun u =>
              (requireSuccessJson queueResponse "queue status refresh failed").bind fun queue =>
                .ok ⟨u.remainingCredits, u.planCredits, u.billingPeriodStart, u.billingPeriodEnd,
                  (parseQueueStatus queue).activeJobs, (parseQueueStatus queue).maxConcurrency,
                  now⟩ := rfl
      rw [htry]
      rcases requireSuccessJson_cases usageResponse "credit usage refresh failed" with
        ⟨usage, husage, hrequire⟩ | ⟨hnone, hrequire⟩
      · rcases parseCreditUsage_cases env usage with
          ⟨hdates, start, stop, hparse, hstart, hstop⟩ | ⟨hdates, hparse⟩
        · rcases requireSuccessJson_cases queueResponse "queue status refresh failed" with
            ⟨queue, hqueue, hrequire'⟩ | ⟨hnone, hrequire'⟩
          · exact Or.inl ⟨usage, queue, _, ⟨husage, hqueue, hdates⟩,
              by rw [hrequire, Except.bind, hparse, Except.bind, hrequire']; rfl,
              ⟨rfl, rfl, hstart, hstop, rfl, rfl, rfl⟩⟩
          · refine Or.inr ⟨fun _ _ h => ?_, ⟨"queue status refresh failed", "ValueError"⟩,
              by rw [hrequire, Except.bind, hparse, Except.bind, hrequire']; rfl,
              Or.inr (by decide)⟩
            rw [h.2.1] at hnone
            cases hnone
        · refine Or.inr ⟨fun usage' _ h => ?_, outOfRange,
            by rw [hrequire, Except.bind, hparse]; rfl, Or.inr (by decide)⟩
          obtain rfl : usage = usage' := Option.some.inj (husage.symm.trans h.1)
          exact hdates h.2.2
      · refine Or.inr ⟨fun _ _ h => ?_, ⟨"credit usage refresh failed", "ValueError"⟩,
          by rw [hrequire]; rfl, Or.inr (by decide)⟩
        rw [h.1] at hnone
        cases hnone

end Answers

/-! ### The record of the account -/

/-- **The record after two usable answers**: the recognised values are stored, the others keep
their old value, both refresh times are set and the error fields are cleared. -/
structure Refreshed (env : Env) (usage queue : JsonObject) (now : DateTime)
    (row row' : FirecrawlAccountRecord) : Prop where
  remaining : Merged IsFigure (nestedData usage) remainingKeys row.remainingCreditsLive
    row'.remainingCreditsLive
  plan : Merged IsFigure (nestedData usage) planKeys row.planCreditsLive row'.planCreditsLive
  billingStart : DateMerged env (nestedData usage) startKeys row.billingPeriodStart
    row'.billingPeriodStart
  billingEnd : DateMerged env (nestedData usage) endKeys row.billingPeriodEnd row'.billingPeriodEnd
  active : Merged IsFigure (nestedData queue) activeKeys row.queueActiveJobs row'.queueActiveJobs
  concurrency : Merged IsFigure (nestedData queue) concurrencyKeys row.queueMaxConcurrency
    row'.queueMaxConcurrency
  usageAt : row'.lastUsageRefreshAt = some now
  queueAt : row'.lastQueueRefreshAt = some now
  errorAt : row'.lastRefreshErrorAt = none
  errorMessage : row'.lastRefreshErrorMessage = none
  rest : row' = { row with
    remainingCreditsLive := row'.remainingCreditsLive
    planCreditsLive := row'.planCreditsLive
    billingPeriodStart := row'.billingPeriodStart
    billingPeriodEnd := row'.billingPeriodEnd
    queueActiveJobs := row'.queueActiveJobs
    queueMaxConcurrency := row'.queueMaxConcurrency
    lastUsageRefreshAt := row'.lastUsageRefreshAt
    lastQueueRefreshAt := row'.lastQueueRefreshAt
    lastRefreshErrorAt := row'.lastRefreshErrorAt
    lastRefreshErrorMessage := row'.lastRefreshErrorMessage }

/-- At most the error fields differ. -/
def OnlyErrors (row row' : FirecrawlAccountRecord) : Prop :=
  row' = { row with
    lastRefreshErrorAt := row'.lastRefreshErrorAt
    lastRefreshErrorMessage := row'.lastRefreshErrorMessage }

/-- **All or nothing**: both answers can be used and all of their values are stored, or one of them
cannot and at most the error fields change. -/
def AllOrNothing (env : Env) (usageResult queueResult : RequestResult) (now : DateTime)
    (row row' : FirecrawlAccountRecord) : Prop :=
  (∃ usage queue, Usable env usageResult queueResult usage queue ∧
      Refreshed env usage queue now row row') ∨
    ((∀ usage queue, ¬ Usable env usageResult queueResult usage queue) ∧ OnlyErrors row row')

section Record

variable {env : Env} {usage queue : JsonObject} {now : DateTime} {r : RefreshSuccess}

theorem Reads.refreshed (h : Reads env usage queue now r) (row : FirecrawlAccountRecord) :
    Refreshed env usage queue now row (updateAccountRefreshSuccess r row) where
  remaining := by
    change Merged _ _ _ _ (r.remainingCredits <|> row.remainingCreditsLive)
    rw [h.remaining]
    exact merged_intFromKeys _ _ _
  plan := by
    change Merged _ _ _ _ (r.planCredits <|> row.planCreditsLive)
    rw [h.plan]
    exact merged_intFromKeys _ _ _
  billingStart := h.billingStart _
  billingEnd := h.billingEnd _
  active := by
    change Merged _ _ _ _ (r.queueActiveJobs <|> row.queueActiveJobs)
    rw [h.active]
    exact merged_intFromKeys _ _ _
  concurrency := by
    change Merged _ _ _ _ (r.queueMaxConcurrency <|> row.queueMaxConcurrency)
    rw [h.concurrency]
    exact merged_intFromKeys _ _ _
  usageAt := congrArg some h.refreshedAt
  queueAt := congrArg some h.refreshedAt
  errorAt := rfl
  errorMessage := rfl
  rest := rfl

/-- Neither outcome touches the status, the cooldown or the rate limit. -/
theorem AllOrNothing.kept {usageResult queueResult : RequestResult}
    {row row' : FirecrawlAccountRecord}
    (h : AllOrNothing env usageResult queueResult now row row') :
    row'.status = row.status ∧ row'.cooldownUntil = row.cooldownUntil ∧
      row'.rpmLimit = row.rpmLimit := by
  rcases h with ⟨usage, queue, -, hrefreshed⟩ | ⟨-, herrors⟩
  · rw [hrefreshed.rest]
    exact ⟨rfl, rfl, rfl⟩
  · rw [herrors]
    exact ⟨rfl, rfl, rfl⟩

/-- **One round** stores everything after two usable answers, and an error otherwise. -/
theorem refreshAccount_cases (env : Env) (usageResult queueResult : RequestResult)
    (now : DateTime) :
    (∃ usage queue r, Usable env usageResult queueResult usage queue ∧
      refreshAccount env usageResult queueResult now = .refreshSuccess r ∧
      Reads env usage queue now r) ∨
    ((∀ usage queue, ¬ Usable env usageResult queueResult usage queue) ∧
      ∃ failure, refreshAccount env usageResult queueResult now =
          .refreshError (safeErrorMessage failure) now ∧
        (Raises usageResult queueResult failure ∨ failure ∈ ownFailures)) := by
  unfold refreshAccount
  rcases refreshSuccess_cases env usageResult queueResult now with
    ⟨usage, queue, r, husable, hok, hreads⟩ | ⟨hnot, failure, herror, hfailure⟩
  · exact Or.inl ⟨usage, queue, r, husable, by rw [hok], hreads⟩
  · exact Or.inr ⟨hnot, failure, by rw [herror], hfailure⟩

theorem allOrNothing_refreshAccount (env : Env) (usageResult queueResult : RequestResult)
    (now : DateTime) (row : FirecrawlAccountRecord) :
    AllOrNothing env usageResult queueResult now row
      ((refreshAccount env usageResult queueResult now).apply row) := by
  rcases refreshAccount_cases env usageResult queueResult now with
    ⟨usage, queue, r, husable, hwrite, hreads⟩ | ⟨hnot, failure, hwrite, -⟩
  · rw [hwrite]
    exact Or.inl ⟨usage, queue, husable, hreads.refreshed row⟩
  · rw [hwrite]
    exact Or.inr ⟨hnot, rfl⟩

end Record

end FirecrawlLb.Firecrawl.RefreshAccount
