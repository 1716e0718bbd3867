import FirecrawlLb.Firecrawl.Timestamps

/-!
# Reading an answer

The credits an answer reports are read in two places, and the seconds a 429 announces in one.  The
two readers of credits part at a Boolean above an int, and the reader of `Retry-After` knows two of
the spellings of its name and no time beyond the last datetime.
-/

namespace FirecrawlLb.Firecrawl.AnswerReaders

open FirecrawlLb.Lib FirecrawlLb.Python FirecrawlLb.Db.Models FirecrawlLb.Firecrawl.Models
open FirecrawlLb.Firecrawl.Usage FirecrawlLb.Firecrawl.Repository FirecrawlLb.Firecrawl.Service
open FirecrawlLb.Firecrawl.Timestamps

/-! ### The credits used -/

/-- `creditsUsed` is a Boolean in the answer, and an int in its `data`. -/
def BoolAboveInt (body : JsonObject) : Prop :=
  (∃ b, body.get "creditsUsed" = .bool b) ∧
    ∃ data i, body.get "data" = .obj data ∧ JsonObject.get data "creditsUsed" = .int i

/-- The reader of the estimate, below a Boolean. -/
theorem responseCreditsUsed_of_bool {body : JsonObject} {b : Bool}
    (h : body.get "creditsUsed" = .bool b) : responseCreditsUsed (some body) =
      (body.get "data").obj?.bind fun data => (data.get "creditsUsed").plainInt? := by
  simp only [responseCreditsUsed, h, Json.plainInt?]

/-- **The two readers agree** on every answer but those with a Boolean above an int. -/
theorem readers_agree_iff (body : JsonObject) :
    creditsUsed (some body) = responseCreditsUsed (some body) ↔ ¬ BoolAboveInt body := by
  cases htop : body.get "creditsUsed" with
  | bool b =>
    have hjob : creditsUsed (some body) = none := by
      simp only [creditsUsed, Option.bind_some, htop]
    rw [hjob, responseCreditsUsed_of_bool htop, eq_comm, Option.eq_none_iff_forall_ne_some]
    constructor
    · rintro hnone ⟨-, data, i, hdata, hi⟩
      refine hnone i ?_
      rw [hdata, Json.obj?_eq_some.2 rfl, Option.bind_some, hi]
      rfl
    · intro hnot i hi
      obtain ⟨data, hdata, hi⟩ := Option.bind_eq_some_iff.1 hi
      exact hnot ⟨⟨b, htop⟩, data, i, Json.obj?_eq_some.1 hdata, Json.plainInt?_eq_some.1 hi⟩
  | _ =>
    refine iff_of_true ?_ fun ⟨⟨b, hb⟩, _⟩ => ?_
    · simp only [creditsUsed, responseCreditsUsed, Option.bind_some, htop, Json.plainInt?]
    · rw [htop] at hb
      cases hb

/-- The log of this answer says five credits, and a poll settles nothing. -/
theorem readers_differ :
    responseCreditsUsed
      (some [("creditsUsed", .bool true), ("data", .obj [("creditsUsed", .int 5)])]) = some 5 ∧
    creditsUsed
      (some [("creditsUsed", .bool true), ("data", .obj [("creditsUsed", .int 5)])]) = none ∧
    ¬ ∀ body, creditsUsed (some body) = responseCreditsUsed (some body) := by
  refine ⟨rfl, rfl, fun h => ?_⟩
  have heq := h [("creditsUsed", .bool true), ("data", .obj [("creditsUsed", .int 5)])]
  cases heq

/-! ### The seconds of a 429 -/

/-- The sign and the digits of a string that spells an integer, as `int` reads it. -/
def literal (s : String) : Option (Bool × List ℕ) :=
  let cs := ((s.toList.dropWhile isIntSpace).reverse.dropWhile isIntSpace).reverse
  match cs with
  | '-' :: cs => (digits cs).map (true, ·)
  | '+' :: cs => (digits cs).map (false, ·)
  | cs => (digits cs).map (false, ·)

/-- The value of a literal. -/
def literalValue (l : Bool × List ℕ) : ℤ :=
  let n : ℤ := l.2.foldl (fun n d => 10 * n + d) (0 : ℕ)
  if l.1 then -n else n

/-- The integer a string spells, in however many digits. -/
def integerOf (s : String) : Option ℤ := (literal s).map literalValue

theorem intOfStr_eq (s : String) : intOfStr s = (literal s).bind fun l =>
    if l.2.length ≤ maxStrDigits then some (literalValue l) else none := by
  have hneg : ∀ cs, (natOfChars cs).map (- ·) = ((digits cs).map (true, ·)).bind fun l =>
      if l.2.length ≤ maxStrDigits then some (literalValue l) else none := by
    intro cs
    unfold natOfChars
    cases digits cs with
    | none => rfl
    | some ds =>
      simp only [Option.bind_some, Option.map_some]
      split_ifs <;> rfl
  have hpos : ∀ cs, natOfChars cs = ((digits cs).map (false, ·)).bind fun l =>
      if l.2.length ≤ maxStrDigits then some (literalValue l) else none := by
    intro cs
    unfold natOfChars
    cases digits cs <;> rfl
  unfold intOfStr literal
  generalize ((s.toList.dropWhile isIntSpace).reverse.dropWhile isIntSpace).reverse = cs
  dsimp only
  split
  · exact hneg _
  · exact hpos _
  · rename_i hminus hplus
    simpa only [hminus, hplus] using hpos _

/-- The name is `retry-after`, up to letter case. -/
def IsRetryAfter (name : String) : Prop :=
  name.toList.map Char.toLower = "retry-after".toList

instance (name : String) : Decidable (IsRetryAfter name) := by unfold IsRetryAfter; infer_instance

/-- Some `Retry-After` header carries the number. -/
def Announces (headers : List (String × String)) (n : ℤ) : Prop :=
  ∃ name value, IsRetryAfter name ∧ headers.lookup name = some value ∧ integerOf value = some n

/-- The time `n` seconds later, or the last one. -/
def capped (now n : ℤ) : DateTime := .utc (min (now + n * 1000000) DateTime.maxWall)

/-- **The end of the cooldown is the announced one**, and a minute later when no header carries an
integer. -/
structure Announced (headers : List (String × String)) (now : ℤ) (c : DateTime) : Prop where
  seconds : ∀ n, 0 ≤ n → Announces headers n → c = capped now n
  default : (¬ ∃ n, Announces headers n) → c = .utc (now + 60 * 1000000)

/-- `n` stands, in at most 4300 digits, under `retry-after` or, when nothing does, under
`Retry-After`. -/
def Says (headers : List (String × String)) (n : ℤ) : Prop :=
  ∃ value l, literal value = some l ∧ l.2.length ≤ maxStrDigits ∧ literalValue l = n ∧
    ((headers.lookup "retry-after" = some value ∧ value ≠ "") ∨
      ((∀ v, headers.lookup "retry-after" = some v → v = "") ∧
        headers.lookup "Retry-After" = some value))

/-- The headers announce no number but `m`, and `m` seconds later is a datetime.  Beyond the last
datetime the numbers are all alike. -/
structure Only (headers : List (String × String)) (now m : ℤ) : Prop where
  fits : now + m * 1000000 ≤ DateTime.maxWall
  only : ∀ n, 0 ≤ n → Announces headers n → n = m ∨
    m < n ∧ now + m * 1000000 = DateTime.maxWall

/-- No header announces another number than the one under the two spellings, and none announces
another than a minute where these say nothing. -/
structure Unanimous (headers : List (String × String)) (now : ℤ) : Prop where
  said : ∀ n, Says headers n → Only headers now (max 0 n)
  silent : (¬ ∃ n, Says headers n) → Only headers now 60

/-- A 429 is applied: `_record_outcome` completes, and leaves the account rate limited until the
announced time. -/
def Applied (accountId credentialId endpoint : String) (response : FirecrawlUpstreamResponse)
    (status : String) (estimatedCredits creditsUsed latencyMs now : ℤ) (settleSuccess : Bool) :
    Prop :=
  ∃ session write, recordOutcome accountId credentialId endpoint response status estimatedCredits
      creditsUsed latencyMs (.utc now) settleSuccess =
        .ok (session, some (.account accountId write)) ∧
    ∀ row, (write.apply row).status = some FirecrawlAccountStatus.rateLimited.value ∧
      ∃ c, (write.apply row).cooldownUntil = some c ∧ Announced response.headers now c

section Applied

variable {headers : List (String × String)} {now : ℤ}

theorem addSeconds_utc (now n : ℤ) : (DateTime.utc now).addSeconds n =
    if now + n * 1000000 ≤ DateTime.maxWall then .ok (.utc (now + n * 1000000))
    else .error .overflowError := rfl

theorem intOfStr_eq_some {s : String} {n : ℤ} : intOfStr s = some n ↔
    ∃ l, literal s = some l ∧ l.2.length ≤ maxStrDigits ∧ literalValue l = n := by
  rw [intOfStr_eq, Option.bind_eq_some_iff]
  refine exists_congr fun l => and_congr_right fun _ => ?_
  split_ifs with hdigits <;> simp [hdigits]

/-- The value that is read stands under the first spelling, or under the second when there is
nothing under the first. -/
theorem rawRetryAfter_eq_some {value : String} : rawRetryAfter headers = some value ↔
    (headers.lookup "retry-after" = some value ∧ value ≠ "") ∨
      ((∀ v, headers.lookup "retry-after" = some v → v = "") ∧
        headers.lookup "Retry-After" = some value) := by
  unfold rawRetryAfter
  cases hlower : headers.lookup "retry-after" with
  | none => simp
  | some v =>
    by_cases hv : v = ""
    · simp [hv]
    · have hfilter : (some v).filter (· ≠ "") = some v := by simp [hv]
      rw [hfilter, Option.orElse_eq_orElse, Option.orElse_some]
      refine ⟨fun h => Or.inl ⟨h, Option.some.inj h ▸ hv⟩, ?_⟩
      rintro (⟨h, -⟩ | ⟨hempty, -⟩)
      · exact h
      · exact absurd (hempty v rfl) hv

theorem says_iff {n : ℤ} : Says headers n ↔ (rawRetryAfter headers).bind intOfStr = some n := by
  simp only [Says, Option.bind_eq_some_iff, intOfStr_eq_some, rawRetryAfter_eq_some]
  constructor
  · rintro ⟨value, l, hl, hdigits, hn, hvalue⟩
    exact ⟨value, hvalue, l, hl, hdigits, hn⟩
  · rintro ⟨value, hvalue, l, hl, hdigits, hn⟩
    exact ⟨value, l, hl, hdigits, hn, hvalue⟩

theorem Says.announces {n : ℤ} (h : Says headers n) : Announces headers n := by
  obtain ⟨value, l, hl, -, hn, hvalue⟩ := h
  have hinteger : integerOf value = some n := by rw [integerOf, hl, Option.map_some, hn]
  obtain ⟨hlookup, -⟩ | ⟨-, hlookup⟩ := hvalue
  · exact ⟨_, value, by decide, hlookup, hinteger⟩
  · exact ⟨_, value, by decide, hlookup, hinteger⟩

theorem retryAfterSeconds_of_said {n : ℤ} (h : Says headers n) :
    retryAfterSeconds headers = max 0 n := by
  rw [retryAfterSeconds, says_iff.1 h]
  rfl

theorem retryAfterSeconds_of_silent (h : ¬ ∃ n, Says headers n) :
    retryAfterSeconds headers = 60 := by
  have hnone : (rawRetryAfter headers).bind intOfStr = none := by
    rw [Option.eq_none_iff_forall_ne_some]
    exact fun n hn => h ⟨n, says_iff.2 hn⟩
  rw [retryAfterSeconds, hnone]
  rfl

theorem unanimous_iff : Unanimous headers now ↔ Only headers now (retryAfterSeconds headers) := by
  by_cases hsaid : ∃ n, Says headers n
  · obtain ⟨n, hn⟩ := hsaid
    rw [retryAfterSeconds_of_said hn]
    refine ⟨fun h => h.said n hn, fun h => ⟨fun k hk => ?_, fun hsilent => (hsilent ⟨n, hn⟩).elim⟩⟩
    rwa [← retryAfterSeconds_of_said hk, retryAfterSeconds_of_said hn]
  · rw [retryAfterSeconds_of_silent hsaid]
    exact ⟨fun h => h.silent hsaid, fun h => ⟨fun n hn => (hsaid ⟨n, hn⟩).elim, fun _ => h⟩⟩

theorem announced_iff (hfits : now + retryAfterSeconds headers * 1000000 ≤ DateTime.maxWall) :
    Announced headers now (.utc (now + retryAfterSeconds headers * 1000000)) ↔
      Unanimous headers now := by
  have hcapped : ∀ n, DateTime.utc (now + retryAfterSeconds headers * 1000000) = capped now n ↔
      n = retryAfterSeconds headers ∨ retryAfterSeconds headers < n ∧
        now + retryAfterSeconds headers * 1000000 = DateTime.maxWall := by
    intro n
    simp only [capped, DateTime.utc, DateTime.mk.injEq, and_true]
    omega
  rw [unanimous_iff]
  constructor
  · intro h
    exact ⟨hfits, fun n hn ha => (hcapped n).1 (h.seconds n hn ha)⟩
  · intro h
    refine ⟨fun n hn ha => (hcapped n).2 (h.only n hn ha), fun hnone => ?_⟩
    have hsilent : ¬ ∃ n, Says headers n := fun h => hnone (h.imp fun _ hn => hn.announces)
    rw [retryAfterSeconds_of_silent hsilent]

/-- **A 429 is applied as announced** exactly when its headers are unanimous. -/
theorem applied_iff (accountId credentialId endpoint status : String)
    (response : FirecrawlUpstreamResponse) (estimatedCredits creditsUsed latencyMs now : ℤ)
    (settleSuccess : Bool) (h429 : response.status = 429) :
    Applied accountId credentialId endpoint response status estimatedCredits creditsUsed latencyMs
      now settleSuccess ↔ Unanimous response.headers now := by
  have htarget : outcomeTarget accountId credentialId response creditsUsed (.utc now)
      settleSuccess = (cooldownUntil response.headers (.utc now)).map
        fun c => some (.account accountId (.markRateLimited c)) := by
    simp [outcomeTarget, FirecrawlUpstreamResponse.isSuccess, h429]
  unfold Applied
  rw [recordOutcome_eq, htarget, cooldownUntil_eq, addSeconds_utc]
  by_cases hfits : now + retryAfterSeconds response.headers * 1000000 ≤ DateTime.maxWall
  · rw [← announced_iff hfits, if_pos hfits]
    constructor
    · rintro ⟨session, write, hok, happlied⟩
      obtain ⟨-, hwrite⟩ := Prod.mk.inj (Except.ok.inj hok)
      cases hwrite
      obtain ⟨-, c, hc, hannounced⟩ :=
        happlied { id := "account-1", teamLabel := "team-1", planType := "free" }
      obtain rfl := Option.some.inj hc
      exact hannounced
    · intro hannounced
      exact ⟨_, _, rfl, fun row => ⟨rfl, _, rfl, hannounced⟩⟩
  · rw [if_neg hfits]
    refine iff_of_false ?_ fun h => hfits (unanimous_iff.1 h).fits
    rintro ⟨session, write, hok, -⟩
    cases hok

/-- The name in capitals is not read, and a time of thirty thousand years is not stored. -/
theorem not_applied_sample :
    let shouted : FirecrawlUpstreamResponse :=
      { status := 429, headers := [("RETRY-AFTER", "120")] }
    let distant : FirecrawlUpstreamResponse :=
      { status := 429, headers := [("Retry-After", "999999999999")] }
    cooldownUntil shouted.headers (.utc 0) = .ok (.utc 60000000) ∧
    ¬ Applied "account-1" "credential-1" "map" shouted "rate_limited" 1 1 0 0 true ∧
    (recordOutcome "account-1" "credential-1" "map" distant "rate_limited" 1 1 0 (.utc 0)
      true).map (·.2) = .error .overflowError ∧
    ¬ Applied "account-1" "credential-1" "map" distant "rate_limited" 1 1 0 0 true := by
  intro shouted distant
  have hseconds : retryAfterSeconds shouted.headers = 60 := by decide
  refine ⟨by decide, ?_, rfl, ?_⟩
  · rintro ⟨session, write, hok, happlied⟩
    obtain ⟨-, hwrite⟩ := Prod.mk.inj (Except.ok.inj hok)
    cases hwrite
    obtain ⟨-, c, hc, hannounced⟩ :=
      happlied { id := "account-1", teamLabel := "team-1", planType := "free" }
    obtain rfl := Option.some.inj hc
    have heq := hannounced.seconds 120 (by decide)
      ⟨"RETRY-AFTER", "120", by decide, by decide, by decide⟩
    exact absurd heq (by decide)
  · rintro ⟨session, write, hok, -⟩
    cases hok

/-- A 429 that asks for two minutes. -/
theorem applied_sample :
    Applied "account-1" "credential-1" "map"
      { status := 429, headers := [("Retry-After", "120")] } "rate_limited" 1 1 0 0 true := by
  have hsaid : Says [("Retry-After", "120")] 120 :=
    ⟨"120", (false, [1, 2, 0]), by decide, by decide, by decide, Or.inr ⟨by simp, rfl⟩⟩
  have honly : Only [("Retry-After", "120")] 0 120 := by
    refine ⟨by decide, fun n _ ⟨name, value, _, hvalue, hn⟩ => Or.inl ?_⟩
    obtain ⟨rfl, rfl⟩ : name = "Retry-After" ∧ value = "120" := by
      rw [List.lookup_cons, List.lookup_nil] at hvalue
      split at hvalue
      · rename_i hname
        exact ⟨beq_iff_eq.1 hname, (Option.some.inj hvalue).symm⟩
      · cases hvalue
    exact Option.some.inj (hn.symm.trans (by decide))
  refine (applied_iff "account-1" "credential-1" "map" "rate_limited" _ 1 1 0 0 true rfl).2
    (unanimous_iff.2 ?_)
  rwa [retryAfterSeconds_of_said hsaid]

end Applied

end FirecrawlLb.Firecrawl.AnswerReaders
