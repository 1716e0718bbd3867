import FirecrawlLb.Firecrawl.Client
import FirecrawlLb.Firecrawl.Stored

/-!
# The end of a POST

From the moment its request is sent, a POST ends in one of three ways: it fails in the client, it
fails while it records the outcome, or it commits its log.  The two failures lose the log.  The
reply is rendered after the commit, and where this fails the caller gets no answer.
-/

namespace FirecrawlLb.Firecrawl.Delivery

open FirecrawlLb.Lib FirecrawlLb.Python FirecrawlLb.Db.Models FirecrawlLb.Firecrawl.Models
open FirecrawlLb.Firecrawl.Usage FirecrawlLb.Firecrawl.Routing FirecrawlLb.Firecrawl.Repository
open FirecrawlLb.Firecrawl.Service FirecrawlLb.Firecrawl.Client FirecrawlLb.Firecrawl.Stored

/-- What the outside supplies to a POST that is sent: what comes of the request, the clock readings,
and the database when the row is read and before the commit. -/
structure Ending where
  outcome : Outcome
  answeredAt : ℤ
  latencyMs : ℤ
  read : Database
  before : Database
  committedAt : ℤ

/-- What ends a POST early. -/
inductive CallError where
  | client (e : ClientError)
  | raised (e : Raised)
  /-- A text that the commit binds cannot be encoded. -/
  | unicodeEncodeError

/-- The texts of the answer that the commit binds, the job id and the error message, have a UTF-8
form. -/
def textsEncode (http : Http) (response : FirecrawlUpstreamResponse) : Bool :=
  (upstreamJobId response.jsonBody).all http.encodable &&
    (errorMessage response.jsonBody response.textBody).all http.encodable

/-- `proxy` and `submit_job` from the moment the request is sent. -/
def finish (env : Env) (http : Http) (post : Post) (selected : FirecrawlSelectedAccount)
    (x : Ending) : Except CallError (FirecrawlUpstreamResponse × Database) := do
  let response ← (request http x.outcome).mapError .client
  let (session, target) ←
    (post.answered selected response (.utc x.answeredAt) x.latencyMs).mapError .raised
  if !textsEncode http response then throw .unicodeEncodeError
  let db ←
    ((session.perform? x.read target).commit env.backend x.committedAt x.before).mapError .raised
  return (response, db)

/-- The database the call leaves: an exception rolls its session back. -/
def databaseAfter (env : Env) (http : Http) (post : Post) (selected : FirecrawlSelectedAccount)
    (x : Ending) : Database :=
  (finish env http post selected x).toOption.elim x.before (·.2)

/-- What the caller gets; none stands for an exception. -/
def replyTo (env : Env) (http : Http) (post : Post) (selected : FirecrawlSelectedAccount)
    (x : Ending) : Option Reply :=
  (finish env http post selected x).toOption.bind fun r => upstreamResponse http r.1

/-- One log is added, for the account, the credential and the endpoint. -/
def Logged (post : Post) (selected : FirecrawlSelectedAccount) (before after : Database) : Prop :=
  ∃ log, after.requestLogs = before.requestLogs ++ [log] ∧
    log.accountId = some selected.account.id ∧ log.credentialId = some selected.credential.id ∧
    log.endpoint = post.endpoint

/-- The call is logged, and the caller gets the answer of the upstream, if there is one. -/
def Delivered (env : Env) (http : Http) (post : Post) (selected : FirecrawlSelectedAccount)
    (x : Ending) : Prop :=
  Logged post selected x.before (databaseAfter env http post selected x) ∧
  ∀ answer, x.outcome = .answered answer →
    ∃ reply, replyTo env http post selected x = some reply ∧ Relays http answer reply

/-! ### What the commit binds -/

/-- **What the database has to take**: the values of the log, and what the method on the account or
the credential writes. -/
structure Storable (b : Backend) (post : Post) (selected : FirecrawlSelectedAccount)
    (answer : HttpAnswer) (body : Option JsonObject) (text : Option String) (x : Ending) :
    Prop where
  endpoint : b.bindsText post.endpoint = true
  upstreamJobId : b.bindsText (upstreamJobId body) = true
  errorMessage : b.bindsText (errorMessage body text) = true
  status : b.bindsInteger answer.status = true
  estimate : b.bindsInteger selected.estimatedCredits = true
  latency : b.bindsInteger x.latencyMs = true
  credits : ∀ c, estimateCredits post.endpoint post.payload body = .ok c → b.bindsInteger c = true
  balance : post.kind = .proxy → 200 ≤ answer.status → answer.status < 300 →
    ∀ c, estimateCredits post.endpoint post.payload body = .ok c →
    ∀ row ∈ x.read.account? selected.account.id,
      columnBinds b.bindsInteger row.remainingCreditsLive
        (row.remainingCreditsLive.map fun live => max 0 (live - c)) = true
  lastErrorAt : answer.status = 401 → ∀ row ∈ x.read.credential? selected.credential.id,
    columnBinds b.bindsDateTime row.lastErrorAt (some (.utc x.answeredAt)) = true
  cooldown : answer.status = 429 → ∃ c,
    cooldownUntil answer.headers (.utc x.answeredAt) = .ok c ∧
    ∀ row ∈ x.read.account? selected.account.id,
      columnBinds b.bindsDateTime row.cooldownUntil (some c) = true

section Binds

variable {b : Backend} {s : Session} {db db' : Database} {row : FirecrawlAccountRecord}

/-- The database takes what the method on a row writes. -/
def targetBinds (b : Backend) (db : Database) : Option RowWrite → Bool
  | none => true
  | some (.account id write) => (db.account? id).all fun row =>
      FirecrawlAccountRecord.binds b (AccountEdit.mk row write).object
  | some (.credential id write) => (db.credential? id).all fun row =>
      FirecrawlCredentialRecord.binds b (CredentialEdit.mk row write).object

theorem binds_perform? (haccounts : s.accounts = []) (hcredential : s.credential = none)
    (target : Option RowWrite) :
    (s.perform? db target).binds b db' = (s.binds b db' && targetBinds b db target) := by
  rcases target with _ | ⟨id, write⟩ | ⟨id, write⟩
  · simp [Session.perform?, targetBinds]
  · cases hrow : db.account? id with
    | none => simp [Session.perform?, Session.perform, targetBinds, hrow]
    | some row =>
      have hperform : s.perform? db (some (.account id write)) =
          { s with accounts := [⟨row, write⟩] } := by
        simp [Session.perform?, Session.perform, hrow, haccounts]
      rw [hperform]
      cases hbinds : FirecrawlAccountRecord.binds b (AccountEdit.mk row write).object <;>
        simp [Session.binds, targetBinds, hrow, haccounts, hbinds]
  · cases hrow : db.credential? id with
    | none => simp [Session.perform?, Session.perform, targetBinds, hrow]
    | some row =>
      have hperform : s.perform? db (some (.credential id write)) =
          { s with credential := some ⟨row, write⟩ } := by
        simp [Session.perform?, Session.perform, hrow]
      rw [hperform]
      cases hbinds : FirecrawlCredentialRecord.binds b (CredentialEdit.mk row write).object <;>
        simp [Session.binds, targetBinds, hrow, haccounts, hcredential, hbinds]

theorem binds_status (read : Option String) (status : String) :
    columnBinds Option.isSome read (some status) = true :=
  columnBinds_of_binds rfl

theorem binds_applySuccess (credits : ℤ) : FirecrawlAccountRecord.binds b
    (AccountEdit.mk row (.applySuccess credits)).object =
      columnBinds b.bindsInteger row.remainingCreditsLive
        (row.remainingCreditsLive.map fun live => max 0 (live - credits)) := by
  have hvalue : (AccountEdit.mk row (.applySuccess credits)).object =
      ⟨row, applySuccess credits row⟩ := rfl
  have hcooldown : columnBinds b.bindsDateTime row.cooldownUntil none = true :=
    columnBinds_of_binds rfl
  rw [hvalue, applySuccess_eq]
  unfold FirecrawlAccountRecord.binds
  by_cases hstatus : row.status = some FirecrawlAccountStatus.rateLimited.value <;>
    simp [hstatus, hcooldown, binds_status]

theorem binds_markCreditExhausted : FirecrawlAccountRecord.binds b
    (AccountEdit.mk row .markCreditExhausted).object = true := by
  simp [AccountEdit.object, AccountWrite.apply, markAccountCreditExhausted,
    FirecrawlAccountRecord.binds, binds_status]

theorem binds_markRateLimited (c : DateTime) : FirecrawlAccountRecord.binds b
    (AccountEdit.mk row (.markRateLimited c)).object =
      columnBinds b.bindsDateTime row.cooldownUntil (some c) := by
  simp [AccountEdit.object, AccountWrite.apply, markAccountRateLimited,
    FirecrawlAccountRecord.binds, binds_status]

theorem binds_markInvalid {credential : FirecrawlCredentialRecord} (message : Option String)
    (now : DateTime) : FirecrawlCredentialRecord.binds b
      (CredentialEdit.mk credential (.markInvalid message now)).object =
        (columnBinds b.bindsDateTime credential.lastErrorAt (some now) &&
          columnBinds b.bindsText credential.lastErrorMessage message) := rfl

end Binds

/-! ### When the outcome is recorded -/

section Recorded

variable {b : Backend} {post : Post} {selected : FirecrawlSelectedAccount}
  {response : FirecrawlUpstreamResponse} {now : DateTime} {credits latencyMs : ℤ} {db : Database}

/-- The log and the job row of an answered POST bind what the log binds. -/
theorem binds_records : (post.records selected response credits latencyMs now).binds b db = true ↔
    b.bindsText post.endpoint = true ∧ b.bindsText (upstreamJobId response.jsonBody) = true ∧
    b.bindsText (errorMessage response.jsonBody response.textBody) = true ∧
    b.bindsInteger response.status = true ∧ b.bindsInteger selected.estimatedCredits = true ∧
    b.bindsInteger credits = true ∧ b.bindsInteger latencyMs = true := by
  have hlog : (requestLog selected.account.id selected.credential.id post.endpoint response
      (requestStatus response.status) selected.estimatedCredits credits latencyMs now).insertBinds
        b = true ↔
      b.bindsText post.endpoint = true ∧ b.bindsText (upstreamJobId response.jsonBody) = true ∧
      b.bindsText (errorMessage response.jsonBody response.textBody) = true ∧
      b.bindsInteger response.status = true ∧ b.bindsInteger selected.estimatedCredits = true ∧
      b.bindsInteger credits = true ∧ b.bindsInteger latencyMs = true := by
    simp [FirecrawlRequestLogRecord.insertBinds, requestLog, and_assoc]
  rw [← hlog]
  constructor
  · intro h
    exact (Bool.and_eq_true_iff.1 h).2
  · intro h
    obtain ⟨hendpoint, hjobId, -, -, hestimate, -, -⟩ := hlog.1 h
    have hjob : (post.newJob? selected response now).all (FirecrawlJobRecord.insertBinds b) =
        true := by
      cases hnew : post.newJob? selected response now with
      | none => rfl
      | some job =>
        obtain ⟨-, jobId, hid, rfl⟩ := Post.newJob?_eq_some.1 hnew
        rw [hid] at hjobId
        simp [FirecrawlJobRecord.insertBinds, Post.submittedJob, hendpoint, hjobId, hestimate]
    simp [Session.binds, Post.records, hjob, h]

theorem exists_outcomeTarget_iff
    (hmessage : b.bindsText (errorMessage response.jsonBody response.textBody) = true) :
    (∃ target, outcomeTarget selected.account.id selected.credential.id response credits now
        (post.kind = .proxy) = .ok target ∧ targetBinds b db target = true) ↔
      (post.kind = .proxy → 200 ≤ response.status → response.status < 300 →
        ∀ row ∈ db.account? selected.account.id,
          columnBinds b.bindsInteger row.remainingCreditsLive
            (row.remainingCreditsLive.map fun live => max 0 (live - credits)) = true) ∧
      (response.status = 401 → ∀ row ∈ db.credential? selected.credential.id,
        columnBinds b.bindsDateTime row.lastErrorAt (some now) = true) ∧
      (response.status = 429 → ∃ c, cooldownUntil response.headers now = .ok c ∧
        ∀ row ∈ db.account? selected.account.id,
          columnBinds b.bindsDateTime row.cooldownUntil (some c) = true) := by
  have hok : response.isSuccess = true ↔ 200 ≤ response.status ∧ response.status < 300 := by
    simp [FirecrawlUpstreamResponse.isSuccess]
  unfold outcomeTarget
  split_ifs with h1 h2 h3 h4
  · simp only [Bool.and_eq_true, decide_eq_true_eq] at h1
    obtain ⟨hlow, hhigh⟩ := hok.1 h1.1
    have h401 : response.status ≠ 401 := by omega
    have h429 : response.status ≠ 429 := by omega
    simp [targetBinds, binds_applySuccess, Option.all_eq_true, h1.2, hlow, hhigh, h401, h429]
  · have hmessage' : ∀ read : Option String, columnBinds b.bindsText read
        (errorMessage response.jsonBody response.textBody) = true :=
      fun read => columnBinds_of_binds hmessage
    simp [targetBinds, binds_markInvalid, Option.all_eq_true, h2, hmessage']
  · simp [targetBinds, binds_markCreditExhausted, h3]
  · cases cooldownUntil response.headers now <;>
      simp [targetBinds, binds_markRateLimited, Option.all_eq_true, h4, Except.map]
  · have hnot : post.kind = .proxy → 200 ≤ response.status → ¬ response.status < 300 := by
      intro hk hlow hhigh
      exact h1 (by simp [hok.2 ⟨hlow, hhigh⟩, hk])
    simp only [targetBinds, h2, h4, false_imp_iff, and_true]
    refine iff_of_true ⟨none, rfl, rfl⟩ fun hk hlow hhigh => absurd hhigh (hnot hk hlow)

end Recorded

/-! ### The whole end -/

/-- **What it takes**: the upstream answers, the answer can be read, rendered and stored. -/
structure Deliverable (env : Env) (http : Http) (post : Post) (selected : FirecrawlSelectedAccount)
    (x : Ending) (answer : HttpAnswer) : Prop where
  answered : x.outcome = .answered answer
  readable : Readable http answer
  renderable : Renderable http answer
  storable : Storable env.backend post selected answer (jsonBody http answer)
    (textBody http answer) x

section Finish

variable {env : Env} {http : Http} {post : Post} {selected : FirecrawlSelectedAccount} {x : Ending}
  {response : FirecrawlUpstreamResponse} {db : Database}

theorem finish_eq_ok : finish env http post selected x = .ok (response, db) ↔
    request http x.outcome = .ok response ∧ textsEncode http response = true ∧
    ∃ session target,
      post.answered selected response (.utc x.answeredAt) x.latencyMs = .ok (session, target) ∧
      (session.perform? x.read target).binds env.backend x.before = true ∧
      db = (session.perform? x.read target).flush x.committedAt x.before := by
  unfold finish
  constructor
  · intro h
    obtain ⟨response', hrequest, h⟩ := bind_eq_ok.1 h
    obtain ⟨⟨session, target⟩, hanswered, h⟩ := bind_eq_ok.1 h
    cases hencode : textsEncode http response' with
    | false =>
      rw [hencode] at h
      cases h
    | true =>
      rw [hencode] at h
      obtain ⟨db', hcommit, h⟩ := bind_eq_ok.1 h
      obtain ⟨rfl, rfl⟩ := Prod.mk.inj (pure_eq_ok.1 h)
      obtain ⟨hbinds, rfl⟩ := commit_eq_ok.1 (mapError_eq_ok.1 hcommit)
      exact ⟨mapError_eq_ok.1 hrequest, hencode, session, target, mapError_eq_ok.1 hanswered,
        hbinds, rfl⟩
  · rintro ⟨hrequest, hencode, session, target, hanswered, hbinds, rfl⟩
    refine bind_eq_ok.2 ⟨response, mapError_eq_ok.2 hrequest, bind_eq_ok.2 ⟨(session, target),
      mapError_eq_ok.2 hanswered, ?_⟩⟩
    rw [hencode]
    exact bind_eq_ok.2 ⟨_, mapError_eq_ok.2 (commit_eq_ok.2 ⟨hbinds, rfl⟩), rfl⟩

theorem perform?_newLog (s : Session) (db : Database) (target : Option RowWrite) :
    (s.perform? db target).newLog = s.newLog := by
  cases target with
  | none => rfl
  | some target =>
    change (s.perform db target).newLog = s.newLog
    rcases perform_cases s db target with h | ⟨_, _, _, -, -, h⟩ | ⟨e, h⟩ <;> rw [h]

theorem textsEncode_of_renderable {answer : HttpAnswer} (h : Renderable http answer)
    {response : FirecrawlUpstreamResponse} (hjson : response.jsonBody = jsonBody http answer)
    (htext : response.textBody = textBody http answer) : textsEncode http response = true := by
  rw [textsEncode, hjson, htext, Bool.and_eq_true, Option.all_eq_true, Option.all_eq_true]
  cases hbody : jsonBody http answer with
  | none => exact ⟨nofun, fun text ht => h.text text ht⟩
  | some body =>
    have hrenders := h.json body hbody
    have hget : ∀ {o : JsonObject} {key s : String}, renders http (.obj o) = true →
        (o.get key).str? = some s → http.encodable s = true :=
      fun ho hs => encodable_of_renders ho (Json.str?_eq_some.1 hs)
    constructor
    · intro jobId hjobId
      simp only [upstreamJobId, Option.bind_some, Option.orElse_eq_some] at hjobId
      -- the id stands under one of two keys, or in the object under `data`
      rcases hjobId with hid | ⟨-, hid | ⟨-, hid⟩⟩
      · exact hget hrenders hid
      · exact hget hrenders hid
      · obtain ⟨data, hdata, hid⟩ := Option.bind_eq_some_iff.1 hid
        have hobject := renders_of_get hrenders "data"
        rw [Json.obj?_eq_some.1 hdata] at hobject
        exact hget hobject hid
    · intro message hmessage
      have hobject := renders_of_get hrenders "error"
      unfold errorMessage at hmessage
      dsimp only at hmessage
      split at hmessage
      · rename_i message' herror
        obtain rfl := Option.some.inj hmessage
        exact encodable_of_renders hrenders herror
      · rename_i nested herror
        rw [herror] at hobject
        exact hget hobject hmessage
      · cases hmessage

/-- **The outcome of an answer is recorded exactly when the database takes it.** -/
theorem exists_finish_iff {answer : HttpAnswer} {credits : ℤ}
    (hrequest : request http x.outcome = .ok response) (hstatus : response.status = answer.status)
    (hheaders : response.headers = answer.headers)
    (hcredits : estimateCredits post.endpoint post.payload response.jsonBody = .ok credits) :
    (∃ r, finish env http post selected x = .ok r) ↔ textsEncode http response = true ∧
      Storable env.backend post selected answer response.jsonBody response.textBody x := by
  have hcharge : ∀ c, estimateCredits post.endpoint post.payload response.jsonBody = .ok c →
      credits = c := by
    intro c hc
    exact Except.ok.inj (hcredits.symm.trans hc)
  constructor
  · rintro ⟨⟨response', db⟩, hfinish⟩
    obtain ⟨hrequest', hencode, session, target, hanswered, hbinds, -⟩ := finish_eq_ok.1 hfinish
    obtain rfl : response = response' := Except.ok.inj (hrequest.symm.trans hrequest')
    refine ⟨hencode, ?_⟩
    rw [Post.answered_eq hcredits] at hanswered
    obtain ⟨target', htarget, h⟩ := map_eq_ok.1 hanswered
    obtain ⟨rfl, rfl⟩ := Prod.mk.inj h
    rw [binds_perform? rfl rfl, Bool.and_eq_true, binds_records] at hbinds
    obtain ⟨⟨hendpoint, hjobId, hmessage, hcode, hestimate, hcredit, hlatency⟩, hrow⟩ := hbinds
    obtain ⟨hbalance, hinvalid, hlimited⟩ :=
      (exists_outcomeTarget_iff hmessage).1 ⟨target', htarget, hrow⟩
    rw [hstatus] at hcode hbalance hinvalid hlimited
    rw [hheaders] at hlimited
    refine ⟨hendpoint, hjobId, hmessage, hcode, hestimate, hlatency, fun c hc => ?_,
      fun hk hlow hhigh c hc => ?_, hinvalid, hlimited⟩
    · rwa [← hcharge c hc]
    · rw [← hcharge c hc]
      exact hbalance hk hlow hhigh
  · rintro ⟨hencode, h⟩
    have hlimited := h.cooldown
    have hbalance := fun hk hlow hhigh => h.balance hk hlow hhigh credits hcredits
    have hinvalid := h.lastErrorAt
    rw [← hstatus] at hlimited hbalance hinvalid
    rw [← hheaders] at hlimited
    obtain ⟨target, htarget, hrow⟩ :=
      (exists_outcomeTarget_iff h.errorMessage).2 ⟨hbalance, hinvalid, hlimited⟩
    refine ⟨_, finish_eq_ok.2 ⟨hrequest, hencode, post.records selected response credits x.latencyMs
      (.utc x.answeredAt), target, ?_, ?_, rfl⟩⟩
    · rw [Post.answered_eq hcredits, htarget]
      rfl
    · rw [binds_perform? rfl rfl, Bool.and_eq_true, binds_records, hstatus]
      exact ⟨⟨h.endpoint, h.upstreamJobId, h.errorMessage, h.status, h.estimate,
        h.credits credits hcredits, h.latency⟩, hrow⟩

theorem databaseAfter_of_error (h : ¬ ∃ r, finish env http post selected x = .ok r) :
    databaseAfter env http post selected x = x.before := by
  unfold databaseAfter
  cases hfinish : finish env http post selected x with
  | error e => rfl
  | ok r => exact absurd ⟨r, hfinish⟩ h

theorem logged_of_finish (hfinish : finish env http post selected x = .ok (response, db)) :
    Logged post selected x.before (databaseAfter env http post selected x) := by
  obtain ⟨-, -, session, target, hanswered, -, hdb⟩ := finish_eq_ok.1 hfinish
  have hafter : databaseAfter env http post selected x = db := by
    rw [databaseAfter, hfinish]
    rfl
  obtain ⟨credits, hcredits, -⟩ := bind_eq_ok.1 hanswered
  rw [Post.answered_eq hcredits] at hanswered
  obtain ⟨target', -, h⟩ := map_eq_ok.1 hanswered
  obtain ⟨rfl, rfl⟩ := Prod.mk.inj h
  rw [hafter, hdb]
  refine ⟨Session.insertLog x.committedAt x.before (requestLog selected.account.id
    selected.credential.id post.endpoint response (requestStatus response.status)
    selected.estimatedCredits credits x.latencyMs (.utc x.answeredAt)), ?_, rfl, rfl, rfl⟩
  rw [Session.flush, perform?_newLog]
  rfl

/-- The selection of the sample account. -/
def sampleSelected : FirecrawlSelectedAccount :=
  let credential : FirecrawlCredential := { id := "credential-1", apiKey := "fc-1" }
  { account := {
      id := "account-1", teamLabel := "team-1", planType := "free", remainingCredits := 100
      planCredits := 1, credentials := [credential] }
    credential := credential
    estimatedCredits := 1 }

/-- Decoders that read ASCII text; of the bodies that are no JSON value, an empty one is `None`.  No
character stands for a lone surrogate. -/
def sampleHttp : Http where
  json answer := if answer.body = [] then .value .null else .decodeError
  text answer :=
    if answer.body.all (· < 128) then
      some (String.ofList (answer.body.map fun byte => Char.ofNat byte.toNat))
    else none
  encodable _ := true

def sampleEnding (answer : HttpAnswer) : Ending :=
  ⟨.answered answer, 0, 0, (sampleState .sqlite).store, (sampleState .sqlite).store, 0⟩

end Finish

end FirecrawlLb.Firecrawl.Delivery
