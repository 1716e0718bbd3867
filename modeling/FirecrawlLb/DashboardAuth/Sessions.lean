import FirecrawlLb.DashboardAuth.System
import FirecrawlLb.Python.Decimals
import FirecrawlLb.Python.Json

/-!
# Dashboard sessions

`DashboardSessionStore` writes a session with its expiry into an encrypted token.  After a one-time
password, `verify_totp` puts the seconds that are left of a password session on the clock as it is
read a moment later, and never less than one.  The new session ends when the old one does, unless a
second passes between the two readings, or none was left (`notExtended_iff`).
-/

namespace FirecrawlLb.DashboardAuth.Sessions

open FirecrawlLb.Lib FirecrawlLb.Python FirecrawlLb.Db.Models
open FirecrawlLb.DashboardAuth.Repository FirecrawlLb.DashboardAuth.Service
open FirecrawlLb.DashboardAuth.System

/-- `int(t)` of a clock reading -/
def seconds (t : ℚ) : ℤ := if 0 ≤ t then ⌊t⌋ else ⌈t⌉

theorem seconds_mono {t u : ℚ} (h : t ≤ u) : seconds t ≤ seconds u := by
  unfold seconds
  split_ifs with ht hu hu
  · exact Int.floor_mono h
  · exact absurd (ht.trans h) hu
  · exact (Int.ceil_le.2 (by simpa using (not_le.1 ht).le)).trans (Int.floor_nonneg.2 hu)
  · exact Int.ceil_mono h

/-! ### The store -/

/-- `json.dumps` of a truth value -/
def boolText (b : Bool) : List Char := if b then "true".toList else "false".toList

/-- What stands before the expiry in the text of a payload. -/
def expText : List Char := "\x7b\"exp\":".toList

/-- What follows the expiry in the text of a payload. -/
def flagsText (passwordVerified totpVerified : Bool) : List Char :=
  ",\"pw\":".toList ++ boolText passwordVerified ++ ",\"tv\":".toList ++ boolText totpVerified ++
    "\x7d".toList

/-- `json.dumps` of the payload; none when the expiry has too many digits to be written. -/
def dumps (state : DashboardSessionState) : Option String :=
  if (decimal state.expiresAt.natAbs).length ≤ maxStrDigits then
    some (String.ofList (expText ++ (intText state.expiresAt ++
      flagsText state.passwordVerified state.totpVerified)))
  else none

/-- The encryption of tokens, under a nonce, and `json.loads`; none when one of them raises. -/
structure Tokens where
  encrypt : ℕ → String → String
  decrypt : String → Option String
  loads : String → Option Json

/-- What the store relies on of them: a token is no white space and decrypts to its text, and a
payload loads as it was dumped. -/
structure Tokens.Lawful (tokens : Tokens) : Prop where
  strip_encrypt : ∀ nonce text, strip (tokens.encrypt nonce text) = tokens.encrypt nonce text
  encrypt_ne : ∀ nonce text, tokens.encrypt nonce text ≠ ""
  decrypt_encrypt : ∀ nonce text, tokens.decrypt (tokens.encrypt nonce text) = some text
  loads_dumps : ∀ state text, dumps state = some text → tokens.loads text = some (.obj
    [("exp", .int state.expiresAt), ("pw", .bool state.passwordVerified),
      ("tv", .bool state.totpVerified)])

/-- `DashboardSessionStore.create`; none when the payload cannot be dumped. -/
def create (tokens : Tokens) (nonce : ℕ) (passwordVerified totpVerified : Bool) (ttlSeconds : ℤ)
    (now : ℚ) : Option String :=
  (dumps ⟨seconds now + ttlSeconds, passwordVerified, totpVerified⟩).map (tokens.encrypt nonce)

/-- A value that is an `int`: a truth value is one. -/
def int? : Json → Option ℤ
  | .int i => some i
  | .bool b => some b.toInt
  | _ => none

def bool? : Json → Option Bool
  | .bool b => some b
  | _ => none

/-- The session of a payload at a time; the outer none is the `AttributeError` of a payload that is
no dictionary. -/
def readPayload (now : ℚ) : Json → Option (Option DashboardSessionState)
  | .obj data => some do
    let exp ← int? (JsonObject.get data "exp")
    let pw ← bool? (JsonObject.get data "pw")
    let tv ← bool? (JsonObject.get data "tv")
    if exp < seconds now then none else some ⟨exp, pw, tv⟩
  | _ => none

/-- `DashboardSessionStore.get`; the outer none is an `AttributeError`. -/
def get (tokens : Tokens) (sessionId : Option String) (now : ℚ) :
    Option (Option DashboardSessionState) :=
  match sessionId with
  | none => some none
  | some sessionId =>
    let token := strip sessionId
    if token = "" then some none
    else
      match (tokens.decrypt token).bind tokens.loads with
      | none => some none
      | some data => readPayload now data

section Store

variable {tokens : Tokens} {nonce : ℕ} {ttl : ℤ} {now later : ℚ} {sessionId : String}

/-- **What the store reads back** is what it has created, up to its expiry. -/
theorem get_create (lawful : tokens.Lawful) {passwordVerified totpVerified : Bool}
    (h : create tokens nonce passwordVerified totpVerified ttl now = some sessionId) :
    get tokens (some sessionId) later = some
      (if seconds now + ttl < seconds later then none
        else some ⟨seconds now + ttl, passwordVerified, totpVerified⟩) := by
  obtain ⟨text, htext, rfl⟩ := Option.map_eq_some_iff.1 h
  simp [get, lawful.strip_encrypt, lawful.encrypt_ne, lawful.decrypt_encrypt,
    lawful.loads_dumps _ _ htext, readPayload, int?, bool?, JsonObject.get, List.lookup_cons]

end Store

/-! ### The verification -/

/-- The readings of the clock during a verification, which never go back: of the store, of the
code's time step, of the seconds that are left, and of the new session. -/
structure Readings where
  session : ℚ
  code : ℚ
  inherited : ℚ
  created : ℚ
  session_le : session ≤ code
  code_le : code ≤ inherited
  inherited_le : inherited ≤ created

inductive SessionFailure where
  | failure (failure : Failure)
  | attributeError

/-- `_require_active_password_session_with_state` -/
def requireActivePasswordSessionWithState (tokens : Tokens) (settings : DashboardSettings)
    (sessionId : Option String) (now : ℚ) : Except SessionFailure DashboardSessionState :=
  if settings.passwordHash = none then .error (.failure .passwordSessionRequired)
  else
    match get tokens sessionId now with
    | none => .error .attributeError
    | some none => .error (.failure .passwordSessionRequired)
    | some (some session) =>
      if session.passwordVerified then .ok session
      else .error (.failure .passwordSessionRequired)

/-- `DashboardAuthService.verify_totp`: the new session and its seconds.  The row is read as
`settings`, and the conditional update of the last step finds it as `current`. -/
def verifyTotpSession (env : Env) (tokens : Tokens) (nonce : ℕ)
    (settings current : DashboardSettings) (sessionId : Option String) (code : String)
    (clock : Readings) : Except SessionFailure (String × ℤ) := do
  let existingState ←
    requireActivePasswordSessionWithState tokens settings sessionId clock.session
  let matchedStep ← (matchTotpStep env settings code (seconds clock.code)).mapError .failure
  let _ ← (tryAdvanceTotpLastVerifiedStep current matchedStep).elim
    (.error (.failure .totpInvalidCode)) .ok
  let inheritedTtl := max 1 (existingState.expiresAt - seconds clock.inherited)
  let newSessionId ← (create tokens nonce true true inheritedTtl clock.created).elim
    (.error (.failure (.raised .valueError))) .ok
  return (newSessionId, inheritedTtl)

/-- The new session is accepted at no time with an expiry after this one. -/
def NotExtended (tokens : Tokens) (newSessionId : String) (expiresAt : ℤ) : Prop :=
  ∀ now state, get tokens (some newSessionId) now = some (some state) →
    state.expiresAt ≤ expiresAt

section Verification

variable {env : Env} {tokens : Tokens} {nonce : ℕ} {settings current : DashboardSettings}
  {sessionId : Option String} {code newSessionId : String} {clock : Readings} {ttl : ℤ}
  {state : DashboardSessionState}

theorem elim_eq_ok {ε α : Type} {x : Option α} {e : ε} {a : α} :
    x.elim (.error e) .ok = (.ok a : Except ε α) ↔ x = some a := by
  cases x <;> simp

theorem requireActivePasswordSessionWithState_eq_ok {now : ℚ} :
    requireActivePasswordSessionWithState tokens settings sessionId now = .ok state ↔
      get tokens sessionId now = some (some state) ∧
        requireActivePasswordSession settings (some state) = .ok () := by
  unfold requireActivePasswordSessionWithState requireActivePasswordSession
  cases hhash : settings.passwordHash with
  | none => simp
  | some passwordHash =>
    rcases get tokens sessionId now with _ | _ | session
    · simp
    · simp
    · by_cases hpassword : session.passwordVerified = true
      · simp only [reduceCtorEq, if_false, hpassword, if_true, Except.ok.injEq, Option.some.injEq]
        refine ⟨fun h => ⟨h, ?_⟩, And.left⟩
        simp [← h, hpassword]
      · simp only [reduceCtorEq, if_false, hpassword, Option.some.injEq, false_iff, not_and]
        rintro rfl
        simp [hpassword]

theorem verifyTotpSession_eq_ok :
    verifyTotpSession env tokens nonce settings current sessionId code clock =
      .ok (newSessionId, ttl) ↔
    ∃ state matchedStep row,
      requireActivePasswordSessionWithState tokens settings sessionId clock.session = .ok state ∧
      matchTotpStep env settings code (seconds clock.code) = .ok matchedStep ∧
      tryAdvanceTotpLastVerifiedStep current matchedStep = some row ∧
      ttl = max 1 (state.expiresAt - seconds clock.inherited) ∧
      create tokens nonce true true ttl clock.created = some newSessionId := by
  unfold verifyTotpSession
  constructor
  · intro h
    obtain ⟨state, hstate, h⟩ := bind_eq_ok.1 h
    obtain ⟨matchedStep, hmatched, h⟩ := bind_eq_ok.1 h
    obtain ⟨row, hadvanced, h⟩ := bind_eq_ok.1 h
    obtain ⟨created, hcreate, h⟩ := bind_eq_ok.1 h
    obtain ⟨rfl, rfl⟩ := Prod.mk.inj (pure_eq_ok.1 h)
    exact ⟨state, matchedStep, row, hstate, mapError_eq_ok.1 hmatched, elim_eq_ok.1 hadvanced,
      rfl, elim_eq_ok.1 hcreate⟩
  · rintro ⟨state, matchedStep, row, hstate, hmatched, hadvanced, rfl, hcreate⟩
    exact bind_eq_ok.2 ⟨state, hstate, bind_eq_ok.2 ⟨matchedStep, mapError_eq_ok.2 hmatched,
      bind_eq_ok.2 ⟨row, elim_eq_ok.2 hadvanced, bind_eq_ok.2 ⟨newSessionId,
        elim_eq_ok.2 hcreate, rfl⟩⟩⟩⟩

/-- **The new session is not extended** if and only if the clock is read twice in one second, before
the old session's last. -/
theorem notExtended_iff (lawful : tokens.Lawful)
    (h : verifyTotpSession env tokens nonce settings current sessionId code clock =
      .ok (newSessionId, ttl))
    (hget : get tokens sessionId clock.session = some (some state)) :
    NotExtended tokens newSessionId state.expiresAt ↔
      seconds clock.inherited = seconds clock.created ∧
        seconds clock.created < state.expiresAt := by
  obtain ⟨found, -, -, hfound, -, -, httl, hcreate⟩ := verifyTotpSession_eq_ok.1 h
  have hfound := (requireActivePasswordSessionWithState_eq_ok.1 hfound).1
  obtain rfl : state = found := Option.some.inj (Option.some.inj (hget.symm.trans hfound))
  have hmono := seconds_mono clock.inherited_le
  have hread : NotExtended tokens newSessionId state.expiresAt ↔
      seconds clock.created + ttl ≤ state.expiresAt := by
    constructor
    · intro hall
      refine hall clock.created ⟨seconds clock.created + ttl, true, true⟩ ?_
      rw [get_create lawful hcreate, if_neg (by omega)]
    · intro hle now state' hstate
      rw [get_create lawful hcreate] at hstate
      split_ifs at hstate
      · cases hstate
      · obtain rfl := Option.some.inj (Option.some.inj hstate)
        exact hle
  rw [hread, httl]
  omega

end Verification

/-! ### A sample store -/

/-- Reads the payloads that `dumps` writes. -/
def sampleLoads (text : String) : Option Json :=
  let items := text.toList.drop expText.length
  let flags := [(true, true), (true, false), (false, true), (false, false)].find? fun flags =>
    items.dropWhile (· ≠ ',') = flagsText flags.1 flags.2
  match intOfStr (String.ofList (items.takeWhile (· ≠ ','))), flags with
  | some exp, some (pw, tv) => some (.obj [("exp", .int exp), ("pw", .bool pw), ("tv", .bool tv)])
  | _, _ => none

/-- The text between two letters stands for its encryption. -/
def sampleTokens : Tokens where
  encrypt _ text := String.ofList ('g' :: (text.toList ++ ['=']))
  decrypt token := some (String.ofList token.toList.tail.dropLast)
  loads := sampleLoads

theorem sampleLoads_dumps {state : DashboardSessionState} {text : String}
    (h : dumps state = some text) : sampleLoads text = some (.obj
      [("exp", .int state.expiresAt), ("pw", .bool state.passwordVerified),
        ("tv", .bool state.totpVerified)]) := by
  unfold dumps at h
  split_ifs at h with hlength
  obtain rfl := Option.some.inj h
  have hcomma : ∀ c ∈ intText state.expiresAt, decide (c ≠ ',') = true := by
    intro c hc
    have hdigit : ∀ c ∈ decimal state.expiresAt.natAbs, decide (c ≠ ',') = true := by
      intro c hc
      have hc := (asciiDigits_decimal _).mem hc
      refine decide_eq_true fun heq => ?_
      rw [heq] at hc
      exact absurd hc (by decide)
    unfold intText at hc
    split_ifs at hc
    · rcases List.mem_cons.1 hc with rfl | hc
      · rfl
      · exact hdigit c hc
    · exact hdigit c hc
  obtain ⟨rest, hflags⟩ :
      ∃ rest, flagsText state.passwordVerified state.totpVerified = ',' :: rest := ⟨_, rfl⟩
  have htake : (intText state.expiresAt ++
      flagsText state.passwordVerified state.totpVerified).takeWhile (· ≠ ',') =
        intText state.expiresAt := by
    rw [List.takeWhile_append_of_pos hcomma, hflags]
    simp
  have hdrop : (intText state.expiresAt ++
      flagsText state.passwordVerified state.totpVerified).dropWhile (· ≠ ',') =
        flagsText state.passwordVerified state.totpVerified := by
    rw [List.dropWhile_append_of_pos hcomma, hflags]
    simp
  have hfind : [(true, true), (true, false), (false, true), (false, false)].find? (fun flags =>
      flagsText state.passwordVerified state.totpVerified = flagsText flags.1 flags.2) =
        some (state.passwordVerified, state.totpVerified) := by
    cases state.passwordVerified <;> cases state.totpVerified <;> decide
  simp only [sampleLoads, String.toList_ofList, List.drop_left, htake, hdrop, hfind,
    intOfStr_intText hlength]

theorem sampleTokens_lawful : sampleTokens.Lawful := by
  refine ⟨fun nonce text => ?_, fun nonce text => ?_, fun nonce text => ?_, fun state text h => ?_⟩
  · have hspace : isSpace 'g' = false ∧ isSpace '=' = false := by decide
    simp [sampleTokens, strip, hspace]
  · intro h
    exact absurd (congrArg String.toList h) (by simp [sampleTokens])
  · simp [sampleTokens]
  · simp only [sampleTokens, sampleLoads_dumps h]

def sampleSettings : DashboardSettings where
  passwordHash := some "local-password"
  totpSecretEncrypted := some (sampleEnv.encrypt 0 "JBSWY3DPEHPK3PXP")

/-- The cookie of a password session that ends at 1700000100. -/
def sampleCookie : String :=
  String.ofList ('g' :: (expText ++ ("1700000100".toList ++ flagsText true false) ++ ['=']))

theorem seconds_natCast (n : ℕ) : seconds n = n := by
  rw [seconds, if_pos (Nat.cast_nonneg n), Int.floor_natCast]

/-- A verification that starts at 1700000000 and creates the session so many seconds later. -/
def sampleReadings (later : ℕ) : Readings where
  session := (1700000000 : ℕ)
  code := (1700000000 : ℕ)
  inherited := (1700000000 : ℕ)
  created := (1700000000 + later : ℕ)
  session_le := le_rfl
  code_le := le_rfl
  inherited_le := Nat.cast_le.2 (Nat.le_add_right _ _)

theorem create_natCast (tokens : Tokens) (nonce : ℕ) (passwordVerified totpVerified : Bool)
    (ttl : ℤ) (n : ℕ) : create tokens nonce passwordVerified totpVerified ttl n =
      (dumps ⟨n + ttl, passwordVerified, totpVerified⟩).map (tokens.encrypt nonce) := by
  rw [create, seconds_natCast]

theorem get_sampleCookie : get sampleTokens (some sampleCookie) (1700000000 : ℕ) =
    some (some ⟨1700000100, true, false⟩) := by
  have hcreate : create sampleTokens 0 true false 100 (1700000000 : ℕ) = some sampleCookie := by
    rw [create_natCast]
    decide
  rw [get_create sampleTokens_lawful hcreate, seconds_natCast]
  rfl

theorem verifyTotpSession_sampleReadings {later : ℕ} {text : String}
    (htext : dumps ⟨1700000100 + later, true, true⟩ = some text) :
    verifyTotpSession sampleEnv sampleTokens 0 sampleSettings sampleSettings (some sampleCookie)
      "666666" (sampleReadings later) = .ok (sampleTokens.encrypt 0 text, 100) := by
  refine verifyTotpSession_eq_ok.2 ⟨⟨1700000100, true, false⟩, 56666666,
    { sampleSettings with totpLastVerifiedStep := some 56666666 }, ?_, ?_, by decide, ?_, ?_⟩
  · exact requireActivePasswordSessionWithState_eq_ok.2 ⟨get_sampleCookie, by decide⟩
  · rw [sampleReadings, seconds_natCast]
    decide
  · rw [sampleReadings, seconds_natCast]
    rfl
  · have hsum : ((1700000000 + later : ℕ) : ℤ) + 100 = 1700000100 + later := by
      push_cast
      ring
    rw [sampleReadings, create_natCast, hsum, htext]
    rfl

theorem notExtended_sample : ∃ newSessionId,
    verifyTotpSession sampleEnv sampleTokens 0 sampleSettings sampleSettings (some sampleCookie)
      "666666" (sampleReadings 0) = .ok (newSessionId, 100) ∧
    NotExtended sampleTokens newSessionId 1700000100 := by
  have htext : dumps ⟨1700000100 + (0 : ℕ), true, true⟩ =
      some (String.ofList (expText ++ ("1700000100".toList ++ flagsText true true))) := by decide
  have hverify := verifyTotpSession_sampleReadings htext
  refine ⟨_, hverify, (notExtended_iff sampleTokens_lawful hverify get_sampleCookie).2 ?_⟩
  simp only [sampleReadings, seconds_natCast]
  decide

/-- A second passes between the two readings: the new session ends a second later. -/
theorem not_notExtended_sample : ∃ newSessionId,
    verifyTotpSession sampleEnv sampleTokens 0 sampleSettings sampleSettings (some sampleCookie)
      "666666" (sampleReadings 1) = .ok (newSessionId, 100) ∧
    get sampleTokens (some sampleCookie) (sampleReadings 1).session =
      some (some ⟨1700000100, true, false⟩) ∧
    ¬ NotExtended sampleTokens newSessionId 1700000100 := by
  have htext : dumps ⟨1700000100 + (1 : ℕ), true, true⟩ =
      some (String.ofList (expText ++ ("1700000101".toList ++ flagsText true true))) := by decide
  have hverify := verifyTotpSession_sampleReadings htext
  obtain ⟨-, -, -, -, -, -, -, hcreate⟩ := verifyTotpSession_eq_ok.1 hverify
  refine ⟨_, hverify, get_sampleCookie, fun h => ?_⟩
  have hcreated : seconds (sampleReadings 1).created = 1700000001 := by
    simp only [sampleReadings, seconds_natCast]
    rfl
  have hget : get sampleTokens (some _) (sampleReadings 1).created = _ :=
    get_create sampleTokens_lawful hcreate
  rw [hcreated] at hget
  exact absurd (h _ _ hget) (by decide)

end FirecrawlLb.DashboardAuth.Sessions
