import FirecrawlLb.DashboardAuth.TotpSteps

/-!
# The bootstrap token of the replicas

Every replica that starts without a password offers the stored token, and stores one if there is
none.  The replica that stores its token and those that decrypt the stored one offer the same, as
long as the row holds a token with its hash.  The replica that loses the race offers none.
-/

namespace FirecrawlLb.DashboardAuth.BootstrapToken

open FirecrawlLb.Lib FirecrawlLb.Lib.Tasks FirecrawlLb.Lib.Run FirecrawlLb.Db.Models
open FirecrawlLb.Core.Bootstrap FirecrawlLb.DashboardAuth.Repository
open FirecrawlLb.DashboardAuth.Service FirecrawlLb.DashboardAuth.System
open FirecrawlLb.DashboardAuth.TotpSteps (TasksOk)

/-- The row holds an encrypted token. -/
def Holds (env : Env) (row : DashboardSettings) (token : String) : Prop :=
  ∃ tokenEncrypted, row.bootstrapTokenEncrypted = some tokenEncrypted ∧
    env.decrypt tokenEncrypted = some token

/-- The stored hash is that of the token that the row holds. -/
def Matching (env : Env) (row : DashboardSettings) : Prop :=
  ∀ token tokenHash, Holds env row token → row.bootstrapTokenHash = some tokenHash →
    env.sha256 token = tokenHash

/-- Every call that has returned a token has returned the same, whose hash is stored, and which is
valid. -/
def Agreed (env : Env) (p : State) : Prop :=
  ∀ token, .returned (some token) ∈ p.tasks →
    (∀ token', .returned (some token') ∈ p.tasks → token' = token) ∧
    p.store.bootstrapTokenHash = some (env.sha256 token) ∧
    getBootstrapValidationStatus env p.store token = .valid

/-- The event neither sets nor removes the password. -/
def KeepsPassword (env : Env) (p : State) (m : Event) : Prop :=
  ∀ p' ∈ step env p m, p'.store.passwordHash = p.store.passwordHash

instance (env : Env) (p : State) (m : Event) : Decidable (KeepsPassword env p m) :=
  inferInstanceAs (Decidable (∀ p' ∈ step env p m, p'.store.passwordHash = p.store.passwordHash))

/-! ### The stored token -/

section Stored

variable {env : Env} {row row' : DashboardSettings} {t t' : Task} {a : Action} {token : String}

theorem Holds.unique {token' : String} (h : Holds env row token) (h' : Holds env row token') :
    token' = token := by
  obtain ⟨tokenEncrypted, hencrypted, hdecrypt⟩ := h
  obtain ⟨tokenEncrypted', hencrypted', hdecrypt'⟩ := h'
  obtain rfl : tokenEncrypted = tokenEncrypted' :=
    Option.some.inj (hencrypted.symm.trans hencrypted')
  exact Option.some.inj (hdecrypt'.symm.trans hdecrypt)

theorem matching_of_cleared (h : row.bootstrapTokenHash = none) : Matching env row := by
  intro token tokenHash _ hstored
  rw [h] at hstored
  cases hstored

theorem Matching.of_kept (h : Matching env row)
    (hencrypted : row'.bootstrapTokenEncrypted = row.bootstrapTokenEncrypted ∨
      row'.bootstrapTokenEncrypted = none)
    (hhash : row'.bootstrapTokenHash = row.bootstrapTokenHash ∨ row'.bootstrapTokenHash = none) :
    Matching env row' := by
  rintro token tokenHash ⟨tokenEncrypted, henc, hdecrypt⟩ hstored
  have henc' : row.bootstrapTokenEncrypted = some tokenEncrypted := by
    rcases hencrypted with hsame | hnone
    · exact hsame.symm.trans henc
    · rw [hnone] at henc
      cases henc
  rcases hhash with hsame | hnone
  · exact h token tokenHash ⟨tokenEncrypted, henc', hdecrypt⟩ (hsame.symm.trans hstored)
  · rw [hnone] at hstored
    cases hstored

/-- A commit writes no token: it keeps each column, or clears it. -/
theorem matching_flush {o : Loaded DashboardSettings} {write : SettingsWrite}
    (h : Matching env row) (hvalue : o.value = write.apply o.read) :
    Matching env (row.flush o) := by
  have hcolumn : ∀ (read value row : Option (List UInt8)), value = read ∨ value = none →
      column asIs read value row = row ∨ column asIs read value row = none := by
    intro read value row hvalue
    rcases hvalue with rfl | rfl
    · exact Or.inl column_unchanged
    · rcases column_eq_or asIs read none row with hsame | ⟨-, hnone⟩
      · exact Or.inl hsame
      · exact Or.inr hnone
  have hwrites : (o.value.bootstrapTokenEncrypted = o.read.bootstrapTokenEncrypted ∨
        o.value.bootstrapTokenEncrypted = none) ∧
      (o.value.bootstrapTokenHash = o.read.bootstrapTokenHash ∨
        o.value.bootstrapTokenHash = none) := by
    rw [hvalue]
    cases write with
    | changePassword | removePassword => exact ⟨Or.inr rfl, Or.inr rfl⟩
    | confirmTotpSetup => exact ⟨Or.inl rfl, Or.inl rfl⟩
    | disableTotp => exact ⟨Or.inl rfl, Or.inl rfl⟩
  exact h.of_kept (hcolumn _ _ _ hwrites.1) (hcolumn _ _ _ hwrites.2)

theorem holds_stored {generated : GeneratedToken}
    (hdecrypt : ∀ nonce token, env.decrypt (env.encrypt nonce token) = some token)
    (h : row'.bootstrapTokenEncrypted = some (env.encrypt generated.nonce generated.token)) :
    Holds env row' generated.token :=
  ⟨_, h, hdecrypt _ _⟩

/-- **The stored hash stays that of the stored token**, whatever the calls do. -/
theorem Matching.steps
    (hdecrypt : ∀ nonce token, env.decrypt (env.encrypt nonce token) = some token)
    (hrow : Matching env row) (ht : TotpSteps.TaskOk env t) (h : Steps env row t a row' t') :
    Matching env row' := by
  cases h with
  | setPassword => exact matching_of_cleared rfl
  | commit => exact matching_flush hrow ht
  | clearToken =>
    rcases getD_clearBootstrapToken row with hclear | hclear <;> rw [hclear]
    · exact hrow
    · exact matching_of_cleared rfl
  | storeToken hstore =>
    obtain ⟨-, rfl⟩ := storeBootstrapTokenIfAbsent_eq_some.1 hstore
    intro token tokenHash hholds hstored
    obtain rfl := (holds_stored hdecrypt rfl).unique hholds
    exact Option.some.inj hstored
  | _ => exact hrow

theorem holds_of_ensure (hrow : Matching env row)
    (h : ensureAutoBootstrapToken env row = .token (some token)) :
    row.bootstrapTokenHash = some (env.sha256 token) ∧ Holds env row token := by
  unfold ensureAutoBootstrapToken at h
  split_ifs at h with hset hmanual hstored
  · cases h
  · have htoken : row.bootstrapTokenEncrypted.bind env.decrypt = some token :=
      Ensured.token.inj h
    obtain ⟨tokenEncrypted, hencrypted, hdecrypt⟩ := Option.bind_eq_some_iff.1 htoken
    obtain ⟨tokenHash, hhash⟩ := Option.isSome_iff_exists.1 hstored
    have hholds : Holds env row token := ⟨tokenEncrypted, hencrypted, hdecrypt⟩
    exact ⟨by rw [hhash, hrow token tokenHash hholds hhash], hholds⟩

/-- Without a configured token and a password the stored token is not cleared. -/
theorem ensure_ne_clear (hmanual : getManualBootstrapToken env = none)
    (hpassword : row.passwordHash = none) : ensureAutoBootstrapToken env row ≠ .clear := by
  unfold ensureAutoBootstrapToken
  simp only [hmanual, hpassword, Option.isSome_none, Bool.or_self, Bool.false_eq_true, if_false]
  split_ifs <;> simp

theorem valid_of_stored (hmanual : getManualBootstrapToken env = none)
    (h : row.bootstrapTokenHash = some (env.sha256 token)) :
    getBootstrapValidationStatus env row token = .valid := by
  simp [getBootstrapValidationStatus, hmanual, h]

end Stored

/-! ### Runs without a password -/

/-- The calls that stand before a write of the password or a removal of the token are not there, and
a call that has returned a token has returned the stored one. -/
def CallOk (env : Env) (row : DashboardSettings) : Task → Prop
  | .returned (some token) => row.bootstrapTokenHash = some (env.sha256 token) ∧ Holds env row token
  | .committing _ write => write = .disableTotp
  | .loading _ | .clearingToken => False
  | _ => True

section Calls

variable {env : Env} {row row' : DashboardSettings} {t t' u : Task} {a : Action}

theorem callOk_starts {r : Request} (hpassword : row.passwordHash = none)
    (h : Starts env row r t) : CallOk env row t := by
  cases h with
  | change hverify | remove hverify =>
    rw [verifyPassword, hpassword] at hverify
    cases hverify
  | confirm hchecks =>
    obtain ⟨-, -, hchecks⟩ := bind_eq_ok.1 hchecks
    obtain ⟨_, hsession, -⟩ := bind_eq_ok.1 hchecks
    simp [requireActivePasswordSession, hpassword] at hsession
  | _ => trivial

theorem tokens_of_steps (hkeeps : row'.passwordHash = row.passwordHash) (ht : CallOk env row t)
    (hvalue : TotpSteps.TaskOk env t) (h : Steps env row t a row' t') :
    (row'.bootstrapTokenEncrypted = row.bootstrapTokenEncrypted ∧
      row'.bootstrapTokenHash = row.bootstrapTokenHash) ∨ row.bootstrapTokenHash = none := by
  cases h with
  | setPassword _ hnone =>
    rw [hnone] at hkeeps
    cases hkeeps
  | @commit o write =>
    obtain rfl : write = .disableTotp := ht
    have hvalue : o.value = setTotpSecret none o.read := hvalue
    left
    simp [DashboardSettings.flush, hvalue, setTotpSecret]
  | clearToken => exact ht.elim
  | storeToken hstore => exact Or.inr (storeBootstrapTokenIfAbsent_eq_some.1 hstore).1.2
  | _ => exact Or.inl ⟨rfl, rfl⟩

theorem CallOk.other (hu : CallOk env row u) (hkeeps : row'.passwordHash = row.passwordHash)
    (ht : CallOk env row t) (hvalue : TotpSteps.TaskOk env t) (h : Steps env row t a row' t') :
    CallOk env row' u := by
  cases u with
  | returned token =>
    cases token with
    | none => trivial
    | some token =>
      obtain ⟨hhash, tokenEncrypted, hencrypted, hdecrypt⟩ := hu
      rcases tokens_of_steps hkeeps ht hvalue h with ⟨henc, hh⟩ | hnone
      · exact ⟨hh.trans hhash, tokenEncrypted, henc.trans hencrypted, hdecrypt⟩
      · rw [hnone] at hhash
        cases hhash
  | _ => exact hu

theorem CallOk.steps (hmanual : getManualBootstrapToken env = none)
    (hdecrypt : ∀ nonce token, env.decrypt (env.encrypt nonce token) = some token)
    (hpassword : row.passwordHash = none) (hrow : Matching env row) (ht : CallOk env row t)
    (h : Steps env row t a row' t') : CallOk env row' t' := by
  cases h with
  | load => exact ht.elim
  | @commit _ write => cases write <;> trivial
  | clear hclear => exact absurd hclear (ensure_ne_clear hmanual hpassword)
  | @offer _ token htoken =>
    cases token with
    | none => trivial
    | some token => exact holds_of_ensure hrow htoken
  | storeToken hstore =>
    obtain ⟨-, rfl⟩ := storeBootstrapTokenIfAbsent_eq_some.1 hstore
    exact ⟨rfl, holds_stored hdecrypt rfl⟩
  | @advance call settings matchedStep =>
    unfold advanced
    split_ifs
    · rfl
    · trivial
  | _ => trivial

end Calls

section Runs

variable {env : Env} {p p' : State} {m : Event}

/-- What every state of a run satisfies that neither sets nor removes the password. -/
def RunOk (env : Env) (p : State) : Prop :=
  Asserts (fun row => row.passwordHash = none ∧ Matching env row)
    (fun row t => CallOk env row t ∧ TotpSteps.TaskOk env t) p

theorem RunOk.step (hmanual : getManualBootstrapToken env = none)
    (hdecrypt : ∀ nonce token, env.decrypt (env.encrypt nonce token) = some token)
    (hp : RunOk env p) (hC : KeepsPassword env p m) (hs : step env p m = some p') :
    RunOk env p' := by
  have hkept : ∀ (p : State) tid a t row t', KeepsPassword env p (.act tid a) →
      p.tasks[tid]? = some t → act env p.store t a = some (row, t') →
      row.passwordHash = p.store.passwordHash :=
    fun p tid a t row t' hC ht ha => hC ⟨row, p.tasks.set tid t'⟩ (Program.step_act ht ha)
  refine Program.inv_step (P := program env) (C := KeepsPassword env) (fun p r hI _ => ?_)
    (fun p tid a t row t' hI hJ hC ht ha => ?_)
    (fun p tid a t row t' u hI hJ hu hC ht ha => ?_) hp hC hs
  · have hstarts := starts_spawn env p.store r
    exact ⟨callOk_starts hI.1 hstarts, TotpSteps.taskOk_starts hstarts⟩
  · have hsteps := steps_of_act ha
    refine ⟨⟨(hkept p tid a t row t' hC ht ha).trans hI.1, ?_⟩, ?_, ?_⟩
    · exact hI.2.steps hdecrypt hJ.2 hsteps
    · exact hJ.1.steps hmanual hdecrypt hI.1 hI.2 hsteps
    · exact TotpSteps.taskOk_steps hsteps
  · exact ⟨hu.1.other (hkept p tid a t row t' hC ht ha) hJ.1 hJ.2 (steps_of_act ha), hu.2⟩

theorem RunOk.agreed (hmanual : getManualBootstrapToken env = none) (hp : RunOk env p) :
    Agreed env p := by
  intro token hmem
  obtain ⟨⟨hhash, hholds⟩, -⟩ := hp.2 _ hmem
  refine ⟨fun token' hmem' => ?_, hhash, valid_of_stored hmanual hhash⟩
  obtain ⟨⟨-, hholds'⟩, -⟩ := hp.2 _ hmem'
  exact hholds.unique hholds'

/-- **The stored hash is that of the stored token in every state** of every run from a row of which
this holds, as it does of a new one. -/
theorem matching_of_run
    (hdecrypt : ∀ nonce token, env.decrypt (env.encrypt nonce token) = some token)
    {row : DashboardSettings} (hrow : Matching env row) (ms : List Event) :
    Always (step env) (fun p => Matching env p.store) ⟨row, []⟩ ms := by
  have hinv : Always (step env) (fun p => Matching env p.store ∧ TasksOk env p) ⟨row, []⟩ ms := by
    refine always_of_invariant (fun p m p' hp hs => ⟨?_, hp.2.step hs⟩) ⟨hrow, by simp [TasksOk]⟩
    obtain ⟨r, rfl, rfl⟩ | ⟨tid, a, t, row, t', rfl, ht, ha, rfl⟩ := Program.step_cases hs
    · exact hp.1
    · exact hp.1.steps hdecrypt (hp.2 t (List.mem_of_getElem? ht)) (steps_of_act ha)
  exact hinv.mono fun p hp => hp.1

/-- **The replicas hand out one valid token.**  Without a configured token and from a row without a
password, in which a stored hash is that of the token stored with it, every call that returns a
token returns the same, its hash is stored, and it is valid in every later state until a password is
set or removed. -/
theorem tokens_agree (env : Env) (hmanual : getManualBootstrapToken env = none)
    (hdecrypt : ∀ nonce token, env.decrypt (env.encrypt nonce token) = some token)
    (row : DashboardSettings) (hpassword : row.passwordHash = none) (hrow : Matching env row)
    (ms : List Event) (hkeeps : Meets (step env) (KeepsPassword env) ⟨row, []⟩ ms) :
    Always (step env) (Agreed env) ⟨row, []⟩ ms := by
  have hstart : RunOk env ⟨row, []⟩ := ⟨⟨hpassword, hrow⟩, by simp⟩
  have hinv : Always (step env) (RunOk env) ⟨row, []⟩ ms :=
    always_of_meets (fun p m p' hp hC hs => hp.step hmanual hdecrypt hC hs) hstart hkeeps
  exact hinv.mono fun p hp => hp.agreed hmanual

/-- The hash has to match: otherwise the first call returns a token that is not valid. -/
theorem matching_of_agreed {row : DashboardSettings} (hmanual : getManualBootstrapToken env = none)
    (hpassword : row.passwordHash = none)
    (h : ∀ ms, Always (step env) (Agreed env) ⟨row, []⟩ ms) : Matching env row := by
  rintro token tokenHash ⟨tokenEncrypted, hencrypted, hdecrypt⟩ hstored
  have hensure : ensureAutoBootstrapToken env row = .token (some token) := by
    simp [ensureAutoBootstrapToken, hmanual, hpassword, hstored, hencrypted, hdecrypt]
  have hrun : run (step env) ⟨row, []⟩
      [.spawn (.ensureAutoBootstrapToken ⟨"", 0⟩), .act 0 .resume] =
        some ⟨row, [.returned (some token)]⟩ := by
    simp [run, step, Program.step, program, spawn, act, resume, hensure]
  obtain ⟨-, hhash, -⟩ := (h _).last hrun token (by simp)
  exact Option.some.inj (hhash.symm.trans hstored)

/-- Three bytes for a character. -/
def charBytes (c : Char) : List UInt8 :=
  [UInt8.ofNat (c.toNat / 65536), UInt8.ofNat (c.toNat / 256), UInt8.ofNat c.toNat]

def ofCharBytes : List UInt8 → Option (List Char)
  | [] => some []
  | a :: b :: c :: bytes =>
    (ofCharBytes bytes).map (Char.ofNat (a.toNat * 65536 + b.toNat * 256 + c.toNat) :: ·)
  | _ => none

theorem ofCharBytes_flatMap (cs : List Char) : ofCharBytes (cs.flatMap charBytes) = some cs := by
  induction cs with
  | nil => rfl
  | cons c cs ih =>
    have hlt : c.toNat < 1114112 := by
      rcases c.valid with h | h
      · exact h.trans (by decide)
      · exact h.2
    have hnat : (UInt8.ofNat (c.toNat / 65536)).toNat * 65536 +
        (UInt8.ofNat (c.toNat / 256)).toNat * 256 + (UInt8.ofNat c.toNat).toNat = c.toNat := by
      simp only [UInt8.toNat_ofNat']
      omega
    simp only [List.flatMap_cons, charBytes, List.cons_append, List.nil_append, ofCharBytes]
    rw [ih, hnat, Char.ofNat_toNat, Option.map_some]

/-- A deployment whose tokens are decrypted to what was encrypted. -/
def tokenEnv : Env := { sampleEnv with
  encrypt := fun _ token => token.toList.flatMap charBytes
  decrypt := fun bytes => (ofCharBytes bytes).map String.ofList }

theorem decrypt_encrypt_tokenEnv (nonce : ℕ) (token : String) :
    tokenEnv.decrypt (tokenEnv.encrypt nonce token) = some token := by
  show (ofCharBytes (token.toList.flatMap charBytes)).map String.ofList = some token
  rw [ofCharBytes_flatMap, Option.map_some, String.ofList_toList]

/-- Two replicas find no token.  The first stores its own, the second none; a third offers the
stored one. -/
theorem tokens_agree_sample :
    let ms : List Event := [.spawn (.ensureAutoBootstrapToken ⟨"first", 1⟩),
      .spawn (.ensureAutoBootstrapToken ⟨"second", 2⟩), .act 0 .resume, .act 1 .resume,
      .act 0 .resume, .act 1 .resume, .spawn (.ensureAutoBootstrapToken ⟨"third", 3⟩),
      .act 2 .resume]
    (endOf (step tokenEnv) ⟨{}, []⟩ ms).tasks =
        [.returned (some "first"), .returned none, .returned (some "first")] ∧
      Always (step tokenEnv) (Agreed tokenEnv) ⟨{}, []⟩ ms := by
  intro ms
  refine ⟨by rfl, ?_⟩
  exact tokens_agree tokenEnv (by decide) decrypt_encrypt_tokenEnv {} rfl (matching_of_cleared rfl)
    ms (by decide)

/-- A row whose hash is not that of its token: the token is handed out, and is not valid. -/
theorem invalid_token_returned :
    let row : DashboardSettings :=
      { bootstrapTokenEncrypted := some (tokenEnv.encrypt 0 "token")
        bootstrapTokenHash := some (tokenEnv.sha256 "another") }
    let ms : List Event := [.spawn (.ensureAutoBootstrapToken ⟨"new", 1⟩), .act 0 .resume]
    getManualBootstrapToken tokenEnv = none ∧
      (∀ nonce token, tokenEnv.decrypt (tokenEnv.encrypt nonce token) = some token) ∧
      row.passwordHash = none ∧ Meets (step tokenEnv) (KeepsPassword tokenEnv) ⟨row, []⟩ ms ∧
      ¬ Always (step tokenEnv) (Agreed tokenEnv) ⟨row, []⟩ ms := by
  intro row ms
  refine ⟨by decide, decrypt_encrypt_tokenEnv, rfl, by decide, fun h => ?_⟩
  have hrun : run (step tokenEnv) ⟨row, []⟩ ms = some ⟨row, [.returned (some "token")]⟩ := by rfl
  obtain ⟨-, hhash, -⟩ := h.last hrun "token" (by simp)
  exact absurd hhash (by decide)

end Runs

end FirecrawlLb.DashboardAuth.BootstrapToken
