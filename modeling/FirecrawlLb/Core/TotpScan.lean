import FirecrawlLb.Core.Totp
import FirecrawlLb.Lib.FirstWhere
import Mathlib.Order.Bounds.Basic

/-!
# When a one-time password is checked at all

Here the TOTP library may raise, as it does for a time before 1970, and so may the comparison, which
takes ASCII strings only.  `_normalize_code` keeps every character that Python calls a digit: six of
another script pass the length test and end the scan with a `TypeError`.  The verification answers
exactly when neither happens at a step the scan comes to (`scan_exact_iff`).
-/

namespace FirecrawlLb.Core.Totp

open FirecrawlLb.Lib FirecrawlLb.Python

/-- What the code relies on of `totp.at`, at the times of the steps: it has a code of six ASCII
characters from 1970 up to the last time of the library, and raises otherwise. -/
structure Library (codeAt : String → ℤ → Except Raised String) (lastTime : ℤ) : Prop where
  isOk_iff : ∀ {secret normalizedSecret}, normalizeSecret secret = .ok normalizedSecret →
    ∀ step, (∃ code, codeAt normalizedSecret (step * totpPeriodSeconds) = .ok code) ↔
      0 ≤ step * totpPeriodSeconds ∧ step * totpPeriodSeconds ≤ lastTime
  code : ∀ {normalizedSecret step code},
    codeAt normalizedSecret (step * totpPeriodSeconds) = .ok code →
      code.length = totpDigits ∧ isAscii code = true

/-- The body of the loop over the steps: whether it returns. -/
def checkStep (codeAt : String → ℤ → Except Raised String) (secret code : String)
    (lastVerifiedStep : Option ℤ) (step : ℤ) : Except Raised Bool :=
  if lastVerifiedStep.any (step ≤ ·) then .ok false
  else do compareDigest (← codeAt secret (step * totpPeriodSeconds)) code

/-- `verify_totp_code`, for a window that is not negative and a library that may raise. -/
def scanTotpCode (codeAt : String → ℤ → Except Raised String) (secret code : String) (window : ℕ)
    (nowEpoch : ℤ) (lastVerifiedStep : Option ℤ) : Except Raised TotpVerificationResult := do
  let normalizedSecret ← normalizeSecret secret
  let normalizedCode := normalizeCode code
  if normalizedCode.length ≠ totpDigits then return ⟨false, none⟩
  let step ← firstWhere (checkStep codeAt normalizedSecret normalizedCode lastVerifiedStep)
    (windowSteps (timeStep nowEpoch) window)
  return ⟨step.isSome, step⟩

section Total

variable {totpAt : String → ℤ → String}

theorem findStep_eq_firstWhere (secret code : String) (last : Option ℤ) (steps : List ℤ) :
    findStep totpAt secret code last steps = do
      let step ← firstWhere (checkStep (fun s t => .ok (totpAt s t)) secret code last) steps
      return ⟨step.isSome, step⟩ := by
  induction steps with
  | nil => rfl
  | cons step steps ih =>
    rw [findStep]
    split_ifs with hverified
    · have hskip : checkStep (fun s t => .ok (totpAt s t)) secret code last step = .ok false :=
        if_pos hverified
      rw [firstWhere_of_false hskip, ih]
    · have hcompare : checkStep (fun s t => .ok (totpAt s t)) secret code last step =
          compareDigest (totpAt secret (step * totpPeriodSeconds)) code := if_neg hverified
      cases hequal : compareDigest (totpAt secret (step * totpPeriodSeconds)) code with
      | error e =>
        rw [hequal] at hcompare
        rw [firstWhere_of_error hcompare]
        rfl
      | ok equal =>
        rw [hequal] at hcompare
        cases equal with
        | true =>
          rw [firstWhere_of_true hcompare]
          rfl
        | false =>
          rw [firstWhere_of_false hcompare, ← ih]
          rfl

/-- With a library that always has a code, this is the verification of the sessions. -/
theorem verifyTotpCode_eq_scanTotpCode (secret code : String) (window : ℕ) (now : ℤ)
    (last : Option ℤ) : verifyTotpCode totpAt secret code window now last =
      scanTotpCode (fun s t => .ok (totpAt s t)) secret code window now last := by
  simp only [verifyTotpCode, scanTotpCode, findStep_eq_firstWhere]

end Total

section Scan

variable {codeAt : String → ℤ → Except Raised String} {secret normalizedSecret code : String}
  {window : ℕ} {now lastTime : ℤ} {last : Option ℤ} {step : ℤ}

/-- A step of the window that is not verified yet. -/
def Open (window : ℕ) (now : ℤ) (last : Option ℤ) (step : ℤ) : Prop :=
  timeStep now - window ≤ step ∧ step ≤ timeStep now + window ∧ ∀ verified ∈ last, verified < step

/-- The code of the secret at the step is the digits of the submitted code. -/
def HasCode (codeAt : String → ℤ → Except Raised String) (secret code : String) (step : ℤ) : Prop :=
  ∃ normalizedSecret, normalizeSecret secret = .ok normalizedSecret ∧
    codeAt normalizedSecret (step * totpPeriodSeconds) = .ok (normalizeCode code)

/-- The verification answers, and with the earliest step that has the code. -/
def Exact (codeAt : String → ℤ → Except Raised String) (secret code : String) (window : ℕ)
    (now : ℤ) (last : Option ℤ) : Prop :=
  ∃ result, scanTotpCode codeAt secret code window now last = .ok result ∧
    ∀ step, result = ⟨true, some step⟩ ↔
      IsLeast {k | Open window now last k ∧ HasCode codeAt secret code k} step

/-- At every step that the scan comes to, the digits are ASCII and the library has a code. -/
def Answerable (codeAt : String → ℤ → Except Raised String) (lastTime : ℤ) (secret code : String)
    (window : ℕ) (now : ℤ) (last : Option ℤ) : Prop :=
  ∀ step, Open window now last step →
    (∀ k, Open window now last k → k < step → ¬ HasCode codeAt secret code k) →
    isAscii (normalizeCode code) = true ∧
      0 ≤ step * totpPeriodSeconds ∧ step * totpPeriodSeconds ≤ lastTime

theorem compareDigest_of_ascii {a b : String} (ha : isAscii a = true) :
    compareDigest a b = if isAscii b then .ok (decide (a = b)) else .error .typeError := by
  simp [compareDigest, ha]

theorem any_le_eq_false_iff : last.any (step ≤ ·) = false ↔ ∀ verified ∈ last, verified < step := by
  cases last <;> simp

theorem checkStep_of_verified (h : ¬ ∀ verified ∈ last, verified < step) :
    checkStep codeAt normalizedSecret code last step = .ok false :=
  if_pos (by rwa [← any_le_eq_false_iff, Bool.not_eq_false] at h)

theorem checkStep_of_unverified (h : ∀ verified ∈ last, verified < step) :
    checkStep codeAt normalizedSecret code last step =
      codeAt normalizedSecret (step * totpPeriodSeconds) >>= fun expected =>
        compareDigest expected code :=
  if_neg (by rw [any_le_eq_false_iff.2 h]; simp)

/-- **A step passes** if and only if it has the code and is not verified yet. -/
theorem checkStep_eq_true_iff (lib : Library codeAt lastTime)
    (hsecret : normalizeSecret secret = .ok normalizedSecret) :
    checkStep codeAt normalizedSecret (normalizeCode code) last step = .ok true ↔
      (∀ verified ∈ last, verified < step) ∧ HasCode codeAt secret code step := by
  have hcode : HasCode codeAt secret code step ↔
      codeAt normalizedSecret (step * totpPeriodSeconds) = .ok (normalizeCode code) := by
    simp [HasCode, hsecret]
  by_cases h : ∀ verified ∈ last, verified < step
  · rw [checkStep_of_unverified h, bind_eq_ok, hcode, and_iff_right h]
    constructor
    · rintro ⟨expected, hexpected, hequal⟩
      rw [hexpected, of_decide_eq_true (compareDigest_eq_ok hequal).symm]
    · intro hexpected
      refine ⟨_, hexpected, ?_⟩
      rw [compareDigest_of_ascii (lib.code hexpected).2, if_pos (lib.code hexpected).2]
      simp
  · rw [checkStep_of_verified h]
    exact iff_of_false (by simp) fun h' => h h'.1

/-- **A step can be checked** if and only if it is verified, or the library has a code for it and
the digits are ASCII. -/
theorem checkStep_isOk_iff (lib : Library codeAt lastTime)
    (hsecret : normalizeSecret secret = .ok normalizedSecret) :
    (∃ passes, checkStep codeAt normalizedSecret (normalizeCode code) last step = .ok passes) ↔
      ((∀ verified ∈ last, verified < step) → isAscii (normalizeCode code) = true ∧
        0 ≤ step * totpPeriodSeconds ∧ step * totpPeriodSeconds ≤ lastTime) := by
  by_cases h : ∀ verified ∈ last, verified < step
  · rw [checkStep_of_unverified h, ← lib.isOk_iff hsecret, forall_prop_of_true h]
    simp only [bind_eq_ok]
    constructor
    · rintro ⟨passes, expected, hexpected, hequal⟩
      rw [compareDigest_of_ascii (lib.code hexpected).2] at hequal
      split_ifs at hequal with hascii
      · exact ⟨hascii, expected, hexpected⟩
    · rintro ⟨hascii, expected, hexpected⟩
      refine ⟨decide (expected = normalizeCode code), expected, hexpected, ?_⟩
      rw [compareDigest_of_ascii (lib.code hexpected).2, if_pos hascii]
  · rw [checkStep_of_verified h]
    exact iff_of_true ⟨_, rfl⟩ fun h' => absurd h' h

theorem open_iff : Open window now last step ↔
    step ∈ windowSteps (timeStep now) window ∧ ∀ verified ∈ last, verified < step := by
  rw [mem_windowSteps, Open, and_assoc]

/-- Before a step, none that is open has the code: none of the window passes. -/
theorem forall_not_hasCode_iff (lib : Library codeAt lastTime)
    (hsecret : normalizeSecret secret = .ok normalizedSecret) :
    (∀ k, Open window now last k → k < step → ¬ HasCode codeAt secret code k) ↔
      ∀ k ∈ windowSteps (timeStep now) window, k < step →
        checkStep codeAt normalizedSecret (normalizeCode code) last k ≠ .ok true := by
  simp only [ne_eq, checkStep_eq_true_iff lib hsecret, open_iff, not_and, and_imp]
  exact ⟨fun h k hk hlt hlast => h k hk hlast hlt, fun h k hk hlast hlt => h k hk hlt hlast⟩

theorem scanTotpCode_of_length (hsecret : normalizeSecret secret = .ok normalizedSecret)
    (hlength : (normalizeCode code).length = totpDigits) :
    scanTotpCode codeAt secret code window now last =
      firstWhere (checkStep codeAt normalizedSecret (normalizeCode code) last)
        (windowSteps (timeStep now) window) >>= fun step => .ok ⟨step.isSome, step⟩ := by
  unfold scanTotpCode
  rw [hsecret]
  exact if_neg (not_not.2 hlength)

theorem isLeast_iff (lib : Library codeAt lastTime)
    (hsecret : normalizeSecret secret = .ok normalizedSecret) :
    IsLeast {k | Open window now last k ∧ HasCode codeAt secret code k} step ↔
      step ∈ windowSteps (timeStep now) window ∧
      checkStep codeAt normalizedSecret (normalizeCode code) last step = .ok true ∧
      ∀ k ∈ windowSteps (timeStep now) window, k < step →
        checkStep codeAt normalizedSecret (normalizeCode code) last k ≠ .ok true := by
  rw [← forall_not_hasCode_iff lib hsecret, checkStep_eq_true_iff lib hsecret, ← and_assoc,
    ← and_assoc, ← open_iff]
  refine and_congr_right fun _ => ⟨fun h k hk hlt hcode => ?_, fun h k hk => ?_⟩
  · exact (h ⟨hk, hcode⟩).not_gt hlt
  · exact not_lt.1 fun hlt => h k hk.1 hlt hk.2

/-- **The verification is total and exact** if and only if the code does not keep six digits, or
the scan comes to no step where the comparison or the library raises. -/
theorem scan_exact_iff (lib : Library codeAt lastTime)
    (hsecret : ∃ normalizedSecret, normalizeSecret secret = .ok normalizedSecret) :
    Exact codeAt secret code window now last ↔
      (normalizeCode code).length ≠ totpDigits ∨
        Answerable codeAt lastTime secret code window now last := by
  obtain ⟨normalizedSecret, hsecret⟩ := hsecret
  have hpair := pairwise_windowSteps (timeStep now) window
  by_cases hlength : (normalizeCode code).length = totpDigits
  · have hanswers : Answerable codeAt lastTime secret code window now last ↔
        ∃ step, firstWhere (checkStep codeAt normalizedSecret (normalizeCode code) last)
          (windowSteps (timeStep now) window) = .ok step := by
      rw [firstWhere_isOk_iff hpair]
      simp only [checkStep_isOk_iff lib hsecret, ← forall_not_hasCode_iff lib hsecret]
      simp only [Answerable, open_iff, and_imp]
      exact forall₂_congr fun step hstep => ⟨fun h hbefore hlast => h hlast hbefore,
        fun h hlast hbefore => h hbefore hlast⟩
    rw [or_iff_right (not_not.2 hlength), hanswers, Exact, scanTotpCode_of_length hsecret hlength]
    constructor
    · rintro ⟨result, hresult, -⟩
      obtain ⟨step, hstep, -⟩ := bind_eq_ok.1 hresult
      exact ⟨step, hstep⟩
    · rintro ⟨found, hfound⟩
      refine ⟨_, bind_eq_ok.2 ⟨found, hfound, rfl⟩, fun step => ?_⟩
      rw [isLeast_iff lib hsecret, ← firstWhere_eq_some_iff hpair hfound]
      cases found <;> simp
  · refine iff_of_true ⟨⟨false, none⟩, ?_, fun step => ?_⟩ (Or.inl hlength)
    · unfold scanTotpCode
      rw [hsecret]
      exact if_pos hlength
    · refine iff_of_false (by simp) fun hleast => hlength ?_
      obtain ⟨-, _, -, hcode⟩ := hleast.1
      exact (lib.code hcode).1

end Scan

/-- The codes of `JBSWY3DPEHPK3PXP` around 2023-11-14T22:13:20, for the times of a `datetime`. -/
def sampleCodeAt (_ : String) (t : ℤ) : Except Raised String :=
  if 0 ≤ t ∧ t ≤ 253402300799 then
    if t = 1699999950 then .ok "822542"
    else if t = 1700000010 then .ok "367665"
    else .ok "324550"
  else .error .valueError

theorem sampleCodeAt_library : Library sampleCodeAt 253402300799 := by
  refine ⟨fun _ t => ⟨?_, fun ht => ?_⟩, fun {_ t code} h => ?_⟩
  · rintro ⟨code, h⟩
    unfold sampleCodeAt at h
    split_ifs at h with ht <;> exact ht
  · unfold sampleCodeAt
    rw [if_pos ht]
    split_ifs <;> exact ⟨_, rfl⟩
  · unfold sampleCodeAt at h
    split_ifs at h <;> obtain rfl := Except.ok.inj h <;> decide

theorem scan_exact_sample :
    Exact sampleCodeAt "jbsw y3dp ehpk 3pxp" "324-550" 1 1700000000 (some 56666664) :=
  (scan_exact_iff sampleCodeAt_library ⟨"JBSWY3DPEHPK3PXP", by decide⟩).2 <|
    Or.inr fun step h _ => by
    obtain ⟨hlow, hhigh, -⟩ := h
    have hnow : timeStep 1700000000 = 56666666 := by decide
    rw [hnow] at hlow hhigh
    refine ⟨by decide, ?_⟩
    unfold totpPeriodSeconds
    omega

/-- Six Arabic-Indic digits are six digits to `_normalize_code`, but no ASCII. -/
theorem not_scan_exact_sample :
    normalizeSecret "JBSWY3DPEHPK3PXP" = .ok "JBSWY3DPEHPK3PXP" ∧
    scanTotpCode sampleCodeAt "JBSWY3DPEHPK3PXP" "٣٢٤٥٥٠" 1 1700000000 none =
      .error .typeError ∧
    ¬ Exact sampleCodeAt "JBSWY3DPEHPK3PXP" "٣٢٤٥٥٠" 1 1700000000 none := by
  have hraises : scanTotpCode sampleCodeAt "JBSWY3DPEHPK3PXP" "٣٢٤٥٥٠" 1 1700000000 none =
      .error .typeError := by decide
  refine ⟨by decide, hraises, fun ⟨result, hresult, _⟩ => ?_⟩
  rw [hraises] at hresult
  cases hresult

end FirecrawlLb.Core.Totp
