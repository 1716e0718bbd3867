import FirecrawlLb.Lib.Results
import FirecrawlLb.Python.Strings
import Mathlib.Data.List.Range

/-!
# Time-based one-time passwords

The code of a secret at a time is that of the TOTP library, an arbitrary function here.  A submitted
code is compared with the codes of the time steps around the clock, from the earliest on, and steps
up to the last verified one are passed over.
-/

namespace FirecrawlLb.Core.Totp

open FirecrawlLb.Lib FirecrawlLb.Python

def totpPeriodSeconds : ℤ := 30

def totpDigits : ℕ := 6

structure TotpVerificationResult where
  isValid : Bool
  matchedStep : Option ℤ
  deriving DecidableEq

/-- `_normalize_secret` -/
def normalizeSecret (secret : String) : Except Raised String :=
  let compact := (secret.toList.filter fun c => !isSpace c).flatMap upperChar
  if compact = [] then .error .valueError
  else
    let padding := List.replicate ((8 - compact.length % 8) % 8) '='
    if base32Decodes (compact ++ padding) then .ok (String.ofList compact) else .error .valueError

/-- `_normalize_code` -/
def normalizeCode (code : String) : String := String.ofList (code.toList.filter isDigit)

/-- `_time_step` -/
def timeStep (nowEpoch : ℤ) : ℤ := nowEpoch / totpPeriodSeconds

/-- The steps of the window, from the earliest on. -/
def windowSteps (currentStep : ℤ) (window : ℕ) : List ℤ :=
  (List.range (2 * window + 1)).map fun i : ℕ => currentStep - (window : ℤ) + (i : ℤ)

/-- The loop over the steps of the window. -/
def findStep (totpAt : String → ℤ → String) (secret code : String) (lastVerifiedStep : Option ℤ) :
    List ℤ → Except Raised TotpVerificationResult
  | [] => .ok ⟨false, none⟩
  | step :: steps =>
    if lastVerifiedStep.any (step ≤ ·) then findStep totpAt secret code lastVerifiedStep steps
    else do
      if ← compareDigest (totpAt secret (step * totpPeriodSeconds)) code then
        return ⟨true, some step⟩
      else findStep totpAt secret code lastVerifiedStep steps

/-- `verify_totp_code`, for a window that is not negative. -/
def verifyTotpCode (totpAt : String → ℤ → String) (secret code : String) (window : ℕ)
    (nowEpoch : ℤ) (lastVerifiedStep : Option ℤ) : Except Raised TotpVerificationResult := do
  let normalizedSecret ← normalizeSecret secret
  let normalizedCode := normalizeCode code
  if normalizedCode.length ≠ totpDigits then return ⟨false, none⟩
  findStep totpAt normalizedSecret normalizedCode lastVerifiedStep
    (windowSteps (timeStep nowEpoch) window)

/-- The submitted digits are the code of the secret at the step, which is not verified yet. -/
structure Matches (totpAt : String → ℤ → String) (secret code : String)
    (lastVerifiedStep : Option ℤ) (step : ℤ) : Prop where
  secret : ∃ normalizedSecret, normalizeSecret secret = .ok normalizedSecret ∧
    totpAt normalizedSecret (step * totpPeriodSeconds) = normalizeCode code
  unverified : ∀ last ∈ lastVerifiedStep, last < step

/-- The earliest step of the window around the clock that matches. -/
structure FirstMatch (totpAt : String → ℤ → String) (secret code : String) (window : ℕ)
    (nowEpoch : ℤ) (lastVerifiedStep : Option ℤ) (step : ℤ) : Prop where
  lower : timeStep nowEpoch - window ≤ step
  upper : step ≤ timeStep nowEpoch + window
  matched : Matches totpAt secret code lastVerifiedStep step
  first : ∀ k, timeStep nowEpoch - window ≤ k → Matches totpAt secret code lastVerifiedStep k →
    step ≤ k

section Steps

variable {totpAt : String → ℤ → String} {secret code : String} {last : Option ℤ} {step : ℤ}
  {steps : List ℤ} {window : ℕ} {now : ℤ}

theorem mem_windowSteps {current : ℤ} : step ∈ windowSteps current window ↔
    current - window ≤ step ∧ step ≤ current + window := by
  unfold windowSteps
  rw [List.mem_map]
  constructor
  · rintro ⟨i, hi, rfl⟩
    have := List.mem_range.1 hi
    omega
  · rintro ⟨hlow, hhigh⟩
    refine ⟨(step - (current - window)).toNat, List.mem_range.2 (by omega), by omega⟩

theorem pairwise_windowSteps (current : ℤ) (window : ℕ) :
    (windowSteps current window).Pairwise (· < ·) := by
  unfold windowSteps
  rw [List.pairwise_map]
  exact List.pairwise_lt_range.imp fun h => by omega

theorem findStep_eq_ok
    (h : findStep totpAt secret code last steps = .ok ⟨true, some step⟩) :
    ∃ before after, steps = before ++ step :: after ∧
      totpAt secret (step * totpPeriodSeconds) = code ∧ (∀ l ∈ last, l < step) ∧
      ∀ k ∈ before, (∀ l ∈ last, l < k) → totpAt secret (k * totpPeriodSeconds) ≠ code := by
  induction steps with
  | nil => cases h
  | cons k steps ih =>
    have hskip : findStep totpAt secret code last steps = .ok ⟨true, some step⟩ →
        ((∀ l ∈ last, l < k) → totpAt secret (k * totpPeriodSeconds) ≠ code) →
        ∃ before after, k :: steps = before ++ step :: after ∧
          totpAt secret (step * totpPeriodSeconds) = code ∧ (∀ l ∈ last, l < step) ∧
          ∀ k ∈ before, (∀ l ∈ last, l < k) → totpAt secret (k * totpPeriodSeconds) ≠ code := by
      intro hrest hk
      obtain ⟨before, after, rfl, hcode, hlast, hbefore⟩ := ih hrest
      refine ⟨k :: before, after, rfl, hcode, hlast, fun k' hk' => ?_⟩
      rcases List.mem_cons.1 hk' with rfl | hk'
      · exact hk
      · exact hbefore k' hk'
    unfold findStep at h
    split_ifs at h with hverified
    · obtain ⟨l, hl, hle⟩ : ∃ l ∈ last, k ≤ l := by simpa [Option.any_eq_true] using hverified
      refine hskip h fun hlt => ?_
      have := hlt l hl
      omega
    · have hlast : ∀ l ∈ last, l < k := by
        intro l hl
        by_contra hnot
        exact hverified (by simpa [Option.any_eq_true] using ⟨l, hl, not_lt.1 hnot⟩)
      obtain ⟨equal, hequal, h⟩ := bind_eq_ok.1 h
      have hequal := compareDigest_eq_ok hequal
      by_cases hcode : totpAt secret (k * totpPeriodSeconds) = code
      · rw [hequal, decide_eq_true hcode, if_pos rfl] at h
        obtain rfl : k = step := by simpa [pure, Except.pure] using h
        exact ⟨[], steps, rfl, hcode, hlast, by simp⟩
      · rw [hequal, decide_eq_false hcode, if_neg (by simp)] at h
        exact hskip h fun _ => hcode

theorem FirstMatch.unique {step' : ℤ} (h : FirstMatch totpAt secret code window now last step)
    (h' : FirstMatch totpAt secret code window now last step') : step = step' :=
  le_antisymm (h.first step' h'.lower h'.matched) (h'.first step h.lower h.matched)

/-- **A valid result names the earliest step of the window that matches.** -/
theorem firstMatch_of_verifyTotpCode
    (h : verifyTotpCode totpAt secret code window now last = .ok ⟨true, some step⟩) :
    FirstMatch totpAt secret code window now last step := by
  unfold verifyTotpCode at h
  obtain ⟨normalizedSecret, hsecret, h⟩ := bind_eq_ok.1 h
  dsimp only at h
  split_ifs at h
  · cases h
  · obtain ⟨before, after, hsteps, hcode, hlast, hbefore⟩ := findStep_eq_ok h
    have hmem : step ∈ windowSteps (timeStep now) window := by simp [hsteps]
    obtain ⟨hlower, hupper⟩ := mem_windowSteps.1 hmem
    refine ⟨hlower, hupper, ⟨⟨_, hsecret, hcode⟩, hlast⟩, fun k hk hmatches => ?_⟩
    by_contra hlt
    have hkbefore : k ∈ before := by
      have hkmem : k ∈ windowSteps (timeStep now) window := mem_windowSteps.2 ⟨hk, by omega⟩
      have hpair := pairwise_windowSteps (timeStep now) window
      rw [hsteps] at hkmem hpair
      rcases List.mem_append.1 hkmem with hk | hk
      · exact hk
      · exfalso
        rcases List.mem_cons.1 hk with rfl | hk
        · exact hlt le_rfl
        · have := (List.pairwise_cons.1 (List.pairwise_append.1 hpair).2.1).1 k hk
          omega
    obtain ⟨⟨secret', hsecret', hcode'⟩, hunverified⟩ := hmatches
    obtain rfl : normalizedSecret = secret' := Except.ok.inj (hsecret.symm.trans hsecret')
    exact hbefore k hkbefore hunverified hcode'

end Steps

end FirecrawlLb.Core.Totp
