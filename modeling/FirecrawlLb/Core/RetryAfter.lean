import FirecrawlLb.Core.RateLimiter

/-!
# The wait that a limiter announces

`check_and_increment` refuses a call with the whole seconds that are left until its oldest attempt
is a window old.  At that time the attempt still counts: a fraction of a second may be missing, and
the window is closed.  So the wait suffices exactly when a second does (`sufficient_iff`).
-/

namespace FirecrawlLb.Core.RateLimiter

open FirecrawlLb.Lib FirecrawlLb.Python FirecrawlLb.Db.Models

variable {self : DatabaseRateLimiter} {key : String} {now : ℤ}
  {table table' : List RateLimitAttempt} {error : DashboardRateLimitError}

/-- `check_and_increment`, with no other call in between: the table after its attempt. -/
def checkAndIncrement (self : DatabaseRateLimiter) (key : String) (now : ℤ)
    (table : List RateLimitAttempt) : Except DashboardRateLimitError (List RateLimitAttempt) :=
  match self.insertAttempt key now table with
  | some table' => .ok table'
  | none => .error (self.tooManyAttempts key now table)

/-- A call is admitted at any time from the end of the wait on, when no attempt of the key has been
recorded in between. -/
def Sufficient (self : DatabaseRateLimiter) (key : String) (now retryAfter : ℤ)
    (table : List RateLimitAttempt) : Prop :=
  ∀ table' t, (self.times key table').Subperm (self.times key table) →
    now + retryAfter * 1000000 ≤ t → ∃ table'', checkAndIncrement self key t table' = .ok table''

/-! ### Attempts that count -/

section Counting

variable {α : Type*} [LinearOrder α] {t t' : α} {times times' : List α}

theorem countFrom_anti (h : t ≤ t') (times : List α) : countFrom t' times ≤ countFrom t times :=
  Int.ofNat_le.2 (List.countP_mono_left fun x _ hx => by simpa using h.trans (by simpa using hx))

theorem countFrom_le_of_subperm (h : times'.Subperm times) (t : α) :
    countFrom t times' ≤ countFrom t times :=
  Int.ofNat_le.2 (h.countP_le _)

end Counting

theorem checkAndIncrement_eq_ok (self : DatabaseRateLimiter) (key : String) (now : ℤ)
    (table : List RateLimitAttempt) :
    (∃ table', checkAndIncrement self key now table = .ok table') ↔
      countFrom (now - self.window) (self.times key table) < self.maxAttempts := by
  unfold checkAndIncrement DatabaseRateLimiter.insertAttempt
  split_ifs with hcount <;> simp [hcount]

theorem checkAndIncrement_eq_error (h : checkAndIncrement self key now table = .error error) :
    self.maxAttempts ≤ countFrom (now - self.window) (self.times key table) ∧
      error = self.tooManyAttempts key now table := by
  unfold checkAndIncrement DatabaseRateLimiter.insertAttempt at h
  split_ifs at h with hcount
  exact ⟨not_lt.1 hcount, (Except.error.inj h).symm⟩

/-! ### The wait -/

/-- The wait is a second, or it ends no later than the oldest attempt is a window old. -/
theorem retryAfter_cases (hmax : self.maxAttempts ≤
    countFrom (now - self.window) (self.times key table)) :
    (self.tooManyAttempts key now table).retryAfter = 1 ∨
    ∀ a ∈ self.times key table, now - self.window ≤ a →
      now + (self.tooManyAttempts key now table).retryAfter * 1000000 - self.window ≤ a := by
  unfold DatabaseRateLimiter.tooManyAttempts
  dsimp only
  cases hmin : ((self.times key table).filter (now - self.window ≤ ·)).min? with
  | none =>
    have hempty : (self.times key table).filter (now - self.window ≤ ·) = [] :=
      List.min?_eq_none_iff.1 hmin
    have hnone : countFrom (now - self.window) (self.times key table) = 0 := by
      rw [countFrom, List.countP_eq_length_filter, hempty]
      rfl
    have hpos := self.maxAttempts_pos
    omega
  | some oldestAttempt =>
    obtain ⟨hmem, hle⟩ := List.min?_eq_some_iff.1 hmin
    have hwithin : now - self.window ≤ oldestAttempt := by
      simpa using (List.mem_filter.1 hmem).2
    have hfloor : (oldestAttempt + self.window - now).tdiv 1000000 =
        (oldestAttempt + self.window - now) / 1000000 := Int.tdiv_eq_ediv_of_nonneg (by omega)
    simp only [hfloor]
    rcases le_total ((oldestAttempt + self.window - now) / 1000000) 1 with hshort | hlong
    · exact Or.inl (max_eq_left hshort)
    · refine Or.inr fun a ha hin => ?_
      have hold := hle a (List.mem_filter.2 ⟨ha, by simpa using hin⟩)
      rw [max_eq_right hlong]
      omega

theorem one_le_retryAfter : 1 ≤ (self.tooManyAttempts key now table).retryAfter := by
  unfold DatabaseRateLimiter.tooManyAttempts
  dsimp only
  split
  · exact self.windowSeconds_pos
  · exact le_max_left _ _

/-- **The wait of a refused call** suffices exactly when, a second after the call, fewer attempts
than allowed are left in the window. -/
theorem sufficient_iff (h : checkAndIncrement self key now table = .error error) :
    Sufficient self key now error.retryAfter table ↔
      countFrom (now + 1000000 - self.window) (self.times key table) < self.maxAttempts := by
  obtain ⟨hmax, rfl⟩ := checkAndIncrement_eq_error h
  constructor
  · intro hsufficient
    have hcount := (checkAndIncrement_eq_ok _ _ _ _).1
      (hsufficient table _ (List.Subperm.refl _) le_rfl)
    rcases retryAfter_cases hmax with hone | hold
    · rwa [hone, one_mul] at hcount
    · -- the attempts of the refused call are still there
      have hsame : countFrom (now - self.window) (self.times key table) ≤
          countFrom (now + (self.tooManyAttempts key now table).retryAfter * 1000000 - self.window)
            (self.times key table) :=
        Int.ofNat_le.2 (List.countP_mono_left fun a ha hin => by
          simpa using hold a ha (by simpa using hin))
      omega
  · intro hcount table' t hsub ht
    rw [checkAndIncrement_eq_ok]
    have hone : 1 ≤ (self.tooManyAttempts key now table).retryAfter := one_le_retryAfter
    have hlater : countFrom (t - self.window) (self.times key table') ≤
        countFrom (now + 1000000 - self.window) (self.times key table') :=
      countFrom_anti (by omega) _
    exact (hlater.trans (countFrom_le_of_subperm hsub _)).trans_lt hcount

/-- Half a second after the one attempt that is allowed, the announced wait ends half a second
before this attempt is a window old, and the next call is refused as well. -/
theorem not_sufficient_sample :
    let self : DatabaseRateLimiter := ⟨1, 60, "password", by decide, by decide⟩
    let table : List RateLimitAttempt := [⟨"ip", 0, "password"⟩]
    checkAndIncrement self "ip" 500000 table = .error ⟨"Too many attempts", 59⟩ ∧
    checkAndIncrement self "ip" (500000 + 59 * 1000000) table =
      .error ⟨"Too many attempts", 1⟩ ∧
    ¬ Sufficient self "ip" 500000 59 table := by
  intro self table
  have hagain : checkAndIncrement self "ip" (500000 + 59 * 1000000) table =
      .error ⟨"Too many attempts", 1⟩ := by rfl
  refine ⟨by rfl, hagain, fun h => ?_⟩
  obtain ⟨table', hok⟩ := h table _ (List.Subperm.refl _) le_rfl
  cases hagain.symm.trans hok

/-- Half a second before the attempt is a window old, a second suffices. -/
theorem sufficient_sample :
    let self : DatabaseRateLimiter := ⟨1, 60, "password", by decide, by decide⟩
    Sufficient self "ip" 59500000 1 [⟨"ip", 0, "password"⟩] := by
  intro self
  have hrefused : checkAndIncrement self "ip" 59500000 [⟨"ip", 0, "password"⟩] =
      .error ⟨"Too many attempts", 1⟩ := by rfl
  exact (sufficient_iff hrefused).2 (by decide)

end FirecrawlLb.Core.RateLimiter
