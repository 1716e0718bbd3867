import FirecrawlLb.Lib.Window
import Mathlib.Algebra.Order.Field.Rat

/-!
# The retry budget

`RetryBudget` keeps the times of the retries it has granted in a queue, and forgets those before the
window when it is asked for another one.  The queue is sorted as the clock does not go back, so its
length after the eviction is the number of grants in the window (`exact_window`).
-/

namespace FirecrawlLb.Core

open FirecrawlLb.Lib

structure RetryBudget where
  maxRetries : ℤ
  windowSeconds : ℚ
  retryTimestamps : List ℚ := []

namespace RetryBudget

/-- `try_acquire` at a time of the clock, which it reads while it holds the lock. -/
def tryAcquire (self : RetryBudget) (now : ℚ) : RetryBudget × Bool :=
  let cutoff := now - self.windowSeconds
  let recent := evict cutoff self.retryTimestamps
  if self.maxRetries ≤ recent.length then ({ self with retryTimestamps := recent }, false)
  else ({ self with retryTimestamps := recent ++ [now] }, true)

def remaining (self : RetryBudget) (now : ℚ) : ℤ :=
  let cutoff := now - self.windowSeconds
  let recent := self.retryTimestamps.countP (cutoff ≤ ·)
  max 0 (self.maxRetries - recent)

/-- A budget and the times of all retries it has granted. -/
structure History where
  budget : RetryBudget
  grants : List ℚ

namespace History

/-- One call of `try_acquire`. -/
def call (h : History) (now : ℚ) : History :=
  let (budget, granted) := h.budget.tryAcquire now
  ⟨budget, if granted then h.grants ++ [now] else h.grants⟩

/-- The number of grants in the window that ends at `t`, both ends included. -/
def granted (h : History) (t : ℚ) : ℤ :=
  inClosedWindow h.budget.windowSeconds (t - h.budget.windowSeconds) h.grants

end History

/-- The calls of a new budget at some times. -/
def calls (maxRetries : ℤ) (windowSeconds : ℚ) (times : List ℚ) : History :=
  times.foldl .call ⟨{ maxRetries, windowSeconds }, []⟩

/-- At the time `t` the queue holds the grants, up to some that are older than the window. -/
structure Kept (h : History) (t : ℚ) : Prop where
  queue : ∃ old, h.grants = old ++ h.budget.retryTimestamps ∧
    ∀ y ∈ old, y < t - h.budget.windowSeconds
  sorted : h.grants.Pairwise (· ≤ ·)
  past : ∀ y ∈ h.grants, y ≤ t
  limited : ∀ t', h.granted t' ≤ h.budget.maxRetries

section Calls

variable {h : History} {t t' : ℚ} {times : List ℚ}

theorem Kept.mono (hkept : Kept h t) (hle : t ≤ t') : Kept h t' := by
  obtain ⟨old, hgrants, hold⟩ := hkept.queue
  exact ⟨⟨old, hgrants, fun y hy => (hold y hy).trans_le (sub_le_sub_right hle _)⟩, hkept.sorted,
    fun y hy => (hkept.past y hy).trans hle, hkept.limited⟩

theorem Kept.sorted_queue (hkept : Kept h t) : h.budget.retryTimestamps.Pairwise (· ≤ ·) := by
  obtain ⟨old, hgrants, -⟩ := hkept.queue
  have hsorted := hkept.sorted
  rw [hgrants] at hsorted
  exact (List.pairwise_append.1 hsorted).2.1

theorem Kept.granted_eq (hkept : Kept h t) :
    h.granted t = countFrom (t - h.budget.windowSeconds) h.grants :=
  inClosedWindow_eq_countFrom hkept.past

/-- **The queue is as long as the window is full**, once it has forgotten the times before it. -/
theorem Kept.length_evict (hkept : Kept h t) :
    ((evict (t - h.budget.windowSeconds) h.budget.retryTimestamps).length : ℤ) = h.granted t := by
  obtain ⟨old, hgrants, hold⟩ := hkept.queue
  rw [hkept.granted_eq, hgrants]
  exact Lib.length_evict hkept.sorted_queue hold

theorem Kept.remaining_eq (hkept : Kept h t) :
    h.budget.remaining t = max 0 (h.budget.maxRetries - h.granted t) := by
  obtain ⟨old, hgrants, hold⟩ := hkept.queue
  have hzero : old.countP (t - h.budget.windowSeconds ≤ ·) = 0 :=
    List.countP_eq_zero.2 fun y hy => by simpa only [decide_eq_true_eq, not_le] using hold y hy
  rw [hkept.granted_eq, countFrom, hgrants, List.countP_append, hzero, Nat.zero_add]
  rfl

theorem Kept.tryAcquire_eq (hkept : Kept h t) : h.budget.tryAcquire t =
    if h.budget.maxRetries ≤ h.granted t then
      ({ h.budget with
        retryTimestamps := evict (t - h.budget.windowSeconds) h.budget.retryTimestamps }, false)
    else ({ h.budget with
        retryTimestamps :=
          evict (t - h.budget.windowSeconds) h.budget.retryTimestamps ++ [t] }, true) := by
  simp only [tryAcquire, hkept.length_evict]

theorem Kept.call_eq (hkept : Kept h t) : h.call t =
    if h.budget.maxRetries ≤ h.granted t then
      ⟨{ h.budget with
        retryTimestamps := evict (t - h.budget.windowSeconds) h.budget.retryTimestamps }, h.grants⟩
    else
      ⟨{ h.budget with
        retryTimestamps :=
          evict (t - h.budget.windowSeconds) h.budget.retryTimestamps ++ [t] },
        h.grants ++ [t]⟩ := by
  unfold History.call
  rw [hkept.tryAcquire_eq]
  split_ifs <;> rfl

/-- **One call** keeps the queue, and a grant leaves no window over the limit. -/
theorem Kept.call (hkept : Kept h t) : Kept (h.call t) t := by
  obtain ⟨old, hgrants, hold⟩ := hkept.queue
  obtain ⟨evicted, hqueue, hevicted, -⟩ :=
    exists_evicted hkept.sorted_queue (t - h.budget.windowSeconds)
  have hsplit : h.grants =
      (old ++ evicted) ++ evict (t - h.budget.windowSeconds) h.budget.retryTimestamps := by
    rw [hgrants, List.append_assoc, ← hqueue]
  have hbefore : ∀ y ∈ old ++ evicted, y < t - h.budget.windowSeconds := fun y hy =>
    (List.mem_append.1 hy).elim (hold y) (hevicted y)
  rw [hkept.call_eq]
  split_ifs with hfull
  · exact ⟨⟨_, hsplit, hbefore⟩, hkept.sorted, hkept.past, hkept.limited⟩
  · refine ⟨⟨_, ?_, hbefore⟩, ?_, ?_, fun t' => ?_⟩
    · rw [← List.append_assoc, ← hsplit]
    · exact List.pairwise_append.2 ⟨hkept.sorted, List.pairwise_singleton _ _, fun y hy z hz => by
        rw [List.mem_singleton.1 hz]; exact hkept.past y hy⟩
    · exact List.forall_mem_append.2 ⟨hkept.past, List.forall_mem_singleton.2 le_rfl⟩
    · have hroom : countFrom (t - h.budget.windowSeconds) h.grants < h.budget.maxRetries := by
        rw [← hkept.granted_eq]
        exact not_le.1 hfull
      exact inClosedWindow_append_singleton_le (hkept.limited t') hroom

theorem calls_concat (maxRetries : ℤ) (windowSeconds : ℚ) (times : List ℚ) (now : ℚ) :
    calls maxRetries windowSeconds (times ++ [now]) =
      (calls maxRetries windowSeconds times).call now := List.foldl_concat _ _ _ _

theorem call_config (h : History) (now : ℚ) :
    (h.call now).budget.maxRetries = h.budget.maxRetries ∧
      (h.call now).budget.windowSeconds = h.budget.windowSeconds := by
  unfold History.call tryAcquire
  dsimp only
  split_ifs <;> exact ⟨rfl, rfl⟩

theorem calls_config (maxRetries : ℤ) (windowSeconds : ℚ) (times : List ℚ) :
    (calls maxRetries windowSeconds times).budget.maxRetries = maxRetries ∧
      (calls maxRetries windowSeconds times).budget.windowSeconds = windowSeconds := by
  induction times using List.reverseRecOn with
  | nil => exact ⟨rfl, rfl⟩
  | append_singleton times now ih =>
    rw [calls_concat]
    exact ⟨(call_config _ now).1.trans ih.1, (call_config _ now).2.trans ih.2⟩

theorem kept_calls {maxRetries : ℤ} {windowSeconds : ℚ} (hmax : 0 ≤ maxRetries)
    (hsorted : times.Pairwise (· ≤ ·)) (ht : ∀ s ∈ times, s ≤ t) :
    Kept (calls maxRetries windowSeconds times) t := by
  induction times using List.reverseRecOn generalizing t with
  | nil => exact ⟨⟨[], rfl, by simp⟩, .nil, by simp [calls], fun t' => hmax⟩
  | append_singleton times now ih =>
    obtain ⟨hsorted, -, hnow⟩ := List.pairwise_append.1 hsorted
    have hkept := ih hsorted fun s hs => hnow s hs now (List.mem_singleton.2 rfl)
    rw [calls_concat]
    exact hkept.call.mono (ht now (by simp))

/-- **The budget is an exact sliding window** after all calls at non-decreasing times: no window
holds more grants than the limit, a call is refused exactly when the window it ends is full, and
`remaining` is what is missing of that. -/
theorem exact_window {maxRetries : ℤ} (hmax : 0 ≤ maxRetries) (windowSeconds : ℚ)
    (hsorted : times.Pairwise (· ≤ ·)) :
    let h := calls maxRetries windowSeconds times
    (∀ t, inClosedWindow windowSeconds (t - windowSeconds) h.grants ≤ maxRetries) ∧
    ∀ t, (∀ s ∈ times, s ≤ t) →
      ((h.budget.tryAcquire t).2 = false ↔
        inClosedWindow windowSeconds (t - windowSeconds) h.grants = maxRetries) ∧
      h.budget.remaining t =
        maxRetries - inClosedWindow windowSeconds (t - windowSeconds) h.grants := by
  intro h
  obtain ⟨hlimit, hwidth⟩ := calls_config maxRetries windowSeconds times
  have hgranted : ∀ t, h.granted t =
      inClosedWindow windowSeconds (t - windowSeconds) h.grants := fun t => by
    rw [History.granted, hwidth]
  simp only [← hgranted]
  have hle : ∀ t, h.granted t ≤ maxRetries := by
    obtain ⟨last, hlast⟩ : ∃ last, ∀ s ∈ times, s ≤ last := by
      rcases List.eq_nil_or_concat times with rfl | ⟨before, last, rfl⟩
      · exact ⟨0, by simp⟩
      · rw [List.concat_eq_append] at hsorted ⊢
        refine ⟨last, List.forall_mem_append.2 ⟨fun s hs => ?_, List.forall_mem_singleton.2 le_rfl⟩⟩
        exact (List.pairwise_append.1 hsorted).2.2 s hs last (List.mem_singleton.2 rfl)
    exact fun t => hlimit ▸ (kept_calls hmax hsorted hlast).limited t
  refine ⟨hle, fun t ht => ?_⟩
  have hkept : Kept h t := kept_calls hmax hsorted ht
  constructor
  · rw [hkept.tryAcquire_eq, hlimit]
    split_ifs with hfull
    · exact iff_of_true rfl ((hle t).antisymm hfull)
    · exact iff_of_false (by simp) fun heq => hfull heq.ge
  · rw [hkept.remaining_eq, hlimit]
    exact max_eq_right (sub_nonneg.2 (hle t))

end Calls

/-- Two retries in a window of five seconds: the third is refused, and granted once it is over. -/
theorem exact_window_sample :
    let h := calls 2 5 [0, 1, 2, 6]
    (∀ t, inClosedWindow 5 (t - 5) h.grants ≤ 2) ∧
    ∀ t, (∀ s ∈ [0, 1, 2, 6], s ≤ t) →
      ((h.budget.tryAcquire t).2 = false ↔ inClosedWindow 5 (t - 5) h.grants = 2) ∧
      h.budget.remaining t = 2 - inClosedWindow 5 (t - 5) h.grants :=
  exact_window (by decide) 5 (by decide)

end RetryBudget

end FirecrawlLb.Core
