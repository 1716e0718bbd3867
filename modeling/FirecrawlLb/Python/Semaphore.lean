import Mathlib.Data.Nat.Basic

/-!
# `asyncio.Semaphore`

A semaphore counts its free permits and the tasks in its queue: those that wait, and those that were
given a permit but have not run yet.  A permit goes to the queue before it is free again.
-/

namespace FirecrawlLb.Python

structure Semaphore where
  value : ℕ
  waiters : ℕ := 0
  woken : ℕ := 0
  deriving DecidableEq

namespace Semaphore

def locked (s : Semaphore) : Bool := s.value = 0 || 0 < s.waiters + s.woken

/-- `_wake_up_next`, while permits and waiters are left. -/
def wakeUp (s : Semaphore) : Semaphore :=
  let n := min s.value s.waiters
  ⟨s.value - n, s.waiters - n, s.woken + n⟩

def take (s : Semaphore) : Semaphore := { s with value := s.value - 1 }

/-- `acquire()`: the permit is taken at once, or the task is suspended. -/
def acquire (s : Semaphore) : Semaphore × Bool :=
  if s.locked then ({ s with waiters := s.waiters + 1 }, false) else (s.take, true)

def release (s : Semaphore) : Semaphore :=
  if 0 < s.waiters then { s with waiters := s.waiters - 1, woken := s.woken + 1 }
  else { s with value := s.value + 1 }

/-- A task that was given a permit runs. -/
def resume (s : Semaphore) : Option Semaphore :=
  if 0 < s.woken then some (wakeUp { s with woken := s.woken - 1 }) else none

/-- A task in the queue is cancelled, before or after it was given a permit. -/
def cancel (s : Semaphore) (woken : Bool) : Option Semaphore :=
  match woken with
  | true =>
    if 0 < s.woken then some (wakeUp { s with value := s.value + 1, woken := s.woken - 1 })
    else none
  | false => if 0 < s.waiters then some (wakeUp { s with waiters := s.waiters - 1 }) else none

/-- Nobody is in the queue. -/
def Idle (s : Semaphore) : Prop := s.waiters = 0 ∧ s.woken = 0

variable {s : Semaphore}

theorem locked_iff (h : s.Idle) : s.locked = true ↔ s.value = 0 := by
  simp [locked, h.1, h.2]

/-- **A semaphore that is not locked is taken at once.** -/
theorem acquire_of_not_locked (h : s.locked = false) : s.acquire = (s.take, true) := by
  simp [acquire, h]

theorem value_pos_of_not_locked (h : s.locked = false) : 0 < s.value := by
  have hvalue : s.value ≠ 0 := fun h0 => by simp [locked, h0] at h
  omega

theorem Idle.take (h : s.Idle) : s.take.Idle := h

theorem release_eq (h : s.Idle) : s.release = { s with value := s.value + 1 } := by
  simp [release, h.1]

theorem Idle.release (h : s.Idle) : s.release.Idle := by
  rw [release_eq h]
  exact h

end Semaphore

end FirecrawlLb.Python
