import Mathlib.Algebra.Order.Group.Defs
import Mathlib.Data.List.Count
import Mathlib.Data.List.TakeWhile
import Mathlib.Data.Finset.Max
import Mathlib.Tactic.GCongr

/-!
# Sliding windows

How many of some times lie in a window of a given width, wherever it starts.  A limit on every
window holds for one more time exactly when every window it falls in has room for it.  The windows
that start at one of the times are the ones to look at.
-/

namespace FirecrawlLb.Lib

variable {α : Type*} [AddCommGroup α] [LinearOrder α] {width t x : α} {times : List α} {limit : ℤ}

/-- The number of the times in the window that starts at `t`. -/
def inWindow (width t : α) (times : List α) : ℤ := times.countP fun x => t ≤ x ∧ x < t + width

/-- No window holds more of the times than the limit. -/
def Limited (width : α) (limit : ℤ) (times : List α) : Prop := ∀ t, inWindow width t times ≤ limit

/-- Every window that `x` falls in has room for it. -/
def RoomFor (width : α) (limit : ℤ) (times : List α) (x : α) : Prop :=
  ∀ t, t ≤ x → x < t + width → inWindow width t times < limit

theorem inWindow_append (width t : α) (times times' : List α) :
    inWindow width t (times ++ times') = inWindow width t times + inWindow width t times' := by
  simp [inWindow]

theorem inWindow_singleton : inWindow width t [x] = if t ≤ x ∧ x < t + width then 1 else 0 := by
  rw [inWindow, List.countP_singleton]
  split_ifs with h h' h' <;> simp_all

theorem limited_nil : Limited width limit [] ↔ 0 ≤ limit :=
  ⟨fun h => h 0, fun h _ => h⟩

/-- **One more time** keeps the limit exactly when the windows have room for it. -/
theorem limited_append_singleton :
    Limited width limit (times ++ [x]) ↔
      Limited width limit times ∧ RoomFor width limit times x := by
  have hcount : ∀ t, inWindow width t (times ++ [x]) =
      inWindow width t times + if t ≤ x ∧ x < t + width then 1 else 0 := fun t => by
    rw [inWindow_append, inWindow_singleton]
  constructor
  · intro h
    refine ⟨fun t => ?_, fun t htx hxt => ?_⟩
    · have := h t
      rw [hcount] at this
      split_ifs at this <;> omega
    · have := h t
      rw [hcount, if_pos ⟨htx, hxt⟩] at this
      omega
  · rintro ⟨hlimit, hroom⟩ t
    rw [hcount]
    have := hlimit t
    split_ifs with hin
    · have := hroom t hin.1 hin.2
      omega
    · omega

/-! ### The windows to look at -/

section Ordered

variable [IsOrderedAddMonoid α]

/-- A window holds no more of the times than one that starts at one of them, or at `x`. -/
theorem exists_inWindow_le (width : α) (times : List α) (htx : t ≤ x) :
    ∃ t' ∈ x :: times, t ≤ t' ∧ t' ≤ x ∧ inWindow width t times ≤ inWindow width t' times := by
  have hmem : x ∈ (x :: times).toFinset.filter (t ≤ ·) := by simpa using htx
  obtain ⟨t', ht', hmin⟩ := Finset.exists_min_image _ id ⟨x, hmem⟩
  obtain ⟨ht'mem, htt'⟩ := Finset.mem_filter.1 ht'
  refine ⟨t', List.mem_toFinset.1 ht'mem, htt', hmin x hmem, ?_⟩
  unfold inWindow
  refine Int.ofNat_le.2 (List.countP_mono_left fun y hy hin => ?_)
  obtain ⟨hty, hyt⟩ : t ≤ y ∧ y < t + width := by simpa using hin
  have ht'y : t' ≤ y := hmin y (by simp [hy, hty])
  simpa using ⟨ht'y, hyt.trans_le (by gcongr)⟩

/-- The windows that start at one of the times, or at `x`, decide. -/
theorem roomFor_iff : RoomFor width limit times x ↔
    ∀ t ∈ x :: times, t ≤ x → x < t + width → inWindow width t times < limit := by
  constructor
  · intro h t _
    exact h t
  · intro h t htx hxt
    obtain ⟨t', ht', htt', ht'x, hle⟩ := exists_inWindow_le width times htx
    exact hle.trans_lt (h t' ht' ht'x (hxt.trans_le (by gcongr)))

instance : Decidable (RoomFor width limit times x) := decidable_of_iff _ roomFor_iff.symm

end Ordered

/-! ### Counting back from a new time -/

section Closed

variable [IsOrderedAddMonoid α]

/-- The number of the times from `t` to `t + width`, both included. -/
def inClosedWindow (width t : α) (times : List α) : ℤ := times.countP fun x => t ≤ x ∧ x ≤ t + width

/-- The number of the times from `t` on. -/
def countFrom (t : α) (times : List α) : ℤ := times.countP fun x => t ≤ x

omit [IsOrderedAddMonoid α] in
theorem inClosedWindow_le_of_sublist {times' : List α} (h : times'.Sublist times) :
    inClosedWindow width t times' ≤ inClosedWindow width t times :=
  Int.ofNat_le.2 h.countP_le

/-- A window that a time falls in starts no earlier than a width before it. -/
theorem inClosedWindow_le_countFrom (times : List α) (hx : x ≤ t + width) :
    inClosedWindow width t times ≤ countFrom (x - width) times := by
  refine Int.ofNat_le.2 (List.countP_mono_left fun y _ hin => ?_)
  obtain ⟨hty, -⟩ : t ≤ y ∧ y ≤ t + width := by simpa using hin
  have hback : x - width ≤ t := sub_le_iff_le_add.2 hx
  simpa using sub_le_iff_le_add.1 (hback.trans hty)

/-- **One more time** keeps the limit on the closed windows, when fewer times than the limit lie
after its window start.  The times after it count as well, so they need not come in order. -/
theorem inClosedWindow_append_singleton_le (hlimit : inClosedWindow width t times ≤ limit)
    (hcount : countFrom (x - width) times < limit) :
    inClosedWindow width t (times ++ [x]) ≤ limit := by
  have happend : inClosedWindow width t (times ++ [x]) =
      inClosedWindow width t times + if t ≤ x ∧ x ≤ t + width then 1 else 0 := by
    unfold inClosedWindow
    rw [List.countP_append, List.countP_singleton]
    split_ifs with h h' h' <;> simp_all
  rw [happend]
  split_ifs with hin
  · have hback := inClosedWindow_le_countFrom times hin.2
    omega
  · omega

theorem inClosedWindow_eq_countFrom (h : ∀ y ∈ times, y ≤ x) :
    inClosedWindow width (x - width) times = countFrom (x - width) times := by
  refine congrArg Int.ofNat (List.countP_congr fun y hy => ?_)
  simp [h y hy]

/-! ### Evicting old times -/

/-- What is left of a queue of times when those before a cutoff are taken from its front. -/
def evict (cutoff : α) (times : List α) : List α := times.dropWhile (· < cutoff)

omit [AddCommGroup α] [IsOrderedAddMonoid α] in
/-- A sorted queue loses exactly the times before the cutoff. -/
theorem exists_evicted (hsorted : times.Pairwise (· ≤ ·)) (cutoff : α) :
    ∃ old, times = old ++ evict cutoff times ∧ (∀ y ∈ old, y < cutoff) ∧
      ∀ y ∈ evict cutoff times, cutoff ≤ y := by
  refine ⟨times.takeWhile (· < cutoff), List.takeWhile_append_dropWhile.symm, fun y hy => ?_, ?_⟩
  · simpa using List.mem_takeWhile_imp hy
  · induction times with
    | nil => simp [evict]
    | cons y times ih =>
      obtain ⟨hy, hsorted⟩ := List.pairwise_cons.1 hsorted
      unfold evict
      rw [List.dropWhile_cons]
      split_ifs with hlt
      · exact ih hsorted
      · have hcutoff : cutoff ≤ y := by simpa using hlt
        exact List.forall_mem_cons.2 ⟨hcutoff, fun z hz => hcutoff.trans (hy z hz)⟩

omit [AddCommGroup α] [IsOrderedAddMonoid α] in
/-- **The length of the queue is a count**, of the times in the queue or of all there ever were,
when the rest is older than the cutoff. -/
theorem length_evict {old : List α} {cutoff : α} (hsorted : times.Pairwise (· ≤ ·))
    (hold : ∀ y ∈ old, y < cutoff) :
    ((evict cutoff times).length : ℤ) = countFrom cutoff (old ++ times) := by
  obtain ⟨evicted, hsplit, hevicted, hleft⟩ := exists_evicted hsorted cutoff
  have hzero : ∀ l : List α, (∀ y ∈ l, y < cutoff) → l.countP (cutoff ≤ ·) = 0 := fun l hl =>
    List.countP_eq_zero.2 fun y hy => by simpa using hl y hy
  have hall : (evict cutoff times).countP (cutoff ≤ ·) = (evict cutoff times).length :=
    List.countP_eq_length.2 fun y hy => by simpa using hleft y hy
  have hcount : (old ++ times).countP (cutoff ≤ ·) = (evict cutoff times).length := by
    conv_lhs => rw [hsplit]
    rw [List.countP_append, List.countP_append, hzero old hold, hzero evicted hevicted, hall]
    omega
  rw [countFrom, hcount]

end Closed

end FirecrawlLb.Lib
