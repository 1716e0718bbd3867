import FirecrawlLb.Lib.UnitOfWork
import Mathlib.Algebra.BigOperators.Group.List.Basic
import Mathlib.Algebra.Order.Group.Defs
import Mathlib.Data.List.Induction

/-!
# Spending from a balance that stops at zero

Costs add up: spending one after the other is spending their sum.  A cost that is taken off an old
balance and written back over the present one is spent as it should only when the two agree, or when
it uses up the old one, or is zero (`column_spend_iff`).
-/

namespace FirecrawlLb.Lib

variable {α : Type*} [AddCommGroup α] [LinearOrder α] {b c d r : α}

/-- The balance after a cost. -/
def spend (balance cost : α) : α := max 0 (balance - cost)

theorem spend_zero (hb : 0 ≤ b) : spend b 0 = b := by
  rw [spend, sub_zero, max_eq_right hb]

/-- The balance `b` is what some cost left of `r`. -/
def LeftOf (r b : α) : Prop := b = r ∨ ∃ c, 0 ≤ c ∧ b = spend r c

theorem LeftOf.refl (r : α) : LeftOf r r := Or.inl rfl

section Ordered

variable [IsOrderedAddMonoid α]

theorem spend_of_le (h : b ≤ c) : spend b c = 0 := max_eq_left (sub_nonpos.2 h)

theorem spend_of_ge (h : c ≤ b) : spend b c = b - c := max_eq_right (sub_nonneg.2 h)

/-- **Costs add up.** -/
theorem spend_spend (b c : α) (hd : 0 ≤ d) : spend (spend b c) d = spend b (c + d) := by
  rcases le_total b c with h | h
  · rw [spend_of_le h, spend_of_le hd, spend_of_le (h.trans (le_add_of_nonneg_right hd))]
  · rw [spend_of_ge h]
    unfold spend
    rw [sub_sub]

theorem foldl_spend {costs : List α} (hcosts : ∀ c ∈ costs, 0 ≤ c) :
    costs.foldl spend b = if costs = [] then b else spend b costs.sum := by
  induction costs using List.reverseRecOn with
  | nil => rfl
  | append_singleton costs c ih =>
    have hc : 0 ≤ c := hcosts c (by simp)
    have hne : costs ++ [c] ≠ [] := by simp
    rw [if_neg hne, List.foldl_append, ih fun c hc => hcosts c (by simp [hc]), List.sum_append,
      List.sum_singleton]
    split_ifs with h
    · rw [h, List.sum_nil, zero_add]
      rfl
    · exact spend_spend b costs.sum hc

theorem LeftOf.spend (h : LeftOf r b) (hd : 0 ≤ d) : LeftOf r (spend b d) := by
  rcases h with rfl | ⟨c, hc, rfl⟩
  · exact Or.inr ⟨d, hd, rfl⟩
  · exact Or.inr ⟨c + d, add_nonneg hc hd, spend_spend r c hd⟩

/-- **A stale balance.**  The write back of a cost that was taken off the balance `r` takes it off
the balance `b` exactly when `b` is still `r`, or the cost uses up `r`, or there is no cost. -/
theorem column_spend_iff {store : α → α} (hstore : ∀ a, store a = a) (h : LeftOf r b)
    (hc : 0 ≤ c) :
    column store r (Lib.spend r c) b = Lib.spend b c ↔ b = r ∨ r ≤ c ∨ c = 0 := by
  by_cases hbr : b = r
  · subst hbr
    simp only [true_or, iff_true]
    exact column_fresh (hstore _)
  obtain ⟨d, hd, rfl⟩ := h.resolve_left hbr
  rw [spend_spend r d hc]
  simp only [hbr, false_or]
  rcases le_or_gt r c with hrc | hcr
  · have hdc : r ≤ d + c := hrc.trans (le_add_of_nonneg_left hd)
    simp only [hrc, true_or, iff_true]
    rw [spend_of_le hrc, spend_of_le hdc]
    by_cases hr : r = 0
    · -- nothing is written, and nothing was left
      rw [hr, column_unchanged, spend_of_le hd]
    · rw [column_changed (Ne.symm hr), hstore]
  · -- what others have taken off is lost, unless nothing is written
    simp only [not_le.2 hcr, false_or]
    constructor
    · intro h
      by_contra hc0
      have hne : Lib.spend r c ≠ r := by
        rw [spend_of_ge hcr.le]
        simpa using hc0
      rw [column_changed hne, hstore, spend_of_ge hcr.le] at h
      rcases le_total (d + c) r with hle | hle
      · rw [spend_of_ge hle] at h
        have : d = 0 := by simpa using h
        exact hbr (by rw [this, spend_zero (hc.trans hcr.le)])
      · rw [spend_of_le hle] at h
        exact hcr.ne' (sub_eq_zero.1 h)
    · rintro rfl
      rw [spend_zero hcr.le, column_unchanged, add_zero]

end Ordered

end FirecrawlLb.Lib
