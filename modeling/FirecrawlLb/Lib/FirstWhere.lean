import FirecrawlLb.Lib.Results
import Mathlib.Order.Lattice

/-!
# The first element that passes a test

A search through a list with a test that may fail: the elements after the one found are not tested.
In a strictly increasing list the elements before another are the smaller ones, so what the search
finds, and whether it fails, can be said without the list's splits.
-/

namespace FirecrawlLb.Lib

variable {ε α : Type} {test : α → Except ε Bool} {l : List α} {a b : α} {r : Option α}

/-- The first element that passes, if any; an exception of a test ends the search. -/
def firstWhere (test : α → Except ε Bool) : List α → Except ε (Option α)
  | [] => .ok none
  | a :: l => do if ← test a then return some a else firstWhere test l

theorem firstWhere_of_true (h : test a = .ok true) (l : List α) :
    firstWhere test (a :: l) = .ok (some a) := by
  rw [firstWhere, h]
  rfl

theorem firstWhere_of_false (h : test a = .ok false) (l : List α) :
    firstWhere test (a :: l) = firstWhere test l := by
  rw [firstWhere, h]
  rfl

theorem firstWhere_of_error {e : ε} (h : test a = .error e) (l : List α) :
    firstWhere test (a :: l) = .error e := by
  rw [firstWhere, h]
  rfl

section Sorted

variable [LinearOrder α]

/-- **The search succeeds** if and only if the test succeeds on every element before which none
passes. -/
theorem firstWhere_isOk_iff (hl : l.Pairwise (· < ·)) : (∃ r, firstWhere test l = .ok r) ↔
    ∀ a ∈ l, (∀ b ∈ l, b < a → test b ≠ .ok true) → ∃ passes, test a = .ok passes := by
  induction l with
  | nil => simp [firstWhere]
  | cons x l ih =>
    obtain ⟨hx, hl⟩ := List.pairwise_cons.1 hl
    -- the list is sorted, so nothing comes before its head
    have hfirst : ∀ b ∈ x :: l, b < x → test b ≠ .ok true := by
      intro b hb hlt
      rcases List.mem_cons.1 hb with rfl | hb
      · exact absurd hlt (lt_irrefl b)
      · exact absurd hlt (hx b hb).not_gt
    cases htest : test x with
    | error e =>
      rw [firstWhere_of_error htest]
      refine iff_of_false (fun ⟨_, h⟩ => by cases h) fun h => ?_
      obtain ⟨passes, h⟩ := h x List.mem_cons_self hfirst
      rw [htest] at h
      cases h
    | ok passes =>
      cases passes with
      | true =>
        rw [firstWhere_of_true htest]
        refine iff_of_true ⟨_, rfl⟩ fun a ha hbefore => ?_
        rcases List.mem_cons.1 ha with rfl | ha
        · exact ⟨true, htest⟩
        · exact absurd htest (hbefore x List.mem_cons_self (hx a ha))
      | false =>
        rw [firstWhere_of_false htest, ih hl]
        constructor
        · intro h a ha hbefore
          rcases List.mem_cons.1 ha with rfl | ha
          · exact ⟨false, htest⟩
          · exact h a ha fun b hb => hbefore b (List.mem_cons_of_mem _ hb)
        · intro h a ha hbefore
          refine h a (List.mem_cons_of_mem _ ha) fun b hb hlt => ?_
          rcases List.mem_cons.1 hb with rfl | hb
          · rw [htest]
            simp
          · exact hbefore b hb hlt

/-- **The element found** is the least that passes. -/
theorem firstWhere_eq_some_iff (hl : l.Pairwise (· < ·)) (h : firstWhere test l = .ok r) :
    r = some a ↔ a ∈ l ∧ test a = .ok true ∧ ∀ b ∈ l, b < a → test b ≠ .ok true := by
  induction l with
  | nil =>
    obtain rfl : none = r := Except.ok.inj h
    simp
  | cons x l ih =>
    obtain ⟨hx, hl⟩ := List.pairwise_cons.1 hl
    cases htest : test x with
    | error e =>
      rw [firstWhere_of_error htest] at h
      cases h
    | ok passes =>
      cases passes with
      | true =>
        -- the head passes, and the list is sorted: it is the least
        rw [firstWhere_of_true htest] at h
        obtain rfl := Except.ok.inj h
        constructor
        · intro heq
          obtain rfl := Option.some.inj heq
          refine ⟨List.mem_cons_self, htest, fun b hb hlt => ?_⟩
          rcases List.mem_cons.1 hb with rfl | hb
          · exact absurd hlt (lt_irrefl b)
          · exact absurd hlt (hx b hb).not_gt
        · rintro ⟨ha, -, hbefore⟩
          rcases List.mem_cons.1 ha with rfl | ha
          · rfl
          · exact absurd htest (hbefore x List.mem_cons_self (hx a ha))
      | false =>
        rw [firstWhere_of_false htest] at h
        have hfails : ∀ b, b = x → test b ≠ .ok true := by
          rintro b rfl
          rw [htest]
          simp
        rw [ih hl h]
        constructor
        · rintro ⟨ha, hpasses, hbefore⟩
          refine ⟨List.mem_cons_of_mem _ ha, hpasses, fun b hb hlt => ?_⟩
          rcases List.mem_cons.1 hb with heq | hb
          · exact hfails b heq
          · exact hbefore b hb hlt
        · rintro ⟨ha, hpasses, hbefore⟩
          rcases List.mem_cons.1 ha with heq | ha
          · exact absurd hpasses (hfails a heq)
          · exact ⟨ha, hpasses, fun b hb => hbefore b (List.mem_cons_of_mem _ hb)⟩

end Sorted

end FirecrawlLb.Lib
