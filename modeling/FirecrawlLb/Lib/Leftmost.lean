import Mathlib.Data.List.Basic

/-!
# The leftmost match

A search through a list from the left.  What matches at a place may depend on the element before it
and on all that follows.
-/

namespace FirecrawlLb.Lib

variable {α β : Type*} {matchAt : Option α → List α → Option β} {prev : Option α}
  {c : α} {pre cs rest : List α} {r : β}

/-- What stands before the first place with a match, and the match. -/
def leftmost (matchAt : Option α → List α → Option β) :
    Option α → List α → Option (List α × β)
  | prev, [] => (matchAt prev []).map ([], ·)
  | prev, c :: cs =>
    match matchAt prev (c :: cs) with
    | some r => some ([], r)
    | none => (leftmost matchAt (some c) cs).map fun found => (c :: found.1, found.2)

/-- The element before the place behind a list. -/
def lastOr (prev : Option α) (pre : List α) : Option α := pre.foldl (fun _ c => some c) prev

@[simp] theorem lastOr_nil (prev : Option α) : lastOr prev [] = prev := rfl

@[simp] theorem lastOr_cons (prev : Option α) (c : α) (pre : List α) :
    lastOr prev (c :: pre) = lastOr (some c) pre := rfl

theorem lastOr_append (prev : Option α) (a b : List α) :
    lastOr prev (a ++ b) = lastOr (lastOr prev a) b := List.foldl_append

theorem lastOr_of_ne_nil {prev' : Option α} (h : cs ≠ []) : lastOr prev cs = lastOr prev' cs := by
  cases cs with
  | nil => exact absurd rfl h
  | cons c cs => rfl

theorem exists_lastOr (prev : Option α) (h : cs ≠ []) : ∃ c, lastOr prev cs = some c := by
  induction cs generalizing prev with
  | nil => exact absurd rfl h
  | cons c cs ih =>
    cases cs with
    | nil => exact ⟨c, rfl⟩
    | cons d cs => exact ih (some c) (List.cons_ne_nil d cs)

theorem mem_of_lastOr (hne : cs ≠ []) (prev : Option α)
    (h : lastOr prev cs = some c) : c ∈ cs := by
  induction cs generalizing prev with
  | nil => exact absurd rfl hne
  | cons d cs ih =>
    cases cs with
    | nil => exact List.mem_singleton.2 (Option.some.inj h).symm
    | cons e cs => exact List.mem_cons_of_mem _ (ih (List.cons_ne_nil e cs) (some d) h)

/-- There is a match behind `pre`, and none at an earlier place. -/
structure Leftmost (matchAt : Option α → List α → Option β) (prev : Option α) (pre rest : List α)
    (r : β) : Prop where
  found : matchAt (lastOr prev pre) rest = some r
  first : ∀ a b, pre = a ++ b → b ≠ [] → matchAt (lastOr prev a) (b ++ rest) = none

theorem Leftmost.cons (hnone : matchAt prev (c :: (pre ++ rest)) = none)
    (h : Leftmost matchAt (some c) pre rest r) : Leftmost matchAt prev (c :: pre) rest r := by
  refine ⟨h.found, fun a b heq hb => ?_⟩
  cases a with
  | nil =>
    rw [List.nil_append] at heq
    rw [← heq]
    exact hnone
  | cons d a =>
    obtain ⟨rfl, htail⟩ := List.cons.inj heq
    exact h.first a b htail hb

theorem Leftmost.of_cons (h : Leftmost matchAt prev (c :: pre) rest r) :
    matchAt prev (c :: (pre ++ rest)) = none ∧ Leftmost matchAt (some c) pre rest r :=
  ⟨h.first [] (c :: pre) rfl (List.cons_ne_nil _ _), h.found, fun a b heq hb =>
    h.first (c :: a) b (by rw [heq, List.cons_append]) hb⟩

/-- **The search finds the leftmost match.** -/
theorem leftmost_eq_some : leftmost matchAt prev cs = some (pre, r) ↔
    ∃ rest, cs = pre ++ rest ∧ Leftmost matchAt prev pre rest r := by
  induction cs generalizing prev pre with
  | nil =>
    simp only [leftmost, Option.map_eq_some_iff, Prod.mk.injEq]
    constructor
    · rintro ⟨r, hr, rfl, rfl⟩
      exact ⟨[], rfl, hr, fun a b heq hb => absurd (List.append_eq_nil_iff.1 heq.symm).2 hb⟩
    · rintro ⟨rest, heq, h⟩
      obtain ⟨rfl, rfl⟩ := List.append_eq_nil_iff.1 heq.symm
      exact ⟨r, h.found, rfl, rfl⟩
  | cons c cs ih =>
    rw [leftmost]
    cases hhere : matchAt prev (c :: cs) with
    | some r' =>
      simp only [Option.some.injEq, Prod.mk.injEq]
      constructor
      · rintro ⟨rfl, rfl⟩
        exact ⟨c :: cs, rfl, hhere, fun a b heq hb =>
          absurd (List.append_eq_nil_iff.1 heq.symm).2 hb⟩
      · rintro ⟨rest, heq, h⟩
        cases pre with
        | nil =>
          obtain rfl : c :: cs = rest := heq
          exact ⟨rfl, Option.some.inj (hhere.symm.trans h.found)⟩
        | cons d pre =>
          have hnone := h.first [] (d :: pre) rfl (List.cons_ne_nil _ _)
          rw [← heq] at hnone
          cases hhere.symm.trans hnone
    | none =>
      -- no match here, so the search goes on behind this character
      simp only [Option.map_eq_some_iff, Prod.exists, Prod.mk.injEq]
      constructor
      · rintro ⟨pre', r', hrest, rfl, rfl⟩
        obtain ⟨rest, rfl, h⟩ := ih.1 hrest
        exact ⟨rest, rfl, h.cons hhere⟩
      · rintro ⟨rest, heq, h⟩
        cases pre with
        | nil =>
          obtain rfl : c :: cs = rest := heq
          cases hhere.symm.trans h.found
        | cons d pre =>
          obtain ⟨rfl, rfl⟩ := List.cons.inj heq
          exact ⟨pre, r, ih.2 ⟨rest, rfl, h.of_cons.2⟩, rfl, rfl⟩

/-! ### The first element of a kind -/

section ReplaceFirst

variable {p : α → Bool} {x : α} {l l' : List α}

/-- Another element in the place of the first one of a kind. -/
def replaceFirst (p : α → Bool) (x : α) : List α → Option (List α)
  | [] => none
  | a :: l => if p a then some (x :: l) else (replaceFirst p x l).map (a :: ·)

/-- **What is replaced** is the first element of the kind. -/
theorem replaceFirst_cases (h : replaceFirst p x l = some l') :
    ∃ a b c, l = a ++ b :: c ∧ l' = a ++ x :: c ∧ p b = true ∧ ∀ y ∈ a, p y = false := by
  induction l generalizing l' with
  | nil => cases h
  | cons y l ih =>
    rw [replaceFirst] at h
    split_ifs at h with hy
    · exact ⟨[], y, l, rfl, (Option.some.inj h).symm, hy, by simp⟩
    · obtain ⟨l'', hl, rfl⟩ := Option.map_eq_some_iff.1 h
      obtain ⟨a, b, c, rfl, rfl, hb, ha⟩ := ih hl
      exact ⟨y :: a, b, c, rfl, rfl, hb, List.forall_mem_cons.2 ⟨by simpa using hy, ha⟩⟩

theorem exists_replaceFirst (h : ∃ y ∈ l, p y = true) : ∃ l', replaceFirst p x l = some l' := by
  induction l with
  | nil => simp at h
  | cons y l ih =>
    rw [replaceFirst]
    split_ifs with hy
    · exact ⟨_, rfl⟩
    · obtain ⟨z, hz, hpz⟩ := h
      rcases List.mem_cons.1 hz with rfl | hz
      · exact absurd hpz hy
      · obtain ⟨l', hl'⟩ := ih ⟨z, hz, hpz⟩
        exact ⟨y :: l', by rw [hl']; rfl⟩

end ReplaceFirst

end FirecrawlLb.Lib
