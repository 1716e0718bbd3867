import FirecrawlLb.Lib.Tasks

/-!
# A lock that one task holds

Whether a task holds the lock is seen from where it stands, and whether the lock is taken from the
store.  When no task takes a lock that is taken, one task at a time holds it (`Exclusive.step`), so
the step of a holder finds the other tasks without the lock (`AtMostOne.other`).
-/

namespace FirecrawlLb.Lib.Tasks

variable {σ τ ι α : Type*}

/-- The discipline of a lock: a task does not start with it, takes it when it is free, and frees it
only when it holds it. -/
structure Locks (P : Program σ τ ι α) (locked : σ → Bool) (holds : τ → Bool) : Prop where
  starts : ∀ s i, holds (P.spawn s i) = false
  acquires : ∀ s t a s' t', P.act s t a = some (s', t') → holds t = false → holds t' = true →
    locked s = false ∧ locked s' = true
  keeps : ∀ s t a s' t', P.act s t a = some (s', t') → holds t' = holds t → locked s' = locked s

/-- One place at most holds. -/
def AtMostOne (holds : τ → Bool) (l : List τ) : Prop :=
  ∀ (i j : ℕ) u v, l[i]? = some u → l[j]? = some v → holds u = true → holds v = true → i = j

/-- One task at a time holds the lock, which is then taken. -/
structure Exclusive (locked : σ → Bool) (holds : τ → Bool) (p : Pool σ τ) : Prop where
  one : AtMostOne holds p.tasks
  locked : ∀ u ∈ p.tasks, holds u = true → locked p.store = true

section Rules

variable {P : Program σ τ ι α} {locked : σ → Bool} {holds : τ → Bool} {p p' : Pool σ τ}
  {m : Move ι α} {l : List τ} {t u v : τ} {i j : ℕ}

theorem AtMostOne.other (h : AtMostOne holds l) (hu : l[i]? = some u) (hv : l[j]? = some v)
    (hij : i ≠ j) (hholds : holds u = true) : holds v = false := by
  by_contra hheld
  exact hij (h i j u v hu hv hholds (by simpa using hheld))

theorem AtMostOne.append (h : AtMostOne holds l) (ht : holds t = false) :
    AtMostOne holds (l ++ [t]) := by
  intro i j u v hu hv hhu hhv
  rcases getElem?_append_cases hu with hu | rfl
  · rcases getElem?_append_cases hv with hv | rfl
    · exact h i j u v hu hv hhu hhv
    · rw [ht] at hhv
      cases hhv
  · rw [ht] at hhu
    cases hhu

theorem AtMostOne.set (h : AtMostOne holds l)
    (hfree : ∀ (j : ℕ) u, j ≠ i → l[j]? = some u → holds u = true → holds t = false) :
    AtMostOne holds (l.set i t) := by
  intro j k u v hset hset' hhu hhv
  rcases getElem?_set_cases hset with ⟨hj, rfl⟩ | ⟨hj, hu⟩ <;>
    rcases getElem?_set_cases hset' with ⟨hk, rfl⟩ | ⟨hk, hv⟩
  · exact hj.trans hk.symm
  · rw [hfree k v hk hv hhv] at hhu
    cases hhu
  · rw [hfree j u hj hu hhu] at hhv
    cases hhv
  · exact h j k u v hu hv hhu hhv

theorem exclusive_start (s : σ) : Exclusive locked holds (⟨s, []⟩ : Pool σ τ) :=
  ⟨by simp [AtMostOne], by simp⟩

/-- **One task at a time.** -/
theorem Exclusive.step (hP : Locks P locked holds) (h : Exclusive locked holds p)
    (hs : P.step p m = some p') : Exclusive locked holds p' := by
  obtain ⟨i, rfl, rfl⟩ | ⟨tid, a, t, s', t', rfl, ht, ha, rfl⟩ := Program.step_cases hs
  · refine ⟨h.one.append (hP.starts p.store i), fun u hu hheld => ?_⟩
    rcases List.mem_append.1 hu with hu | hu
    · exact h.locked u hu hheld
    · obtain rfl := List.mem_singleton.1 hu
      rw [hP.starts] at hheld
      cases hheld
  · -- while another task holds the lock, this one neither holds nor takes it
    have hfree : ∀ (j : ℕ) u, j ≠ tid → p.tasks[j]? = some u → holds u = true →
        holds t = false ∧ holds t' = false := by
      intro j u hj hu hheld
      have hnot := h.one.other hu ht hj hheld
      refine ⟨hnot, ?_⟩
      by_contra htakes
      have hunlocked := (hP.acquires _ _ _ _ _ ha hnot (by simpa using htakes)).1
      rw [h.locked u (List.mem_of_getElem? hu) hheld] at hunlocked
      cases hunlocked
    refine ⟨h.one.set fun j u hj hu hheld => (hfree j u hj hu hheld).2, fun u hu hheld => ?_⟩
    obtain ⟨j, hj⟩ := List.getElem?_of_mem hu
    show locked s' = true
    rcases getElem?_set_cases hj with ⟨-, rfl⟩ | ⟨hne, hj⟩
    · cases hheld₀ : holds t with
      | true =>
        rw [hP.keeps _ _ _ _ _ ha (hheld.trans hheld₀.symm)]
        exact h.locked t (List.mem_of_getElem? ht) hheld₀
      | false => exact (hP.acquires _ _ _ _ _ ha hheld₀ hheld).2
    · obtain ⟨hout, hout'⟩ := hfree j u hne hj hheld
      rw [hP.keeps _ _ _ _ _ ha (hout'.trans hout.symm)]
      exact h.locked u (List.mem_of_getElem? hj) hheld

end Rules

end FirecrawlLb.Lib.Tasks
