import FirecrawlLb.Lib.Run
import Mathlib.Algebra.BigOperators.Group.List.Basic
import Mathlib.Algebra.Order.Group.Int
import Mathlib.Tactic.Ring

/-!
# Tasks that share a store

A pool is a store and the tasks that read and write it.  A task takes one step at a time, and any
task may take the next one: the interleavings of the tasks are the runs of the pool.  A task keeps
its place in the list after its last step, so a finished task can still be asked what it did.

`Program.inv_step` is the rule of Owicki and Gries: an assertion on the store and one on each task,
where a step keeps the store's and its own assertion and does not disturb those of other tasks.
-/

namespace FirecrawlLb.Lib.Tasks

open FirecrawlLb.Lib.Run

/-- A store and the tasks that share it. -/
structure Pool (σ τ : Type*) where
  store : σ
  tasks : List τ

/-- A task is started, or the task in one place takes a step. -/
inductive Move (ι α : Type*) where
  | spawn (i : ι)
  | act (tid : ℕ) (a : α)

/-- What starting a task does, and what a step of a task does to the store and to the task. -/
structure Program (σ τ ι α : Type*) where
  spawn : σ → ι → τ
  act : σ → τ → α → Option (σ × τ)

variable {σ τ ι α : Type*}

/-- One move of the pool. -/
def Program.step (P : Program σ τ ι α) (p : Pool σ τ) : Move ι α → Option (Pool σ τ)
  | .spawn i => some { p with tasks := p.tasks ++ [P.spawn p.store i] }
  | .act tid a =>
    match p.tasks[tid]? with
    | none => none
    | some t => (P.act p.store t a).map fun r => ⟨r.1, p.tasks.set tid r.2⟩

variable {P : Program σ τ ι α} {p p' : Pool σ τ} {m : Move ι α} {ms : List (Move ι α)}

/-- **What a move can do.** -/
theorem Program.step_cases (h : P.step p m = some p') :
    (∃ i, m = .spawn i ∧ p' = { p with tasks := p.tasks ++ [P.spawn p.store i] }) ∨
    (∃ tid a t st t', m = .act tid a ∧ p.tasks[tid]? = some t ∧ P.act p.store t a = some (st, t') ∧
      p' = ⟨st, p.tasks.set tid t'⟩) := by
  cases m with
  | spawn i => exact Or.inl ⟨i, rfl, by simpa [Program.step] using h.symm⟩
  | act tid a =>
    right
    simp only [Program.step] at h
    split at h
    · cases h
    · rename_i t ht
      obtain ⟨⟨st, t'⟩, hact, rfl⟩ := Option.map_eq_some_iff.1 h
      exact ⟨tid, a, t, st, t', rfl, ht, hact, rfl⟩

theorem Program.step_last {s : σ} {ts : List τ} {t : τ} {a : α} :
    P.step ⟨s, ts ++ [t]⟩ (.act ts.length a) =
      (P.act s t a).map fun r => ⟨r.1, ts ++ [r.2]⟩ := by
  simp [Program.step]

/-- An assertion on the store, and one on the store and every task. -/
def Asserts (I : σ → Prop) (J : σ → τ → Prop) (p : Pool σ τ) : Prop :=
  I p.store ∧ ∀ t ∈ p.tasks, J p.store t

section Rules

variable {I : σ → Prop} {C : Pool σ τ → Move ι α → Prop}

/-- **The rule of Owicki and Gries**, for the moves that meet a condition. -/
theorem Program.inv_step {J : σ → τ → Prop}
    (hspawn : ∀ p i, I p.store → C p (.spawn i) → J p.store (P.spawn p.store i))
    (hact : ∀ p tid a t st t', I p.store → J p.store t → C p (.act tid a) →
      p.tasks[tid]? = some t → P.act p.store t a = some (st, t') → I st ∧ J st t')
    (hstable : ∀ p tid a t st t' u, I p.store → J p.store t → J p.store u → C p (.act tid a) →
      p.tasks[tid]? = some t → P.act p.store t a = some (st, t') → J st u)
    (hp : Asserts I J p) (hC : C p m) (h : P.step p m = some p') : Asserts I J p' := by
  obtain ⟨hI, hJ⟩ := hp
  obtain ⟨i, rfl, rfl⟩ | ⟨tid, a, t, st, t', rfl, ht, ha, rfl⟩ := Program.step_cases h
  · refine ⟨hI, fun u hu => ?_⟩
    rcases List.mem_append.1 hu with hu | hu
    · exact hJ u hu
    · obtain rfl := List.mem_singleton.1 hu
      exact hspawn p i hI hC
  · have htJ := hJ t (List.mem_of_getElem? ht)
    obtain ⟨hI', hJ'⟩ := hact p tid a t st t' hI htJ hC ht ha
    refine ⟨hI', fun u hu => ?_⟩
    rcases List.mem_or_eq_of_mem_set hu with hu | rfl
    · exact hstable p tid a t st t' u hI htJ (hJ u hu) hC ht ha
    · exact hJ'

/-- An assertion that speaks of the task alone is not disturbed by the others. -/
theorem Program.inv_step_local {J : τ → Prop}
    (hspawn : ∀ p i, I p.store → C p (.spawn i) → J (P.spawn p.store i))
    (hact : ∀ p tid a t st t', I p.store → J t → C p (.act tid a) → p.tasks[tid]? = some t →
      P.act p.store t a = some (st, t') → I st ∧ J t')
    (hp : Asserts I (fun _ => J) p) (hC : C p m) (h : P.step p m = some p') :
    Asserts I (fun _ => J) p' :=
  Program.inv_step hspawn hact (fun _ _ _ _ _ _ _ _ _ hu _ _ _ => hu) hp hC h

end Rules

/-! ### Adding up over the tasks -/

theorem sum_map_set_add {M : Type*} [AddCommMonoid M] (f : τ → M) {l : List τ} {i : ℕ} {t : τ}
    (t' : τ) (h : l[i]? = some t) : ((l.set i t').map f).sum + f t = (l.map f).sum + f t' := by
  induction l generalizing i with
  | nil => simp at h
  | cons u l ih =>
    cases i with
    | zero =>
      obtain rfl : u = t := by simpa using h
      simp only [List.set_cons_zero, List.map_cons, List.sum_cons]
      rw [add_right_comm, add_comm (f t'), add_right_comm]
    | succ i =>
      simp only [List.set_cons_succ, List.map_cons, List.sum_cons]
      rw [add_assoc, ih (by simpa using h), add_assoc]

theorem sum_map_set (f : τ → ℤ) {l : List τ} {i : ℕ} {t : τ} (t' : τ) (h : l[i]? = some t) :
    ((l.set i t').map f).sum = (l.map f).sum - f t + f t' := by
  have := sum_map_set_add f t' h
  omega

theorem Program.sum_step_add {M : Type*} [AddCommMonoid M] (f : τ → M)
    (h : P.step p m = some p') :
    (∃ i, m = .spawn i ∧ p'.store = p.store ∧
      (p'.tasks.map f).sum = (p.tasks.map f).sum + f (P.spawn p.store i)) ∨
    (∃ tid a t t', m = .act tid a ∧ p.tasks[tid]? = some t ∧
      P.act p.store t a = some (p'.store, t') ∧
      (p'.tasks.map f).sum + f t = (p.tasks.map f).sum + f t') := by
  obtain ⟨i, rfl, rfl⟩ | ⟨tid, a, t, st, t', rfl, ht, ha, rfl⟩ := Program.step_cases h
  · exact Or.inl ⟨i, rfl, rfl, by simp⟩
  · exact Or.inr ⟨tid, a, t, t', rfl, ht, ha, sum_map_set_add f t' ht⟩

theorem Program.sum_step (f : τ → ℤ) (h : P.step p m = some p') :
    (∃ i, m = .spawn i ∧ (p'.tasks.map f).sum = (p.tasks.map f).sum + f (P.spawn p.store i)) ∨
    (∃ tid a t t', m = .act tid a ∧ p.tasks[tid]? = some t ∧
      P.act p.store t a = some (p'.store, t') ∧
      (p'.tasks.map f).sum = (p.tasks.map f).sum - f t + f t') := by
  obtain ⟨i, hm, -, hsum⟩ | ⟨tid, a, t, t', hm, ht, ha, hsum⟩ := Program.sum_step_add f h
  · exact Or.inl ⟨i, hm, hsum⟩
  · exact Or.inr ⟨tid, a, t, t', hm, ht, ha, by omega⟩

/-- **A quantity of the store and the tasks is conserved** when a task starts with none of it and
every step only moves it between the store and the task. -/
theorem Program.sum_conserved {free : σ → ℕ} {held : τ → ℕ}
    (hspawn : ∀ s i, held (P.spawn s i) = 0)
    (hact : ∀ (tid : ℕ) a t st t', p.tasks[tid]? = some t → P.act p.store t a = some (st, t') →
      free st + held t' = free p.store + held t)
    (h : P.step p m = some p') :
    free p'.store + (p'.tasks.map held).sum = free p.store + (p.tasks.map held).sum := by
  obtain ⟨i, -, hstore, hsum⟩ | ⟨tid, a, t, t', -, ht, ha, hsum⟩ := Program.sum_step_add held h
  · rw [hstore, hsum, hspawn, add_zero]
  · have := hact tid a t p'.store t' ht ha
    omega

theorem countP_eq_sum (q : τ → Bool) (l : List τ) :
    l.countP q = (l.map fun t => (q t).toNat).sum := by
  induction l with
  | nil => rfl
  | cons t l ih =>
    rw [List.countP_cons, List.map_cons, List.sum_cons, ih, add_comm]
    cases q t <;> rfl

/-! ### A task in its place -/

theorem getElem?_append_cases {l : List τ} {t u : τ} {i : ℕ} (h : (l ++ [t])[i]? = some u) :
    l[i]? = some u ∨ u = t := by
  rw [List.getElem?_append] at h
  split at h
  · exact Or.inl h
  · exact Or.inr (List.mem_singleton.1 (List.mem_of_getElem? h))

theorem getElem?_set_cases {l : List τ} {t u : τ} {i j : ℕ} (h : (l.set i t)[j]? = some u) :
    (j = i ∧ u = t) ∨ (j ≠ i ∧ l[j]? = some u) := by
  rw [List.getElem?_set] at h
  split_ifs at h with hij hlt
  · exact Or.inl ⟨hij.symm, (Option.some.inj h).symm⟩
  · exact Or.inr ⟨Ne.symm hij, h⟩

/-- The task in a place after its own step. -/
theorem Program.exists_act_of_step {tid : ℕ} {a : α} {t : τ} (h : P.step p (.act tid a) = some p')
    (ht : p.tasks[tid]? = some t) :
    ∃ t', P.act p.store t a = some (p'.store, t') ∧ p'.tasks[tid]? = some t' := by
  have hlt : tid < p.tasks.length := (List.getElem?_eq_some_iff.1 ht).1
  simp only [Program.step, ht] at h
  obtain ⟨⟨st, t'⟩, hact, rfl⟩ := Option.map_eq_some_iff.1 h
  exact ⟨t', hact, by simp [hlt]⟩

theorem Program.step_act {tid : ℕ} {a : α} {t t' : τ} {st : σ} (ht : p.tasks[tid]? = some t)
    (ha : P.act p.store t a = some (st, t')) :
    P.step p (.act tid a) = some ⟨st, p.tasks.set tid t'⟩ := by
  simp only [Program.step, ht, ha, Option.map_some]

/-- A task that is there stays in its place: the move is a step of this task, or leaves it. -/
theorem Program.getElem?_step (h : P.step p m = some p') {tid : ℕ} {t : τ}
    (ht : p.tasks[tid]? = some t) : p'.tasks[tid]? = some t ∨
      ∃ a t', m = .act tid a ∧ P.act p.store t a = some (p'.store, t') ∧
        p'.tasks[tid]? = some t' := by
  have hlt : tid < p.tasks.length := (List.getElem?_eq_some_iff.1 ht).1
  cases m with
  | spawn i =>
    obtain rfl : _ = p' := Option.some.inj h
    exact Or.inl (by rw [List.getElem?_append_left hlt, ht])
  | act tid' a =>
    by_cases htid : tid' = tid
    · subst htid
      obtain ⟨t', ha, ht'⟩ := Program.exists_act_of_step h ht
      exact Or.inr ⟨a, t', rfl, ha, ht'⟩
    · obtain ⟨i, hm, -⟩ | ⟨_, _, _, _, _, hm, -, -, rfl⟩ := Program.step_cases h <;> cases hm
      exact Or.inl (by rw [List.getElem?_set_ne htid, ht])

/-- **What a task has come to, it came to with a step of its own**, if no task starts with it: it
was so at the start of the run, or a move of the run is that step. -/
theorem Program.exists_act_of_run {F : τ → Prop} {B : σ → τ → α → Prop}
    (hspawn : ∀ s i, ¬ F (P.spawn s i))
    (hact : ∀ s t a st t', P.act s t a = some (st, t') → F t' → F t ∨ B s t a)
    (hrun : run P.step p ms = some p') {tid : ℕ} {t' : τ} (ht' : p'.tasks[tid]? = some t')
    (hF : F t') :
    (∃ t, p.tasks[tid]? = some t ∧ F t) ∨ ∃ ms₁ a ms₂ p₁ t, ms = ms₁ ++ .act tid a :: ms₂ ∧
      run P.step p ms₁ = some p₁ ∧ p₁.tasks[tid]? = some t ∧ B p₁.store t a := by
  induction ms generalizing p with
  | nil =>
    obtain rfl : p = p' := by simpa using hrun
    exact Or.inl ⟨t', ht', hF⟩
  | cons m ms ih =>
    obtain ⟨p₁, h₁, hrest⟩ := run_cons.1 hrun
    rcases ih hrest with ⟨t, ht, hFt⟩ | ⟨ms₁, a, ms₂, p₂, t, rfl, hrun₁, ht, hB⟩
    · obtain ⟨i, rfl, rfl⟩ | ⟨tid₁, a, u, st, u', rfl, hu, ha, rfl⟩ := Program.step_cases h₁
      · rcases getElem?_append_cases ht with ht | rfl
        · exact Or.inl ⟨t, ht, hFt⟩
        · exact absurd hFt (hspawn _ _)
      · rcases getElem?_set_cases ht with ⟨rfl, rfl⟩ | ⟨-, ht⟩
        · rcases hact _ _ _ _ _ ha hFt with hFu | hB
          · exact Or.inl ⟨u, hu, hFu⟩
          · exact Or.inr ⟨[], a, ms, p, u, rfl, rfl, hu, hB⟩
        · exact Or.inl ⟨t, ht, hFt⟩
    · exact Or.inr ⟨m :: ms₁, a, ms₂, p₂, t, rfl, run_cons.2 ⟨p₁, h₁, hrun₁⟩, ht, hB⟩

/-! ### Tasks that start later -/

/-- An assertion on the store, and one on the tasks from a place on. -/
def AssertsFrom (n : ℕ) (I : σ → Prop) (J : τ → Prop) (p : Pool σ τ) : Prop :=
  I p.store ∧ ∀ (tid : ℕ) (t : τ), n ≤ tid → p.tasks[tid]? = some t → J t

/-- What every task keeps of the store, and the later ones of themselves. -/
theorem Program.inv_step_from {n : ℕ} {I : σ → Prop} {J : τ → Prop}
    {C : Pool σ τ → Move ι α → Prop} (hspawn : ∀ s i, I s → J (P.spawn s i))
    (hstore : ∀ p tid a t st t', I p.store → C p (.act tid a) → p.tasks[tid]? = some t →
      P.act p.store t a = some (st, t') → I st)
    (hact : ∀ s t a st t', I s → J t → P.act s t a = some (st, t') → J t')
    (hp : AssertsFrom n I J p) (hC : C p m) (h : P.step p m = some p') :
    AssertsFrom n I J p' := by
  obtain ⟨hI, hJ⟩ := hp
  obtain ⟨i, rfl, rfl⟩ | ⟨tid, a, t, st, t', rfl, ht, ha, rfl⟩ := Program.step_cases h
  · refine ⟨hI, fun tid u hn hu => ?_⟩
    rcases getElem?_append_cases hu with hu | rfl
    · exact hJ tid u hn hu
    · exact hspawn p.store i hI
  · refine ⟨hstore p tid a t st t' hI hC ht ha, fun tid' u hn hu => ?_⟩
    rcases getElem?_set_cases hu with ⟨rfl, rfl⟩ | ⟨-, hu⟩
    · exact hact p.store t a st _ hI (hJ _ t hn ht) ha
    · exact hJ tid' u hn hu

/-! ### What a task has done -/

/-- What a move shows: with the place of its task, what the task has done with this step. -/
def Program.shows {β : Type*} (P : Program σ τ ι α) (did : τ → Option β) (p : Pool σ τ) :
    Move ι α → Option (ℕ × β)
  | .spawn _ => none
  | .act tid a =>
    (p.tasks[tid]?).bind fun t => (P.act p.store t a).bind fun r =>
      if did t = none then (did r.2).map (tid, ·) else none

section Shows

variable {β : Type*} {did : τ → Option β}

theorem Program.filter_shows (hspawn : ∀ s i, did (P.spawn s i) = none)
    (hkeep : ∀ s t a r b, P.act s t a = some r → did t = some b → did r.2 = some b)
    (h : P.step p m = some p') (tid : ℕ) :
    ((p'.tasks[tid]?).bind did).toList = ((p.tasks[tid]?).bind did).toList ++
      (((P.shows did p m).toList.filter fun o => o.1 = tid).map Prod.snd) := by
  obtain ⟨i, rfl, rfl⟩ | ⟨tid', a, t, st, t', rfl, ht, hact, rfl⟩ := Program.step_cases h
  · simp only [Program.shows, Option.toList_none, List.filter_nil, List.map_nil, List.append_nil]
    by_cases hlt : tid < p.tasks.length
    · rw [List.getElem?_append_left hlt]
    · rw [List.getElem?_eq_none (Nat.le_of_not_lt hlt), List.getElem?_append_right (by omega)]
      cases tid - p.tasks.length <;> simp [hspawn]
  · have hlt : tid' < p.tasks.length := (List.getElem?_eq_some_iff.1 ht).1
    simp only [Program.shows, ht, hact, Option.bind_some]
    by_cases htid : tid' = tid
    · subst htid
      rw [List.getElem?_set_self hlt, ht, Option.bind_some, Option.bind_some]
      cases hdid : did t with
      | none =>
        rw [if_pos rfl]
        cases did t' <;> simp
      | some b =>
        rw [hkeep _ _ _ _ _ hact hdid]
        simp
    · rw [List.getElem?_set_ne htid]
      split_ifs
      · cases did t' <;> simp [htid]
      · simp

/-- **Each task does its work once**: what a run shows of a task that starts in it is what the task
has done at the end. -/
theorem Program.filter_trace (hspawn : ∀ s i, did (P.spawn s i) = none)
    (hkeep : ∀ s t a r b, P.act s t a = some r → did t = some b → did r.2 = some b)
    (hrun : run P.step p ms = some p') (tid : ℕ) :
    ((p'.tasks[tid]?).bind did).toList = ((p.tasks[tid]?).bind did).toList ++
      (((trace P.step (P.shows did) p ms).filter fun o => o.1 = tid).map Prod.snd) := by
  induction ms generalizing p with
  | nil =>
    obtain rfl : p = p' := by simpa using hrun
    simp [trace]
  | cons m ms ih =>
    obtain ⟨p₁, h₁, hrest⟩ := run_cons.1 hrun
    rw [ih hrest, Program.filter_shows hspawn hkeep h₁ tid, trace, h₁, List.filter_append,
      List.map_append, List.append_assoc]

end Shows

/-! ### What the store has been -/

/-- The stores in which the moves of a run are made. -/
def Program.stores (P : Program σ τ ι α) (p : Pool σ τ) (ms : List (Move ι α)) : List σ :=
  trace P.step (fun p _ => some p.store) p ms

/-- **Assertions about what the store has been.**  They speak of the stores so far, with that of the
next move, and are not lost when there are more. -/
theorem Program.asserts_stores {I : List σ → σ → Prop} {J : List σ → σ → τ → Prop}
    (hlater : ∀ h s₀ s, I h s → I (h ++ [s₀]) s) (hlater' : ∀ h s₀ s t, J h s t → J (h ++ [s₀]) s t)
    (hspawn : ∀ h s i, s ∈ h → I h s → J h s (P.spawn s i))
    (hact : ∀ h s t a st t', s ∈ h → I h s → J h s t → P.act s t a = some (st, t') →
      I h st ∧ J h st t')
    (hstable : ∀ h s t a st t' u, J h s u → P.act s t a = some (st, t') → J h st u)
    {h : List σ} (hp : Asserts (I h) (J h) p) (hrun : run P.step p ms = some p') :
    Asserts (I (h ++ P.stores p ms)) (J (h ++ P.stores p ms)) p' := by
  induction ms generalizing p h with
  | nil =>
    obtain rfl : p = p' := by simpa using hrun
    simpa [Program.stores, trace] using hp
  | cons m ms ih =>
    obtain ⟨p₁, h₁, hrest⟩ := run_cons.1 hrun
    have hseen : Asserts (I (h ++ [p.store])) (J (h ++ [p.store])) p :=
      ⟨hlater _ _ _ hp.1, fun t ht => hlater' _ _ _ t (hp.2 t ht)⟩
    have hnext : Asserts (I (h ++ [p.store])) (J (h ++ [p.store])) p₁ :=
      Program.inv_step (C := fun q _ => q.store ∈ h ++ [p.store])
        (fun p i hI hC => hspawn _ _ i hC hI)
        (fun p tid a t st t' hI hJ hC _ ha => hact _ _ t a st t' hC hI hJ ha)
        (fun p tid a t st t' u _ _ hu _ _ ha => hstable _ _ t a st t' u hu ha) hseen (by simp) h₁
    have hend := ih hnext hrest
    rw [List.append_assoc] at hend
    have hstores : P.stores p (m :: ms) = [p.store] ++ P.stores p₁ ms := by
      simp [Program.stores, trace, h₁]
    rwa [hstores]

end FirecrawlLb.Lib.Tasks
