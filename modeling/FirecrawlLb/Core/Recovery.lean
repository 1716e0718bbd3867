import FirecrawlLb.Core.CircuitBreaker

/-!
# Closing an open circuit

`_record_success` looks at the state when the result arrives, not at whether the call was the probe.
A call that was admitted before the circuit opened and ends after the recovery time is counted like
a probe.  Where only probes record successes in HALF_OPEN, the circuit closes on their evidence.
-/

namespace FirecrawlLb.Core.Resilience

open FirecrawlLb.Lib FirecrawlLb.Lib.Tasks FirecrawlLb.Lib.Run

/-! ### Evidence -/

/-- The call has succeeded since the last server error, and was admitted as a probe after the
circuit opened. -/
structure Fresh (h : List Note) (tid : ℕ) : Prop where
  succeeded : ∃ success, .succeeded tid success ∈ since Note.isFailure h
  admitted : .admitted tid true ∈ since Note.opens h

/-- As many calls as the threshold asks for are fresh evidence, and no other success has been
counted since the circuit opened. -/
structure FreshEvidence (c : Thresholds) (h : List Note) : Prop where
  enough : ∃ tids : List ℕ, tids.Nodup ∧ c.successThreshold ≤ tids.length ∧
    ∀ tid ∈ tids, Fresh h tid
  only : ∀ tid closes, .succeeded tid (.counted closes) ∈ since Note.opens h →
    .admitted tid true ∈ since Note.opens h

/-- A step that closes the open circuit has fresh evidence. -/
def ClosesFreshly (c : Thresholds) (r : History) (m : Event) : Prop :=
  ∀ r', recordedStep c r m = some r' → r.1.store.state = .opened → r'.1.store.state = .closed →
    FreshEvidence c r'.2

/-- A call that records a success in HALF_OPEN is a probe. -/
def ProbesRecord (c : Thresholds) (r : History) : Event → Prop
  | .act tid (.record now _) => r.1.store.stateAt c now = .halfOpen →
      r.1.tasks[tid]? ≠ some (.returned false)
  | _ => True

instance (c : Thresholds) (r : History) : ∀ m, Decidable (ProbesRecord c r m)
  | .act tid (.record now _) => inferInstanceAs (Decidable (r.1.store.stateAt c now = .halfOpen →
      r.1.tasks[tid]? ≠ some (.returned false)))
  | .spawn _ | .act _ (.preCallCheck _) | .act _ (.complete _) | .act _ .release
  | .act _ .cancel => isTrue trivial

/-- A probe that has yet to record how it ended. -/
def Call.pendingProbe : Call → Bool
  | .awaiting isProbe => isProbe
  | .returned isProbe => isProbe
  | .raised isProbe _ => isProbe
  | _ => false

/-- A call that records nothing any more. -/
def Call.recorded : Call → Bool
  | .releasing => true
  | .ended => true
  | _ => false

/-- **What holds while only probes record successes in HALF_OPEN.** -/
structure OnlyProbes (r : History) : Prop where
  exclusive : Exclusive CircuitBreaker.halfOpenProbeInFlight Call.probe r.1
  stored : r.1.store.state ≠ .halfOpen
  pending : ∀ (tid : ℕ) t, r.1.tasks[tid]? = some t → t.pendingProbe = true →
    r.1.store.state = .opened ∧ .admitted tid true ∈ since Note.opens r.2
  counted : ∃ tids : List ℕ, tids.Nodup ∧ tids.length = r.1.store.successCount ∧
    ∀ tid ∈ tids, Fresh r.2 tid ∧ ∃ t, r.1.tasks[tid]? = some t ∧ t.recorded = true
  only : ∀ tid closes, .succeeded tid (.counted closes) ∈ since Note.opens r.2 →
    .admitted tid true ∈ since Note.opens r.2

section Steps

variable {c : Thresholds} {s s' : CircuitBreaker} {t t' : Call} {a : Action} {tid : ℕ}
  {r r' : History} {m : Event} {n : Option Note} {h : List Note} {b : Note} {isProbe closes : Bool}

theorem Note.isFailure_of_opens (hb : b.isFailure = false) : b.opens = false := by
  cases b <;> first | rfl | cases hb

theorem Call.probe_of_pendingProbe (ht : t.pendingProbe = true) : t.probe = true := by
  cases t <;> first | exact ht | cases ht

@[simp] theorem pendingProbe_leave : (leave isProbe).pendingProbe = false := by
  cases isProbe <;> rfl

@[simp] theorem recorded_leave : (leave isProbe).recorded = true := by
  cases isProbe <;> rfl

theorem Fresh.append (hfresh : Fresh h tid) (hn : ∀ b ∈ n, b.isFailure = false) :
    Fresh (h ++ n.toList) tid := by
  obtain ⟨success, hsuccess⟩ := hfresh.succeeded
  exact ⟨⟨success, mem_since_append hsuccess hn⟩,
    mem_since_append hfresh.admitted fun b hb => Note.isFailure_of_opens (hn b hb)⟩

theorem Steps.state_ne_halfOpen (hs : Steps c s tid t a s' t' n) (h : s.state ≠ .halfOpen) :
    s'.state ≠ .halfOpen := by
  cases hs with
  | fail =>
    show (if _ then _ else _) ≠ _
    split_ifs
    · nofun
    · exact h
  | close => nofun
  | _ => exact h

/-- A step leaves an open circuit open, or counts the last success that it takes to close it. -/
theorem Steps.opened_or_closes (hs : Steps c s tid t a s' t' n) (h : s.state = .opened) :
    (s'.state = .opened ∧ ∀ b ∈ n, b.opens = false) ∨
    ((∃ isProbe, t = .returned isProbe) ∧ s'.state = .closed ∧
      c.successThreshold ≤ s.successCount + 1 ∧ n = some (.succeeded tid (.counted true))) := by
  cases hs with
  | close _ hlast => exact Or.inr ⟨⟨_, rfl⟩, rfl, hlast, rfl⟩
  | fail =>
    refine Or.inl ⟨?_, ?_⟩
    · show (if _ then _ else _) = _
      split_ifs
      · rfl
      · exact h
    · rintro b ⟨⟩
      simp [Note.opens, opensAt, h]
  | admits | probe | count | reset | ignore =>
    refine Or.inl ⟨h, ?_⟩
    rintro b ⟨⟩
    rfl
  | _ => exact Or.inl ⟨h, nofun⟩

theorem Steps.recorded (hs : Steps c s tid t a s' t' n) (ht : t.recorded = true) :
    t'.recorded = true := by
  cases hs with
  | release | leak => rfl
  | cancel => exact recorded_leave
  | _ => cases ht

theorem Steps.counted {i : ℕ}
    (hs : Steps c s tid t a s' t' (some (.succeeded i (.counted closes)))) :
    i = tid ∧ ∃ isProbe now now', t = .returned isProbe ∧ t' = leave isProbe ∧
      a = .record now now' ∧ s.stateAt c now = .halfOpen := by
  cases hs with
  | close hhalf | count hhalf => exact ⟨rfl, _, _, _, rfl, rfl, rfl, hhalf⟩

/-- Only the server error since which the successes are counted sets their number back. -/
theorem Steps.successCount_or (hs : Steps c s tid t a s' t' n) :
    s'.successCount = 0 ∨
    (s'.successCount = s.successCount ∧ (∀ b ∈ n, b.isFailure = false)) ∨
    (s'.successCount = s.successCount + 1 ∧ n = some (.succeeded tid (.counted false))) := by
  cases hs with
  | close | fail => exact Or.inl rfl
  | count => exact Or.inr (Or.inr ⟨rfl, rfl⟩)
  | admits | probe | reset | ignore =>
    refine Or.inr (Or.inl ⟨rfl, ?_⟩)
    rintro b ⟨⟩
    rfl
  | _ => exact Or.inr (Or.inl ⟨rfl, nofun⟩)

theorem Steps.pendingProbe (hs : Steps c s tid t a s' t' n) (hstored : s.state ≠ .halfOpen)
    (ht' : t'.pendingProbe = true) :
    (t.pendingProbe = true ∧ s' = s ∧ n = none) ∨
    (s.state = .opened ∧ s'.state = .opened ∧ n = some (.admitted tid true)) := by
  cases hs with
  | probe hhalf =>
    have hopened := CircuitBreaker.opened_of_halfOpen hhalf hstored
    exact Or.inr ⟨hopened, hopened, rfl⟩
  | returns | raises => exact Or.inl ⟨ht', rfl, rfl⟩
  | admits | refuse | release | leak => cases ht'
  | _ =>
    rw [pendingProbe_leave] at ht'
    cases ht'

end Steps

section Invariant

variable {c : Thresholds} {tid : ℕ} {r r' : History} {m : Event} {closes : Bool} {ms : List Event}

theorem onlyProbes_start : OnlyProbes (⟨{}, []⟩, []) where
  exclusive := exclusive_start _
  stored := nofun
  pending := by simp
  counted := ⟨[], List.nodup_nil, rfl, by simp⟩
  only := by simp

theorem OnlyProbes.evidence (hr : OnlyProbes r) (ht : r.1.tasks[tid]? = some (.returned true))
    (closes : Bool) : ∃ tids : List ℕ, tids.Nodup ∧ tids.length = r.1.store.successCount + 1 ∧
      ∀ i ∈ tids, Fresh (r.2 ++ [.succeeded tid (.counted closes)]) i ∧
        (i = tid ∨ ∃ u, r.1.tasks[i]? = some u ∧ u.recorded = true) := by
  obtain ⟨tids, hnodup, hlength, htids⟩ := hr.counted
  have hnew : tid ∉ tids := by
    intro hmem
    obtain ⟨-, u, hu, hrecorded⟩ := htids tid hmem
    obtain rfl := Option.some.inj (hu.symm.trans ht)
    cases hrecorded
  have hnone : ∀ b ∈ some (Note.succeeded tid (.counted closes)), b.isFailure = false := by
    rintro b ⟨⟩
    rfl
  refine ⟨tid :: tids, List.nodup_cons.2 ⟨hnew, hnodup⟩, by simp [hlength], ?_⟩
  intro i hi
  rcases List.mem_cons.1 hi with rfl | hi
  · refine ⟨⟨⟨.counted closes, ?_⟩, ?_⟩, Or.inl rfl⟩
    · rw [since_concat rfl]
      exact List.mem_append_right _ (List.mem_singleton.2 rfl)
    · rw [since_concat rfl]
      exact List.mem_append_left _ (hr.pending _ _ ht rfl).2
  · obtain ⟨hfresh, hrecorded⟩ := htids i hi
    exact ⟨hfresh.append hnone, Or.inr hrecorded⟩

section Step

variable {t t' : Call} {a : Action} {s' : CircuitBreaker} {n : Option Note}

/-- The condition makes a counted success that of a probe. -/
theorem returned_of_counted {i : ℕ} (hm : ProbesRecord c r (.act tid a))
    (ht : r.1.tasks[tid]? = some t)
    (hs : Steps c r.1.store tid t a s' t' (some (.succeeded i (.counted closes)))) :
    i = tid ∧ t = .returned true ∧ t' = leave true := by
  obtain ⟨hi, isProbe, now, now', rfl, rfl, rfl, hhalf⟩ := hs.counted
  cases isProbe with
  | true => exact ⟨hi, rfl, rfl⟩
  | false => exact absurd ht (hm hhalf)

theorem OnlyProbes.pending_step (hr : OnlyProbes r) (hm : ProbesRecord c r (.act tid a))
    (ht : r.1.tasks[tid]? = some t) (hs : Steps c r.1.store tid t a s' t' n) {i : ℕ} {u : Call}
    (hu : (r.1.tasks.set tid t')[i]? = some u) (hpending : u.pendingProbe = true) :
    s'.state = .opened ∧ .admitted i true ∈ since Note.opens (r.2 ++ n.toList) := by
  rcases getElem?_set_cases hu with ⟨rfl, rfl⟩ | ⟨hne, hu⟩
  · rcases hs.pendingProbe hr.stored hpending with ⟨hbefore, rfl, rfl⟩ | ⟨-, hopened, rfl⟩
    · simpa using hr.pending _ _ ht hbefore
    · refine ⟨hopened, ?_⟩
      rw [Option.toList_some, since_concat rfl]
      exact List.mem_append_right _ (List.mem_singleton.2 rfl)
  · obtain ⟨hopened, hadmitted⟩ := hr.pending i u hu hpending
    rcases hs.opened_or_closes hopened with ⟨hopened', hn⟩ | ⟨-, -, -, rfl⟩
    · exact ⟨hopened', mem_since_append hadmitted hn⟩
    · -- the call that closes the circuit is the one probe
      obtain ⟨-, rfl, -⟩ := returned_of_counted hm ht hs
      exact absurd (hr.exclusive.one i tid u _ hu ht (Call.probe_of_pendingProbe hpending) rfl) hne

theorem Steps.exists_recorded (hs : Steps c r.1.store tid t a s' t' n)
    (ht : r.1.tasks[tid]? = some t) {i : ℕ}
    (hu : ∃ u, r.1.tasks[i]? = some u ∧ u.recorded = true) :
    ∃ u, (r.1.tasks.set tid t')[i]? = some u ∧ u.recorded = true := by
  obtain ⟨u, hu, hrecorded⟩ := hu
  by_cases hi : i = tid
  · subst hi
    obtain rfl := Option.some.inj (ht.symm.trans hu)
    have hlt := (List.getElem?_eq_some_iff.1 ht).1
    exact ⟨t', List.getElem?_set_self hlt, hs.recorded hrecorded⟩
  · exact ⟨u, by rw [List.getElem?_set_ne (Ne.symm hi), hu], hrecorded⟩

theorem OnlyProbes.counted_step (hr : OnlyProbes r) (hm : ProbesRecord c r (.act tid a))
    (ht : r.1.tasks[tid]? = some t) (hs : Steps c r.1.store tid t a s' t' n) :
    ∃ tids : List ℕ, tids.Nodup ∧ tids.length = s'.successCount ∧ ∀ i ∈ tids,
      Fresh (r.2 ++ n.toList) i ∧ ∃ u, (r.1.tasks.set tid t')[i]? = some u ∧ u.recorded = true := by
  rcases hs.successCount_or with hzero | ⟨hsame, hn⟩ | ⟨hsucc, rfl⟩
  · exact ⟨[], List.nodup_nil, hzero.symm, by simp⟩
  · obtain ⟨tids, hnodup, hlength, htids⟩ := hr.counted
    refine ⟨tids, hnodup, hlength.trans hsame.symm, fun i hi => ?_⟩
    obtain ⟨hfresh, hrecorded⟩ := htids i hi
    exact ⟨hfresh.append hn, hs.exists_recorded ht hrecorded⟩
  · obtain ⟨-, rfl, rfl⟩ := returned_of_counted hm ht hs
    obtain ⟨tids, hnodup, hlength, htids⟩ := hr.evidence ht false
    refine ⟨tids, hnodup, hlength.trans hsucc.symm, fun i hi => ?_⟩
    obtain ⟨hfresh, rfl | hrecorded⟩ := htids i hi
    · exact ⟨hfresh, leave true, List.getElem?_set_self (List.getElem?_eq_some_iff.1 ht).1, rfl⟩
    · exact ⟨hfresh, hs.exists_recorded ht hrecorded⟩

theorem OnlyProbes.only_step (hr : OnlyProbes r) (hm : ProbesRecord c r (.act tid a))
    (ht : r.1.tasks[tid]? = some t) (hs : Steps c r.1.store tid t a s' t' n) {i : ℕ}
    (hmem : .succeeded i (.counted closes) ∈ since Note.opens (r.2 ++ n.toList)) :
    .admitted i true ∈ since Note.opens (r.2 ++ n.toList) := by
  by_cases hopens : ∃ b ∈ n, b.opens = true
  · obtain ⟨b, rfl, hb⟩ := hopens
    rw [Option.toList_some, since_concat_of_mark hb] at hmem
    cases hmem
  · have hn : ∀ b ∈ n, b.opens = false := by simpa using hopens
    rcases mem_since_of_append hn hmem with hold | rfl
    · exact mem_since_append (hr.only i closes hold) hn
    · obtain ⟨rfl, rfl, -⟩ := returned_of_counted hm ht hs
      exact mem_since_append (hr.pending _ _ ht rfl).2 hn

end Step

theorem OnlyProbes.step (hr : OnlyProbes r) (hm : ProbesRecord c r m)
    (hs : recordedStep c r m = some r') : OnlyProbes r' := by
  have hexclusive := hr.exclusive.step (locks_program c) (recorded_eq_some.1 hs).1
  obtain ⟨i, -, hstore, htasks, hnotes⟩ | ⟨tid, a, t, t', n, rfl, ht, hsteps, htasks, hnotes⟩ :=
    recordedStep_cases hs
  · refine ⟨hexclusive, hstore ▸ hr.stored, ?_, ?_, hnotes ▸ hr.only⟩
    · intro tid t ht hpending
      rw [htasks] at ht
      rw [hstore, hnotes]
      rcases getElem?_append_cases ht with ht | rfl
      · exact hr.pending tid t ht hpending
      · cases hpending
    · obtain ⟨tids, hnodup, hlength, htids⟩ := hr.counted
      refine ⟨tids, hnodup, by rw [hlength, hstore], fun i hi => ?_⟩
      obtain ⟨hfresh, u, hu, hrecorded⟩ := htids i hi
      rw [hnotes, htasks]
      have hlt := (List.getElem?_eq_some_iff.1 hu).1
      exact ⟨hfresh, u, by rw [List.getElem?_append_left hlt, hu], hrecorded⟩
  · refine ⟨hexclusive, hsteps.state_ne_halfOpen hr.stored, ?_, ?_, ?_⟩
    · intro i u hu hpending
      rw [htasks] at hu
      rw [hnotes]
      exact hr.pending_step hm ht hsteps hu hpending
    · rw [htasks, hnotes]
      exact hr.counted_step hm ht hsteps
    · intro i closes hmem
      rw [hnotes] at hmem ⊢
      exact hr.only_step hm ht hsteps hmem

theorem OnlyProbes.closesFreshly (hr : OnlyProbes r) (hm : ProbesRecord c r m) :
    ClosesFreshly c r m := by
  intro r' hs hopened hclosed
  have honly := (hr.step hm hs).only
  obtain ⟨i, -, hstore, -⟩ | ⟨tid, a, t, t', n, rfl, ht, hsteps, -, hnotes⟩ := recordedStep_cases hs
  · rw [hstore, hopened] at hclosed
    cases hclosed
  · rcases hsteps.opened_or_closes hopened with ⟨hstill, -⟩ | ⟨-, -, hlast, rfl⟩
    · rw [hstill] at hclosed
      cases hclosed
    · obtain ⟨-, rfl, -⟩ := returned_of_counted hm ht hsteps
      obtain ⟨tids, hnodup, hlength, htids⟩ := hr.evidence ht true
      refine ⟨⟨tids, hnodup, ?_, fun i hi => ?_⟩, honly⟩
      · rw [hlength]
        exact_mod_cast hlast
      · rw [hnotes]
        exact (htids i hi).1

/-- **An open circuit closes on fresh evidence** in every run in which only probes record successes
while it is half-open. -/
theorem closes_freshly (hms : Meets (recordedStep c) (ProbesRecord c) (⟨{}, []⟩, []) ms) :
    Meets (recordedStep c) (ClosesFreshly c) (⟨{}, []⟩, []) ms := by
  have hinv : Meets (recordedStep c) (fun r _ => OnlyProbes r) (⟨{}, []⟩, []) ms :=
    meets_of_meets (fun r m r' hr hm hs => hr.step hm hs) onlyProbes_start hms
  exact (hinv.and hms).mono fun r m h => h.1.closesFreshly h.2

/-- One timeout opens the circuit, and two probes close it, one after the other. -/
theorem closes_freshly_sample :
    let c : Thresholds := { failureThreshold := 1 }
    let call (tid : ℕ) (exc : Option CallError) (time : ℚ) : List Event := [.spawn (),
      .act tid (.preCallCheck time), .act tid (.complete exc), .act tid (.record time time)]
    let ms : List Event := call 0 (some .timeout) 0 ++ call 1 none 60 ++ [.act 1 .release] ++
      call 2 none 61
    (endOf (recordedStep c) (⟨{}, []⟩, []) ms).1.store.state = .closed ∧
      Meets (recordedStep c) (ClosesFreshly c) (⟨{}, []⟩, []) ms := by
  intro c call ms
  exact ⟨by decide +kernel, closes_freshly (by decide +kernel)⟩

/-- Seven calls are admitted while the circuit is closed; five time out and open it.  The two others
return a minute later, and close it: no call was ever admitted as a probe. -/
theorem slow_calls_close :
    let c : Thresholds := {}
    let acts (tids : ℕ) (a : Action) : List Event := (List.range tids).map fun tid => .act tid a
    let ms : List Event := List.replicate 7 (.spawn ()) ++ acts 7 (.preCallCheck 0) ++
      acts 5 (.complete (some .timeout)) ++ acts 5 (.record 30 30) ++
      [.act 5 (.complete none), .act 6 (.complete none), .act 5 (.record 95 95)]
    let r := endOf (recordedStep c) (⟨{}, []⟩, []) ms
    let r' := endOf (recordedStep c) r [.act 6 (.record 96 96)]
    run (recordedStep c) (⟨{}, []⟩, []) ms = some r ∧
      recordedStep c r (.act 6 (.record 96 96)) = some r' ∧
      r.1.store.state = .opened ∧ r'.1.store.state = .closed ∧
      (∀ tid, .admitted tid true ∉ r'.2) ∧ ¬ FreshEvidence c r'.2 := by
  intro c acts ms r r'
  have hrun : run (recordedStep c) (⟨{}, []⟩, []) ms = some r := run_endOf (by decide +kernel)
  have hstep : recordedStep c r (.act 6 (.record 96 96)) = some r' :=
    step_endOf (by decide +kernel)
  have hnotes : r'.2 = (List.range 7).map (Note.admitted · false) ++
      (List.range 4).map (Note.failed · false) ++ [Note.failed 4 true,
        Note.succeeded 5 (.counted false), Note.succeeded 6 (.counted true)] := by decide +kernel
  have hadmitted : ∀ tid, .admitted tid true ∉ r'.2 := by
    rw [hnotes]
    simp
  have hopened : r.1.store.state = .opened := by decide +kernel
  have hclosed : r'.1.store.state = .closed := by decide +kernel
  refine ⟨hrun, hstep, hopened, hclosed, hadmitted, fun hfresh => ?_⟩
  have hcounted : .succeeded 5 (.counted false) ∈ since Note.opens r'.2 := by
    rw [hnotes]
    decide
  exact hadmitted 5 (mem_of_mem_since (hfresh.only 5 false hcounted))

end Invariant

end FirecrawlLb.Core.Resilience
