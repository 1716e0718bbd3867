import FirecrawlLb.Db.Models
import FirecrawlLb.Lib.Tasks
import FirecrawlLb.Lib.Window

/-!
# The attempt limiter

`DatabaseRateLimiter` counts the attempts of a key in a table that the replicas share.  A call of
`check_and_increment` reads its clock first; later one `INSERT`, guarded by a count, records the
attempt.  So the attempts are not recorded in the order of their times.
-/

namespace FirecrawlLb.Core.RateLimiter

open FirecrawlLb.Lib FirecrawlLb.Lib.Tasks FirecrawlLb.Lib.Run FirecrawlLb.Python
open FirecrawlLb.Db.Models

/-- A limiter that its constructor accepts. -/
structure DatabaseRateLimiter where
  maxAttempts : ℤ
  windowSeconds : ℤ
  type : String
  maxAttempts_pos : 0 < maxAttempts
  windowSeconds_pos : 0 < windowSeconds

/-- `DatabaseRateLimiter.__init__` -/
def DatabaseRateLimiter.init (maxAttempts windowSeconds : ℤ) (type : String) :
    Except Raised DatabaseRateLimiter :=
  if hmax : maxAttempts ≤ 0 then .error .valueError
  else if hwindow : windowSeconds ≤ 0 then .error .valueError
  else .ok ⟨maxAttempts, windowSeconds, type, not_le.1 hmax, not_le.1 hwindow⟩

structure DashboardRateLimitError where
  message : String
  retryAfter : ℤ
  deriving DecidableEq

namespace DatabaseRateLimiter

variable (self : DatabaseRateLimiter) (key : String)

/-- The window in microseconds. -/
def window : ℤ := self.windowSeconds * 1000000

/-- The row is an attempt of the key. -/
def isOf (row : RateLimitAttempt) : Bool := row.key = key && row.type = self.type

/-- The times of the attempts of the key, in the order of the table. -/
def times (table : List RateLimitAttempt) : List ℤ :=
  (table.filter (self.isOf key)).map (·.attemptedAt)

/-- The `INSERT`, with its commit; none when no row is inserted. -/
def insertAttempt (now : ℤ) (table : List RateLimitAttempt) : Option (List RateLimitAttempt) :=
  if countFrom (now - self.window) (self.times key table) < self.maxAttempts then
    some (table ++ [⟨key, now, self.type⟩])
  else none

/-- The error of a call without a row, from the oldest attempt that is in its window by now. -/
def tooManyAttempts (now : ℤ) (table : List RateLimitAttempt) : DashboardRateLimitError where
  message := "Too many attempts"
  retryAfter :=
    match ((self.times key table).filter (now - self.window ≤ ·)).min? with
    | none => self.windowSeconds
    | some oldestAttempt => max 1 ((oldestAttempt + self.window - now).tdiv 1000000)

/-- The `DELETE` of `clear_for_key`, with its commit. -/
def deleteAttempts (table : List RateLimitAttempt) : List RateLimitAttempt :=
  table.filter fun row => !self.isOf key row

end DatabaseRateLimiter

/-! ### The calls of the replicas -/

inductive Call where
  | checkAndIncrement (key : String)
  | clearForKey (key : String)
  deriving DecidableEq

inductive Progress where
  | started
  /-- The clock is read, the `INSERT` comes next. -/
  | timed (now : ℤ)
  /-- The `INSERT` has inserted nothing, the oldest attempt is read next. -/
  | refused (now : ℤ)
  | returned
  | raised (error : DashboardRateLimitError)
  /-- The database has raised an error, or the request was cancelled. -/
  | failed
  deriving DecidableEq

structure Task where
  call : Call
  progress : Progress
  deriving DecidableEq

inductive Action where
  | readClock (now : ℤ)
  | execute
  | fail
  deriving DecidableEq

abbrev State := Pool (List RateLimitAttempt) Task

abbrev Event := Move Call Action

section System

variable (self : DatabaseRateLimiter)

/-- One step of a call.  On PostgreSQL a lock allows fewer interleavings: it is held from before the
clock is read to the commit. -/
def act (table : List RateLimitAttempt) (t : Task) :
    Action → Option (List RateLimitAttempt × Task)
  | .readClock now =>
    match t with
    | ⟨.checkAndIncrement key, .started⟩ => some (table, ⟨.checkAndIncrement key, .timed now⟩)
    | _ => none
  | .execute =>
    match t with
    | ⟨.checkAndIncrement key, .timed now⟩ =>
      match self.insertAttempt key now table with
      | some table' => some (table', ⟨.checkAndIncrement key, .returned⟩)
      | none => some (table, ⟨.checkAndIncrement key, .refused now⟩)
    | ⟨.checkAndIncrement key, .refused now⟩ =>
      some (table, ⟨.checkAndIncrement key, .raised (self.tooManyAttempts key now table)⟩)
    | ⟨.clearForKey key, .started⟩ =>
      some (self.deleteAttempts key table, ⟨.clearForKey key, .returned⟩)
    | _ => none
  | .fail =>
    match t.progress with
    | .returned | .raised _ | .failed => none
    | _ => some (table, ⟨t.call, .failed⟩)

def program : Program (List RateLimitAttempt) Task Call Action where
  spawn _ call := ⟨call, .started⟩
  act := act self

def step : State → Event → Option State := (program self).step

/-- The call whose step adds a row to the table, and the row. -/
def inserts (p : State) : Event → Option (ℕ × RateLimitAttempt)
  | .spawn _ => none
  | .act tid a =>
    (step self p (.act tid a)).bind fun p' =>
      (p'.store.drop p.store.length).head?.map fun row => (tid, row)

/-- The attempts of the key that lie within one window of the start. -/
def attemptsWithin (key : String) (start : ℤ) (table : List RateLimitAttempt) : ℤ :=
  inClosedWindow self.window start (self.times key table)

end System

/-! ### Single steps -/

section Steps

variable {self : DatabaseRateLimiter} {key : String} {now start : ℤ}
  {table table' : List RateLimitAttempt} {t t' : Task} {a : Action}

theorem insertAttempt_eq_some : self.insertAttempt key now table = some table' ↔
    countFrom (now - self.window) (self.times key table) < self.maxAttempts ∧
      table ++ [⟨key, now, self.type⟩] = table' := by
  unfold DatabaseRateLimiter.insertAttempt
  split_ifs with hcount <;> simp [hcount]

/-- **What a step can do.**  It records an attempt and the call returns; or it deletes rows, or it
leaves the table, and it is no check that returns. -/
theorem act_cases (h : act self table t a = some (table', t')) :
    (∃ key now, t = ⟨.checkAndIncrement key, .timed now⟩ ∧
      t' = ⟨.checkAndIncrement key, .returned⟩ ∧
      countFrom (now - self.window) (self.times key table) < self.maxAttempts ∧
      table' = table ++ [⟨key, now, self.type⟩]) ∨
    ((∀ key, t ≠ ⟨.checkAndIncrement key, .returned⟩) ∧
      (∀ key, t' ≠ ⟨.checkAndIncrement key, .returned⟩) ∧ table'.Sublist table) := by
  obtain ⟨call, progress⟩ := t
  cases a with
  | readClock now =>
    cases call <;> cases progress <;> simp only [act] at h <;> cases h
    exact Or.inr ⟨by simp, by simp, .refl _⟩
  | fail =>
    cases progress <;> simp only [act] at h <;> cases h <;>
      exact Or.inr ⟨by simp, by simp, .refl _⟩
  | execute =>
    cases call with
    | clearForKey key =>
      cases progress <;> simp only [act] at h <;> cases h
      exact Or.inr ⟨by simp, by simp, List.filter_sublist⟩
    | checkAndIncrement key =>
      cases progress <;> simp only [act] at h <;> try cases h
      · rename_i now
        split at h
        · rename_i table₁ hinsert
          obtain ⟨hcount, rfl⟩ := insertAttempt_eq_some.1 hinsert
          cases h
          exact Or.inl ⟨key, now, rfl, rfl, hcount, rfl⟩
        · cases h
          exact Or.inr ⟨by simp, by simp, .refl _⟩
      · exact Or.inr ⟨by simp, by simp, .refl _⟩

theorem times_sublist (self : DatabaseRateLimiter) (key : String) (h : table'.Sublist table) :
    (self.times key table').Sublist (self.times key table) :=
  (h.filter _).map _

theorem times_append_of_isOf {row : RateLimitAttempt} (h : self.isOf key row = true) :
    self.times key (table ++ [row]) = self.times key table ++ [row.attemptedAt] := by
  simp [DatabaseRateLimiter.times, h]

theorem times_append_of_not_isOf {row : RateLimitAttempt} (h : self.isOf key row = false) :
    self.times key (table ++ [row]) = self.times key table := by
  simp [DatabaseRateLimiter.times, h]

theorem attemptsWithin_act (hbound : attemptsWithin self key start table ≤ self.maxAttempts)
    (h : act self table t a = some (table', t')) :
    attemptsWithin self key start table' ≤ self.maxAttempts := by
  obtain ⟨key', now, -, -, hcount, rfl⟩ | ⟨-, -, hsub⟩ := act_cases h
  · cases hof : self.isOf key ⟨key', now, self.type⟩ with
    | true =>
      obtain rfl : key' = key := by simpa [DatabaseRateLimiter.isOf] using hof
      rw [attemptsWithin, times_append_of_isOf hof]
      exact inClosedWindow_append_singleton_le hbound hcount
    | false =>
      rw [attemptsWithin, times_append_of_not_isOf hof]
      exact hbound
  · have hle : attemptsWithin self key start table' ≤ attemptsWithin self key start table :=
      inClosedWindow_le_of_sublist (times_sublist self key hsub)
    exact hle.trans hbound

end Steps

/-! ### Runs -/

section Runs

variable {self : DatabaseRateLimiter} {p p' : State} {m : Event} {tid : ℕ} {a : Action}
  {t t' : Task} {h : List (ℕ × RateLimitAttempt)}

/-- Each call that has returned normally has recorded an attempt, and no other call has. -/
def ReturnedAfterInsert (self : DatabaseRateLimiter) (r : State × List (ℕ × RateLimitAttempt)) :
    Prop :=
  ∀ tid key, (∃ now, (tid, ⟨key, now, self.type⟩) ∈ r.2) ↔
    r.1.tasks[tid]? = some ⟨.checkAndIncrement key, .returned⟩

theorem inserts_of_insert (hs : step self p (.act tid a) = some p') {row : RateLimitAttempt}
    (hstore : p'.store = p.store ++ [row]) : inserts self p (.act tid a) = some (tid, row) := by
  simp [inserts, hs, hstore]

theorem inserts_of_sublist (hs : step self p (.act tid a) = some p')
    (hstore : p'.store.Sublist p.store) : inserts self p (.act tid a) = none := by
  have hlength := hstore.length_le
  simp [inserts, hs, hlength]

theorem ReturnedAfterInsert.step {r r' : State × List (ℕ × RateLimitAttempt)}
    (hr : ReturnedAfterInsert self r) (hs : recorded (step self) (inserts self) r m = some r') :
    ReturnedAfterInsert self r' := by
  obtain ⟨hstep, hhistory⟩ := recorded_eq_some.1 hs
  intro tid key
  rw [hhistory]
  obtain ⟨call, rfl, hp'⟩ | ⟨tid₀, a, t, table, t', rfl, ht, ha, hp'⟩ := Program.step_cases hstep
  · -- a call that starts stands behind the others, and has not returned
    rw [hp', show inserts self r.1 (.spawn call) = none from rfl, Option.toList_none,
      List.append_nil, hr tid key]
    rcases lt_trichotomy tid r.1.tasks.length with hlt | rfl | hgt
    · rw [List.getElem?_append_left hlt]
    · simp [program]
    · have hnone : r.1.tasks[tid]? = none := List.getElem?_eq_none hgt.le
      have hnone' : (r.1.tasks ++ [(program self).spawn r.1.store call])[tid]? = none :=
        List.getElem?_eq_none (by simp; omega)
      rw [hnone, hnone']
  · have hlt : tid₀ < r.1.tasks.length := (List.getElem?_eq_some_iff.1 ht).1
    have hstore : r'.1.store = table := by rw [hp']
    have hself : r'.1.tasks[tid₀]? = some t' := by simp [hp', hlt]
    have hother : tid ≠ tid₀ → r'.1.tasks[tid]? = r.1.tasks[tid]? := fun hne => by
      rw [hp', List.getElem?_set_ne (Ne.symm hne)]
    -- a call returns with the step that inserts its attempt, and with no other
    obtain ⟨key₀, now₀, rfl, rfl, -, htable⟩ | ⟨hne, hne', hsub⟩ := act_cases ha
    · rw [inserts_of_insert hstep (hstore.trans htable)]
      by_cases htid : tid = tid₀
      · subst htid
        have hnone := mt (hr tid key).1 (by simp [ht])
        simp only [not_exists] at hnone
        rw [hself]
        constructor
        · rintro ⟨now, hmem⟩
          rcases List.mem_append.1 hmem with hmem | hmem
          · exact absurd hmem (hnone now)
          · obtain rfl : key = key₀ := by simp at hmem; exact hmem.1
            rfl
        · intro heq
          obtain rfl : key₀ = key := by simpa using heq
          exact ⟨now₀, by simp⟩
      · rw [hother htid, ← hr tid key]
        simp [htid]
    · rw [inserts_of_sublist hstep (hstore ▸ hsub), Option.toList_none, List.append_nil,
        hr tid key]
      by_cases htid : tid = tid₀
      · subst htid
        rw [hself, ht]
        simp [hne key, hne' key]
      · rw [hother htid]

/-- The attempts that a run from a table records, each with the call that does. -/
def history (self : DatabaseRateLimiter) (table : List RateLimitAttempt) (ms : List Event) :
    List (ℕ × RateLimitAttempt) :=
  trace (step self) (inserts self) ⟨table, []⟩ ms

/-- **The limiter is a sliding window.**  Whatever the calls of the replicas interleave and whatever
their clocks read, no window ever holds more attempts of a key than allowed, if none did at the
start; and the calls that return normally are those that have inserted their row. -/
theorem attempts_within_limit (self : DatabaseRateLimiter) (table : List RateLimitAttempt)
    (ms : List Event)
    (htable : ∀ key start, attemptsWithin self key start table ≤ self.maxAttempts) :
    Always (step self)
      (fun p => ∀ key start, attemptsWithin self key start p.store ≤ self.maxAttempts)
      ⟨table, []⟩ ms ∧
    ∀ p, run (step self) ⟨table, []⟩ ms = some p → ∀ tid key,
      (∃ now, (tid, ⟨key, now, self.type⟩) ∈ history self table ms) ↔
        p.tasks[tid]? = some ⟨.checkAndIncrement key, .returned⟩ := by
  constructor
  · refine always_of_invariant (fun p m p' hI hs key start => ?_) htable
    obtain ⟨call, -, rfl⟩ | ⟨tid, a, t, table', t', -, -, ha, rfl⟩ := Program.step_cases hs
    · exact hI key start
    · exact attemptsWithin_act (hI key start) ha
  · intro p hrun
    have hrec : run (recorded (step self) (inserts self)) (⟨table, []⟩, []) ms =
        some (p, history self table ms) := run_recorded.2 ⟨hrun, rfl⟩
    have hstart : ReturnedAfterInsert self (⟨table, []⟩, []) := fun tid key => by simp
    exact invariant (fun r m r' hr hs => ReturnedAfterInsert.step hr hs) hstart hrec

/-- Of two calls that share one attempt, the one with the earlier clock comes too late. -/
theorem attempts_within_limit_sample :
    let self : DatabaseRateLimiter := ⟨1, 60, "password", by decide, by decide⟩
    let check : Call := .checkAndIncrement "ip"
    let ms : List Event := [.spawn check, .spawn check, .act 0 (.readClock 5),
      .act 1 (.readClock 0), .act 0 .execute, .act 1 .execute, .act 1 .execute]
    let p : State := ⟨[⟨"ip", 5, "password"⟩],
      [⟨check, .returned⟩, ⟨check, .raised ⟨"Too many attempts", 60⟩⟩]⟩
    Run.run (step self) ⟨[], []⟩ ms = some p ∧
    Always (step self)
      (fun p => ∀ key start, attemptsWithin self key start p.store ≤ self.maxAttempts)
      ⟨[], []⟩ ms ∧
    ∃ now, (0, ⟨"ip", now, self.type⟩) ∈ history self [] ms := by
  intro self check ms p
  have hrun : Run.run (step self) ⟨[], []⟩ ms = some p := rfl
  have h := attempts_within_limit self [] ms fun _ _ => self.maxAttempts_pos.le
  exact ⟨hrun, h.1, (h.2 p hrun 0 "ip").2 rfl⟩

end Runs

end FirecrawlLb.Core.RateLimiter
