import FirecrawlLb.Lib.Mutex
import FirecrawlLb.Python.Values

/-!
# The settings cache

`SettingsCache.get` answers from the cache without the lock, and looks again once it holds it before
it reads the database.  `invalidate` waits for the lock, so that a read under way is over, and what
it has cached is dropped.
-/

namespace FirecrawlLb.Core.CachedSettings

open FirecrawlLb.Lib FirecrawlLb.Lib.Tasks FirecrawlLb.Lib.Run FirecrawlLb.Python

/-! ### The cache -/

/-- The cache of a process, for rows of any type.  Times are those of the monotonic clock. -/
structure SettingsCache (ρ : Type) where
  ttlSeconds : ℤ
  cachedSettings : Option ρ
  cachedAt : ℤ
  ttlSeconds_pos : 0 < ttlSeconds

namespace SettingsCache

variable {ρ : Type} (self : SettingsCache ρ)

/-- `SettingsCache.__init__`, which raises unless the time is positive. -/
def init (ttlSeconds : ℤ) : Except Raised (SettingsCache ρ) :=
  if h : 0 < ttlSeconds then .ok ⟨ttlSeconds, none, 0, h⟩ else .error .valueError

/-- What `get` answers at a time without a read. -/
def hit (now : ℤ) : Option ρ :=
  if now - self.cachedAt < self.ttlSeconds then self.cachedSettings else none

/-- `get` caches the row it has read, at the time it has seen before. -/
def set (settings : ρ) (now : ℤ) : SettingsCache ρ :=
  { self with cachedSettings := some settings, cachedAt := now }

/-- `invalidate`, under the lock. -/
def clear : SettingsCache ρ := { self with cachedSettings := none, cachedAt := 0 }

variable {self} {now ttlSeconds : ℤ} {settings : ρ}

theorem hit_eq_some : self.hit now = some settings ↔
    now - self.cachedAt < self.ttlSeconds ∧ self.cachedSettings = some settings := by
  simp [hit]

theorem init_eq_ok {cache : SettingsCache ρ} (h : init ttlSeconds = .ok cache) :
    cache.ttlSeconds = ttlSeconds ∧ cache.cachedSettings = none := by
  unfold init at h
  split_ifs at h
  obtain rfl := Except.ok.inj h
  exact ⟨rfl, rfl⟩

end SettingsCache

/-! ### The calls of a process -/

/-- When the read of a row has started: the time, and how many calls of `invalidate` have begun to
hold the lock by then. -/
structure ReadStart where
  time : ℤ
  holds : ℕ
  deriving DecidableEq

/-- A row that was read from the database. -/
structure Fetched (ρ : Type) where
  row : ρ
  start : ReadStart
  deriving DecidableEq

/-- The committed row, the cache and its lock. -/
structure Store (ρ : Type) where
  clock : ℤ
  database : Option ρ
  cache : SettingsCache (Fetched ρ)
  locked : Bool
  /-- how many calls of `invalidate` have begun to hold the lock -/
  holds : ℕ

/-- A transaction of the process, or another one, commits what it makes of the row. -/
inductive Request (ρ : Type) where
  | get
  | invalidate
  | commit (row : Option ρ)

/-- Where a call stands, by the step that comes next; `now` is the latest time it has read. -/
inductive Task (ρ : Type) where
  /-- `get` is called. -/
  | checking
  /-- It waits for the lock. -/
  | waiting
  /-- It looks at the cache again. -/
  | rechecking
  /-- `get_or_create` is called, -/
  | opening (now : ℤ)
  /-- and reads the row, -/
  | selecting (now : ℤ) (start : ReadStart)
  /-- inserts one when there is none, -/
  | inserting (now : ℤ) (start : ReadStart)
  /-- and reads it again. -/
  | rereading (now : ℤ) (start : ReadStart)
  /-- The row is cached next. -/
  | caching (now : ℤ) (settings : Fetched ρ)
  /-- The session is closed next. -/
  | closing (now : ℤ) (settings : Fetched ρ)
  | returned (now : ℤ) (settings : Fetched ρ)
  /-- `invalidate` waits for the lock. -/
  | invalidating
  /-- It has begun to hold it, as the `n`th call that does. -/
  | clearing (n : ℕ)
  | invalidated (n : ℕ)
  | committing (row : Option ρ)
  | committed
  | raised

/-- At a time, the call goes on, or it is cancelled or the database raises an error. -/
inductive Action where
  | resume (time : ℤ)
  | fail (time : ℤ)

/-- The call holds the lock. -/
def Task.holdsLock {ρ : Type} : Task ρ → Bool
  | .rechecking | .opening _ | .selecting _ _ | .inserting _ _ | .rereading _ _ | .caching _ _
  | .closing _ _ | .clearing _ => true
  | _ => false

abbrev State (ρ : Type) := Pool (Store ρ) (Task ρ)

abbrev Event (ρ : Type) := Move (Request ρ) Action

section System

variable {ρ : Type} (defaults : ρ)

def spawn : Request ρ → Task ρ
  | .get => .checking
  | .invalidate => .invalidating
  | .commit row => .committing row

def resume (s : Store ρ) (time : ℤ) : Task ρ → Option (Store ρ × Task ρ)
  | .checking =>
    match s.cache.hit time with
    | some settings => some (s, .returned time settings)
    | none => some (s, .waiting)
  | .waiting => if s.locked then none else some ({ s with locked := true }, .rechecking)
  | .rechecking =>
    match s.cache.hit time with
    | some settings => some ({ s with locked := false }, .returned time settings)
    | none => some (s, .opening time)
  | .opening now => some (s, .selecting now ⟨time, s.holds⟩)
  | .selecting now start =>
    match s.database with
    | some row => some (s, .caching now ⟨row, start⟩)
    | none => some (s, .inserting now start)
  | .inserting now start =>
    -- another transaction may have inserted the row: the insert is rolled back
    match s.database with
    | some _ => some (s, .rereading now start)
    | none => some ({ s with database := some defaults }, .rereading now start)
  | .rereading now start =>
    match s.database with
    | some row => some (s, .caching now ⟨row, start⟩)
    | none => some ({ s with locked := false }, .raised)
  | .caching now settings =>
    some ({ s with cache := s.cache.set settings now }, .closing now settings)
  | .closing now settings => some ({ s with locked := false }, .returned now settings)
  | .invalidating =>
    if s.locked then none
    else some ({ s with locked := true, holds := s.holds + 1 }, .clearing (s.holds + 1))
  | .clearing n => some ({ s with cache := s.cache.clear, locked := false }, .invalidated n)
  | .committing row => some ({ s with database := row }, .committed)
  | .returned _ _ | .invalidated _ | .committed | .raised => none

def fail (s : Store ρ) : Task ρ → Option (Store ρ × Task ρ)
  | .waiting | .invalidating | .committing _ => some (s, .raised)
  | t => if t.holdsLock then some ({ s with locked := false }, .raised) else none

/-- The clock does not go back. -/
def act (s : Store ρ) (t : Task ρ) : Action → Option (Store ρ × Task ρ)
  | .resume time =>
    if s.clock ≤ time then resume defaults { s with clock := time } time t else none
  | .fail time => if s.clock ≤ time then fail { s with clock := time } t else none

def program : Program (Store ρ) (Task ρ) (Request ρ) Action where
  spawn _ request := spawn request
  act := act defaults

def step : State ρ → Event ρ → Option (State ρ) := (program defaults).step

end System

/-! ### What a step can do -/

/-- **How a call goes on** at the time of the clock, one rule for each thing it can do. -/
inductive Steps {ρ : Type} (s : Store ρ) : Task ρ → Store ρ → Task ρ → Prop
  | hit {settings} (h : s.cache.hit s.clock = some settings) :
      Steps s .checking s (.returned s.clock settings)
  | miss : Steps s .checking s .waiting
  | lock (h : s.locked = false) : Steps s .waiting { s with locked := true } .rechecking
  | hitAgain {settings} (h : s.cache.hit s.clock = some settings) :
      Steps s .rechecking { s with locked := false } (.returned s.clock settings)
  | missAgain : Steps s .rechecking s (.opening s.clock)
  | start {now} : Steps s (.opening now) s (.selecting now ⟨s.clock, s.holds⟩)
  | select {now start row} (h : s.database = some row) :
      Steps s (.selecting now start) s (.caching now ⟨row, start⟩)
  | absent {now start} : Steps s (.selecting now start) s (.inserting now start)
  | insert {now start database} :
      Steps s (.inserting now start) { s with database := database } (.rereading now start)
  | reread {now start row} (h : s.database = some row) :
      Steps s (.rereading now start) s (.caching now ⟨row, start⟩)
  | cache {now settings} : Steps s (.caching now settings)
      { s with cache := s.cache.set settings now } (.closing now settings)
  | close {now settings} :
      Steps s (.closing now settings) { s with locked := false } (.returned now settings)
  | invalidate (h : s.locked = false) : Steps s .invalidating
      { s with locked := true, holds := s.holds + 1 } (.clearing (s.holds + 1))
  | clear {n} : Steps s (.clearing n) { s with cache := s.cache.clear, locked := false }
      (.invalidated n)
  | commit {row} : Steps s (.committing row) { s with database := row } .committed
  | fail {t} (h : t.holdsLock = false) : Steps s t s .raised
  | failHolding {t} (h : t.holdsLock = true) : Steps s t { s with locked := false } .raised

section Inversion

variable {ρ : Type} {defaults : ρ} {s s' : Store ρ} {t t' : Task ρ} {a : Action}

theorem steps_of_resume (h : resume defaults s s.clock t = some (s', t')) : Steps s t s' t' := by
  cases t with
  | checking =>
    simp only [resume] at h
    split at h <;> cases h
    · exact .hit ‹_›
    · exact .miss
  | waiting =>
    simp only [resume] at h
    split_ifs at h with hlocked
    cases h
    exact .lock (by simpa using hlocked)
  | rechecking =>
    simp only [resume] at h
    split at h <;> cases h
    · exact .hitAgain ‹_›
    · exact .missAgain
  | selecting now start =>
    simp only [resume] at h
    split at h <;> cases h
    · exact .select ‹_›
    · exact .absent
  | inserting now start =>
    simp only [resume] at h
    split at h <;> cases h
    · exact @Steps.insert ρ s now start s.database
    · exact .insert
  | rereading now start =>
    simp only [resume] at h
    split at h <;> cases h
    · exact .reread ‹_›
    · exact .failHolding rfl
  | invalidating =>
    simp only [resume] at h
    split_ifs at h with hlocked
    cases h
    exact .invalidate (by simpa using hlocked)
  | opening now =>
    cases h
    exact .start
  | caching now settings =>
    cases h
    exact .cache
  | closing now settings =>
    cases h
    exact .close
  | clearing n =>
    cases h
    exact .clear
  | committing row =>
    cases h
    exact .commit
  | returned | invalidated | committed | raised => cases h

theorem steps_of_fail (h : fail s t = some (s', t')) : Steps s t s' t' := by
  unfold fail at h
  split at h
  · cases h
    exact .fail rfl
  · cases h
    exact .fail rfl
  · cases h
    exact .fail rfl
  · split_ifs at h with hholds
    cases h
    exact .failHolding hholds

theorem steps_of_act (h : act defaults s t a = some (s', t')) :
    ∃ time, s.clock ≤ time ∧ Steps { s with clock := time } t s' t' := by
  cases a with
  | resume time =>
    simp only [act] at h
    split_ifs at h with hclock
    exact ⟨time, hclock, steps_of_resume h⟩
  | fail time =>
    simp only [act] at h
    split_ifs at h with hclock
    exact ⟨time, hclock, steps_of_fail h⟩

/-- A call takes the lock when it is free, and has it until it frees it. -/
theorem locks_program (defaults : ρ) : Locks (program defaults) Store.locked Task.holdsLock where
  starts s request := by cases request <;> rfl
  acquires s t a s' t' h hout hin := by
    obtain ⟨time, -, hsteps⟩ := steps_of_act h
    cases hsteps with
    | lock hfree | invalidate hfree => exact ⟨hfree, rfl⟩
    | _ => contradiction
  keeps s t a s' t' h hsame := by
    obtain ⟨time, -, hsteps⟩ := steps_of_act h
    cases hsteps with
    | failHolding hholds =>
      rw [hholds] at hsame
      cases hsame
    | _ => first | rfl | contradiction

end Inversion

/-! ### What a run shows -/

/-- A call returns. -/
inductive Shown (ρ : Type) where
  | invalidated (n : ℕ)
  | returned (now : ℤ) (settings : Fetched ρ)
  deriving DecidableEq

/-- What the last step of a call shows. -/
def Task.shown {ρ : Type} : Task ρ → Option (Shown ρ)
  | .invalidated n => some (.invalidated n)
  | .returned now settings => some (.returned now settings)
  | _ => none

/-- What an event shows. -/
def shows {ρ : Type} (defaults : ρ) (p : State ρ) : Event ρ → Option (Shown ρ)
  | .act tid a => (p.tasks[tid]?.bind fun t => act defaults p.store t a).bind (·.2.shown)
  | .spawn _ => none

/-- A row that is returned after a call of `invalidate` was read after this call had begun to hold
the lock. -/
def ReadAfter {ρ : Type} (earlier later : Shown ρ) : Prop :=
  ∀ n now settings, earlier = .invalidated n → later = .returned now settings →
    n ≤ settings.start.holds

/-- The read of a row that is returned has not started longer ago than the cache keeps rows. -/
def ReadSince {ρ : Type} (ttlSeconds : ℤ) (shown : Shown ρ) : Prop :=
  ∀ now settings, shown = .returned now settings → now - ttlSeconds ≤ settings.start.time

/-! ### The age of a row -/

/-- The cached row was read after the time it is cached with. -/
def CacheOk {ρ : Type} (ttlSeconds : ℤ) (s : Store ρ) : Prop :=
  s.cache.ttlSeconds = ttlSeconds ∧
    ∀ settings ∈ s.cache.cachedSettings, s.cache.cachedAt ≤ settings.start.time

/-- A call that reads has looked at the clock before, and returns a row that is not too old. -/
def TaskOk {ρ : Type} (ttlSeconds : ℤ) (s : Store ρ) : Task ρ → Prop
  | .opening now => now ≤ s.clock
  | .selecting now start | .inserting now start | .rereading now start => now ≤ start.time
  | .caching now settings | .closing now settings => now ≤ settings.start.time
  | .returned now settings => now - ttlSeconds ≤ settings.start.time
  | .clearing n => n ≤ s.holds
  | _ => True

section Age

variable {ρ : Type} {defaults : ρ} {ttlSeconds time : ℤ} {s s' : Store ρ} {t t' u : Task ρ}
  {p p' : State ρ} {m : Event ρ}

theorem CacheOk.age (h : CacheOk ttlSeconds s) {settings : Fetched ρ}
    (hhit : s.cache.hit time = some settings) : time - ttlSeconds ≤ settings.start.time := by
  obtain ⟨hage, hcached⟩ := SettingsCache.hit_eq_some.1 hhit
  obtain ⟨httl, hread⟩ := h
  have := hread settings hcached
  omega

theorem TaskOk.of_clock (h : TaskOk ttlSeconds s t) (hclock : s.clock ≤ time) :
    TaskOk ttlSeconds { s with clock := time } t := by
  cases t with
  | opening now => exact le_trans h hclock
  | _ => exact h

theorem TaskOk.steps (hs : CacheOk ttlSeconds s) (ht : TaskOk ttlSeconds s t)
    (h : Steps s t s' t') : CacheOk ttlSeconds s' ∧ TaskOk ttlSeconds s' t' := by
  cases h with
  | hit hhit | hitAgain hhit => exact ⟨hs, hs.age hhit⟩
  | missAgain => exact ⟨hs, le_rfl⟩
  | start => exact ⟨hs, ht⟩
  | select | absent | insert | reread => exact ⟨hs, ht⟩
  | cache =>
    refine ⟨⟨hs.1, fun settings hcached => ?_⟩, ht⟩
    obtain rfl := Option.some.inj hcached
    exact ht
  | @close now settings =>
    have hread : now ≤ settings.start.time := ht
    have hpos := s.cache.ttlSeconds_pos
    have httl := hs.1
    refine ⟨hs, ?_⟩
    show now - ttlSeconds ≤ settings.start.time
    omega
  | invalidate => exact ⟨hs, le_rfl⟩
  | clear => exact ⟨⟨hs.1, by simp [SettingsCache.clear]⟩, trivial⟩
  | miss | lock | commit | fail | failHolding => exact ⟨hs, trivial⟩

/-- The clock and the count of the holds only rise. -/
theorem TaskOk.other (hu : TaskOk ttlSeconds s u) (h : Steps s t s' t') :
    TaskOk ttlSeconds s' u := by
  have hclock : s.clock = s'.clock := by cases h <;> rfl
  have hholds : s.holds ≤ s'.holds := by
    cases h with
    | invalidate => exact Nat.le_succ _
    | _ => exact le_rfl
  cases u with
  | opening now => exact le_trans hu hclock.le
  | clearing n => exact le_trans hu hholds
  | _ => exact hu

/-- What every state of a run satisfies. -/
def RunOk (ttlSeconds : ℤ) (p : State ρ) : Prop :=
  Asserts (CacheOk ttlSeconds) (TaskOk ttlSeconds) p ∧ Exclusive Store.locked Task.holdsLock p

theorem RunOk.step (hp : RunOk ttlSeconds p) (hs : step defaults p m = some p') :
    RunOk ttlSeconds p' := by
  refine ⟨?_, hp.2.step (locks_program defaults) hs⟩
  refine Program.inv_step (P := program defaults) (C := fun _ _ => True)
    (fun p request _ _ => ?_) (fun p tid a t s' t' hc ht _ _ ha => ?_)
    (fun p tid a t s' t' u _ _ hu _ _ ha => ?_) hp.1 trivial hs
  · cases request <;> trivial
  · obtain ⟨time, hclock, hsteps⟩ := steps_of_act ha
    exact (ht.of_clock hclock).steps (s := { p.store with clock := time }) hc hsteps
  · obtain ⟨time, hclock, hsteps⟩ := steps_of_act ha
    exact (hu.of_clock hclock).other hsteps

end Age

/-! ### The rows read since a call of `invalidate` -/

/-- The read whose row a call caches or returns next. -/
def Task.start? {ρ : Type} : Task ρ → Option ReadStart
  | .selecting _ start | .inserting _ start | .rereading _ start => some start
  | .caching _ settings | .closing _ settings => some settings.start
  | _ => none

/-- `n` calls of `invalidate` have begun to hold the lock, and the cached row was read since. -/
def CachedSince {ρ : Type} (n : ℕ) (s : Store ρ) : Prop :=
  n ≤ s.holds ∧ ∀ settings ∈ s.cache.cachedSettings, n ≤ settings.start.holds

/-- So was the row that the call reads. -/
def ReadsSince {ρ : Type} (n : ℕ) (t : Task ρ) : Prop := ∀ start ∈ t.start?, n ≤ start.holds

section Since

variable {ρ : Type} {defaults : ρ} {ttlSeconds now : ℤ} {n : ℕ} {s s' : Store ρ} {t t' : Task ρ}
  {p p' : State ρ} {m : Event ρ} {settings : Fetched ρ} {shown : Shown ρ}

theorem holds_of_returned (hs : CachedSince n s) (ht : ReadsSince n t)
    (h : Steps s t s' (.returned now settings)) : n ≤ settings.start.holds := by
  cases h with
  | hit hhit | hitAgain hhit => exact hs.2 settings (SettingsCache.hit_eq_some.1 hhit).2
  | close => exact ht _ rfl

theorem CachedSince.steps (hs : CachedSince n s) (ht : ReadsSince n t) (h : Steps s t s' t') :
    CachedSince n s' ∧ ReadsSince n t' := by
  cases h with
  | start =>
    refine ⟨hs, fun start hstart => ?_⟩
    obtain rfl := Option.some.inj hstart
    exact hs.1
  | select | absent | insert | reread => exact ⟨hs, ht⟩
  | cache =>
    refine ⟨⟨hs.1, fun settings hcached => ?_⟩, ht⟩
    obtain rfl := Option.some.inj hcached
    exact ht _ rfl
  | invalidate => exact ⟨⟨hs.1.trans (Nat.le_succ _), hs.2⟩, by simp [ReadsSince, Task.start?]⟩
  | clear =>
    refine ⟨⟨hs.1, ?_⟩, by simp [ReadsSince, Task.start?]⟩
    simp [SettingsCache.clear]
  | _ => exact ⟨hs, by simp [ReadsSince, Task.start?]⟩

theorem readsSince_of_free (h : t.holdsLock = false) : ReadsSince n t := by
  cases t with
  | selecting | inserting | rereading | caching | closing => cases h
  | _ => simp [ReadsSince, Task.start?]

theorem shows_eq_some (h : shows defaults p m = some shown) :
    ∃ tid a t s' t', m = .act tid a ∧ p.tasks[tid]? = some t ∧
      act defaults p.store t a = some (s', t') ∧ t'.shown = some shown := by
  cases m with
  | spawn request => cases h
  | act tid a =>
    obtain ⟨⟨s', t'⟩, hact, hshown⟩ := Option.bind_eq_some_iff.1 h
    obtain ⟨t, ht, hact⟩ := Option.bind_eq_some_iff.1 hact
    exact ⟨tid, a, t, s', t', rfl, ht, hact, hshown⟩

theorem eq_of_shown_invalidated (h : t.shown = some (.invalidated n)) : t = .invalidated n := by
  cases t with
  | invalidated k =>
    cases h
    rfl
  | _ => cases h

theorem eq_of_shown_returned (h : t.shown = some (.returned now settings)) :
    t = .returned now settings := by
  cases t with
  | returned now settings =>
    cases h
    rfl
  | _ => cases h

/-- **When `invalidate` returns, nothing read before is left**: the cache is empty, and no other
call holds the lock. -/
theorem asserts_of_invalidated (hp : RunOk ttlSeconds p) (hs : step defaults p m = some p')
    (h : shows defaults p m = some (.invalidated n)) :
    Asserts (CachedSince n) (fun _ => ReadsSince n) p' := by
  obtain ⟨tid, a, t, s', t', rfl, ht, hact, hshown⟩ := shows_eq_some h
  obtain rfl := eq_of_shown_invalidated hshown
  obtain rfl : _ = p' := Option.some.inj ((Program.step_act ht hact).symm.trans hs)
  have htask : TaskOk ttlSeconds p.store t := hp.1.2 t (List.mem_of_getElem? ht)
  obtain ⟨time, hclock, hsteps⟩ := steps_of_act hact
  cases hsteps
  refine ⟨⟨htask, by simp [SettingsCache.clear]⟩, fun u hu => ?_⟩
  obtain ⟨i, hi⟩ := List.getElem?_of_mem hu
  rcases getElem?_set_cases hi with ⟨-, rfl⟩ | ⟨htid, hi⟩
  · exact readsSince_of_free rfl
  · exact readsSince_of_free (hp.2.one.other ht hi (Ne.symm htid) rfl)

theorem asserts_step (h : Asserts (CachedSince n) (fun _ => ReadsSince n) p)
    (hs : step defaults p m = some p') : Asserts (CachedSince n) (fun _ => ReadsSince n) p' := by
  refine Program.inv_step_local (P := program defaults) (C := fun _ _ => True)
    (fun p request _ _ => ?_) (fun p tid a t s' t' hc ht _ _ ha => ?_) h trivial hs
  · cases request <;> exact readsSince_of_free rfl
  · obtain ⟨time, hclock, hsteps⟩ := steps_of_act ha
    exact CachedSince.steps (s := { p.store with clock := time }) hc ht hsteps

end Since

/-! ### Where a row comes from -/

/-- The database had the row in one of the stores, when its read had started. -/
def WasStored {ρ : Type} (stores : List (Store ρ)) (settings : Fetched ρ) : Prop :=
  ∃ s ∈ stores, s.database = some settings.row ∧ settings.start.time ≤ s.clock ∧
    settings.start.holds ≤ s.holds

/-- The cached row was in the database. -/
def CacheStored {ρ : Type} (stores : List (Store ρ)) (s : Store ρ) : Prop :=
  ∀ settings ∈ s.cache.cachedSettings, WasStored stores settings

/-- So was the row a call has read; a read that has started has not started later than now. -/
def TaskStored {ρ : Type} (stores : List (Store ρ)) (s : Store ρ) : Task ρ → Prop
  | .selecting _ start | .inserting _ start | .rereading _ start =>
    start.time ≤ s.clock ∧ start.holds ≤ s.holds
  | .caching _ settings | .closing _ settings => WasStored stores settings
  | _ => True

section Stored

variable {ρ : Type} {defaults : ρ} {time : ℤ} {s s' s₀ : Store ρ} {t t' u : Task ρ} {a : Action}
  {stores : List (Store ρ)} {settings : Fetched ρ} {p p' : State ρ} {m : Event ρ}
  {ms : List (Event ρ)} {now : ℤ}

theorem WasStored.later (h : WasStored stores settings) :
    WasStored (stores ++ [s₀]) settings := by
  obtain ⟨s, hs, hrow⟩ := h
  exact ⟨s, List.mem_append_left _ hs, hrow⟩

theorem TaskStored.later (h : TaskStored stores s t) : TaskStored (stores ++ [s₀]) s t := by
  cases t with
  | caching | closing => exact WasStored.later h
  | _ => exact h

/-- The clock does not go back, and no call of `invalidate` lets the lock go twice. -/
theorem advances_of_act (h : act defaults s t a = some (s', t')) :
    s.clock ≤ s'.clock ∧ s.holds ≤ s'.holds := by
  obtain ⟨time, hclock, hsteps⟩ := steps_of_act h
  cases hsteps with
  | invalidate => exact ⟨hclock, Nat.le_succ _⟩
  | _ => exact ⟨hclock, le_rfl⟩

theorem TaskStored.other (hu : TaskStored stores s u) (h : act defaults s t a = some (s', t')) :
    TaskStored stores s' u := by
  obtain ⟨hclock, hholds⟩ := advances_of_act h
  cases u with
  | selecting | inserting | rereading => exact ⟨hu.1.trans hclock, hu.2.trans hholds⟩
  | _ => exact hu

theorem TaskStored.act (hmem : s ∈ stores) (hs : CacheStored stores s) (ht : TaskStored stores s t)
    (h : act defaults s t a = some (s', t')) :
    CacheStored stores s' ∧ TaskStored stores s' t' := by
  obtain ⟨time, hclock, hsteps⟩ := steps_of_act h
  cases hsteps with
  | start => exact ⟨hs, le_rfl, le_rfl⟩
  | select hrow | reread hrow => exact ⟨hs, s, hmem, hrow, ht⟩
  | absent | insert => exact ⟨hs, ht.1.trans hclock, ht.2⟩
  | cache =>
    refine ⟨fun settings hcached => ?_, ht⟩
    obtain rfl := Option.some.inj hcached
    exact ht
  | clear => exact ⟨fun settings hcached => by simp [SettingsCache.clear] at hcached, trivial⟩
  | _ => exact ⟨hs, trivial⟩

/-- **A row that is returned was in the database**, in a store of the run, and not before its read
had started. -/
theorem wasStored_of_returned (hempty : p.store.cache.cachedSettings = none) (htasks : p.tasks = [])
    (hrun : run (step defaults) p ms = some p')
    (hshows : shows defaults p' m = some (.returned now settings)) :
    WasStored ((program defaults).stores p ms) settings := by
  have hstart : Asserts (CacheStored []) (TaskStored []) p :=
    ⟨by simp [CacheStored, hempty], by simp [htasks]⟩
  obtain ⟨hcache, hread⟩ := Program.asserts_stores
    (P := program defaults) (I := CacheStored) (J := TaskStored)
    (fun _ _ _ hs settings hcached => (hs settings hcached).later) (fun _ _ _ _ ht => ht.later)
    (fun _ _ request _ _ => by cases request <;> trivial)
    (fun _ _ _ _ _ _ hmem hs ht ha => TaskStored.act hmem hs ht ha)
    (fun _ _ _ _ _ _ _ hu ha => hu.other ha) hstart hrun
  obtain ⟨tid, a, t, s', t', rfl, ht, hact, hshown⟩ := shows_eq_some hshows
  obtain rfl := eq_of_shown_returned hshown
  have htask := hread t (List.mem_of_getElem? ht)
  obtain ⟨time, -, hsteps⟩ := steps_of_act hact
  cases hsteps with
  | hit hhit | hitAgain hhit => exact hcache settings (SettingsCache.hit_eq_some.1 hhit).2
  | close => exact htask

end Stored

/-! ### Runs -/

/-- **The settings cache is fresh.**  Whatever calls of `get` and `invalidate` and whatever commits
interleave, a `get` that returns after an `invalidate` has returned has a row whose read started
when that `invalidate` already held the lock; the read of the row had started at most the
time-to-live before the time that the `get` has seen on the clock; and the database had the row at
or after the start of this read, before the `get` returns. -/
theorem gets_are_fresh {ρ : Type} (defaults : ρ) (ttlSeconds : ℤ)
    (cache : SettingsCache (Fetched ρ)) (hinit : SettingsCache.init ttlSeconds = .ok cache)
    (clock : ℤ) (database : Option ρ) (ms : List (Event ρ)) :
    let start : State ρ := ⟨⟨clock, database, cache, false, 0⟩, []⟩
    (trace (step defaults) (shows defaults) start ms).Pairwise ReadAfter ∧
      (∀ shown ∈ trace (step defaults) (shows defaults) start ms, ReadSince ttlSeconds shown) ∧
      ∀ p, run (step defaults) start ms = some p → ∀ m now settings,
        shows defaults p m = some (.returned now settings) →
        WasStored ((program defaults).stores start ms) settings := by
  intro start
  obtain ⟨httl, hempty⟩ := SettingsCache.init_eq_ok hinit
  have hstart : RunOk ttlSeconds start :=
    ⟨⟨⟨httl, by simp [start, hempty]⟩, by simp [start]⟩, exclusive_start _⟩
  refine ⟨?_, ?_, fun p hrun m now settings hshows =>
    wasStored_of_returned hempty rfl hrun hshows⟩
  · -- an `invalidate` that has returned establishes what every later `get` rests on
    refine pairwise_trace (I := RunOk ttlSeconds) (C := fun _ _ => True)
      (J := fun shown p => ∀ n, shown = .invalidated n →
        Asserts (CachedSince n) (fun _ => ReadsSince n) p)
      (fun p m p' hp _ hs => hp.step hs) (fun p m p' shown hp _ hs hshown => ?_)
      (fun shown p m p' hJ _ _ hs => ?_)
      (fun earlier p m later hJ _ _ hshown => ?_) hstart meets_true
    · rintro n rfl
      exact asserts_of_invalidated hp hs hshown
    · exact fun n hn => asserts_step (hJ n hn) hs
    · rintro n now settings hn rfl
      obtain ⟨hcached, hreads⟩ := hJ n hn
      obtain ⟨tid, a, t, s', t', rfl, ht, hact, hshown⟩ := shows_eq_some hshown
      obtain rfl := eq_of_shown_returned hshown
      obtain ⟨time, hclock, hsteps⟩ := steps_of_act hact
      exact holds_of_returned (s := { p.store with clock := time }) hcached
        (hreads t (List.mem_of_getElem? ht)) hsteps
  · have hinv : Meets (step defaults) (fun p _ => RunOk ttlSeconds p) start ms :=
      meets_of_invariant (fun p m p' hp hs => hp.step hs) hstart
    refine forall_mem_trace (hinv.mono fun p m hp shown hshown => ?_)
    rintro now settings rfl
    obtain ⟨tid, a, t, s', t', rfl, ht, hact, hshown⟩ := shows_eq_some hshown
    obtain rfl := eq_of_shown_returned hshown
    obtain ⟨time, hclock, hsteps⟩ := steps_of_act hact
    have htask := (hp.1.2 t (List.mem_of_getElem? ht)).of_clock hclock
    exact (htask.steps (s := { p.store with clock := time }) hp.1.1 hsteps).2

/-- Some steps of a call at a time. -/
def goOn {ρ : Type} (tid steps : ℕ) (time : ℤ) : List (Event ρ) :=
  List.replicate steps (.act tid (.resume time))

/-- A row is read and cached, another is committed, and the cache is cleared before the next
`get`. -/
theorem gets_are_fresh_sample :
    let cache : SettingsCache (Fetched String) := ⟨5, none, 0, by decide⟩
    let start : State String := ⟨⟨100, some "old", cache, false, 0⟩, []⟩
    let ms : List (Event String) := [.spawn .get] ++ goOn 0 7 100 ++
      [.spawn (.commit (some "new"))] ++ goOn 1 1 101 ++ [.spawn .get] ++ goOn 2 1 101 ++
      [.spawn .invalidate] ++ goOn 3 2 102 ++ [.spawn .get] ++ goOn 4 6 103
    trace (step "default") (shows "default") start (ms ++ goOn 4 1 103) =
      [.returned 100 ⟨"old", 100, 0⟩, .returned 101 ⟨"old", 100, 0⟩, .invalidated 1,
        .returned 103 ⟨"new", 103, 1⟩] ∧
    (trace (step "default") (shows "default") start ms).Pairwise ReadAfter ∧
      (∀ shown ∈ trace (step "default") (shows "default") start ms, ReadSince 5 shown) ∧
      WasStored ((program "default").stores start ms) ⟨"new", 103, 1⟩ := by
  intro cache start ms
  obtain ⟨hafter, hsince, hstored⟩ := gets_are_fresh "default" 5 cache rfl 100 (some "old") ms
  have hrun : run (step "default") start ms = some (endOf (step "default") start ms) :=
    run_endOf (by decide +kernel)
  exact ⟨by decide +kernel, hafter, hsince,
    hstored _ hrun (.act 4 (.resume 103)) 103 _ (by decide +kernel)⟩

end FirecrawlLb.Core.CachedSettings
