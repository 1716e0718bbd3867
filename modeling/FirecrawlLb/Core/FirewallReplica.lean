import FirecrawlLb.Core.Invalidation
import FirecrawlLb.Lib.Tasks

/-!
# A replica and its firewall

The checks and the poller of one replica over its cache, and the changes of the allowlist by this
replica and by others.  The changes are counted in the order of their commits, which dates the
decisions: a decision tells how many changes were committed when its read started and how many it
has seen.  The program does not use these numbers.
-/

namespace FirecrawlLb.Core.FirewallReplica

open FirecrawlLb.Lib FirecrawlLb.Lib.Tasks FirecrawlLb.Lib.Run FirecrawlLb.Python
open FirecrawlLb.Core.FirewallCache FirecrawlLb.Core.Invalidation

structure Decision where
  allowed : Bool
  since : ℕ
  seen : ℕ
  deriving DecidableEq

/-- The versions of the namespaces, and the last of the changes that have bumped them. -/
structure Invalidations where
  versions : CacheInvalidations
  bumped : ℕ
  deriving DecidableEq

/-- The database, and what the replica keeps: its cache, its poller, and the rows that a poll has
read and not yet compared. -/
structure Store where
  allowlist : List String
  commits : ℕ
  invalidations : Invalidations
  cache : FirewallIPCache Decision
  poller : CacheInvalidationPoller
  polled : Option Invalidations
  deriving DecidableEq

inductive Change where
  | add (ip : String)
  | delete (ip : String)
  deriving DecidableEq

/-- The allowlist after the commit; none when the address is there already. -/
def Change.apply (allowlist : List String) : Change → Option (List String)
  | .add ip => if allowlist.any (· = ip) then none else some (allowlist ++ [ip])
  | .delete ip => some (allowlist.filter (· ≠ ip))

inductive Request where
  | check (ip : String)
  /-- `add_firewall_ip`, on this replica or on another one -/
  | addFirewallIp (own : Bool) (ip : String)
  | deleteFirewallIp (own : Bool) (ip : String)
  /-- `start`; the loop polls again and again -/
  | startPoller
  deriving DecidableEq

/-- Where a check, a change or the poller stands, by the step that comes next. -/
inductive Task where
  | looking (ip : String)
  | missed (ip : String)
  | versioned (ip : String) (version : ℕ)
  | reading (ip : String) (version since : ℕ)
  | storing (ip : String) (version : ℕ) (decision : Decision)
  | decided (decision : Decision)
  | committing (own : Bool) (change : Change)
  | invalidating (change : ℕ)
  | bumping (change : ℕ)
  | changed
  | polling
  | failed
  deriving DecidableEq

/-- A task goes on, with the clock at this reading, or it fails. -/
inductive Action where
  | resume (now : ℤ)
  | fail
  deriving DecidableEq

abbrev State := Pool Store Task

abbrev Event := Move Request Action

def spawn : Request → Task
  | .check ip => .looking ip
  | .addFirewallIp own ip =>
    match normalizeIpAddress ip with
    | none => .failed
    | some normalized => .committing own (.add normalized)
  | .deleteFirewallIp own ip =>
    match normalizeIpAddress ip with
    | none => .failed
    | some normalized => .committing own (.delete normalized)
  | .startPoller => .polling

/-- The next step of a task. -/
def resume (s : Store) (now : ℤ) : Task → Option (Store × Task)
  | .looking ip =>
    match s.cache.isAllowed ip now with
    | some decision => some (s, .decided decision)
    | none => some (s, .missed ip)
  | .missed ip => some (s, .versioned ip s.cache.version)
  | .versioned ip version => some (s, .reading ip version s.commits)
  | .reading ip version since =>
    some (s, .storing ip version ⟨isIpAllowed s.allowlist (some ip), since, s.commits⟩)
  | .storing ip version decision =>
    some ({ s with cache := s.cache.set ip decision now (some version) }, .decided decision)
  | .committing own change =>
    match change.apply s.allowlist with
    | none => some (s, .failed)
    | some allowlist =>
      some ({ s with allowlist := allowlist, commits := s.commits + 1 },
        if own then .invalidating (s.commits + 1) else .bumping (s.commits + 1))
  | .invalidating change =>
    some ({ s with cache := s.cache.invalidateAll }, .bumping change)
  | .bumping change =>
    let invalidations :=
      ⟨bump s.invalidations.versions namespaceFirewall, max s.invalidations.bumped change⟩
    some ({ s with invalidations := invalidations }, .changed)
  | .polling =>
    match s.polled with
    | none => some ({ s with polled := some s.invalidations }, .polling)
    | some rows =>
      let result := pollRows (s.poller, s.cache) rows.versions.items
      some ({ s with poller := result.1, cache := result.2, polled := none }, .polling)
  | .decided _ | .changed | .failed => none

theorem resume_polling {s : Store} {rows : Invalidations} (h : s.polled = some rows) (now : ℤ) :
    resume s now .polling = some ({ s with
      poller := (pollRows (s.poller, s.cache) rows.versions.items).1
      cache := (pollRows (s.poller, s.cache) rows.versions.items).2
      polled := none }, .polling) := by
  simp only [resume, h]

def act (s : Store) (t : Task) : Action → Option (Store × Task)
  | .resume now => resume s now t
  | .fail =>
    match t with
    | .decided _ | .changed | .failed => none
    | .polling => some ({ s with polled := none }, .polling)
    | _ => some (s, .failed)

def program : Program Store Task Request Action where
  spawn _ := spawn
  act := act

def step : State → Event → Option State := program.step

/-! ### What a run shows -/

inductive Shown where
  /-- A check is answered from the cache, at this reading of the clock. -/
  | hit (now : ℤ) (entry : CachedFirewallDecision Decision)
  /-- `invalidate_all` returns after the commit of a change. -/
  | invalidated (change : ℕ)
  /-- A poll is over that has read the bumps up to a change. -/
  | polled (bumped : ℕ)
  deriving DecidableEq

/-- What the next step of a task shows. -/
def taskShows (s : Store) (now : ℤ) : Task → Option Shown
  | .looking ip => (s.cache.hit ip now).map (.hit now)
  | .invalidating change => some (.invalidated change)
  | .polling => s.polled.map fun rows => .polled rows.bumped
  | _ => none

def shows (p : State) : Event → Option Shown
  | .act tid (.resume now) => p.tasks[tid]?.bind (taskShows p.store now)
  | _ => none

/-- What a run from a store shows. -/
def history (s : Store) (ms : List Event) : List Shown := trace step shows ⟨s, []⟩ ms

section Shows

variable {p p' : State} {m : Event}

theorem shows_eq_some {shown : Shown} : shows p m = some shown ↔
    ∃ tid now t, m = .act tid (.resume now) ∧ p.tasks[tid]? = some t ∧
      taskShows p.store now t = some shown := by
  constructor
  · intro h
    unfold shows at h
    split at h
    · rename_i tid now
      obtain ⟨t, ht, hshows⟩ := Option.bind_eq_some_iff.1 h
      exact ⟨tid, now, t, rfl, ht, hshows⟩
    · cases h
  · rintro ⟨tid, now, t, rfl, ht, hshows⟩
    exact Option.bind_eq_some_iff.2 ⟨t, ht, hshows⟩

theorem shows_eq_hit {now : ℤ} {entry : CachedFirewallDecision Decision}
    (h : shows p m = some (.hit now entry)) :
    (∃ ip, p.store.cache.cache.get? ip = some entry) ∧ now < entry.expiresAt := by
  obtain ⟨tid, now', t, -, -, hshows⟩ := shows_eq_some.1 h
  cases t with
  | looking ip =>
    obtain ⟨entry', hhit, heq⟩ := Option.map_eq_some_iff.1 hshows
    cases heq
    obtain ⟨hget, hnow⟩ := FirewallIPCache.hit_eq_some.1 hhit
    exact ⟨⟨ip, hget⟩, hnow⟩
  | invalidating => cases hshows
  | polling =>
    obtain ⟨rows, -, heq⟩ := Option.map_eq_some_iff.1 hshows
    cases heq
  | _ => cases hshows

theorem shows_eq_invalidated {change : ℕ} (h : shows p m = some (.invalidated change)) :
    ∃ tid now, m = .act tid (.resume now) ∧ p.tasks[tid]? = some (.invalidating change) := by
  obtain ⟨tid, now, t, hm, ht, hshows⟩ := shows_eq_some.1 h
  cases t with
  | looking ip =>
    obtain ⟨entry', -, heq⟩ := Option.map_eq_some_iff.1 hshows
    cases heq
  | invalidating n =>
    cases hshows
    exact ⟨tid, now, hm, ht⟩
  | polling =>
    obtain ⟨rows, -, heq⟩ := Option.map_eq_some_iff.1 hshows
    cases heq
  | _ => cases hshows

theorem shows_eq_polled {bumped : ℕ} (h : shows p m = some (.polled bumped)) :
    ∃ tid now rows, m = .act tid (.resume now) ∧ p.tasks[tid]? = some .polling ∧
      p.store.polled = some rows ∧ rows.bumped = bumped := by
  obtain ⟨tid, now, t, hm, ht, hshows⟩ := shows_eq_some.1 h
  cases t with
  | looking ip =>
    obtain ⟨entry', -, heq⟩ := Option.map_eq_some_iff.1 hshows
    cases heq
  | invalidating => cases hshows
  | polling =>
    obtain ⟨rows, hrows, heq⟩ := Option.map_eq_some_iff.1 hshows
    cases heq
    exact ⟨tid, now, rows, hm, ht, hrows, rfl⟩
  | _ => cases hshows

theorem eq_of_step_resume {tid : ℕ} {now : ℤ} {t t' : Task} {s : Store}
    (ht : p.tasks[tid]? = some t) (h : resume p.store now t = some (s, t'))
    (hs : step p (.act tid (.resume now)) = some p') : p' = ⟨s, p.tasks.set tid t'⟩ := by
  have hact : program.act p.store t (.resume now) = some (s, t') := h
  exact (Option.some.inj ((Program.step_act ht hact).symm.trans hs)).symm

end Shows

end FirecrawlLb.Core.FirewallReplica
