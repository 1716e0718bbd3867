import FirecrawlLb.Core.FirewallReplica

/-!
# Cached decisions and changes on the same replica

A check reads the version of the cache before it reads the allowlist, and a change raises it after
its commit.  So a decision from before the change is not stored, or is cleared.
-/

namespace FirecrawlLb.Core.FirewallFreshness

open FirecrawlLb.Lib FirecrawlLb.Lib.Tasks FirecrawlLb.Lib.Run
open FirecrawlLb.Core.FirewallCache FirecrawlLb.Core.Invalidation FirecrawlLb.Core.FirewallReplica

/-! ### Levels of freshness -/

section Level

variable {date : Decision → ℕ} {level level' : ℕ} {s s' : Store} {t t' u : Task} {a : Action}

/-- A decision that is under way at the current version of the cache will be dated at or after the
level.  The date of a decision is one of its two numbers. -/
def TaskAtLevel (date : Decision → ℕ) (level : ℕ) (s : Store) : Task → Prop
  | .versioned _ version => version ≤ s.cache.version
  | .reading _ version since => version ≤ s.cache.version ∧ (version = s.cache.version →
      ∀ allowed seen, s.commits ≤ seen → level ≤ date ⟨allowed, since, seen⟩)
  | .storing _ version decision => version ≤ s.cache.version ∧
      (version = s.cache.version → level ≤ date decision)
  | .invalidating change | .bumping change => change ≤ s.commits
  | _ => True

/-- Every cached decision is dated at or after the level. -/
structure StoreAtLevel (date : Decision → ℕ) (level : ℕ) (s : Store) : Prop where
  committed : level ≤ s.commits
  cached : ∀ ip entry, s.cache.cache.get? ip = some entry → level ≤ date entry.allowed

def AtLevel (date : Decision → ℕ) (level : ℕ) (p : State) : Prop :=
  Asserts (StoreAtLevel date level) (TaskAtLevel date level) p

/-- No step takes a commit back or lowers the version of the cache. -/
def Advances (s s' : Store) : Prop :=
  s.commits ≤ s'.commits ∧ s.cache.version ≤ s'.cache.version

theorem cache_pollRows (poller : CacheInvalidationPoller) (cache : FirewallIPCache Decision)
    (table : CacheInvalidations) :
    (pollRows (poller, cache) table.items).2 = cache ∨
      (pollRows (poller, cache) table.items).2 = cache.invalidateAll := by
  rw [(pollRows_items table).1]
  split
  · exact Or.inr rfl
  · exact Or.inl rfl

theorem advances_of_act (h : act s t a = some (s', t')) : Advances s s' := by
  cases a with
  | fail =>
    cases t <;> cases h <;> exact ⟨le_rfl, le_rfl⟩
  | resume now =>
    cases t with
    | looking ip =>
      simp only [act, resume] at h
      split at h <;> cases h <;> exact ⟨le_rfl, le_rfl⟩
    | storing ip version decision =>
      cases h
      exact ⟨le_rfl, by simp⟩
    | committing own change =>
      simp only [act, resume] at h
      split at h <;> cases h
      · exact ⟨le_rfl, le_rfl⟩
      · exact ⟨Nat.le_succ _, le_rfl⟩
    | invalidating change =>
      cases h
      exact ⟨le_rfl, Nat.le_succ _⟩
    | polling =>
      simp only [act, resume] at h
      split at h <;> cases h
      · exact ⟨le_rfl, le_rfl⟩
      · rename_i rows _
        refine ⟨le_rfl, ?_⟩
        rcases cache_pollRows s.poller s.cache rows.versions with hcache | hcache <;>
          simp [hcache]
    | _ => cases h <;> exact ⟨le_rfl, le_rfl⟩

theorem TaskAtLevel.of_advances (h : TaskAtLevel date level s u) (hadv : Advances s s') :
    TaskAtLevel date level s' u := by
  obtain ⟨hcommits, hversion⟩ := hadv
  cases u with
  | versioned ip version => exact le_trans h hversion
  | reading ip version since =>
    obtain ⟨hle, hdate⟩ := h
    refine ⟨hle.trans hversion, fun heq allowed seen hseen => ?_⟩
    have hsame : version = s.cache.version := by omega
    exact hdate hsame allowed seen (hcommits.trans hseen)
  | storing ip version decision =>
    obtain ⟨hle, hdate⟩ := h
    refine ⟨hle.trans hversion, fun heq => ?_⟩
    have hsame : version = s.cache.version := by omega
    exact hdate hsame
  | invalidating change => exact le_trans h hcommits
  | bumping change => exact le_trans h hcommits
  | _ => trivial

/-- A decision is dated by a number between its two. -/
def Dates (date : Decision → ℕ) : Prop := ∀ d k, k ≤ d.since → k ≤ d.seen → k ≤ date d

theorem atLevel_act (hdate : Dates date) (hs : StoreAtLevel date level s)
    (ht : TaskAtLevel date level s t) (h : act s t a = some (s', t')) :
    StoreAtLevel date level s' ∧ TaskAtLevel date level s' t' := by
  cases a with
  | fail => cases t <;> cases h <;> exact ⟨⟨hs.committed, hs.cached⟩, trivial⟩
  | resume now =>
    cases t with
    | looking ip =>
      simp only [act, resume] at h
      split at h <;> cases h <;> exact ⟨hs, trivial⟩
    | missed ip =>
      cases h
      exact ⟨hs, le_rfl⟩
    | versioned ip version =>
      cases h
      refine ⟨hs, ht, fun _ allowed seen hseen => ?_⟩
      exact hdate _ _ hs.committed (hs.committed.trans hseen)
    | reading ip version since =>
      cases h
      exact ⟨hs, ht.1, fun heq => ht.2 heq _ _ le_rfl⟩
    | storing ip version decision =>
      cases h
      refine ⟨⟨hs.committed, fun ip' entry hentry => ?_⟩, trivial⟩
      -- the entry is the new one, whose version is still current, or an old one
      rcases FirewallIPCache.get?_set hentry with ⟨hversion, -, rfl⟩ | hold
      · exact ht.2 hversion
      · exact hs.cached ip' entry hold
    | committing own change =>
      simp only [act, resume] at h
      split at h <;> cases h
      · exact ⟨hs, trivial⟩
      · refine ⟨⟨hs.committed.trans (Nat.le_succ _), hs.cached⟩, ?_⟩
        cases own <;> exact le_rfl
    | invalidating change =>
      cases h
      exact ⟨⟨hs.committed, fun ip entry hentry => by simp at hentry⟩, ht⟩
    | bumping change =>
      cases h
      exact ⟨⟨hs.committed, hs.cached⟩, trivial⟩
    | polling =>
      simp only [act, resume] at h
      split at h <;> cases h
      · exact ⟨⟨hs.committed, hs.cached⟩, trivial⟩
      · rename_i rows _
        refine ⟨⟨hs.committed, fun ip entry hentry => ?_⟩, trivial⟩
        rcases cache_pollRows s.poller s.cache rows.versions with hcache | hcache
        · rw [hcache] at hentry
          exact hs.cached ip entry hentry
        · simp [hcache] at hentry
    | _ => cases h

variable {p p' : State} {m : Event}

theorem AtLevel.step (hdate : Dates date) (hp : AtLevel date level p)
    (hs : step p m = some p') : AtLevel date level p' := by
  refine Program.inv_step (C := fun _ _ => True) (fun p r _ _ => ?_)
    (fun p tid a t s' t' hs ht _ _ ha => atLevel_act hdate hs ht ha)
    (fun p tid a t s' t' u _ _ hu _ _ ha => hu.of_advances (advances_of_act ha)) hp trivial hs
  cases r with
  | check => trivial
  | startPoller => trivial
  | addFirewallIp own ip =>
    simp only [program, spawn]
    split <;> trivial
  | deleteFirewallIp own ip =>
    simp only [program, spawn]
    split <;> trivial

theorem AtLevel.mono (hp : AtLevel date level p) (hle : level' ≤ level) :
    AtLevel date level' p := by
  refine ⟨⟨hle.trans hp.1.committed, fun ip entry h => hle.trans (hp.1.cached ip entry h)⟩,
    fun t ht => ?_⟩
  have htask := hp.2 t ht
  cases t with
  | reading ip version since =>
    exact ⟨htask.1, fun heq allowed seen hseen => hle.trans (htask.2 heq allowed seen hseen)⟩
  | storing ip version decision => exact ⟨htask.1, fun heq => hle.trans (htask.2 heq)⟩
  | _ => exact htask

/-- What is under way has an older version than the cache after an invalidation. -/
theorem TaskAtLevel.of_invalidated (h : TaskAtLevel date level s t)
    (hcache : s'.cache = s.cache.invalidateAll) (hcommits : s'.commits = s.commits) :
    TaskAtLevel date level' s' t := by
  have hversion : s'.cache.version = s.cache.version + 1 := by rw [hcache]; rfl
  cases t with
  | versioned ip version =>
    have hle : version ≤ s.cache.version := h
    exact hle.trans (by omega)
  | reading ip version since =>
    have hle : version ≤ s.cache.version := h.1
    exact ⟨by omega, fun heq => by omega⟩
  | storing ip version decision =>
    have hle : version ≤ s.cache.version := h.1
    exact ⟨by omega, fun heq => by omega⟩
  | invalidating change => exact le_trans h hcommits.ge
  | bumping change => exact le_trans h hcommits.ge
  | _ => trivial

theorem AtLevel.invalidated (hp : AtLevel date level p)
    (hcache : s.cache = p.store.cache.invalidateAll) (hcommits : s.commits = p.store.commits)
    (hle : level' ≤ p.store.commits) : AtLevel date level' ⟨s, p.tasks⟩ := by
  refine ⟨⟨hle.trans hcommits.ge, fun ip entry h => ?_⟩, fun t ht => ?_⟩
  · simp [hcache] at h
  · exact (hp.2 t ht).of_invalidated hcache hcommits

theorem AtLevel.set_task {tasks : List Task} (hp : AtLevel date level ⟨s, tasks⟩) (tid : ℕ)
    (ht : TaskAtLevel date level s t) : AtLevel date level ⟨s, tasks.set tid t⟩ := by
  refine ⟨hp.1, fun u hu => ?_⟩
  rcases List.mem_or_eq_of_mem_set hu with hu | rfl
  · exact hp.2 u hu
  · exact ht

end Level

/-! ### What a decision is computed from -/

/-- The decision on an address is that of the allowlist after the changes it has seen, and it has
seen those that were committed when its read started. -/
def Decided (stores : List Store) (ip : String) (decision : Decision) : Prop :=
  decision.since ≤ decision.seen ∧ ∃ s ∈ stores, s.commits = decision.seen ∧
    decision.allowed = isIpAllowed s.allowlist (some ip)

/-- So is every decision of the cache. -/
def CacheDecided (stores : List Store) (s : Store) : Prop :=
  ∀ ip entry, s.cache.cache.get? ip = some entry → Decided stores ip entry.allowed

/-- So is a decision that is about to be stored; a read has not started after now. -/
def TaskDecided (stores : List Store) (s : Store) : Task → Prop
  | .reading _ _ since => since ≤ s.commits
  | .storing ip _ decision => Decided stores ip decision
  | _ => True

section Decided

variable {stores : List Store} {s s' s₀ : Store} {t t' u : Task} {a : Action} {ip : String}
  {decision : Decision} {p p' : State} {ms : List Event} {m : Event}

theorem Decided.later (h : Decided stores ip decision) : Decided (stores ++ [s₀]) ip decision := by
  obtain ⟨hle, s, hs, hallowed⟩ := h
  exact ⟨hle, s, List.mem_append_left _ hs, hallowed⟩

theorem TaskDecided.later (h : TaskDecided stores s t) : TaskDecided (stores ++ [s₀]) s t := by
  cases t with
  | storing => exact Decided.later h
  | _ => exact h

theorem TaskDecided.other (hu : TaskDecided stores s u)
    (h : FirewallReplica.act s t a = some (s', t')) :
    TaskDecided stores s' u := by
  obtain ⟨hcommits, -⟩ := advances_of_act h
  cases u with
  | reading => exact le_trans hu hcommits
  | _ => exact hu

theorem TaskDecided.act (hmem : s ∈ stores) (hs : CacheDecided stores s)
    (ht : TaskDecided stores s t) (h : FirewallReplica.act s t a = some (s', t')) :
    CacheDecided stores s' ∧ TaskDecided stores s' t' := by
  cases a with
  | fail => cases t <;> cases h <;> exact ⟨hs, trivial⟩
  | resume now =>
    cases t with
    | looking ip =>
      simp only [FirewallReplica.act, resume] at h
      split at h <;> cases h <;> exact ⟨hs, trivial⟩
    | versioned ip version =>
      cases h
      exact ⟨hs, le_rfl⟩
    | reading ip version since =>
      cases h
      exact ⟨hs, ht, s, hmem, rfl, rfl⟩
    | storing ip version decision =>
      cases h
      refine ⟨fun ip' entry hentry => ?_, trivial⟩
      rcases FirewallIPCache.get?_set hentry with ⟨-, rfl, rfl⟩ | hold
      · exact ht
      · exact hs ip' entry hold
    | committing own change =>
      simp only [FirewallReplica.act, resume] at h
      split at h <;> cases h
      · exact ⟨hs, trivial⟩
      · cases own <;> exact ⟨hs, trivial⟩
    | invalidating change =>
      cases h
      exact ⟨fun ip entry hentry => by simp at hentry, trivial⟩
    | polling =>
      simp only [FirewallReplica.act, resume] at h
      split at h <;> cases h
      · exact ⟨hs, trivial⟩
      · rename_i rows _
        refine ⟨fun ip entry hentry => ?_, trivial⟩
        -- a poll leaves the cache, or clears it
        rcases cache_pollRows s.poller s.cache rows.versions with hcache | hcache
        · rw [hcache] at hentry
          exact hs ip entry hentry
        · simp [hcache] at hentry
    | _ => cases h <;> exact ⟨hs, trivial⟩

/-- **A hit on an address is a decision of the allowlist**, when the cache is empty at the start. -/
theorem decided_of_hit {tid : ℕ} {now : ℤ} {entry : CachedFirewallDecision Decision}
    (hempty : s.cache.cache = .empty) (hrun : run step ⟨s, []⟩ ms = some p)
    (ht : p.tasks[tid]? = some (.looking ip))
    (hshows : shows p (.act tid (.resume now)) = some (.hit now entry)) :
    Decided (program.stores ⟨s, []⟩ ms) ip entry.allowed := by
  have hcached : CacheDecided [] s := by
    intro ip entry hentry
    rw [hempty] at hentry
    cases hentry
  have hstart : Asserts (CacheDecided []) (TaskDecided []) (⟨s, []⟩ : State) :=
    ⟨hcached, by simp⟩
  obtain ⟨hcache, -⟩ := Program.asserts_stores (P := program) (I := CacheDecided)
    (J := TaskDecided) (fun _ _ _ hs ip entry hentry => (hs ip entry hentry).later)
    (fun _ _ _ _ ht => ht.later)
    (fun _ _ request _ _ => by
      cases request with
      | check | startPoller => trivial
      | addFirewallIp own ip | deleteFirewallIp own ip =>
        simp only [program, spawn]
        split <;> trivial)
    (fun _ _ _ _ _ _ hmem hs ht ha => TaskDecided.act hmem hs ht ha)
    (fun _ _ _ _ _ _ _ hu ha => hu.other ha) hstart hrun
  rw [shows, ht] at hshows
  obtain ⟨entry', hhit, heq⟩ := Option.map_eq_some_iff.1 hshows
  cases heq
  exact hcache ip entry (FirewallIPCache.hit_eq_some.1 hhit).1

end Decided

/-! ### Runs -/

section Runs

variable {s : Store} {p p' : State} {m : Event}

theorem atLevel_start (date : Decision → ℕ) (s : Store) : AtLevel date 0 ⟨s, []⟩ :=
  ⟨⟨Nat.zero_le _, fun _ _ _ => Nat.zero_le _⟩, by simp⟩

theorem dates_since : Dates (·.since) := fun _ _ hsince _ => hsince

/-- When `invalidate_all` has returned, the change is a level. -/
theorem atLevel_of_invalidated {date : Decision → ℕ} {change : ℕ} (hp : AtLevel date 0 p)
    (hs : step p m = some p') (hshows : shows p m = some (.invalidated change)) :
    AtLevel date change p' := by
  obtain ⟨tid, now, rfl, ht⟩ := shows_eq_invalidated hshows
  have hcommitted : change ≤ p.store.commits := hp.2 _ (List.mem_of_getElem? ht)
  obtain rfl := eq_of_step_resume ht rfl hs
  have hlevel : AtLevel date change
      ⟨{ p.store with cache := p.store.cache.invalidateAll }, p.tasks⟩ :=
    hp.invalidated rfl rfl hcommitted
  exact hlevel.set_task tid hcommitted

/-- **No decision outlives a change on its replica.**  However the steps interleave, each hit after
an invalidation is computed from a read that started after the commit of the change, and comes
before the decision expires; and what a hit decides is the decision of the allowlist that the read
has seen, unless it was cached before the run. -/
theorem hits_follow_invalidations (s : Store) (ms : List Event) :
    ((history s ms).Pairwise fun shown later => ∀ change now entry,
      shown = .invalidated change → later = .hit now entry → change ≤ entry.allowed.since) ∧
    (∀ now entry, .hit now entry ∈ history s ms → now < entry.expiresAt) ∧
    (s.cache.cache = .empty → ∀ p, run step ⟨s, []⟩ ms = some p → ∀ tid ip now entry,
      p.tasks[tid]? = some (.looking ip) →
      shows p (.act tid (.resume now)) = some (.hit now entry) →
      Decided (program.stores ⟨s, []⟩ ms) ip entry.allowed) := by
  refine ⟨?_, ?_, fun hempty p hrun tid ip now entry ht hshows =>
    decided_of_hit hempty hrun ht hshows⟩
  · refine pairwise_trace (I := AtLevel (·.since) 0) (C := fun _ _ => True)
      (J := fun shown p => ∀ change, shown = .invalidated change → AtLevel (·.since) change p)
      (fun p m p' hp _ hs => hp.step dates_since hs) ?_ ?_ ?_ (atLevel_start _ s) meets_true
    · rintro p m p' shown hp - hs hshows change rfl
      exact atLevel_of_invalidated hp hs hshows
    · intro shown p m p' hJ _ _ hs change hshown
      exact (hJ change hshown).step dates_since hs
    · rintro shown p m later hJ - - hshows change now entry hshown rfl
      obtain ⟨⟨ip, hget⟩, -⟩ := shows_eq_hit hshows
      exact (hJ change hshown).1.cached ip entry hget
  · intro now entry hmem
    have hall : ∀ shown ∈ history s ms, ∀ now entry, shown = .hit now entry →
        now < entry.expiresAt := by
      refine forall_mem_trace (meets_true.mono fun p m _ shown hshows => ?_)
      rintro now entry rfl
      exact (shows_eq_hit hshows).2
    exact hall _ hmem now entry rfl

end Runs

end FirecrawlLb.Core.FirewallFreshness
