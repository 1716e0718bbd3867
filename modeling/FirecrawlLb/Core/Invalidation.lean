import FirecrawlLb.Core.FirewallCache

/-!
# The invalidation poller

A replica that changes what others may have cached raises the version of a namespace in a table.
Each replica polls the versions, and compares them with those it has seen last.
-/

namespace FirecrawlLb.Core.Invalidation

open FirecrawlLb.Lib FirecrawlLb.Core.FirewallCache

def namespaceFirewall : String := "firewall"

/-- The table `cache_invalidations`: the version of each namespace. -/
abbrev CacheInvalidations := Dict String ℤ

/-- The statement of `bump`. -/
def bump (table : CacheInvalidations) (cacheNamespace : String) : CacheInvalidations :=
  table.set cacheNamespace ((table.get? cacheNamespace).elim 1 (· + 1))

structure CacheInvalidationPoller where
  knownVersions : Dict String ℤ := .empty
  pollInitialized : Bool := false
  deriving DecidableEq

/-- The test of `_poll_once`: whether the callbacks of the namespace are called. -/
def CacheInvalidationPoller.notifies (self : CacheInvalidationPoller) (cacheNamespace : String)
    (version : ℤ) : Bool :=
  match self.knownVersions.get? cacheNamespace with
  | some prev => version ≠ prev
  | none => self.pollInitialized && 0 < version

/-- The loop of `_poll_once` over the rows it has read.  One callback is registered: that of the
firewall. -/
def pollRows {δ : Type} : CacheInvalidationPoller × FirewallIPCache δ → List (String × ℤ) →
    CacheInvalidationPoller × FirewallIPCache δ
  | (poller, cache), [] => ({ poller with pollInitialized := true }, cache)
  | (poller, cache), (cacheNamespace, version) :: rows =>
    pollRows
      ({ poller with knownVersions := poller.knownVersions.set cacheNamespace version },
        if poller.notifies cacheNamespace version && cacheNamespace = namespaceFirewall then
          cache.invalidateAll
        else cache)
      rows

section Rows

variable {δ : Type} {poller : CacheInvalidationPoller} {cache : FirewallIPCache δ}
  {rows : List (String × ℤ)}

@[simp] theorem get?_bump (table : CacheInvalidations) :
    (bump table namespaceFirewall).get? namespaceFirewall =
      some ((table.get? namespaceFirewall).elim 1 (· + 1)) := by
  simp [bump, Dict.get?_set]

theorem pollInitialized_pollRows :
    (pollRows (poller, cache) rows).1.pollInitialized = true := by
  induction rows generalizing poller cache with
  | nil => rfl
  | cons row rows ih => exact ih

theorem pollRows_of_lookup_none (h : rows.lookup namespaceFirewall = none) :
    (pollRows (poller, cache) rows).2 = cache ∧
      (pollRows (poller, cache) rows).1.knownVersions.get? namespaceFirewall =
        poller.knownVersions.get? namespaceFirewall := by
  induction rows generalizing poller cache with
  | nil => exact ⟨rfl, rfl⟩
  | cons row rows ih =>
    obtain ⟨cacheNamespace, version⟩ := row
    rw [Dict.lookup_cons_eq_ite] at h
    split_ifs at h with hnamespace
    have hne : ¬ cacheNamespace = namespaceFirewall := fun heq => hnamespace heq.symm
    simp only [pollRows, hne, decide_false, Bool.and_false, if_false, Bool.false_eq_true]
    refine ⟨(ih h).1, (ih h).2.trans ?_⟩
    rw [Dict.get?_set, if_neg hnamespace]

/-- **What a poll does**: the firewall's cache is invalidated exactly when its version calls for
it, and the version is known from then on. -/
theorem pollRows_of_lookup_some (hnodup : (rows.map Prod.fst).Nodup) {version : ℤ}
    (h : rows.lookup namespaceFirewall = some version) :
    (pollRows (poller, cache) rows).2 =
        (if poller.notifies namespaceFirewall version then cache.invalidateAll else cache) ∧
      (pollRows (poller, cache) rows).1.knownVersions.get? namespaceFirewall = some version := by
  induction rows generalizing poller cache with
  | nil => cases h
  | cons row rows ih =>
    obtain ⟨cacheNamespace, v⟩ := row
    obtain ⟨hnotMem, hnodup⟩ := List.nodup_cons.1 hnodup
    rw [Dict.lookup_cons_eq_ite] at h
    split_ifs at h with hnamespace
    · obtain rfl := Option.some.inj h
      obtain rfl : cacheNamespace = namespaceFirewall := hnamespace.symm
      have hrest := Dict.lookup_eq_none_of_notMem hnotMem
      simp only [pollRows, decide_true, Bool.and_true]
      refine ⟨(pollRows_of_lookup_none hrest).1, (pollRows_of_lookup_none hrest).2.trans ?_⟩
      rw [Dict.get?_set, if_pos rfl]
    · have hne : ¬ cacheNamespace = namespaceFirewall := fun heq => hnamespace heq.symm
      have hnotifies : CacheInvalidationPoller.notifies
          { poller with knownVersions := poller.knownVersions.set cacheNamespace v }
            namespaceFirewall version = poller.notifies namespaceFirewall version := by
        simp only [CacheInvalidationPoller.notifies, Dict.get?_set, if_neg hnamespace]
      simp only [pollRows, hne, decide_false, Bool.and_false, if_false, Bool.false_eq_true]
      refine ⟨(ih hnodup h).1.trans ?_, (ih hnodup h).2⟩
      rw [hnotifies]

theorem pollRows_items (table : CacheInvalidations) :
    (pollRows (poller, cache) table.items).2 =
        (if (table.get? namespaceFirewall).any (poller.notifies namespaceFirewall) then
          cache.invalidateAll else cache) ∧
      (pollRows (poller, cache) table.items).1.knownVersions.get? namespaceFirewall =
        (table.get? namespaceFirewall).or (poller.knownVersions.get? namespaceFirewall) := by
  cases h : table.get? namespaceFirewall with
  | none => exact pollRows_of_lookup_none h
  | some version => exact pollRows_of_lookup_some table.nodup h

end Rows

end FirecrawlLb.Core.Invalidation
