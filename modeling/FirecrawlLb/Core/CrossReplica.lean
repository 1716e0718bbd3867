import FirecrawlLb.Core.FirewallFreshness

/-!
# Cached decisions and changes on other replicas

A poll compares the version it has read with the one it knows.  Each bump raises the version, so a
poll that has read a new bump invalidates the cache; but the first poll knows no version, and takes
over the one it finds without an invalidation.
-/

namespace FirecrawlLb.Core.CrossReplica

open FirecrawlLb.Lib FirecrawlLb.Lib.Tasks FirecrawlLb.Lib.Run
open FirecrawlLb.Core.FirewallCache FirecrawlLb.Core.Invalidation FirecrawlLb.Core.FirewallReplica
open FirecrawlLb.Core.FirewallFreshness

/-! ### Readings of the version -/

/-- The version of the firewall, and the last change that has bumped it. -/
structure Reading where
  version : Option ℤ
  bumped : ℕ

def readingOf (rows : Invalidations) : Reading :=
  ⟨rows.versions.get? namespaceFirewall, rows.bumped⟩

/-- The second reading is made no earlier than the first. -/
structure Later (r r' : Reading) : Prop where
  version_le : ∀ version ∈ r.version, ∃ version' ∈ r'.version, version ≤ version'
  bumped_mono : r.bumped ≤ r'.bumped
  bumped_le : r'.version = r.version → r'.bumped ≤ r.bumped
  pos : r.version = none → ∀ version ∈ r'.version, 0 < version

section Later

variable {r r' r'' : Reading} {rows : Invalidations}

theorem Later.refl (r : Reading) : Later r r where
  version_le version h := ⟨version, h, le_rfl⟩
  bumped_mono := le_rfl
  bumped_le _ := le_rfl
  pos h version hversion := by
    rw [h] at hversion
    cases hversion

theorem Later.version_eq_none (h : Later r r') (hnone : r'.version = none) :
    r.version = none := by
  cases hr : r.version with
  | none => rfl
  | some version =>
    obtain ⟨version', hversion', -⟩ := h.version_le version hr
    rw [hnone] at hversion'
    cases hversion'

/-- A version between two equal ones is the same. -/
theorem Later.version_eq (h : Later r r') (h' : Later r' r'') (heq : r''.version = r.version) :
    r'.version = r.version := by
  cases hr : r.version with
  | none => exact h'.version_eq_none (heq.trans hr)
  | some version =>
    obtain ⟨version', hversion', hle⟩ := h.version_le version hr
    obtain ⟨version'', hversion'', hle'⟩ := h'.version_le version' hversion'
    obtain rfl : version = version'' := by
      rw [heq, hr] at hversion''
      exact Option.some.inj hversion''
    rw [hversion', le_antisymm hle' hle]

theorem Later.trans (h : Later r r') (h' : Later r' r'') : Later r r'' where
  version_le version hversion := by
    obtain ⟨version', hversion', hle⟩ := h.version_le version hversion
    obtain ⟨version'', hversion'', hle'⟩ := h'.version_le version' hversion'
    exact ⟨version'', hversion'', hle.trans hle'⟩
  bumped_mono := h.bumped_mono.trans h'.bumped_mono
  bumped_le heq := by
    have hsame := h.version_eq h' heq
    exact (h'.bumped_le (heq.trans hsame.symm)).trans (h.bumped_le hsame)
  pos hnone version hversion := by
    cases hr' : r'.version with
    | none => exact h'.pos hr' version hversion
    | some version' =>
      have hpos := h.pos hnone version' hr'
      obtain ⟨version'', hversion'', hle⟩ := h'.version_le version' hr'
      obtain rfl : version = version'' := Option.some.inj (hversion.symm.trans hversion'')
      exact hpos.trans_le hle

theorem Later.bump (h : Later r (readingOf rows)) (change : ℕ) :
    Later r (readingOf
      ⟨Invalidation.bump rows.versions namespaceFirewall, max rows.bumped change⟩) where
  version_le version hversion := by
    obtain ⟨version', hversion', hle⟩ := h.version_le version hversion
    have hget : rows.versions.get? namespaceFirewall = some version' := hversion'
    exact ⟨version' + 1, by simp [readingOf, hget], by omega⟩
  bumped_mono := h.bumped_mono.trans (le_max_left _ _)
  bumped_le heq := by
    exfalso
    simp only [readingOf, get?_bump] at heq
    obtain ⟨version', hversion', hle⟩ := h.version_le _ heq.symm
    have hget : rows.versions.get? namespaceFirewall = some version' := hversion'
    simp only [hget, Option.elim_some] at hle
    omega
  pos hnone version hversion := by
    simp only [readingOf, get?_bump, Option.mem_some_iff] at hversion
    subst hversion
    cases hget : rows.versions.get? namespaceFirewall with
    | none => exact Int.one_pos
    | some version' =>
      have hpos := h.pos hnone version' hget
      simp only [Option.elim_some]
      omega

end Later

/-! ### What the poller knows -/

/-- The decision that a check is about to store, when the cache still has the version. -/
def pending (version : ℕ) : Task → Option Decision
  | .storing _ version' decision => if version' = version then some decision else none
  | _ => none

/-- The last change that a poll has read, at the end of the poll. -/
def pollReads (p : State) (m : Event) : Option ℕ :=
  match shows p m with
  | some (.polled bumped) => some bumped
  | _ => none

/-- The first poll that ends finds no decision, in the cache or about to be stored, that has not
seen a change whose bump the poll has read. -/
def FirstPollFresh (p : State) (m : Event) : Prop :=
  p.store.poller.pollInitialized = false → ∀ bumped ∈ pollReads p m,
    (∀ item ∈ p.store.cache.cache.items, bumped ≤ item.2.allowed.seen) ∧
    ∀ t ∈ p.tasks, ∀ decision ∈ pending p.store.cache.version t, bumped ≤ decision.seen

instance (p : State) (m : Event) : Decidable (FirstPollFresh p m) := by
  unfold FirstPollFresh
  infer_instance

/-- The poller of a replica has started, and the changes are counted from here. -/
structure Started (s : Store) : Prop where
  poller : s.poller = {}
  polled : s.polled = none
  bumped : s.invalidations.bumped = 0

/-- The version the poller knows was read with bumps up to some change, which every decision has
seen. -/
structure PollerOk (p : State) : Prop where
  level : AtLevel (·.seen) 0 p
  bumped_le : p.store.invalidations.bumped ≤ p.store.commits
  rows_later : ∀ rows ∈ p.store.polled, Later (readingOf rows) (readingOf p.store.invalidations)
  unknown : p.store.poller.pollInitialized = false →
    p.store.poller.knownVersions.get? namespaceFirewall = none
  known : p.store.poller.pollInitialized = true → ∃ bumped, AtLevel (·.seen) bumped p ∧
    Later ⟨p.store.poller.knownVersions.get? namespaceFirewall, bumped⟩
      (readingOf p.store.invalidations) ∧
    ∀ rows ∈ p.store.polled,
      Later ⟨p.store.poller.knownVersions.get? namespaceFirewall, bumped⟩ (readingOf rows)

section Poller

variable {s s' : Store} {p p' : State} {m : Event} {t t' : Task} {a : Action} {bumped : ℕ}

theorem dates_seen : Dates (·.seen) := fun _ _ _ hseen => hseen

theorem pollReads_eq_some : pollReads p m = some bumped ↔ shows p m = some (.polled bumped) := by
  unfold pollReads
  split
  · rename_i b hshows
    simp [hshows]
  · rename_i hother
    constructor
    · intro h
      cases h
    · intro h
      exact absurd h (hother bumped)

/-- **What a step does to the versions.**  A change bumps them, or a poll reads them or compares
them; any other step leaves them, or drops what a poll has read. -/
theorem act_cases (h : act s t a = some (s', t')) :
    (s'.invalidations = s.invalidations ∧ s'.poller = s.poller ∧
      (s'.polled = s.polled ∨ s'.polled = none ∨ s'.polled = some s.invalidations)) ∨
    (∃ change, t = .bumping change ∧ s'.poller = s.poller ∧ s'.polled = s.polled ∧
      s'.invalidations = ⟨bump s.invalidations.versions namespaceFirewall,
        max s.invalidations.bumped change⟩) ∨
    (∃ now rows, t = .polling ∧ a = .resume now ∧ s.polled = some rows ∧
      s'.invalidations = s.invalidations ∧ s'.polled = none ∧
      s'.poller = (pollRows (s.poller, s.cache) rows.versions.items).1) := by
  cases a with
  | fail => cases t <;> cases h <;> exact Or.inl ⟨rfl, rfl, by simp⟩
  | resume now =>
    cases t with
    | looking ip =>
      simp only [act, resume] at h
      split at h <;> cases h <;> exact Or.inl ⟨rfl, rfl, Or.inl rfl⟩
    | committing own change =>
      simp only [act, resume] at h
      split at h <;> cases h <;> exact Or.inl ⟨rfl, rfl, Or.inl rfl⟩
    | bumping change =>
      cases h
      exact Or.inr (Or.inl ⟨change, rfl, rfl, rfl, rfl⟩)
    | polling =>
      simp only [act, resume] at h
      split at h
      · cases h
        exact Or.inl ⟨rfl, rfl, by simp⟩
      · rename_i rows hrows
        cases h
        exact Or.inr (Or.inr ⟨now, rows, rfl, rfl, hrows, rfl, rfl, rfl⟩)
    | _ => cases h <;> exact Or.inl ⟨rfl, rfl, Or.inl rfl⟩

theorem notifies_of_ne {poller : CacheInvalidationPoller} {rows : Invalidations}
    (hinit : poller.pollInitialized = true)
    (hlater : Later ⟨poller.knownVersions.get? namespaceFirewall, bumped⟩ (readingOf rows))
    (hne : rows.versions.get? namespaceFirewall ≠ poller.knownVersions.get? namespaceFirewall) :
    (rows.versions.get? namespaceFirewall).any (poller.notifies namespaceFirewall) = true := by
  cases hversion : rows.versions.get? namespaceFirewall with
  | none => exact absurd (hversion.trans (hlater.version_eq_none hversion).symm) hne
  | some version =>
    simp only [Option.any_some, CacheInvalidationPoller.notifies]
    cases hknown : poller.knownVersions.get? namespaceFirewall with
    | none =>
      have hpos := hlater.pos hknown version hversion
      simp [hinit, hpos]
    | some prev =>
      simp only [ne_eq, decide_not, Bool.not_eq_eq_eq_not, Bool.not_true, decide_eq_false_iff_not]
      rintro rfl
      exact hne (hversion.trans hknown.symm)

/-- Under the condition a poll finds every decision at the level of what it has read, or clears
the cache. -/
theorem atLevel_of_polled (hok : PollerOk p) (hfirst : FirstPollFresh p m)
    (hs : step p m = some p') (hshows : shows p m = some (.polled bumped)) :
    AtLevel (·.seen) bumped p' := by
  obtain ⟨tid, now, rows, rfl, ht, hrows, rfl⟩ := shows_eq_polled hshows
  have hcommitted : rows.bumped ≤ p.store.commits :=
    (hok.rows_later rows hrows).bumped_mono.trans hok.bumped_le
  cases hinit : p.store.poller.pollInitialized with
  | false =>
    -- the first poll only notes the versions: the condition stands in for the callback
    obtain ⟨hcached, hpending⟩ := hfirst hinit rows.bumped (pollReads_eq_some.2 hshows)
    refine AtLevel.step dates_seen (p := p) ⟨⟨hcommitted, fun ip entry hget => ?_⟩,
      fun u hu => ?_⟩ hs
    · exact hcached (ip, entry) (Dict.mem_items_of_get? hget)
    · have htask := hok.level.2 u hu
      cases u with
      | reading ip version since =>
        exact ⟨htask.1, fun _ allowed seen hseen => hcommitted.trans hseen⟩
      | storing ip version decision =>
        exact ⟨htask.1, fun heq => hpending _ hu decision (by simp [pending, heq])⟩
      | _ => exact htask
  | true =>
    obtain ⟨known, hlevel, -, hlater⟩ := hok.known hinit
    by_cases hsame : rows.versions.get? namespaceFirewall =
        p.store.poller.knownVersions.get? namespaceFirewall
    · exact (hlevel.mono ((hlater rows hrows).bumped_le hsame)).step dates_seen hs
    · -- the version has changed, and the callback clears the cache
      have hcache : (pollRows (p.store.poller, p.store.cache) rows.versions.items).2 =
          p.store.cache.invalidateAll := by
        rw [(pollRows_items rows.versions).1,
          if_pos (notifies_of_ne hinit (hlater rows hrows) hsame)]
      obtain rfl := eq_of_step_resume ht (resume_polling hrows now) hs
      refine AtLevel.set_task ?_ tid trivial
      exact hok.level.invalidated hcache rfl hcommitted

theorem PollerOk.step_kept (hok : PollerOk p) (hs : step p m = some p')
    (hcommits : p.store.commits ≤ p'.store.commits)
    (hinv : p'.store.invalidations = p.store.invalidations)
    (hpoller : p'.store.poller = p.store.poller)
    (hpolled : p'.store.polled = p.store.polled ∨ p'.store.polled = none ∨
      p'.store.polled = some p.store.invalidations) : PollerOk p' := by
  have hrows : ∀ r, Later r (readingOf p.store.invalidations) →
      (∀ rows ∈ p.store.polled, Later r (readingOf rows)) →
      ∀ rows ∈ p'.store.polled, Later r (readingOf rows) := by
    intro r hcurrent hread rows hrows
    rcases hpolled with h | h | h <;> rw [h] at hrows
    · exact hread rows hrows
    · cases hrows
    · cases hrows
      exact hcurrent
  refine ⟨hok.level.step dates_seen hs, ?_, ?_, ?_, fun hinit => ?_⟩
  · rw [hinv]
    exact hok.bumped_le.trans hcommits
  · intro rows hmem
    rw [hinv]
    rcases hpolled with h | h | h <;> rw [h] at hmem
    · exact hok.rows_later rows hmem
    · cases hmem
    · cases hmem
      exact .refl _
  · rw [hpoller]
    exact hok.unknown
  · rw [hpoller] at hinit
    obtain ⟨known, hknown, hcurrent, hread⟩ := hok.known hinit
    refine ⟨known, hknown.step dates_seen hs, ?_, ?_⟩
    · rw [hpoller, hinv]
      exact hcurrent
    · rw [hpoller]
      exact hrows _ hcurrent hread

theorem PollerOk.step_bump {change : ℕ} (hok : PollerOk p) (hs : step p m = some p')
    (hcommits : p.store.commits ≤ p'.store.commits) (hchange : change ≤ p.store.commits)
    (hinv : p'.store.invalidations = ⟨bump p.store.invalidations.versions namespaceFirewall,
      max p.store.invalidations.bumped change⟩)
    (hpoller : p'.store.poller = p.store.poller) (hpolled : p'.store.polled = p.store.polled) :
    PollerOk p' := by
  refine ⟨hok.level.step dates_seen hs, ?_, ?_, ?_, fun hinit => ?_⟩
  · rw [hinv]
    exact (max_le hok.bumped_le hchange).trans hcommits
  · intro rows hmem
    rw [hpolled] at hmem
    rw [hinv]
    exact (hok.rows_later rows hmem).bump change
  · rw [hpoller]
    exact hok.unknown
  · rw [hpoller] at hinit
    obtain ⟨known, hknown, hcurrent, hread⟩ := hok.known hinit
    refine ⟨known, hknown.step dates_seen hs, ?_, ?_⟩
    · rw [hpoller, hinv]
      exact hcurrent.bump change
    · rw [hpoller, hpolled]
      exact hread

theorem known_of_polled {rows : Invalidations} (hok : PollerOk p)
    (hrows : p.store.polled = some rows) :
    (pollRows (p.store.poller, p.store.cache) rows.versions.items).1.knownVersions.get?
      namespaceFirewall = (readingOf rows).version := by
  rw [(pollRows_items rows.versions).2]
  cases hversion : rows.versions.get? namespaceFirewall with
  | some version => exact hversion.symm
  | none =>
    cases hinit : p.store.poller.pollInitialized with
    | false =>
      rw [hok.unknown hinit]
      exact hversion.symm
    | true =>
      obtain ⟨known, -, -, hread⟩ := hok.known hinit
      exact ((hread rows hrows).version_eq_none hversion).trans hversion.symm

theorem PollerOk.step_polled {rows : Invalidations} (hok : PollerOk p)
    (hfirst : FirstPollFresh p m) (hs : step p m = some p')
    (hcommits : p.store.commits ≤ p'.store.commits)
    (hshows : shows p m = some (.polled rows.bumped)) (hrows : p.store.polled = some rows)
    (hinv : p'.store.invalidations = p.store.invalidations) (hpolled : p'.store.polled = none)
    (hpoller : p'.store.poller =
      (pollRows (p.store.poller, p.store.cache) rows.versions.items).1) : PollerOk p' := by
  refine ⟨hok.level.step dates_seen hs, ?_, ?_, fun hinit => ?_, fun _ =>
    ⟨rows.bumped, atLevel_of_polled hok hfirst hs hshows, ?_, ?_⟩⟩
  · rw [hinv]
    exact hok.bumped_le.trans hcommits
  · rw [hpolled]
    simp
  · rw [hpoller, pollInitialized_pollRows] at hinit
    cases hinit
  · rw [hpoller, known_of_polled hok hrows, hinv]
    exact hok.rows_later rows hrows
  · rw [hpolled]
    simp

theorem PollerOk.step (hok : PollerOk p) (hfirst : FirstPollFresh p m)
    (hs : step p m = some p') : PollerOk p' := by
  obtain ⟨r, rfl, rfl⟩ | ⟨tid, a, t, s, t', rfl, ht, ha, rfl⟩ := Program.step_cases hs
  · exact hok.step_kept hs le_rfl rfl rfl (Or.inl rfl)
  · have hcommits : p.store.commits ≤ s.commits := (advances_of_act ha).1
    obtain ⟨hinv, hpoller, hpolled⟩ | ⟨change, rfl, hpoller, hpolled, hinv⟩ |
      ⟨now, rows, rfl, rfl, hrows, hinv, hpolled, hpoller⟩ := act_cases ha
    · exact hok.step_kept hs hcommits hinv hpoller hpolled
    · have hchange : change ≤ p.store.commits := hok.level.2 _ (List.mem_of_getElem? ht)
      exact hok.step_bump hs hcommits hchange hinv hpoller hpolled
    · have hshows : shows p (.act tid (.resume now)) = some (.polled rows.bumped) :=
        shows_eq_some.2 ⟨tid, now, .polling, rfl, ht, by simp [taskShows, hrows]⟩
      exact hok.step_polled hfirst hs hcommits hshows hrows hinv hpolled hpoller

theorem pollerOk_of_started (hstart : Started s) : PollerOk ⟨s, []⟩ where
  level := atLevel_start _ s
  bumped_le := by simp [hstart.bumped]
  rows_later := by simp [hstart.polled]
  unknown _ := by
    rw [hstart.poller]
    rfl
  known h := by
    rw [hstart.poller] at h
    cases h

end Poller

/-- **No bump is lost after the first poll.**  When the first poll that ends has found no decision
that is older than the bumps it has read, no later hit is computed from a read that preceded a
change whose bump an earlier poll has read; and what a hit decides is the decision of the allowlist
that the read has seen, unless it was cached before the run. -/
theorem hits_follow_polls (s : Store) (ms : List Event) (hstart : Started s)
    (hfirst : Meets step FirstPollFresh ⟨s, []⟩ ms) :
    ((history s ms).Pairwise fun shown later => ∀ bumped now entry,
      shown = .polled bumped → later = .hit now entry → bumped ≤ entry.allowed.seen) ∧
    (s.cache.cache = .empty → ∀ p, run step ⟨s, []⟩ ms = some p → ∀ tid ip now entry,
      p.tasks[tid]? = some (.looking ip) →
      shows p (.act tid (.resume now)) = some (.hit now entry) →
      Decided (program.stores ⟨s, []⟩ ms) ip entry.allowed) := by
  refine ⟨?_, fun hempty p hrun tid ip now entry ht hshows =>
    decided_of_hit hempty hrun ht hshows⟩
  refine pairwise_trace (I := PollerOk) (C := FirstPollFresh)
    (J := fun shown p => ∀ bumped, shown = .polled bumped → AtLevel (·.seen) bumped p)
    (fun p m p' hok hC hs => hok.step hC hs) ?_ ?_ ?_ (pollerOk_of_started hstart) hfirst
  · rintro p m p' shown hok hC hs hshows bumped rfl
    exact atLevel_of_polled hok hC hs hshows
  · intro shown p m p' hJ _ _ hs bumped hshown
    exact (hJ bumped hshown).step dates_seen hs
  · rintro shown p m later hJ - - hshows bumped now entry hshown rfl
    obtain ⟨⟨ip, hget⟩, -⟩ := shows_eq_hit hshows
    exact (hJ bumped hshown).1.cached ip entry hget

/-- A task goes on for some steps. -/
def goOn (tid steps : ℕ) : List Event := List.replicate steps (.act tid (.resume 0))

/-- A poll before the change, then a decision; another replica changes the allowlist, and the next
poll clears the decision. -/
theorem hits_follow_polls_sample :
    let s : Store := ⟨["1.1.1.1", "2.2.2.2"], 0, ⟨.empty, 0⟩, ⟨30, .empty, 0, by decide⟩, {}, none⟩
    let ms : List Event := [.spawn .startPoller] ++ goOn 0 2 ++ [.spawn (.check "1.1.1.1")] ++
      goOn 1 5 ++ [.spawn (.deleteFirewallIp false "1.1.1.1")] ++ goOn 2 2 ++ goOn 0 2 ++
      [.spawn (.check "1.1.1.1")] ++ goOn 3 5 ++ [.spawn (.check "1.1.1.1")] ++ goOn 4 1
    history s ms = [.polled 0, .polled 1, .hit 0 ⟨⟨false, 1, 1⟩, 30000000⟩] ∧
    (history s ms).Pairwise fun shown later => ∀ bumped now entry,
      shown = .polled bumped → later = .hit now entry → bumped ≤ entry.allowed.seen := by
  intro s ms
  have hfirst : Meets step FirstPollFresh ⟨s, []⟩ ms := by decide +kernel
  exact ⟨by decide +kernel, (hits_follow_polls s ms ⟨rfl, rfl, rfl⟩ hfirst).1⟩

/-- A decision is cached before the first poll.  Another replica removes the address and bumps the
version; the first poll reads the bump, and the decision is still served. -/
theorem stale_hit_after_first_poll :
    let s : Store := ⟨["1.1.1.1", "2.2.2.2"], 0, ⟨.empty, 0⟩, ⟨30, .empty, 0, by decide⟩, {}, none⟩
    let ms : List Event := [.spawn .startPoller, .spawn (.check "1.1.1.1")] ++ goOn 1 5 ++
      [.spawn (.deleteFirewallIp false "1.1.1.1")] ++ goOn 2 2 ++ goOn 0 2 ++
      [.spawn (.check "1.1.1.1")] ++ goOn 3 1
    Started s ∧ (endOf step ⟨s, []⟩ ms).store.allowlist = ["2.2.2.2"] ∧
    history s ms = [.polled 1, .hit 0 ⟨⟨true, 0, 0⟩, 30000000⟩] ∧
    ¬ (history s ms).Pairwise fun shown later => ∀ bumped now entry,
      shown = .polled bumped → later = .hit now entry → bumped ≤ entry.allowed.seen := by
  intro s ms
  have hhistory : history s ms = [.polled 1, .hit 0 ⟨⟨true, 0, 0⟩, 30000000⟩] := by
    decide +kernel
  refine ⟨⟨rfl, rfl, rfl⟩, by decide +kernel, hhistory, fun h => ?_⟩
  rw [hhistory] at h
  have hhit := (List.pairwise_cons.1 h).1 _ (List.mem_singleton.2 rfl) 1 0 _ rfl rfl
  exact absurd hhit (by decide)

end FirecrawlLb.Core.CrossReplica
