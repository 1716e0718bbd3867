import FirecrawlLb.Lib.Mutex
import FirecrawlLb.Python.Json
import FirecrawlLb.Runtime.SemVer

/-!
# The latest release

`RuntimeVersionService` asks GitHub for the latest release and caches what it learns, a failure for
a shorter time.  `get_version_status` answers from the cache without the lock, and looks again once
it holds it before it asks.  The store collects what the calls do, in order; the program keeps no
such list.
-/

namespace FirecrawlLb.Runtime

open FirecrawlLb.Python

/-! ### The version of a tag -/

/-- The text of the groups. -/
def VersionMatch.chars (groups : VersionMatch) : List Char :=
  groups.major ++ '.' :: (groups.minor ++ '.' :: (groups.patch ++
    (groups.prerelease.map ('-' :: ·)).getD []))

/-- `_normalize_version`: the text of a tag without the letter in front. -/
def normalizeVersion (value : String) : Option String :=
  (matchVersion (strip value).toList).map fun groups => String.ofList groups.chars

/-- A group of one of the three numbers. -/
def IsNumber (cs : List Char) : Prop :=
  cs.all isDecimal = true ∧ (cs = ['0'] ∨ cs.head?.any (fun c => '1' ≤ c ∧ c ≤ '9') = true)

/-- What the groups of a match are. -/
structure VersionMatch.WellFormed (groups : VersionMatch) : Prop where
  major : IsNumber groups.major
  minor : IsNumber groups.minor
  patch : IsNumber groups.patch
  prerelease : ∀ prerelease ∈ groups.prerelease,
    prerelease ≠ [] ∧ prerelease.all isPrereleaseChar = true

section Tags

variable {cs rest number : List Char} {groups : VersionMatch} {value version : String}

theorem takeNumber_eq_some : takeNumber cs = some (number, rest) ↔
    cs = number ++ rest ∧ IsNumber number ∧ NoDigit rest := by
  unfold takeNumber
  constructor
  · intro h
    dsimp only at h
    split_ifs at h with hform
    cases h
    exact ⟨List.takeWhile_append_dropWhile.symm, ⟨List.all_takeWhile, hform⟩,
      noDigit_dropWhile cs⟩
  · rintro ⟨rfl, ⟨hall, hform⟩, hrest⟩
    rw [(span_isDecimal hall hrest).1, (span_isDecimal hall hrest).2, if_pos hform]

theorem noDigit_dot (rest : List Char) : NoDigit ('.' :: rest) :=
  show (!isDecimal '.') = true by decide

theorem IsNumber.takeChar (h : IsNumber number) (rest : List Char) :
    Python.takeChar 'v' (number ++ rest) = none := by
  obtain ⟨hall, rfl | hform⟩ := h
  · rfl
  · cases number with
    | nil => cases hform
    | cons c cs =>
      have hc : isDecimal c = true := List.all_eq_true.1 hall c List.mem_cons_self
      have hne : c ≠ 'v' := by
        rintro rfl
        exact absurd hc (by decide)
      rw [List.cons_append, Python.takeChar, if_neg hne]

theorem wellFormed_of_matchVersion (h : matchVersion cs = some groups) : groups.WellFormed := by
  simp only [matchVersion, Option.bind_eq_bind, Option.bind_eq_some_iff, Prod.exists,
    takeNumber_eq_some] at h
  obtain ⟨major, rest, ⟨-, hmajor, -⟩, _, -, minor, rest', ⟨-, hminor, -⟩, _, -, patch, rest'',
    ⟨-, hpatch, -⟩, h⟩ := h
  split at h
  · cases h
    exact ⟨hmajor, hminor, hpatch, fun _ hnone => by cases hnone⟩
  · split_ifs at h with hprerelease
    cases h
    refine ⟨hmajor, hminor, hpatch, fun prerelease hmem => ?_⟩
    cases hmem
    exact ⟨hprerelease.2.1, hprerelease.2.2⟩

/-- **The text of the groups matches with the same groups.** -/
theorem VersionMatch.WellFormed.match (h : groups.WellFormed) :
    matchVersion groups.chars = some groups := by
  have hpatch : takeNumber (groups.patch ++ (groups.prerelease.map ('-' :: ·)).getD []) =
      some (groups.patch, (groups.prerelease.map ('-' :: ·)).getD []) := by
    refine takeNumber_eq_some.2 ⟨rfl, h.patch, ?_⟩
    cases groups.prerelease with
    | none => rfl
    | some prerelease => exact show (!isDecimal '-') = true by decide
  rw [matchVersion, VersionMatch.chars, h.major.takeChar, Option.getD_none,
    takeNumber_eq_some.2 ⟨rfl, h.major, noDigit_dot _⟩]
  simp only [Option.bind_eq_bind, Option.bind_some, Python.takeChar, if_true]
  rw [takeNumber_eq_some.2 ⟨rfl, h.minor, noDigit_dot _⟩]
  simp only [Option.bind_some, if_true]
  rw [hpatch]
  obtain ⟨major, minor, patch, prerelease⟩ := groups
  cases prerelease with
  | none => rfl
  | some prerelease => exact if_pos ⟨rfl, h.prerelease prerelease rfl⟩

theorem VersionMatch.WellFormed.strip (h : groups.WellFormed) :
    Python.strip (String.ofList groups.chars) = String.ofList groups.chars := by
  have hnumber : ∀ {cs : List Char}, IsNumber cs → ∀ c ∈ cs, isSpace c = false :=
    fun hcs c hc => isSpace_of_isDecimal (List.all_eq_true.1 hcs.1 c hc)
  have hprerelease : ∀ c ∈ (groups.prerelease.map ('-' :: ·)).getD [], isSpace c = false := by
    intro c hc
    cases hgroup : groups.prerelease with
    | none => simp [hgroup] at hc
    | some prerelease =>
      rw [hgroup] at hc
      rcases List.mem_cons.1 hc with rfl | hc
      · decide
      · exact isSpace_of_isPrereleaseChar
          (List.all_eq_true.1 (h.prerelease prerelease hgroup).2 c hc)
  rw [Python.strip, String.toList_ofList, dropWhile_ends_eq_self]
  intro c hc
  simp only [VersionMatch.chars, List.mem_append, List.mem_cons] at hc
  rcases hc with hc | rfl | hc | rfl | hc | hc
  · exact hnumber h.major c hc
  · decide
  · exact hnumber h.minor c hc
  · decide
  · exact hnumber h.patch c hc
  · exact hprerelease c hc

/-- **A normal version is its own normal text**, and it parses as the tag does. -/
theorem normalizeVersion_canonical (h : normalizeVersion value = some version) :
    normalizeVersion version = some version ∧ parseVersion version = parseVersion value := by
  obtain ⟨groups, hmatch, rfl⟩ := Option.map_eq_some_iff.1 h
  have hgroups := wellFormed_of_matchVersion hmatch
  have hread : matchVersion (strip (String.ofList groups.chars)).toList = some groups := by
    rw [hgroups.strip, String.toList_ofList, hgroups.match]
  constructor
  · rw [normalizeVersion, hread, Option.map_some]
  · unfold parseVersion
    rw [hread, hmatch]

end Tags

end FirecrawlLb.Runtime

namespace FirecrawlLb.Runtime.Service

open FirecrawlLb.Lib FirecrawlLb.Lib.Run FirecrawlLb.Lib.Tasks FirecrawlLb.Python

/-! ### Snapshots -/

structure RuntimeVersionSnapshot where
  currentVersion : String
  latestVersion : Option String
  updateAvailable : Bool
  checkedAt : ℤ
  source : Option String
  deriving DecidableEq

/-- What comes of the request to GitHub: an exception, or a status and a body, which may be no
JSON. -/
inductive Fetch where
  | raised
  | answered (status : ℕ) (data : Option Json)

/-- `_fetch_latest_release_version`; none when it raises. -/
def fetchLatestReleaseVersion : Fetch → Option String
  | .raised => none
  | .answered status data =>
    if status ≠ 200 then none
    else
      match data with
      | some (.obj data) =>
        match JsonObject.get data "tag_name" with
        | .str rawVersion => normalizeVersion rawVersion
        | _ => none
      | _ => none

/-- `_fetch_snapshot`, from what comes of the request.  Only the comparison may raise. -/
def fetchSnapshot (currentVersion : String) (checkedAt : ℤ) (fetch : Fetch) :
    Except Raised RuntimeVersionSnapshot :=
  match fetchLatestReleaseVersion fetch with
  | none => .ok ⟨currentVersion, none, false, checkedAt, none⟩
  | some latestVersion => do
    let updateAvailable ← isNewerVersion latestVersion currentVersion
    return ⟨currentVersion, some latestVersion, updateAvailable, checkedAt, some "github"⟩

/-- What a snapshot tells: no version when the request has failed, or else a normal version of
GitHub's, compared with the current one. -/
structure RuntimeVersionSnapshot.WellFormed (currentVersion : String)
    (snapshot : RuntimeVersionSnapshot) : Prop where
  current : snapshot.currentVersion = currentVersion
  failed : snapshot.source = none → snapshot.latestVersion = none ∧ snapshot.updateAvailable = false
  fetched : ∀ source ∈ snapshot.source, source = "github" ∧ ∃ latestVersion,
    snapshot.latestVersion = some latestVersion ∧
    normalizeVersion latestVersion = some latestVersion ∧
    isNewerVersion latestVersion currentVersion = .ok snapshot.updateAvailable

theorem exists_of_fetchLatestReleaseVersion {fetch : Fetch} {latestVersion : String}
    (h : fetchLatestReleaseVersion fetch = some latestVersion) :
    ∃ rawVersion, normalizeVersion rawVersion = some latestVersion := by
  cases fetch with
  | raised => cases h
  | answered status data =>
    simp only [fetchLatestReleaseVersion] at h
    split_ifs at h
    split at h
    · split at h
      · exact ⟨_, h⟩
      · cases h
    · cases h

theorem wellFormed_of_fetchSnapshot {currentVersion : String} {checkedAt : ℤ} {fetch : Fetch}
    {snapshot : RuntimeVersionSnapshot}
    (h : fetchSnapshot currentVersion checkedAt fetch = .ok snapshot) :
    snapshot.WellFormed currentVersion := by
  unfold fetchSnapshot at h
  split at h
  · obtain rfl := Except.ok.inj h
    exact ⟨rfl, fun _ => ⟨rfl, rfl⟩, fun _ hsource => by cases hsource⟩
  · rename_i latestVersion hlatest
    obtain ⟨updateAvailable, hnewer, h⟩ := bind_eq_ok.1 h
    obtain rfl := pure_eq_ok.1 h
    refine ⟨rfl, fun hsource => (by cases hsource), fun source hsource => ?_⟩
    cases hsource
    refine ⟨rfl, latestVersion, rfl, ?_, hnewer⟩
    obtain ⟨rawVersion, hraw⟩ := exists_of_fetchLatestReleaseVersion hlatest
    exact (normalizeVersion_canonical hraw).1

/-! ### The service -/

/-- The arguments of the constructor. -/
structure RuntimeVersionService where
  currentVersion : String
  ttlSeconds : ℚ
  failureTtlSeconds : ℚ

/-- `_cache_ttl_for` -/
def RuntimeVersionService.cacheTtlFor (self : RuntimeVersionService)
    (snapshot : RuntimeVersionSnapshot) : ℚ :=
  if snapshot.source = none then self.failureTtlSeconds else self.ttlSeconds

/-- What the calls have done. -/
inductive Entry where
  /-- The request to GitHub starts. -/
  | asked (time : ℚ)
  /-- It ends, and what it gives is cached. -/
  | cached (time : ℚ) (snapshot : RuntimeVersionSnapshot)
  /-- It ends without a snapshot. -/
  | gaveUp
  /-- `invalidate` has dropped what was cached. -/
  | cleared
  /-- A call answers, after this reading of the clock. -/
  | answered (time : ℚ) (snapshot : RuntimeVersionSnapshot)
  deriving DecidableEq

/-- The monotonic clock, the cache and its lock. -/
structure Store where
  clock : ℚ
  cachedSnapshot : Option RuntimeVersionSnapshot
  cachedAt : ℚ
  locked : Bool
  history : List Entry

inductive Request where
  | getVersionStatus
  | invalidate

/-- Where a call stands, by the step that comes next. -/
inductive Task where
  /-- It looks at the cache. -/
  | checking
  /-- It waits for the lock, and looks again. -/
  | waiting
  /-- It waits for GitHub; the wall clock was read before. -/
  | fetching (checkedAt : ℤ)
  | returned (snapshot : RuntimeVersionSnapshot)
  /-- `invalidate` waits for the lock. -/
  | invalidating
  | invalidated
  | raised

/-- A call goes on, with the clocks and what comes of a request to GitHub, or it is cancelled. -/
inductive Action where
  | resume (now : ℚ) (utcnow : ℤ) (fetch : Fetch)
  | cancel

section Model

variable (self : RuntimeVersionService)

/-- What `get_version_status` finds in the cache. -/
def hit (s : Store) : Option RuntimeVersionSnapshot :=
  s.cachedSnapshot.filter fun snapshot => s.clock - s.cachedAt < self.cacheTtlFor snapshot

/-- A call answers from the cache. -/
def answer (s : Store) (snapshot : RuntimeVersionSnapshot) : Store :=
  { s with history := s.history ++ [.answered s.clock snapshot] }

/-- The next step of a call, at the time that the clock of the store shows. -/
def resume (s : Store) (utcnow : ℤ) (fetch : Fetch) : Task → Option (Store × Task)
  | .checking =>
    match hit self s with
    | some snapshot => some (answer s snapshot, .returned snapshot)
    | none => some (s, .waiting)
  | .waiting =>
    if s.locked then none
    else
      match hit self s with
      | some snapshot => some (answer s snapshot, .returned snapshot)
      | none =>
        some ({ s with locked := true, history := s.history ++ [.asked s.clock] },
          .fetching utcnow)
  | .fetching checkedAt =>
    match fetchSnapshot self.currentVersion checkedAt fetch with
    | .ok snapshot =>
      some (answer { s with
        cachedSnapshot := some snapshot
        cachedAt := s.clock
        locked := false
        history := s.history ++ [.cached s.clock snapshot] } snapshot, .returned snapshot)
    | .error _ =>
      some ({ s with locked := false, history := s.history ++ [.gaveUp] }, .raised)
  | .invalidating =>
    if s.locked then none
    else
      some ({ s with
        cachedSnapshot := none
        cachedAt := 0
        history := s.history ++ [.cleared] }, .invalidated)
  | .returned _ | .invalidated | .raised => none

def cancel (s : Store) : Task → Option (Store × Task)
  | .fetching _ => some ({ s with locked := false, history := s.history ++ [.gaveUp] }, .raised)
  | .waiting | .invalidating => some (s, .raised)
  | .checking | .returned _ | .invalidated | .raised => none

/-- The clock does not go back. -/
def act (s : Store) (t : Task) : Action → Option (Store × Task)
  | .resume now utcnow fetch =>
    if s.clock ≤ now then resume self { s with clock := now } utcnow fetch t else none
  | .cancel => cancel s t

def program : Program Store Task Request Action where
  spawn _
    | .getVersionStatus => .checking
    | .invalidate => .invalidating
  act := act self

abbrev State := Pool Store Task

abbrev Event := Move Request Action

def step : State → Event → Option State := (program self).step

/-- The service as it is built. -/
def initial (clock : ℚ) : State := ⟨⟨clock, none, 0, false, []⟩, []⟩

end Model

/-! ### What the history tells -/

def cacheAfter (cache : Option (ℚ × RuntimeVersionSnapshot)) :
    Entry → Option (ℚ × RuntimeVersionSnapshot)
  | .cached time snapshot => some (time, snapshot)
  | .cleared => none
  | .asked _ | .gaveUp | .answered _ _ => cache

/-- What is cached after the entries, and since when. -/
def lastCached (h : List Entry) : Option (ℚ × RuntimeVersionSnapshot) := h.foldl cacheAfter none

def flyingAfter (flying : Bool) : Entry → Bool
  | .asked _ => true
  | .cached _ _ | .gaveUp => false
  | .cleared | .answered _ _ => flying

/-- A request to GitHub is under way after the entries. -/
def inFlight (h : List Entry) : Bool := h.foldl flyingAfter false

/-- What holds of an entry, by those before it. -/
def Entry.Ok (self : RuntimeVersionService) (h : List Entry) : Entry → Prop
  | .asked time => inFlight h = false ∧
    ∀ cachedAt snapshot, lastCached h = some (cachedAt, snapshot) →
      cachedAt + self.cacheTtlFor snapshot ≤ time
  | .cached _ snapshot => inFlight h = true ∧ snapshot.WellFormed self.currentVersion
  | .gaveUp => inFlight h = true
  | .cleared => inFlight h = false
  | .answered time snapshot => snapshot.WellFormed self.currentVersion ∧
    ∃ cachedAt, lastCached h = some (cachedAt, snapshot) ∧ cachedAt ≤ time ∧
      (time = cachedAt ∨ time < cachedAt + self.cacheTtlFor snapshot)

section History

variable {h h' : List Entry} {entry : Entry} {cached : ℚ × RuntimeVersionSnapshot}

@[simp] theorem lastCached_concat :
    lastCached (h ++ [entry]) = cacheAfter (lastCached h) entry := by
  simp [lastCached]

@[simp] theorem inFlight_concat : inFlight (h ++ [entry]) = flyingAfter (inFlight h) entry := by
  simp [inFlight]

/-- What is cached was stored since the cache was cleared. -/
theorem exists_of_lastCached (hcached : lastCached (h ++ .cleared :: h') = some cached) :
    ∃ h₁ h₂, h' = h₁ ++ .cached cached.1 cached.2 :: h₂ := by
  induction h' using List.reverseRecOn with
  | nil => simp [cacheAfter] at hcached
  | append_singleton h' entry ih =>
    rw [← List.cons_append, ← List.append_assoc, lastCached_concat] at hcached
    have hbefore : lastCached (h ++ .cleared :: h') = some cached →
        ∃ h₁ h₂, h' ++ [entry] = h₁ ++ .cached cached.1 cached.2 :: h₂ := fun hcached => by
      obtain ⟨h₁, h₂, rfl⟩ := ih hcached
      exact ⟨h₁, h₂ ++ [entry], by simp⟩
    cases entry with
    | cached time snapshot =>
      obtain rfl := Option.some.inj hcached
      exact ⟨h', [], rfl⟩
    | cleared => cases hcached
    | asked _ | gaveUp | answered _ _ => exact hbefore hcached

theorem exists_of_inFlight (hnone : inFlight h = false) (hflying : inFlight (h ++ h') = true) :
    ∃ time h₁ h₂, h' = h₁ ++ .asked time :: h₂ := by
  induction h' using List.reverseRecOn with
  | nil =>
    rw [List.append_nil, hnone] at hflying
    cases hflying
  | append_singleton h' entry ih =>
    rw [← List.append_assoc, inFlight_concat] at hflying
    have hbefore : inFlight (h ++ h') = true →
        ∃ time h₁ h₂, h' ++ [entry] = h₁ ++ .asked time :: h₂ := fun hflying => by
      obtain ⟨time, h₁, h₂, rfl⟩ := ih hflying
      exact ⟨time, h₁, h₂ ++ [entry], by simp⟩
    cases entry with
    | asked time => exact ⟨time, h', [], rfl⟩
    | cached _ _ | gaveUp => cases hflying
    | cleared | answered _ _ => exact hbefore hflying

end History

/-! ### Every step keeps the history justified -/

/-- What holds of the store between the steps. -/
structure Store.Ok (service : RuntimeVersionService) (s : Store) : Prop where
  history : Justified (Entry.Ok service) s.history
  cache : lastCached s.history = s.cachedSnapshot.map (s.cachedAt, ·)
  flight : inFlight s.history = s.locked
  wellFormed : ∀ snapshot ∈ s.cachedSnapshot,
    snapshot.WellFormed service.currentVersion ∧ s.cachedAt ≤ s.clock

/-- A call that waits for GitHub holds the lock. -/
def holds : Task → Bool
  | .fetching _ => true
  | .checking | .waiting | .returned _ | .invalidating | .invalidated | .raised => false

/-- What a call that has returned has done. -/
def Task.Ok (h : List Entry) : Task → Prop
  | .returned snapshot => ∃ time, .answered time snapshot ∈ h
  | .checking | .waiting | .fetching _ | .invalidating | .invalidated | .raised => True

/-- What a step does, from a store whose clock shows the time of the step. -/
inductive Steps (self : RuntimeVersionService) (s : Store) : Task → Store → Task → Prop
  | answer {t snapshot} (ht : holds t = false) (hhit : hit self s = some snapshot) :
      Steps self s t (answer s snapshot) (.returned snapshot)
  | pass {t t'} (ht : holds t = false) (ht' : t' = .waiting ∨ t' = .raised) : Steps self s t s t'
  | ask {utcnow} (hfree : s.locked = false) (hmiss : hit self s = none) :
      Steps self s .waiting { s with locked := true, history := s.history ++ [.asked s.clock] }
        (.fetching utcnow)
  | store {checkedAt snapshot} (hsnapshot : snapshot.WellFormed self.currentVersion) :
      Steps self s (.fetching checkedAt) (answer { s with
        cachedSnapshot := some snapshot
        cachedAt := s.clock
        locked := false
        history := s.history ++ [.cached s.clock snapshot] } snapshot) (.returned snapshot)
  | giveUp {checkedAt} : Steps self s (.fetching checkedAt)
      { s with locked := false, history := s.history ++ [.gaveUp] } .raised
  | clear (hfree : s.locked = false) : Steps self s .invalidating
      { s with cachedSnapshot := none, cachedAt := 0, history := s.history ++ [.cleared] }
      .invalidated

section Steps

variable {self : RuntimeVersionService} {s s' : Store} {t t' : Task} {a : Action}
  {snapshot : RuntimeVersionSnapshot} {h : List Entry}

theorem steps_of_resume {utcnow : ℤ} {fetch : Fetch}
    (hact : resume self s utcnow fetch t = some (s', t')) : Steps self s t s' t' := by
  cases t with
  | checking =>
    simp only [resume] at hact
    split at hact <;> cases hact
    · exact .answer rfl (by assumption)
    · exact .pass rfl (.inl rfl)
  | waiting =>
    simp only [resume] at hact
    split_ifs at hact with hlocked
    split at hact <;> cases hact
    · exact .answer rfl (by assumption)
    · exact .ask (by simpa using hlocked) (by assumption)
  | fetching checkedAt =>
    simp only [resume] at hact
    split at hact <;> cases hact
    · rename_i hfetch
      exact .store (wellFormed_of_fetchSnapshot hfetch)
    · exact .giveUp
  | invalidating =>
    simp only [resume] at hact
    split_ifs at hact with hlocked
    cases hact
    exact .clear (by simpa using hlocked)
  | returned _ | invalidated | raised => cases hact

theorem steps_of_act (hact : act self s t a = some (s', t')) :
    ∃ clock, s.clock ≤ clock ∧ Steps self { s with clock } t s' t' := by
  cases a with
  | resume now utcnow fetch =>
    simp only [act] at hact
    split_ifs at hact with hclock
    exact ⟨now, hclock, steps_of_resume hact⟩
  | cancel =>
    refine ⟨s.clock, le_rfl, ?_⟩
    cases t <;> cases hact
    · exact .pass rfl (.inr rfl)
    · exact .giveUp
    · exact .pass rfl (.inr rfl)

theorem locks : Locks (program self) (·.locked) holds where
  starts s i := by cases i <;> rfl
  acquires s t a s' t' hact ht ht' := by
    obtain ⟨clock, -, hsteps⟩ := steps_of_act hact
    cases hsteps with
    | ask hfree _ => exact ⟨hfree, rfl⟩
    | pass _ hpass => obtain rfl | rfl := hpass <;> cases ht'
    | answer _ _ | store _ | giveUp | clear _ => cases ht'
  keeps s t a s' t' hact hsame := by
    obtain ⟨clock, -, hsteps⟩ := steps_of_act hact
    cases hsteps with
    | answer _ _ | pass _ _ | clear _ => rfl
    | ask _ _ | store _ | giveUp => cases hsame

/-- An answer from what is cached. -/
theorem Store.Ok.answer (hs : s.Ok self) (hcached : s.cachedSnapshot = some snapshot)
    (hfresh : s.clock = s.cachedAt ∨ s.clock < s.cachedAt + self.cacheTtlFor snapshot) :
    (answer s snapshot).Ok self := by
  have hlast : lastCached s.history = some (s.cachedAt, snapshot) := by
    rw [hs.cache, hcached, Option.map_some]
  obtain ⟨hwell, hle⟩ := hs.wellFormed snapshot hcached
  exact
    { history := justified_concat.2 ⟨hs.history, hwell, s.cachedAt, hlast, hle, hfresh⟩
      cache := lastCached_concat.trans hs.cache
      flight := inFlight_concat.trans hs.flight
      wellFormed := hs.wellFormed }

/-- **A step keeps the history justified.**  A task that holds the lock finds it taken. -/
theorem Store.Ok.steps (hs : s.Ok self) (hheld : holds t = true → s.locked = true)
    (hsteps : Steps self s t s' t') : s'.Ok self := by
  cases hsteps with
  | answer _ hhit =>
    obtain ⟨hcached, hfresh⟩ := Option.filter_eq_some_iff.1 hhit
    refine hs.answer hcached (.inr ?_)
    have hfresh := of_decide_eq_true hfresh
    linarith
  | pass _ _ => exact hs
  | ask hfree hmiss =>
    refine
      { history := justified_concat.2 ⟨hs.history, hs.flight.trans hfree, ?_⟩
        cache := lastCached_concat.trans hs.cache
        flight := inFlight_concat
        wellFormed := hs.wellFormed }
    -- a fetch begins only when the last snapshot has outlived its lifetime
    intro cachedAt snapshot hlast
    rw [hs.cache] at hlast
    obtain ⟨snapshot, hcached, hpair⟩ := Option.map_eq_some_iff.1 hlast
    cases hpair
    have hstale : self.cacheTtlFor snapshot ≤ s.clock - s.cachedAt := by
      simpa using Option.filter_eq_none_iff.1 hmiss snapshot hcached
    linarith
  | @store checkedAt snapshot hsnapshot =>
    -- first the snapshot is cached, then the call answers with it
    have hstored : Store.Ok self { s with
        cachedSnapshot := some snapshot
        cachedAt := s.clock
        locked := false
        history := s.history ++ [.cached s.clock snapshot] } :=
      { history := justified_concat.2 ⟨hs.history, hs.flight.trans (hheld rfl), hsnapshot⟩
        cache := lastCached_concat
        flight := inFlight_concat
        wellFormed := fun _ hmem => by
          obtain rfl := Option.some.inj hmem
          exact ⟨hsnapshot, le_rfl⟩ }
    exact hstored.answer rfl (.inl rfl)
  | giveUp =>
    exact
      { history := justified_concat.2 ⟨hs.history, hs.flight.trans (hheld rfl)⟩
        cache := lastCached_concat.trans hs.cache
        flight := inFlight_concat
        wellFormed := hs.wellFormed }
  | clear hfree =>
    exact
      { history := justified_concat.2 ⟨hs.history, hs.flight.trans hfree⟩
        cache := lastCached_concat
        flight := inFlight_concat.trans hs.flight
        wellFormed := fun _ hmem => by cases hmem }

theorem Steps.history_subset (hsteps : Steps self s t s' t') : s.history ⊆ s'.history := by
  cases hsteps with
  | pass _ _ => exact List.Subset.refl _
  | store _ =>
    exact List.Subset.trans (List.subset_append_left _ _) (List.subset_append_left _ _)
  | answer _ _ | ask _ _ | giveUp | clear _ => exact List.subset_append_left _ _

theorem Steps.task_ok (hsteps : Steps self s t s' t') : t'.Ok s'.history := by
  cases hsteps with
  | answer _ _ | store _ => exact ⟨_, List.mem_append_right _ List.mem_cons_self⟩
  | pass _ hpass => obtain rfl | rfl := hpass <;> trivial
  | ask _ _ | giveUp | clear _ => trivial

theorem Task.Ok.mono {h' : List Entry} (hsub : h ⊆ h') (ht : t.Ok h) : t.Ok h' := by
  cases t with
  | returned snapshot => exact ht.imp fun _ hmem => hsub hmem
  | _ => trivial

end Steps

/-! ### Runs -/

/-- What holds in every state of a run. -/
structure Coherent (service : RuntimeVersionService) (p : State) : Prop where
  store : p.store.Ok service
  exclusive : Exclusive (·.locked) holds p
  tasks : ∀ t ∈ p.tasks, t.Ok p.store.history

section Runs

variable {self : RuntimeVersionService} {p p' : State} {e : Event} {es : List Event} {clock : ℚ}

theorem coherent_initial : Coherent self (initial clock) where
  store := ⟨justified_nil, rfl, rfl, fun _ hmem => by cases hmem⟩
  exclusive := exclusive_start _
  tasks _ hmem := by cases hmem

theorem Coherent.step (hp : Coherent self p) (hstep : step self p e = some p') :
    Coherent self p' := by
  have hexclusive := hp.exclusive.step locks hstep
  obtain ⟨i, rfl, rfl⟩ | ⟨tid, a, t, s', t', rfl, ht, hact, rfl⟩ := Program.step_cases hstep
  · refine ⟨hp.store, hexclusive, fun u hu => ?_⟩
    rcases List.mem_append.1 hu with hu | hu
    · exact hp.tasks u hu
    · obtain rfl := List.mem_singleton.1 hu
      cases i <;> trivial
  · have hmem := List.mem_of_getElem? ht
    obtain ⟨clock, hclock, hsteps⟩ := steps_of_act hact
    have hnow : Store.Ok self { p.store with clock } :=
      { hp.store with
        wellFormed := fun snapshot hsnapshot =>
          (hp.store.wellFormed snapshot hsnapshot).imp_right fun hle => hle.trans hclock }
    refine ⟨hnow.steps (hp.exclusive.locked t hmem) hsteps, hexclusive, fun u hu => ?_⟩
    rcases List.mem_or_eq_of_mem_set hu with hu | rfl
    · exact (hp.tasks u hu).mono hsteps.history_subset
    · exact hsteps.task_ok

theorem coherent_of_run (hrun : run (step self) (initial clock) es = some p) : Coherent self p :=
  invariant (fun _ _ _ => Coherent.step) coherent_initial hrun

/-- **The latest release is asked for once at a time and when the last answer has expired**; every
call answers what is cached, while it is fresh; and what a call answers after the cache was cleared
was asked for after that. -/
theorem answers_coherent (self : RuntimeVersionService) {clock : ℚ} {es : List Event} {p : State}
    (hrun : run (step self) (initial clock) es = some p) :
    (∀ before time after, p.store.history = before ++ .asked time :: after →
      inFlight before = false ∧
        ∀ cachedAt snapshot, lastCached before = some (cachedAt, snapshot) →
          cachedAt + self.cacheTtlFor snapshot ≤ time) ∧
    (∀ before time snapshot after, p.store.history = before ++ .answered time snapshot :: after →
      snapshot.WellFormed self.currentVersion ∧
        ∃ cachedAt, lastCached before = some (cachedAt, snapshot) ∧ cachedAt ≤ time ∧
          (time = cachedAt ∨ time < cachedAt + self.cacheTtlFor snapshot)) ∧
    (∀ before between time snapshot after,
      p.store.history = before ++ .cleared :: between ++ .answered time snapshot :: after →
        ∃ askedAt cachedAt h₁ h₂ h₃,
          between = h₁ ++ .asked askedAt :: h₂ ++ .cached cachedAt snapshot :: h₃) ∧
    ∀ snapshot, .returned snapshot ∈ p.tasks →
      ∃ time, .answered time snapshot ∈ p.store.history := by
  have hp := coherent_of_run hrun
  have hok := hp.store.history
  refine ⟨fun before time after heq => hok before _ after heq,
    fun before time snapshot after heq => hok before _ after heq,
    fun before between time snapshot after heq => ?_, fun snapshot hmem => hp.tasks _ hmem⟩
  obtain ⟨-, cachedAt, hlast, -⟩ := hok _ _ after heq
  obtain ⟨h', h₃, rfl⟩ := exists_of_lastCached hlast
  have hcleared : inFlight (before ++ [.cleared]) = false := by
    rw [inFlight_concat]
    exact hok before .cleared
      (h' ++ .cached cachedAt snapshot :: h₃ ++ .answered time snapshot :: after) (by simp [heq])
  have hflying : inFlight (before ++ [.cleared] ++ h') = true :=
    (hok (before ++ [.cleared] ++ h') (.cached cachedAt snapshot)
      (h₃ ++ .answered time snapshot :: after) (by simp [heq])).1
  obtain ⟨askedAt, h₁, h₂, rfl⟩ := exists_of_inFlight hcleared hflying
  exact ⟨askedAt, cachedAt, h₁, h₂, h₃, rfl⟩

end Runs

def sampleService : RuntimeVersionService := ⟨"1.0.0", 21600, 900⟩

/-- Two calls at once while GitHub is down, `invalidate`, and a call that learns of a release. -/
def sampleEvents : List Event :=
  [.spawn .getVersionStatus, .spawn .getVersionStatus, .act 0 (.resume 0 0 .raised),
    .act 1 (.resume 0 0 .raised), .act 0 (.resume 1 0 .raised), .act 0 (.resume 2 0 .raised),
    .act 1 (.resume 3 0 .raised), .spawn .invalidate, .act 2 (.resume 4 0 .raised),
    .spawn .getVersionStatus, .act 3 (.resume 5 0 .raised), .act 3 (.resume 5 7 .raised),
    .act 3 (.resume 6 0 (.answered 200 (some (.obj [("tag_name", .str "v1.1.0")]))))]

/-- The second call answers what the first one has cached, the third asks again. -/
theorem answers_coherent_sample : ∃ before between after,
    (endOf (step sampleService) (initial 0) sampleEvents).store.history = before ++ .cleared ::
      between ++ .answered 6 ⟨"1.0.0", some "1.1.0", true, 7, some "github"⟩ :: after ∧
    ∃ askedAt cachedAt h₁ h₂ h₃, between = h₁ ++ .asked askedAt :: h₂ ++
      .cached cachedAt ⟨"1.0.0", some "1.1.0", true, 7, some "github"⟩ :: h₃ := by
  have hrun : run (step sampleService) (initial 0) sampleEvents =
      some (endOf (step sampleService) (initial 0) sampleEvents) := run_endOf (by decide +kernel)
  have hhistory : (endOf (step sampleService) (initial 0) sampleEvents).store.history =
      [.asked 1, .cached 2 ⟨"1.0.0", none, false, 0, none⟩,
        .answered 2 ⟨"1.0.0", none, false, 0, none⟩, .answered 3 ⟨"1.0.0", none, false, 0, none⟩] ++
      .cleared :: [.asked 5, .cached 6 ⟨"1.0.0", some "1.1.0", true, 7, some "github"⟩] ++
      .answered 6 ⟨"1.0.0", some "1.1.0", true, 7, some "github"⟩ :: [] := by decide +kernel
  exact ⟨_, _, _, hhistory, (answers_coherent sampleService hrun).2.2.1 _ _ _ _ _ hhistory⟩

end FirecrawlLb.Runtime.Service
