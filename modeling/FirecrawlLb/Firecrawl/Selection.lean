import FirecrawlLb.Firecrawl.Routing
import FirecrawlLb.Lib.Results

/-!
# What a selection promises

* `Eligible`: the conditions on an account, with the totals of its team written as sums;
* `SelectsBest`: a selection returns exactly when some account is eligible, it returns the eligible
  account with the greatest score and id whatever the order of the list, and otherwise it raises
  with one reason for every account;
* `selectsBest_iff`: this holds exactly when the request has an estimate and no active account has
  a cooldown that cannot be compared with the clock.
-/

namespace FirecrawlLb.Firecrawl.Selection

open FirecrawlLb.Lib FirecrawlLb.Python FirecrawlLb.Firecrawl.Models FirecrawlLb.Firecrawl.Usage
open FirecrawlLb.Firecrawl.Routing

/-! ### Team totals -/

/-- The sum of `f` over the accounts of a team. -/
def teamTotal (f : FirecrawlAccount → ℤ) (accounts : List FirecrawlAccount) (label : String) : ℤ :=
  ((accounts.filter (·.teamLabel = label)).map f).sum

theorem teamTotal_cons (f : FirecrawlAccount → ℤ) (a : FirecrawlAccount)
    (accounts : List FirecrawlAccount) (label : String) :
    teamTotal f (a :: accounts) label =
      (if a.teamLabel = label then f a else 0) + teamTotal f accounts label := by
  unfold teamTotal
  by_cases h : a.teamLabel = label <;> simp [h]

theorem teamTotal_perm (f : FirecrawlAccount → ℤ) {accounts accounts' : List FirecrawlAccount}
    (h : accounts.Perm accounts') (label : String) :
    teamTotal f accounts label = teamTotal f accounts' label :=
  ((h.filter _).map f).sum_eq

theorem teamTotal_add (f g : FirecrawlAccount → ℤ) (accounts : List FirecrawlAccount)
    (label : String) :
    teamTotal (fun a => f a + g a) accounts label =
      teamTotal f accounts label + teamTotal g accounts label := by
  induction accounts with
  | nil => rfl
  | cons a accounts ih =>
    rw [teamTotal_cons, teamTotal_cons, teamTotal_cons, ih]
    split <;> ring

/-- **The team dictionary holds the totals**, for every figure that adds up account by account. -/
theorem foldl_teamUsage (m : TeamUsage → ℤ) (f : FirecrawlAccount → ℤ)
    (hm : ∀ u a, m (addTeamUsage u a) = m u + f a) (label : String) :
    ∀ (accounts : List FirecrawlAccount) (byLabel : Dict String TeamUsage),
      m ((accounts.foldl (fun byLabel account => byLabel.set account.teamLabel
          (addTeamUsage (byLabel.getD account.teamLabel {}) account)) byLabel).getD label {}) =
        m (byLabel.getD label {}) + teamTotal f accounts label
  | [], byLabel => by simp [teamTotal]
  | a :: accounts, byLabel => by
    rw [List.foldl_cons, foldl_teamUsage m f hm label accounts, Dict.getD_set, teamTotal_cons]
    by_cases h : label = a.teamLabel
    · subst h
      rw [if_pos rfl, if_pos rfl, hm]
      ring
    · rw [if_neg h, if_neg (Ne.symm h)]
      ring

theorem mem_keys_foldl_teamUsage (label : String) :
    ∀ (accounts : List FirecrawlAccount) (byLabel : Dict String TeamUsage),
      (label ∈ byLabel.keys ∨ ∃ a ∈ accounts, a.teamLabel = label) →
      label ∈ (accounts.foldl (fun byLabel account => byLabel.set account.teamLabel
        (addTeamUsage (byLabel.getD account.teamLabel {}) account)) byLabel).keys
  | [], _, h => by simpa using h
  | a :: accounts, byLabel, h => by
    rw [List.foldl_cons]
    refine mem_keys_foldl_teamUsage label accounts _ ?_
    rw [Dict.keys_set]
    rcases h with h | ⟨b, hb, rfl⟩
    · left
      split
      · exact h
      · exact List.mem_append_left _ h
    · rcases List.mem_cons.1 hb with rfl | hb
      · left
        split
        · assumption
        · simp
      · exact Or.inr ⟨b, hb, rfl⟩

/-- The usage the team of an account is found with. -/
def usageOf (accounts : List FirecrawlAccount) (a : FirecrawlAccount) : TeamUsage :=
  (buildTeamUsage accounts).getD a.teamLabel {}

section Usage

variable (accounts : List FirecrawlAccount) (a : FirecrawlAccount) (endpoint : String)

theorem buildTeamUsage_get? (ha : a ∈ accounts) :
    (buildTeamUsage accounts).get? a.teamLabel = some (usageOf accounts a) := by
  have hk := mem_keys_foldl_teamUsage a.teamLabel accounts Dict.empty (Or.inr ⟨a, ha, rfl⟩)
  obtain ⟨u, hu⟩ := Dict.mem_keys_iff.1 hk
  have hu' : (buildTeamUsage accounts).get? a.teamLabel = some u := hu
  rw [usageOf, Dict.getD, hu', Option.getD_some]

theorem usageOf_inflight :
    (usageOf accounts a).inflight = teamTotal (·.inflight) accounts a.teamLabel :=
  (foldl_teamUsage (·.inflight) (·.inflight) (fun _ _ => rfl) a.teamLabel accounts
    Dict.empty).trans (zero_add _)

theorem usageOf_activeJobs :
    (usageOf accounts a).activeJobs = teamTotal (·.queueActiveJobs) accounts a.teamLabel :=
  (foldl_teamUsage (·.activeJobs) (·.queueActiveJobs) (fun _ _ => rfl) a.teamLabel accounts
    Dict.empty).trans (zero_add _)

theorem usageOf_rpm : (usageOf accounts a).rpmUsedByEndpoint.getD endpoint 0 =
    teamTotal (·.rpmUsed.getD endpoint 0) accounts a.teamLabel :=
  (foldl_teamUsage (·.rpmUsedByEndpoint.getD endpoint 0) (·.rpmUsed.getD endpoint 0)
    (fun u b => Dict.getD_addCounts u.rpmUsedByEndpoint b.rpmUsed endpoint) a.teamLabel accounts
    Dict.empty).trans (zero_add _)

end Usage

/-! ### One account -/

/-- The account is in cooldown at `now`. -/
def Cooling (a : FirecrawlAccount) (now : DateTime) : Prop :=
  ∃ cooldownUntil, a.cooldownUntil = some cooldownUntil ∧ cooldownUntil.gt now = .ok true

/-- **An eligible account**: it is active and not in cooldown, it covers the estimate, it has an
active credential, and its own and its team's totals are strictly below its limits. -/
structure Eligible (accounts : List FirecrawlAccount) (endpoint : String) (estimate : ℤ)
    (now : DateTime) (a : FirecrawlAccount) : Prop where
  status : a.status = .active
  cooldown : ¬ Cooling a now
  credits : estimate ≤ a.remainingCredits
  credentials : ∃ c ∈ a.credentials, c.status = .active
  accountRpm : a.rpmUsed.getD endpoint 0 < rpmLimit a endpoint
  accountConcurrency : a.inflight + a.queueActiveJobs < concurrencyLimit a
  teamRpm : teamTotal (·.rpmUsed.getD endpoint 0) accounts a.teamLabel < rpmLimit a endpoint
  teamConcurrency :
    teamTotal (fun b => b.inflight + b.queueActiveJobs) accounts a.teamLabel < concurrencyLimit a

/-- What an eligible account needs besides its status and its cooldown. -/
structure HasRoom (accounts : List FirecrawlAccount) (endpoint : String) (estimate : ℤ)
    (a : FirecrawlAccount) : Prop where
  credits : estimate ≤ a.remainingCredits
  credentials : ∃ c ∈ a.credentials, c.status = .active
  accountRpm : a.rpmUsed.getD endpoint 0 < rpmLimit a endpoint
  accountConcurrency : a.inflight + a.queueActiveJobs < concurrencyLimit a
  teamRpm : teamTotal (·.rpmUsed.getD endpoint 0) accounts a.teamLabel < rpmLimit a endpoint
  teamConcurrency :
    teamTotal (fun b => b.inflight + b.queueActiveJobs) accounts a.teamLabel < concurrencyLimit a

theorem HasRoom.eligible_iff {accounts : List FirecrawlAccount} {endpoint : String} {estimate : ℤ}
    {now : DateTime} {a : FirecrawlAccount} (h : HasRoom accounts endpoint estimate a) :
    Eligible accounts endpoint estimate now a ↔ a.status = .active ∧ ¬ Cooling a now :=
  ⟨fun he => ⟨he.status, he.cooldown⟩, fun ⟨hs, hc⟩ => ⟨hs, hc, h.credits, h.credentials,
    h.accountRpm, h.accountConcurrency, h.teamRpm, h.teamConcurrency⟩⟩

/-- The cooldown of an active account can be compared with the clock. -/
def CooldownComparable (now : DateTime) (a : FirecrawlAccount) : Prop :=
  a.status = .active → ∀ c, a.cooldownUntil = some c → c.Comparable now

theorem activeCredential_eq_none {credentials : List FirecrawlCredential} :
    activeCredential credentials = none ↔ ¬ ∃ c ∈ credentials, c.status = .active := by
  simp [activeCredential, List.find?_eq_none]

theorem inCooldown_of_comparable {a : FirecrawlAccount} {now : DateTime}
    (h : ∀ c, a.cooldownUntil = some c → c.Comparable now) :
    ∃ b, inCooldown a now = .ok b ∧ (b = true ↔ Cooling a now) := by
  unfold inCooldown Cooling
  cases hc : a.cooldownUntil with
  | none => exact ⟨false, rfl, by simp⟩
  | some c =>
    obtain ⟨b, hb⟩ := DateTime.gt_ok_iff.2 (h c hc)
    exact ⟨b, hb, by simp [hb]⟩

section Reason

variable {a : FirecrawlAccount} {endpoint : String} {estimate : ℤ} {u : TeamUsage} {now : DateTime}

/-- The tests that follow the two on status and cooldown. -/
def roomReason (a : FirecrawlAccount) (credential : Option FirecrawlCredential) (endpoint : String)
    (estimate : ℤ) (u : TeamUsage) : Option String :=
  if a.remainingCredits < estimate then some "credits"
  else if credential = none then some "credentials"
  else if a.rpmUsed.getD endpoint 0 ≥ rpmLimit a endpoint then some "account_rpm"
  else if a.inflight + a.queueActiveJobs ≥ concurrencyLimit a then some "account_concurrency"
  else if u.rpmUsedByEndpoint.getD endpoint 0 ≥ rpmLimit a endpoint then some "team_rpm"
  else if u.inflight + u.activeJobs ≥ concurrencyLimit a then some "team_concurrency"
  else none

theorem rejectionReason_eq (credential : Option FirecrawlCredential) :
    rejectionReason a credential endpoint estimate u now =
      if a.status ≠ .active then .ok (some ("status=" ++ a.status.value))
      else (inCooldown a now).map fun cooling =>
        if cooling then some "cooldown" else roomReason a credential endpoint estimate u := by
  unfold rejectionReason
  by_cases hs : a.status ≠ .active
  · rw [if_pos hs, if_pos hs]
    rfl
  · rw [if_neg hs, if_neg hs]
    cases inCooldown a now with
    | error e => rfl
    | ok cooling =>
      cases cooling with
      | true => rfl
      | false =>
        show (if _ then Except.ok _ else _) =
          Except.ok (roomReason a credential endpoint estimate u)
        exact ite_ok (ite_ok (ite_ok (ite_ok (ite_ok (ite_ok rfl)))))

theorem rejectionReason_typeError (credential : Option FirecrawlCredential)
    (h : ¬ CooldownComparable now a) :
    rejectionReason a credential endpoint estimate u now = .error .typeError := by
  simp only [CooldownComparable, not_forall] at h
  obtain ⟨hs, c, hc, hcmp⟩ := h
  rw [rejectionReason_eq, if_neg (by simpa using hs), inCooldown, hc]
  simp only [DateTime.gt_of_not_comparable hcmp]
  rfl

theorem rejectionReason_ok (credential : Option FirecrawlCredential) (endpoint : String)
    (estimate : ℤ) (u : TeamUsage) (h : CooldownComparable now a) :
    ∃ reason, rejectionReason a credential endpoint estimate u now = .ok reason ∧
      (reason = none ↔ a.status = .active ∧ ¬ Cooling a now ∧
        roomReason a credential endpoint estimate u = none) := by
  rw [rejectionReason_eq]
  by_cases hs : a.status = .active
  · obtain ⟨cooling, hcool, hiff⟩ := inCooldown_of_comparable (h hs)
    rw [if_neg (by simpa using hs), hcool]
    refine ⟨_, rfl, ?_⟩
    cases cooling
    · have hn : ¬ Cooling a now := fun hc => by simpa using hiff.2 hc
      simp [hs, hn]
    · have hy : Cooling a now := hiff.1 rfl
      simp [hy]
  · rw [if_pos hs]
    exact ⟨_, rfl, by simp [hs]⟩

theorem roomReason_eq_none {accounts : List FirecrawlAccount} :
    roomReason a (activeCredential a.credentials) endpoint estimate (usageOf accounts a) = none ↔
      estimate ≤ a.remainingCredits ∧ (∃ c ∈ a.credentials, c.status = .active) ∧
      a.rpmUsed.getD endpoint 0 < rpmLimit a endpoint ∧
      a.inflight + a.queueActiveJobs < concurrencyLimit a ∧
      teamTotal (·.rpmUsed.getD endpoint 0) accounts a.teamLabel < rpmLimit a endpoint ∧
      teamTotal (fun b => b.inflight + b.queueActiveJobs) accounts a.teamLabel <
        concurrencyLimit a := by
  rw [teamTotal_add, ← usageOf_inflight, ← usageOf_activeJobs, ← usageOf_rpm]
  have hcred : activeCredential a.credentials = none ↔ _ := activeCredential_eq_none
  unfold roomReason
  constructor
  · intro h
    split_ifs at h with h1 h2 h3 h4 h5 h6
    exact ⟨not_lt.1 h1, not_not.1 (mt hcred.2 h2), not_le.1 h3, not_le.1 h4, not_le.1 h5,
      not_le.1 h6⟩
  · rintro ⟨h1, h2, h3, h4, h5, h6⟩
    rw [if_neg (not_lt.2 h1), if_neg (fun h => hcred.1 h h2), if_neg (not_le.2 h3),
      if_neg (not_le.2 h4), if_neg (not_le.2 h5), if_neg (not_le.2 h6)]

/-- **One account is judged as the sums say.** -/
theorem rejectionReason_spec (accounts : List FirecrawlAccount) (endpoint : String)
    (estimate : ℤ) (h : CooldownComparable now a) :
    ∃ reason, rejectionReason a (activeCredential a.credentials) endpoint estimate
        (usageOf accounts a) now = .ok reason ∧
      (reason = none ↔ Eligible accounts endpoint estimate now a) := by
  obtain ⟨reason, hr, hiff⟩ := rejectionReason_ok (activeCredential a.credentials) endpoint
    estimate (usageOf accounts a) h
  refine ⟨reason, hr, hiff.trans ?_⟩
  rw [roomReason_eq_none]
  constructor
  · rintro ⟨h1, h2, h3, h4, h5, h6, h7, h8⟩
    exact ⟨h1, h2, h3, h4, h5, h6, h7, h8⟩
  · rintro ⟨h1, h2, h3, h4, h5, h6, h7, h8⟩
    exact ⟨h1, h2, h3, h4, h5, h6, h7, h8⟩

end Reason

/-! ### The loop -/

section Loop

variable (accounts : List FirecrawlAccount) (endpoint : String) (estimate : ℤ) (now : DateTime)

/-- The judgement on an account of the list. -/
def reasonOf (a : FirecrawlAccount) : Except Raised (Option String) :=
  rejectionReason a (activeCredential a.credentials) endpoint estimate (usageOf accounts a) now

/-- The candidate an account makes when it is not rejected. -/
def candidateOf (a : FirecrawlAccount) : Option Candidate :=
  match reasonOf accounts endpoint estimate now a with
  | .ok none => (activeCredential a.credentials).map fun c =>
    ⟨scoreAccount a endpoint (usageOf accounts a), a.id, a, c⟩
  | _ => none

variable {accounts endpoint estimate now}

theorem reasonOf_eq_none_iff {a : FirecrawlAccount} (h : CooldownComparable now a) :
    reasonOf accounts endpoint estimate now a = .ok none ↔
      Eligible accounts endpoint estimate now a := by
  obtain ⟨reason, hr, hiff⟩ := rejectionReason_spec accounts endpoint estimate h
  rw [reasonOf, hr, ← hiff]
  simp

theorem candidateOf_eq_some_iff {a : FirecrawlAccount} (h : CooldownComparable now a)
    {c : Candidate} : candidateOf accounts endpoint estimate now a = some c ↔
      Eligible accounts endpoint estimate now a ∧ ∃ credential,
        activeCredential a.credentials = some credential ∧
        c = ⟨scoreAccount a endpoint (usageOf accounts a), a.id, a, credential⟩ := by
  rw [← reasonOf_eq_none_iff h]
  unfold candidateOf
  split
  · rename_i hr
    rw [Option.map_eq_some_iff]
    constructor
    · rintro ⟨credential, hc, rfl⟩
      exact ⟨hr, credential, hc, rfl⟩
    · rintro ⟨-, credential, hc, rfl⟩
      exact ⟨credential, hc, rfl⟩
  · rename_i hr
    exact ⟨fun h => absurd h (by simp), fun h => absurd h.1 hr⟩

theorem reasonOf_of_candidateOf_eq_none {a : FirecrawlAccount} (h : CooldownComparable now a)
    (hnone : candidateOf accounts endpoint estimate now a = none) :
    ∃ reason, reasonOf accounts endpoint estimate now a = .ok (some reason) := by
  obtain ⟨reason, hr, hiff⟩ := rejectionReason_spec accounts endpoint estimate h
  cases reason with
  | some reason => exact ⟨reason, hr⟩
  | none =>
    obtain ⟨c, hc, hactive⟩ := (hiff.1 rfl).credentials
    have hsome : activeCredential a.credentials ≠ none := fun hn =>
      activeCredential_eq_none.1 hn ⟨c, hc, hactive⟩
    obtain ⟨credential, hcred⟩ := Option.ne_none_iff_exists'.1 hsome
    have := (candidateOf_eq_some_iff h).2 ⟨hiff.1 rfl, credential, hcred, rfl⟩
    rw [hnone] at this
    cases this

/-- What the rejections of a part of the list are. -/
structure Rejected (accounts : List FirecrawlAccount) (endpoint : String) (estimate : ℤ)
    (now : DateTime) (l : List FirecrawlAccount) (before after : Dict String String) : Prop where
  keys : after.keys = before.keys ++
    (l.filter fun a => (candidateOf accounts endpoint estimate now a).isNone).map (·.id)
  others : ∀ k, k ∉ l.map (·.id) → after.get? k = before.get? k
  reasons : ∀ a ∈ l, candidateOf accounts endpoint estimate now a = none →
    ∃ reason, after.get? a.id = some reason ∧
      reasonOf accounts endpoint estimate now a = .ok (some reason)

theorem selectLoop_cons {a : FirecrawlAccount} (ha : a ∈ accounts) (l : List FirecrawlAccount)
    (candidates : List Candidate) (rejections : Dict String String) :
    selectLoop endpoint estimate (buildTeamUsage accounts) now (a :: l) candidates rejections =
      (reasonOf accounts endpoint estimate now a).bind fun reason =>
        match reason with
        | some reason =>
          selectLoop endpoint estimate (buildTeamUsage accounts) now l candidates
            (rejections.set a.id reason)
        | none =>
          match activeCredential a.credentials with
          | none => .error .assertionError
          | some credential =>
            selectLoop endpoint estimate (buildTeamUsage accounts) now l
              (candidates ++ [⟨scoreAccount a endpoint (usageOf accounts a), a.id, a, credential⟩])
              rejections := by
  rw [selectLoop, buildTeamUsage_get? accounts a ha]
  rfl

/-- **The loop collects the candidates and one reason for each of the others.** -/
theorem selectLoop_eq : ∀ (l : List FirecrawlAccount) (candidates : List Candidate)
    (rejections : Dict String String), (∀ a ∈ l, a ∈ accounts) →
    (∀ a ∈ l, CooldownComparable now a) → (l.map (·.id)).Nodup →
    (∀ a ∈ l, a.id ∉ rejections.keys) →
    ∃ rejections', selectLoop endpoint estimate (buildTeamUsage accounts) now l candidates
        rejections =
        .ok (candidates ++ l.filterMap (candidateOf accounts endpoint estimate now), rejections') ∧
      Rejected accounts endpoint estimate now l rejections rejections'
  | [], candidates, rejections, _, _, _, _ =>
    ⟨rejections, by simp [selectLoop], by simp, fun _ _ => rfl, by simp⟩
  | a :: l, candidates, rejections, hmem, hcmp, hnd, hfresh => by
    obtain ⟨hal, hnd⟩ := List.nodup_cons.1 hnd
    have hmem' : ∀ b ∈ l, b ∈ accounts := fun b hb => hmem b (by simp [hb])
    have hcmp' : ∀ b ∈ l, CooldownComparable now b := fun b hb => hcmp b (by simp [hb])
    have hne : ∀ b ∈ l, b.id ≠ a.id := fun b hb h => hal (List.mem_map.2 ⟨b, hb, h⟩)
    rw [selectLoop_cons (hmem a (by simp))]
    cases hcand : candidateOf accounts endpoint estimate now a with
    | none =>
      obtain ⟨reason, hr⟩ := reasonOf_of_candidateOf_eq_none (hcmp a (by simp)) hcand
      -- the id is new, so its reason goes to the end of the dictionary
      have hkeys : (rejections.set a.id reason).keys = rejections.keys ++ [a.id] := by
        rw [Dict.keys_set, if_neg (hfresh a (by simp))]
      obtain ⟨rs, hrs, hkey, hother, hreason⟩ := selectLoop_eq l candidates
        (rejections.set a.id reason) hmem' hcmp' hnd (fun b hb => by
          rw [hkeys, List.mem_append, List.mem_singleton]
          exact not_or.2 ⟨hfresh b (by simp [hb]), hne b hb⟩)
      refine ⟨rs, ?_, ?_, fun k hk => ?_, fun b hb hbn => ?_⟩
      · rw [hr, List.filterMap_cons, hcand]
        exact hrs
      · rw [hkey, hkeys, List.filter_cons, hcand]
        simp
      · rw [List.map_cons, List.mem_cons, not_or] at hk
        rw [hother k hk.2, Dict.get?_set, if_neg hk.1]
      · rcases List.mem_cons.1 hb with rfl | hb
        · exact ⟨reason, by rw [hother b.id hal, Dict.get?_set, if_pos rfl], hr⟩
        · exact hreason b hb hbn
    | some c =>
      obtain ⟨helig, credential, hcred, rfl⟩ :=
        (candidateOf_eq_some_iff (hcmp a (by simp))).1 hcand
      have hr := (reasonOf_eq_none_iff (hcmp a (by simp))).2 helig
      obtain ⟨rs, hrs, hkey, hother, hreason⟩ := selectLoop_eq l
        (candidates ++ [⟨scoreAccount a endpoint (usageOf accounts a), a.id, a, credential⟩])
        rejections hmem' hcmp' hnd (fun b hb => hfresh b (by simp [hb]))
      refine ⟨rs, ?_, ?_, fun k hk => ?_, fun b hb hbn => ?_⟩
      · rw [hr, List.filterMap_cons, hcand]
        simp only [Except.bind, hcred]
        rw [show ∀ x : Candidate, candidates ++ x :: l.filterMap
          (candidateOf accounts endpoint estimate now) = candidates ++ [x] ++ l.filterMap
          (candidateOf accounts endpoint estimate now) from fun x => by simp]
        exact hrs
      · rw [hkey, List.filter_cons, hcand]
        simp
      · rw [List.map_cons, List.mem_cons, not_or] at hk
        exact hother k hk.2
      · rcases List.mem_cons.1 hb with rfl | hb
        · rw [hcand] at hbn
          cases hbn
        · exact hreason b hb hbn

theorem selectLoop_candidates : ∀ (l : List FirecrawlAccount) (candidates candidates' :
    List Candidate) (rejections rejections' : Dict String String), (∀ a ∈ l, a ∈ accounts) →
    selectLoop endpoint estimate (buildTeamUsage accounts) now l candidates rejections =
      .ok (candidates', rejections') →
    ∀ c ∈ candidates', c ∈ candidates ∨
      (c.account ∈ l ∧ reasonOf accounts endpoint estimate now c.account = .ok none ∧
        activeCredential c.account.credentials = some c.credential)
  | [], candidates, candidates', _, _, _, h => by
    obtain ⟨rfl, -⟩ := Prod.mk.inj (Except.ok.inj h)
    exact fun c hc => Or.inl hc
  | a :: l, candidates, candidates', rejections, rejections', hmem, h => by
    have hmem' : ∀ b ∈ l, b ∈ accounts := fun b hb => hmem b (by simp [hb])
    rw [selectLoop_cons (hmem a (by simp))] at h
    obtain ⟨reason, hr, h⟩ := bind_eq_ok.1 h
    cases reason with
    | some reason =>
      intro c hc
      exact (selectLoop_candidates l _ _ _ _ hmem' h c hc).imp_right
        (And.imp_left (List.mem_cons_of_mem a))
    | none =>
      cases hcred : activeCredential a.credentials with
      | none =>
        rw [hcred] at h
        cases h
      | some credential =>
        rw [hcred] at h
        intro c hc
        rcases selectLoop_candidates l _ _ _ _ hmem' h c hc with hc | hc
        · rcases List.mem_append.1 hc with hc | hc
          · exact Or.inl hc
          · obtain rfl := List.mem_singleton.1 hc
            exact Or.inr ⟨List.mem_cons_self, hr, hcred⟩
        · exact Or.inr (hc.imp_left (List.mem_cons_of_mem a))

/-- One incomparable cooldown makes the loop raise. -/
theorem selectLoop_typeError : ∀ (l : List FirecrawlAccount) (candidates : List Candidate)
    (rejections : Dict String String), (∀ a ∈ l, a ∈ accounts) →
    (∃ a ∈ l, ¬ CooldownComparable now a) →
    selectLoop endpoint estimate (buildTeamUsage accounts) now l candidates rejections =
      .error .typeError
  | [], _, _, _, h => by simp at h
  | a :: l, candidates, rejections, hmem, hbad => by
    have hmem' : ∀ b ∈ l, b ∈ accounts := fun b hb => hmem b (by simp [hb])
    rw [selectLoop_cons (hmem a (by simp)), reasonOf]
    by_cases hcmp : CooldownComparable now a
    · have hbad' : ∃ b ∈ l, ¬ CooldownComparable now b := by
        obtain ⟨b, hb, hbc⟩ := hbad
        rcases List.mem_cons.1 hb with rfl | hb
        · exact absurd hcmp hbc
        · exact ⟨b, hb, hbc⟩
      obtain ⟨reason, hr, hiff⟩ := rejectionReason_spec accounts endpoint estimate hcmp
      rw [hr]
      cases reason with
      | some reason => exact selectLoop_typeError l _ _ hmem' hbad'
      | none =>
        obtain ⟨c, hc, hactive⟩ := (hiff.1 rfl).credentials
        cases hcred : activeCredential a.credentials with
        | none => exact absurd ⟨c, hc, hactive⟩ (activeCredential_eq_none.1 hcred)
        | some credential => exact selectLoop_typeError l _ _ hmem' hbad'
    · rw [rejectionReason_typeError _ hcmp]
      rfl

end Loop

/-! ### The selection -/

section Select

/-- The score of an account, with the totals of its team written as sums. -/
def scoreOf (accounts : List FirecrawlAccount) (endpoint : String) (a : FirecrawlAccount) : ℚ :=
  let budgetRatio : ℚ := a.remainingCredits / max 1 a.planCredits
  let rpmRatio : ℚ := 1 - teamTotal (·.rpmUsed.getD endpoint 0) accounts a.teamLabel /
    max 1 (rpmLimit a endpoint)
  let concurrencyRatio : ℚ := 1 - teamTotal (fun b => b.inflight + b.queueActiveJobs) accounts
    a.teamLabel / max 1 (concurrencyLimit a)
  let healthRatio : ℚ := 1 / (1 + max 0 a.recentErrorCount)
  budgetRatio * (45 / 100) + rpmRatio * (25 / 100) + concurrencyRatio * (20 / 100)
    + healthRatio * (10 / 100)

theorem scoreAccount_eq_scoreOf (accounts : List FirecrawlAccount) (endpoint : String)
    (a : FirecrawlAccount) :
    scoreAccount a endpoint (usageOf accounts a) = scoreOf accounts endpoint a := by
  unfold scoreAccount scoreOf
  rw [teamTotal_add, usageOf_inflight, usageOf_activeJobs, usageOf_rpm]
  push_cast
  rfl

/-- The score and the id of an account, in the order of the maximum. -/
def rank (accounts : List FirecrawlAccount) (endpoint : String) (a : FirecrawlAccount) :
    ℚ ×ₗ String :=
  toLex (scoreOf accounts endpoint a, a.id)

theorem Eligible.perm {accounts accounts' : List FirecrawlAccount} {endpoint : String}
    {estimate : ℤ} {now : DateTime} {a : FirecrawlAccount} (hp : accounts.Perm accounts')
    (h : Eligible accounts endpoint estimate now a) :
    Eligible accounts' endpoint estimate now a where
  status := h.status
  cooldown := h.cooldown
  credits := h.credits
  credentials := h.credentials
  accountRpm := h.accountRpm
  accountConcurrency := h.accountConcurrency
  teamRpm := by rw [← teamTotal_perm _ hp]; exact h.teamRpm
  teamConcurrency := by rw [← teamTotal_perm _ hp]; exact h.teamConcurrency

theorem rank_perm {accounts accounts' : List FirecrawlAccount} (hp : accounts.Perm accounts')
    (endpoint : String) (a : FirecrawlAccount) :
    rank accounts endpoint a = rank accounts' endpoint a := by
  unfold rank scoreOf
  rw [teamTotal_perm _ hp, teamTotal_perm _ hp]

variable {accounts accounts' : List FirecrawlAccount} {endpoint : String} {payload : JsonObject}
  {now : DateTime} {estimate : ℤ}

/-- `s` is the best choice among the eligible accounts. -/
structure BestChoice (accounts : List FirecrawlAccount) (endpoint : String) (estimate : ℤ)
    (now : DateTime) (s : FirecrawlSelectedAccount) : Prop where
  mem : s.account ∈ accounts
  eligible : Eligible accounts endpoint estimate now s.account
  credential : s.account.credentials.find? (·.status = .active) = some s.credential
  estimatedCredits : s.estimatedCredits = estimate
  greatest : ∀ b ∈ accounts, Eligible accounts endpoint estimate now b →
    rank accounts endpoint b ≤ rank accounts endpoint s.account

theorem BestChoice.perm {s : FirecrawlSelectedAccount} (hp : accounts.Perm accounts')
    (h : BestChoice accounts endpoint estimate now s) :
    BestChoice accounts' endpoint estimate now s where
  mem := hp.mem_iff.1 h.mem
  eligible := h.eligible.perm hp
  credential := h.credential
  estimatedCredits := h.estimatedCredits
  greatest := by
    intro b hb he
    rw [← rank_perm hp, ← rank_perm hp]
    exact h.greatest b (hp.mem_iff.2 hb) (he.perm hp.symm)

/-- Ids that differ leave one best choice. -/
theorem BestChoice.unique {s s' : FirecrawlSelectedAccount} (hids : (accounts.map (·.id)).Nodup)
    (h : BestChoice accounts endpoint estimate now s)
    (h' : BestChoice accounts endpoint estimate now s') : s = s' := by
  have hrank := le_antisymm (h'.greatest _ h.mem h.eligible) (h.greatest _ h'.mem h'.eligible)
  have hid : s.account.id = s'.account.id := congrArg (fun k => (ofLex k).2) hrank
  have hacc : s.account = s'.account := List.inj_on_of_nodup_map hids h.mem h'.mem hid
  have hcred := h.credential
  rw [hacc, h'.credential] at hcred
  obtain ⟨a, c, e⟩ := s
  obtain ⟨a', c', e'⟩ := s'
  obtain rfl : a = a' := hacc
  obtain rfl : c' = c := by simpa using hcred
  obtain rfl : e = e' := h.estimatedCredits.trans h'.estimatedCredits.symm
  rfl

/-- **What a selection does** when its comparisons are defined: it returns the best choice, or
there is none and every account has its reason. -/
theorem selectAccount_cases (hids : (accounts.map (·.id)).Nodup)
    (hest : estimateFromPayload endpoint payload = .ok estimate)
    (hcmp : ∀ a ∈ accounts, CooldownComparable now a) :
    (∃ s, selectAccount accounts endpoint payload now = .ok s ∧
      BestChoice accounts endpoint estimate now s) ∨
    ((∀ a ∈ accounts, ¬ Eligible accounts endpoint estimate now a) ∧ ∃ rejections,
      selectAccount accounts endpoint payload now =
        .error (.noFirecrawlAccountAvailable endpoint rejections) ∧
      rejections.keys = accounts.map (·.id) ∧
      ∀ a ∈ accounts, ∃ reason, rejections.get? a.id = some reason ∧
        reasonOf accounts endpoint estimate now a = .ok (some reason)) := by
  obtain ⟨rejections, hloop, hrej⟩ := @selectLoop_eq accounts endpoint estimate now
    accounts [] Dict.empty (fun _ h => h) hcmp hids (by simp [Dict.keys, Dict.empty])
  have hselect : selectAccount accounts endpoint payload now =
      ((accounts.filterMap (candidateOf accounts endpoint estimate now)).argmax Candidate.key).elim
        (.error (.noFirecrawlAccountAvailable endpoint rejections))
        fun c => .ok ⟨c.account, c.credential, estimate⟩ := by
    simp only [selectAccount, estimateCredits_none, hest, bind, Except.bind, hloop,
      List.nil_append]
    cases (accounts.filterMap (candidateOf accounts endpoint estimate now)).argmax
      Candidate.key <;> rfl
  cases hmax : (accounts.filterMap (candidateOf accounts endpoint estimate now)).argmax
    Candidate.key with
  | none =>
    right
    rw [hmax] at hselect
    -- no candidate: every account has a reason, and its id is among the keys
    have hnil : ∀ a ∈ accounts, candidateOf accounts endpoint estimate now a = none := by
      simpa [List.filterMap_eq_nil_iff] using List.argmax_eq_none.1 hmax
    refine ⟨fun a ha he => ?_, rejections, hselect, ?_, fun a ha => hrej.reasons a ha (hnil a ha)⟩
    · obtain ⟨reason, hr⟩ := reasonOf_of_candidateOf_eq_none (hcmp a ha) (hnil a ha)
      rw [(reasonOf_eq_none_iff (hcmp a ha)).2 he] at hr
      cases hr
    · rw [hrej.keys, List.filter_eq_self.2 fun a ha => by rw [hnil a ha]; rfl]
      rfl
  | some c =>
    left
    rw [hmax] at hselect
    obtain ⟨a, ha, hc⟩ := List.mem_filterMap.1 (List.argmax_mem hmax)
    obtain ⟨helig, credential, hcred, rfl⟩ := (candidateOf_eq_some_iff (hcmp a ha)).1 hc
    refine ⟨_, hselect, ha, helig, hcred, rfl, fun b hb hbe => ?_⟩
    obtain ⟨x, hx, hactive⟩ := hbe.credentials
    have hsome : activeCredential b.credentials ≠ none := fun hn =>
      activeCredential_eq_none.1 hn ⟨x, hx, hactive⟩
    obtain ⟨credential', hcred'⟩ := Option.ne_none_iff_exists'.1 hsome
    have hmem := List.mem_filterMap.2 ⟨b, hb, (candidateOf_eq_some_iff (hcmp b hb)).2
      ⟨hbe, credential', hcred', rfl⟩⟩
    have hle := List.le_of_mem_argmax hmem hmax
    simpa only [Candidate.key, rank, scoreAccount_eq_scoreOf] using hle

theorem selectAccount_candidate {s : FirecrawlSelectedAccount}
    (h : selectAccount accounts endpoint payload now = .ok s) : ∃ estimate,
    estimateFromPayload endpoint payload = .ok estimate ∧ s.account ∈ accounts ∧
    reasonOf accounts endpoint estimate now s.account = .ok none ∧
    activeCredential s.account.credentials = some s.credential := by
  unfold selectAccount at h
  obtain ⟨estimate, hest, h⟩ := bind_eq_ok.1 h
  obtain ⟨⟨candidates, rejections⟩, hloop, h⟩ := bind_eq_ok.1 h
  simp only at h
  split at h
  · cases h
  · rename_i c hmax
    obtain rfl := pure_eq_ok.1 h
    rcases selectLoop_candidates accounts [] candidates _ _ (fun _ h => h) hloop c
      (List.argmax_mem hmax) with hc | hc
    · simp at hc
    · exact ⟨estimate, hest, hc⟩

/-- **A selected account is eligible**, and its cooldown could be compared. -/
theorem selectAccount_eligible {s : FirecrawlSelectedAccount}
    (h : selectAccount accounts endpoint payload now = .ok s) : ∃ estimate,
    estimateFromPayload endpoint payload = .ok estimate ∧ s.account ∈ accounts ∧
    CooldownComparable now s.account ∧ Eligible accounts endpoint estimate now s.account := by
  obtain ⟨estimate, hest, hmem, hr, -⟩ := selectAccount_candidate h
  have hcmp : CooldownComparable now s.account := by
    by_contra hbad
    rw [reasonOf, rejectionReason_typeError _ hbad] at hr
    cases hr
  exact ⟨estimate, hest, hmem, hcmp, (reasonOf_eq_none_iff hcmp).1 hr⟩

theorem selectAccount_typeError (hest : estimateFromPayload endpoint payload = .ok estimate)
    (hbad : ∃ a ∈ accounts, ¬ CooldownComparable now a) :
    selectAccount accounts endpoint payload now = .error .typeError := by
  simp only [selectAccount, estimateCredits_none, hest, bind, Except.bind,
    selectLoop_typeError accounts [] Dict.empty (fun _ h => h) hbad]

theorem bestChoice_of_selectAccount {s : FirecrawlSelectedAccount}
    (hids : (accounts.map (·.id)).Nodup)
    (hest : estimateFromPayload endpoint payload = .ok estimate)
    (hcmp : ∀ a ∈ accounts, CooldownComparable now a)
    (hs : selectAccount accounts endpoint payload now = .ok s) :
    BestChoice accounts endpoint estimate now s := by
  rcases selectAccount_cases hids hest hcmp with ⟨s', hs', hbest⟩ | ⟨-, rejections, hr, -⟩
  · rw [hs] at hs'
    cases hs'
    exact hbest
  · rw [hs] at hr
    cases hr

/-- A selection does not depend on the order of the accounts. -/
theorem selectAccount_perm {accounts' : List FirecrawlAccount} {s : FirecrawlSelectedAccount}
    (hids : (accounts.map (·.id)).Nodup)
    (hest : estimateFromPayload endpoint payload = .ok estimate)
    (hcmp : ∀ a ∈ accounts, CooldownComparable now a) (hp : accounts.Perm accounts')
    (hs : selectAccount accounts endpoint payload now = .ok s) :
    selectAccount accounts' endpoint payload now = .ok s := by
  have hbest := bestChoice_of_selectAccount hids hest hcmp hs
  have hids' : (accounts'.map (·.id)).Nodup := ((hp.map _).nodup_iff).1 hids
  have hcmp' : ∀ a ∈ accounts', CooldownComparable now a := by
    intro a ha
    exact hcmp a (hp.mem_iff.2 ha)
  rcases selectAccount_cases hids' hest hcmp' with ⟨s', hs', hbest'⟩ | ⟨hnone, -⟩
  · rw [hs', hbest.unique hids (hbest'.perm hp.symm)]
  · exact absurd (hbest.eligible.perm hp) (hnone _ (hp.mem_iff.1 hbest.mem))

/-- **What a selection promises.** -/
def SelectsBest (accounts : List FirecrawlAccount) (endpoint : String) (payload : JsonObject)
    (now : DateTime) : Prop :=
  ∃ estimate, estimateFromPayload endpoint payload = .ok estimate ∧
    ((∃ s, selectAccount accounts endpoint payload now = .ok s) ↔
      ∃ a ∈ accounts, Eligible accounts endpoint estimate now a) ∧
    (∀ s, selectAccount accounts endpoint payload now = .ok s →
      BestChoice accounts endpoint estimate now s) ∧
    ((∀ a ∈ accounts, ¬ Eligible accounts endpoint estimate now a) → ∃ rejections,
      selectAccount accounts endpoint payload now =
        .error (.noFirecrawlAccountAvailable endpoint rejections) ∧
      rejections.keys = accounts.map (·.id) ∧
      ∀ a ∈ accounts, ∃ reason, rejections.get? a.id = some reason ∧
        reasonOf accounts endpoint estimate now a = .ok (some reason)) ∧
    ∀ accounts', accounts.Perm accounts' → ∀ s,
      selectAccount accounts endpoint payload now = .ok s →
      selectAccount accounts' endpoint payload now = .ok s

theorem not_selectsBest_of_typeError
    (herr : selectAccount accounts endpoint payload now = .error .typeError) :
    ¬ SelectsBest accounts endpoint payload now := by
  rintro ⟨estimate, -, hret, -, hraise, -⟩
  by_cases he : ∃ b ∈ accounts, Eligible accounts endpoint estimate now b
  · obtain ⟨s, hs⟩ := hret.2 he
    rw [herr] at hs
    cases hs
  · obtain ⟨rejections, hr, -⟩ := hraise fun b hb hbe => he ⟨b, hb, hbe⟩
    rw [herr] at hr
    cases hr

/-- **Account selection is sound, complete, optimal and independent of the order** exactly when the
request has an estimate and the cooldowns of the active accounts can be compared with the clock. -/
theorem selectsBest_iff (hids : (accounts.map (·.id)).Nodup) :
    SelectsBest accounts endpoint payload now ↔
      (∃ estimate, estimateFromPayload endpoint payload = .ok estimate) ∧
      ∀ a ∈ accounts, CooldownComparable now a := by
  constructor
  · intro h
    obtain ⟨estimate, hest, -⟩ := id h
    refine ⟨⟨estimate, hest⟩, ?_⟩
    by_contra hbad
    simp only [not_forall] at hbad
    obtain ⟨a, ha, hcmp⟩ := hbad
    exact not_selectsBest_of_typeError (selectAccount_typeError hest ⟨a, ha, hcmp⟩) h
  · rintro ⟨⟨estimate, hest⟩, hcmp⟩
    have hcases := selectAccount_cases hids hest hcmp
    refine ⟨estimate, hest, ⟨?_, ?_⟩, ?_, ?_, ?_⟩
    · rintro ⟨s, hs⟩
      have hbest := bestChoice_of_selectAccount hids hest hcmp hs
      exact ⟨s.account, hbest.mem, hbest.eligible⟩
    · rintro ⟨a, ha, he⟩
      rcases hcases with ⟨s, hs, -⟩ | ⟨hnone, -⟩
      · exact ⟨s, hs⟩
      · exact absurd he (hnone a ha)
    · intro s hs
      exact bestChoice_of_selectAccount hids hest hcmp hs
    · intro hnone
      rcases hcases with ⟨s, -, hbest⟩ | ⟨-, hr⟩
      · exact absurd hbest.eligible (hnone _ hbest.mem)
      · exact hr
    · intro accounts' hp s hs
      exact selectAccount_perm hids hest hcmp hp hs

/-- An active account whose cooldown was read back from a naive column, long over. -/
def cooledAccount : FirecrawlAccount where
  id := "account-1"
  teamLabel := "team-1"
  planType := "standard"
  remainingCredits := 100
  planCredits := 100
  credentials := [{ id := "credential-1", apiKey := "fc-1" }]
  cooldownUntil := some (.naive 0)

/-- An account no cooldown was ever set for. -/
def freshAccount : FirecrawlAccount where
  id := "account-2"
  teamLabel := "team-2"
  planType := "standard"
  remainingCredits := 100
  planCredits := 100
  credentials := [{ id := "credential-2", apiKey := "fc-2" }]

/-- The cooled account makes every selection raise, though the other one is eligible. -/
theorem not_selectsBest_cooled :
    ([cooledAccount, freshAccount].map (·.id)).Nodup ∧
    Eligible [cooledAccount, freshAccount] "map" 1 (.utc 60000000) freshAccount ∧
    selectAccount [cooledAccount, freshAccount] "map" [] (.utc 60000000) = .error .typeError ∧
    ¬ SelectsBest [cooledAccount, freshAccount] "map" [] (.utc 60000000) := by
  have helig : Eligible [cooledAccount, freshAccount] "map" 1 (.utc 60000000) freshAccount :=
    ⟨rfl, by simp [Cooling, freshAccount], by decide, ⟨_, List.mem_singleton_self _, rfl⟩,
      by decide, by decide, by decide, by decide⟩
  have herr : selectAccount [cooledAccount, freshAccount] "map" [] (.utc 60000000) =
      .error .typeError :=
    selectAccount_typeError (show estimateFromPayload "map" [] = .ok 1 from rfl)
      ⟨cooledAccount, by simp, fun h => absurd (h rfl (.naive 0) rfl) (by decide)⟩
  exact ⟨by decide, helig, herr, not_selectsBest_of_typeError herr⟩

/-- Without a cooldown there is nothing to compare. -/
theorem selectsBest_fresh : SelectsBest [freshAccount] "map" [] (.utc 60000000) :=
  (selectsBest_iff (by decide)).2 ⟨⟨1, rfl⟩, fun a ha _ c hc => by
    obtain rfl := List.mem_singleton.1 ha
    cases hc⟩

end Select

end FirecrawlLb.Firecrawl.Selection
