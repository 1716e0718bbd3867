import FirecrawlLb.Firecrawl.Usage
import FirecrawlLb.Lib.Results
import FirecrawlLb.Python.Division

/-!
# Which requests have an estimate

Every estimate is an integer of at least one.  A request has none when its endpoint is estimated
from the limit, and the limit is a string that is no integer or, for a search, too large to be
divided.
-/

namespace FirecrawlLb.Firecrawl.Estimates

open FirecrawlLb.Lib FirecrawlLb.Python FirecrawlLb.Firecrawl.Usage

/-- The limit a client gives, when it is a number or reads as one. -/
def givenLimit (payload : JsonObject) : Option ℤ :=
  match payload.get "limit" with
  | .int i => some i
  | .str s => intOfStr s
  | _ => none

/-- The limit is no string, or one that reads as an integer. -/
def LimitReads (payload : JsonObject) : Prop :=
  ∀ s, payload.get "limit" = .str s → (intOfStr s).isSome = true

/-- The least limit whose tenth is beyond the doubles. -/
def tooLarge : ℕ := 10 * (2 ^ 1024 - 2 ^ 970)

/-- **The request has an estimate**: a crawl and a search have a limit that reads, and a search has
one that can be divided. -/
structure Estimable (endpoint : String) (payload : JsonObject) : Prop where
  reads : endpoint = "crawl" ∨ endpoint = "search" → LimitReads payload
  small : endpoint = "search" → ∀ limit ∈ givenLimit payload, limit < tooLarge

variable {endpoint : String} {payload : JsonObject} {dflt limit credits : ℤ}

/-! ### The parts of an estimate -/

theorem intValue_eq (payload : JsonObject) (dflt : ℤ) (h : LimitReads payload) :
    intValue (payload.get "limit") dflt = .ok ((givenLimit payload).getD dflt) := by
  unfold intValue givenLimit
  cases hlimit : payload.get "limit" with
  | str s =>
    obtain ⟨i, hi⟩ := Option.isSome_iff_exists.1 (h s hlimit)
    simp [hi]
  | _ => rfl

theorem limitReads_of_intValue (h : intValue (payload.get "limit") dflt = .ok limit) :
    LimitReads payload := by
  intro s hs
  rw [hs, intValue] at h
  cases hi : intOfStr s with
  | some i => rfl
  | none =>
    rw [hi] at h
    cases h

theorem one_le_estimateScrapeCredits (payload : JsonObject) :
    1 ≤ estimateScrapeCredits payload := by
  unfold estimateScrapeCredits
  split_ifs <;> omega

/-- A positive limit has a tenth of at least one, unless it is too large. -/
theorem ceilTenth_spec (hpos : 1 ≤ limit) :
    (limit < tooLarge ∧ ∃ tenths, ceilTenth limit = .ok tenths ∧ 1 ≤ tenths) ∨
      (tooLarge ≤ limit ∧ ceilTenth limit = .error .overflowError) := by
  have hbound : tooLarge ≤ limit.toNat ↔ (tooLarge : ℤ) ≤ limit := Int.le_toNat (by omega)
  have hoverflow : trueDiv limit.toNat 10 = none ↔ tooLarge ≤ limit.toNat :=
    trueDiv_eq_none_iff (by decide)
  rw [hbound] at hoverflow
  unfold ceilTenth
  cases hq : trueDiv limit.toNat 10 with
  | none => exact Or.inr ⟨hoverflow.1 hq, rfl⟩
  | some q =>
    have hlt : limit < tooLarge := by
      rw [← not_le, ← hoverflow, hq]
      simp
    have hq : 0 < q := trueDiv_pos (by omega) (by decide) hq
    exact Or.inl ⟨hlt, ⌈q⌉, rfl, Int.one_le_ceil_iff.2 hq⟩

theorem ten_lt_tooLarge : 10 < tooLarge := by
  have hpow := two_pow_le_overflow
  have htwo : 2 ^ 1 ≤ 2 ^ 1023 := pow_le_pow_right₀ one_le_two (by decide)
  have hlt : 1 < 2 ^ 1024 - 2 ^ 970 := htwo.trans hpow
  exact Nat.mul_lt_mul_of_pos_left hlt (show 0 < 10 by decide)

theorem max_limit_lt_tooLarge_iff (payload : JsonObject) :
    max 1 ((givenLimit payload).getD 10) < tooLarge ↔
      ∀ limit ∈ givenLimit payload, limit < tooLarge := by
  have hten := ten_lt_tooLarge
  cases givenLimit payload with
  | none => exact iff_of_true (max_lt (by omega) (Int.ofNat_lt.2 hten)) nofun
  | some limit =>
    simp only [Option.getD_some, Option.mem_some_iff, forall_eq', max_lt_iff]
    omega

theorem one_le_of_estimateSearchCredits (h : estimateSearchCredits payload = .ok credits) :
    1 ≤ credits := by
  unfold estimateSearchCredits at h
  obtain ⟨limit, -, h⟩ := bind_eq_ok.1 h
  obtain ⟨tenths, htenths, h⟩ := bind_eq_ok.1 h
  have hlimit : 1 ≤ max 1 limit := le_max_left 1 limit
  have hone : 1 ≤ tenths := by
    rcases ceilTenth_spec hlimit with ⟨-, tenths', htenths', hone⟩ | ⟨-, herror⟩
    · obtain rfl : tenths' = tenths := Except.ok.inj (htenths'.symm.trans htenths)
      exact hone
    · rw [herror] at htenths
      cases htenths
  have hpages : ∀ sources : ℤ, 1 ≤ 2 * tenths * max 1 sources := fun sources => by
    have hone := mul_le_mul hone (le_max_left 1 sources) zero_le_one (by omega)
    rw [mul_assoc]
    omega
  dsimp only at h
  split at h
  · rename_i scrapeOptions _
    have hscrape : 0 ≤ estimateSearchScrapeReservation (max 1 limit) scrapeOptions :=
      mul_nonneg (by omega) (zero_le_one.trans (one_le_estimateScrapeCredits scrapeOptions))
    obtain rfl := pure_eq_ok.1 h
    exact le_add_of_le_of_nonneg (hpages _) hscrape
  · obtain rfl := pure_eq_ok.1 h
    exact hpages _

/-- **Every estimate is positive.** -/
theorem one_le_of_estimateFromPayload (h : estimateFromPayload endpoint payload = .ok credits) :
    1 ≤ credits := by
  unfold estimateFromPayload at h
  split_ifs at h with hscrape hmap hsearch hcrawl hbatch
  · obtain rfl := Except.ok.inj h
    exact one_le_estimateScrapeCredits payload
  · exact (Except.ok.inj h).le
  · exact one_le_of_estimateSearchCredits h
  · obtain ⟨limit, -, rfl⟩ := map_eq_ok.1 h
    exact le_max_left _ _
  · obtain rfl := Except.ok.inj h
    exact le_max_left _ _
  · exact (Except.ok.inj h).le

/-- **The estimate of a search.** -/
theorem estimateSearchCredits_isOk_iff (payload : JsonObject) :
    (∃ credits, estimateSearchCredits payload = .ok credits) ↔
      LimitReads payload ∧ ∀ limit ∈ givenLimit payload, limit < tooLarge := by
  rw [← max_limit_lt_tooLarge_iff]
  constructor
  · rintro ⟨credits, h⟩
    unfold estimateSearchCredits at h
    obtain ⟨limit, hlimit, h⟩ := bind_eq_ok.1 h
    obtain ⟨tenths, htenths, h⟩ := bind_eq_ok.1 h
    have hreads := limitReads_of_intValue hlimit
    obtain rfl : _ = limit := Except.ok.inj ((intValue_eq payload 10 hreads).symm.trans hlimit)
    refine ⟨hreads, ?_⟩
    rcases ceilTenth_spec (le_max_left 1 ((givenLimit payload).getD 10)) with
      ⟨hlt, -⟩ | ⟨-, herror⟩
    · exact hlt
    · rw [herror] at htenths
      cases htenths
  · rintro ⟨hreads, hlt⟩
    obtain ⟨-, tenths, htenths, -⟩ | ⟨hle, -⟩ :=
      ceilTenth_spec (le_max_left 1 ((givenLimit payload).getD 10))
    · unfold estimateSearchCredits
      rw [intValue_eq payload 10 hreads]
      simp only [bind, Except.bind, htenths]
      split <;> exact ⟨_, rfl⟩
    · omega

/-- **Admission estimates are total and positive** exactly for the requests that are estimable. -/
theorem estimate_positive_iff (endpoint : String) (payload : JsonObject) :
    (∃ credits, estimateCredits endpoint payload none = .ok credits ∧ 1 ≤ credits) ↔
      Estimable endpoint payload := by
  have hpositive : (∃ credits, estimateCredits endpoint payload none = .ok credits ∧ 1 ≤ credits) ↔
      ∃ credits, estimateFromPayload endpoint payload = .ok credits :=
    ⟨fun ⟨credits, h, _⟩ => ⟨credits, h⟩,
      fun ⟨credits, h⟩ => ⟨credits, h, one_le_of_estimateFromPayload h⟩⟩
  have hiff : Estimable endpoint payload ↔
      (endpoint = "crawl" ∨ endpoint = "search" → LimitReads payload) ∧
        (endpoint = "search" → ∀ limit ∈ givenLimit payload, limit < tooLarge) :=
    ⟨fun h => ⟨h.reads, h.small⟩, fun h => ⟨h.1, h.2⟩⟩
  rw [hpositive, hiff, estimateFromPayload]
  by_cases hscrape : endpoint = "scrape"
  · subst hscrape
    exact iff_of_true ⟨_, if_pos rfl⟩
      ⟨fun h => absurd h (by decide), fun h => absurd h (by decide)⟩
  by_cases hmap : endpoint = "map"
  · subst hmap
    exact iff_of_true ⟨1, rfl⟩ ⟨fun h => absurd h (by decide), fun h => absurd h (by decide)⟩
  rw [if_neg hscrape, if_neg hmap]
  by_cases hsearch : endpoint = "search"
  · subst hsearch
    rw [if_pos rfl, estimateSearchCredits_isOk_iff]
    constructor
    · rintro ⟨hreads, hsmall⟩
      exact ⟨fun _ => hreads, fun _ => hsmall⟩
    · rintro ⟨hreads, hsmall⟩
      exact ⟨hreads (Or.inr rfl), hsmall rfl⟩
  rw [if_neg hsearch]
  by_cases hcrawl : endpoint = "crawl"
  · subst hcrawl
    rw [if_pos rfl]
    constructor
    · rintro ⟨credits, h⟩
      obtain ⟨limit, hlimit, -⟩ := map_eq_ok.1 h
      exact ⟨fun _ => limitReads_of_intValue hlimit, fun h => absurd h (by decide)⟩
    · rintro ⟨hreads, -⟩
      rw [intValue_eq payload 1 (hreads (Or.inl rfl))]
      exact ⟨_, rfl⟩
  rw [if_neg hcrawl]
  refine iff_of_true ?_ ⟨fun h => absurd h (by simp [hcrawl, hsearch]), fun h => absurd h hsearch⟩
  split_ifs <;> exact ⟨_, rfl⟩

theorem tooLarge_le : tooLarge ≤ 10 ^ 400 := by
  have hbits : 2 ^ 1024 ≤ 2 ^ (3 * 399) := pow_le_pow_right₀ one_le_two (by decide)
  have hdigits : (2 ^ 3) ^ 399 ≤ 10 ^ 399 := Nat.pow_le_pow_left (by decide) 399
  rw [pow_mul] at hbits
  have hle : 2 ^ 1024 - 2 ^ 970 ≤ 10 ^ 399 := (Nat.sub_le _ _).trans (hbits.trans hdigits)
  exact (Nat.mul_le_mul_left 10 hle).trans_eq (pow_succ' 10 399).symm

/-- The limit of a crawl is a word, and the limit of a search has four hundred digits. -/
theorem estimate_raises :
    estimateCredits "crawl" [("limit", .str "ten")] none = .error .valueError ∧
    estimateCredits "search" [("limit", .int (10 ^ 400))] none = .error .overflowError ∧
    ¬ ∀ endpoint payload,
      ∃ credits, estimateCredits endpoint payload none = .ok credits ∧ 1 ≤ credits := by
  have hlimit : intValue (JsonObject.get [("limit", .int (10 ^ 400))] "limit") 10 =
      .ok (10 ^ 400) := rfl
  have hpos : (1 : ℤ) ≤ 10 ^ 400 := one_le_pow₀ (by decide)
  have hlarge : (tooLarge : ℤ) ≤ 10 ^ 400 := by exact_mod_cast tooLarge_le
  have htenth : ceilTenth (10 ^ 400) = .error .overflowError := by
    rcases ceilTenth_spec hpos with ⟨hlt, -⟩ | ⟨-, herror⟩
    · exact absurd hlarge (not_le.2 hlt)
    · exact herror
  have hcrawl : estimateCredits "crawl" [("limit", .str "ten")] none = .error .valueError := rfl
  refine ⟨hcrawl, ?_, fun h => ?_⟩
  · rw [estimateCredits_none]
    change estimateSearchCredits _ = _
    unfold estimateSearchCredits
    rw [hlimit]
    simp only [bind, Except.bind, max_eq_right hpos, htenth]
  · obtain ⟨credits, hok, -⟩ := h "crawl" [("limit", .str "ten")]
    rw [hcrawl] at hok
    cases hok

end FirecrawlLb.Firecrawl.Estimates
