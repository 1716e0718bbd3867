import FirecrawlLb.Firecrawl.Estimates
import Mathlib.Logic.Relation

/-!
# Asking for more

A request that asks for more is estimated at no less, and how its formats are spelled does not
count.  The estimates are compared through what they are made of: the limit, the number of sources
and of urls, and the credits of a scrape and of the scrape of a search result.
-/

namespace FirecrawlLb.Firecrawl.EstimateOrder

open FirecrawlLb.Lib FirecrawlLb.Python FirecrawlLb.Firecrawl.Usage FirecrawlLb.Firecrawl.Estimates
open Relation

/-! ### Requests -/

/-- The payloads read the same but for one key. -/
def SameBut (key : String) (p p' : JsonObject) : Prop := ∀ k ≠ key, p'.get k = p.get k

/-- A field is a list; a missing one counts as the empty list. -/
def ListField (p : JsonObject) (key : String) (l : List Json) : Prop :=
  p.get key = .arr l ∨ p.get key = .null ∧ l = []

/-- A limit that is given is an int of at most `2 ^ 53`. -/
def SmallLimit (p : JsonObject) : Prop :=
  (∀ s, p.get "limit" ≠ .str s) ∧ ∀ i, p.get "limit" = .int i → i ≤ 2 ^ 53

/-- A scrape asks for more: it has more formats, or one of its two options is set. -/
inductive ScrapesMore (p p' : JsonObject) : Prop
  | formats {l l' : List Json} (hsame : SameBut "formats" p p') (hl : ListField p "formats" l)
      (hl' : ListField p' "formats" l') (hadded : l.Sublist l')
  | onlyCleanContent (hsame : SameBut "onlyCleanContent" p p')
      (hset : (p.get "onlyCleanContent").truthy → (p'.get "onlyCleanContent").truthy)
  | actions (hsame : SameBut "actions" p p')
      (hset : (p.get "actions").truthy → (p'.get "actions").truthy)

/-- **One way of asking for more.** -/
inductive AsksMore (p p' : JsonObject) : Prop
  | limit {i j : ℤ} (hsame : SameBut "limit" p p') (hi : p.get "limit" = .int i)
      (hj : p'.get "limit" = .int j) (hraised : i ≤ j) (hsmall : j ≤ 2 ^ 53)
  | sources {l added : List Json} (hsame : SameBut "sources" p p')
      (hl : ListField p "sources" l) (hl' : ListField p' "sources" (l ++ added))
  | urls {l added : List Json} (hsame : SameBut "urls" p p')
      (hl : ListField p "urls" l) (hl' : ListField p' "urls" (l ++ added))
  | scrape (h : ScrapesMore p p')
  | scrapeOptions {o : JsonObject} (hsame : SameBut "scrapeOptions" p p')
      (hnone : (p.get "scrapeOptions").obj? = none) (hadded : p'.get "scrapeOptions" = .obj o)
  | inScrapeOptions {o o' : JsonObject} (hsame : SameBut "scrapeOptions" p p')
      (ho : p.get "scrapeOptions" = .obj o) (ho' : p'.get "scrapeOptions" = .obj o')
      (h : ScrapesMore o o')

/-- One way of spelling a list of formats differently. -/
inductive SpelledAs : List Json → List Json → Prop
  | permuted {l l' : List Json} (h : l.Perm l') : SpelledAs l l'
  | duplicated {l : List Json} {item : Json} (h : item ∈ l) : SpelledAs l (item :: l)
  | asObject (s : String) (before after : List Json) :
      SpelledAs (before ++ .str s :: after) (before ++ .obj [("type", .str s)] :: after)

/-- The formats of a scrape are spelled differently. -/
structure FormatsSpelledAs (p p' : JsonObject) : Prop where
  same : SameBut "formats" p p'
  spelled : ∃ l l', p.get "formats" = .arr l ∧ p'.get "formats" = .arr l' ∧ SpelledAs l l'

/-- **One way of spelling a request differently**: its own formats, or those of its scrape
options. -/
inductive RequestSpelledAs (p p' : JsonObject) : Prop
  | scrape (h : FormatsSpelledAs p p')
  | inScrapeOptions {o o' : JsonObject} (hsame : SameBut "scrapeOptions" p p')
      (ho : p.get "scrapeOptions" = .obj o) (ho' : p'.get "scrapeOptions" = .obj o')
      (h : FormatsSpelledAs o o')

/-! ### What an estimate is made of -/

variable {p p' q : JsonObject} {endpoint : String} {dflt limit : ℤ}

def limitOr (p : JsonObject) (dflt : ℤ) : ℤ := max 1 ((givenLimit p).getD dflt)

def sourceCount (p : JsonObject) : ℤ :=
  max 1 (((p.get "sources").seq?.map fun l => (l.length : ℤ)).getD 1)

def urlCount (p : JsonObject) : ℤ :=
  max 1 (((p.get "urls").seq?.map fun l => (l.length : ℤ)).getD 0)

/-- What a search reserves for the scrape of one result. -/
def resultPrice (p : JsonObject) : ℤ :=
  ((p.get "scrapeOptions").obj?.map estimateScrapeCredits).getD 0

theorem resultPrice_nonneg (p : JsonObject) : 0 ≤ resultPrice p := by
  unfold resultPrice
  cases (p.get "scrapeOptions").obj? with
  | none => exact le_rfl
  | some o => exact zero_le_one.trans (one_le_estimateScrapeCredits o)

theorem ceilTenth_eq (hpos : 1 ≤ limit) (hsmall : limit ≤ 2 ^ 53) :
    ceilTenth limit = .ok ((limit + 9) / 10) := by
  obtain ⟨n, rfl⟩ := Int.eq_ofNat_of_zero_le (zero_le_one.trans hpos)
  have hn : n ≠ 0 := by omega
  have hbit : lastBit n 10 ≤ -3 := by
    unfold lastBit
    split_ifs with hle
    · have hlog : Nat.log 2 (n / 10) < 50 := by
        refine Nat.log_lt_of_lt_pow (by omega) ?_
        omega
      omega
    · omega
  have hscale : 10 < 2 * dividendScale n 10 := by
    have hpow : 2 ^ 3 ≤ 2 ^ (-lastBit n 10).toNat := Nat.pow_le_pow_right two_pos (by omega)
    rw [dividendScale]
    omega
  unfold ceilTenth
  rw [Int.toNat_natCast]
  cases hq : trueDiv n 10 with
  | none =>
    have hlarge : tooLarge ≤ n := (trueDiv_eq_none_iff (by decide)).1 hq
    have hbound : 2 ^ 53 < tooLarge := by
      have hpow : 2 ^ 53 ≤ 2 ^ 1023 := pow_le_pow_right₀ one_le_two (by decide)
      have hle := two_pow_le_overflow
      rw [tooLarge]
      omega
    omega
  | some q =>
    have hceil := ceil_trueDiv hn (by decide) (by omega) hscale hq
    have hcast : (((n + 10 - 1) / 10 : ℕ) : ℤ) = (n + 9) / 10 := by omega
    exact congrArg Except.ok (hceil.trans hcast)

theorem SmallLimit.reads (h : SmallLimit p) : LimitReads p := fun s hs => absurd hs (h.1 s)

theorem SmallLimit.limitOr_le (h : SmallLimit p) (hdflt : dflt ≤ 2 ^ 53) :
    limitOr p dflt ≤ 2 ^ 53 := by
  refine max_le (by decide) ?_
  unfold givenLimit
  split
  · rename_i i hi
    exact h.2 i hi
  · rename_i s hs
    exact absurd hs (h.1 s)
  · exact hdflt

/-- **The estimate of a search.** -/
theorem estimateSearchCredits_eq (h : SmallLimit p) : estimateSearchCredits p =
    .ok (2 * ((limitOr p 10 + 9) / 10) * sourceCount p + limitOr p 10 * resultPrice p) := by
  have htenth : ceilTenth (max 1 ((givenLimit p).getD 10)) = .ok ((limitOr p 10 + 9) / 10) :=
    ceilTenth_eq (le_max_left _ _) (h.limitOr_le (by decide))
  unfold estimateSearchCredits
  rw [intValue_eq p 10 h.reads]
  simp only [bind, Except.bind, htenth]
  unfold resultPrice
  cases (p.get "scrapeOptions").obj? with
  | none => simp [pure, Except.pure, sourceCount]
  | some o => rfl

/-- What the request costs. -/
def price (endpoint : String) (p : JsonObject) : ℤ :=
  if endpoint = "scrape" then estimateScrapeCredits p
  else if endpoint = "map" then 1
  else if endpoint = "search" then
    2 * ((limitOr p 10 + 9) / 10) * sourceCount p + limitOr p 10 * resultPrice p
  else if endpoint = "crawl" then limitOr p 1
  else if endpoint = "batch_scrape" then urlCount p
  else 1

theorem estimateFromPayload_eq (h : SmallLimit p) (endpoint : String) :
    estimateFromPayload endpoint p = .ok (price endpoint p) := by
  unfold estimateFromPayload price
  rw [estimateSearchCredits_eq h, intValue_eq p 1 h.reads]
  split_ifs <;> rfl

/-! ### One request covers another -/

/-- **A request is estimated at no more than another, part by part.** -/
structure Covers (p p' : JsonObject) : Prop where
  small : SmallLimit p → SmallLimit p'
  limit : ∀ dflt, limitOr p dflt ≤ limitOr p' dflt
  sources : sourceCount p ≤ sourceCount p'
  urls : urlCount p ≤ urlCount p'
  scrape : estimateScrapeCredits p ≤ estimateScrapeCredits p'
  result : resultPrice p ≤ resultPrice p'

theorem Covers.refl (p : JsonObject) : Covers p p :=
  ⟨id, fun _ => le_rfl, le_rfl, le_rfl, le_rfl, le_rfl⟩

theorem Covers.trans (h : Covers p p') (h' : Covers p' q) : Covers p q where
  small := h'.small ∘ h.small
  limit dflt := (h.limit dflt).trans (h'.limit dflt)
  sources := h.sources.trans h'.sources
  urls := h.urls.trans h'.urls
  scrape := h.scrape.trans h'.scrape
  result := h.result.trans h'.result

/-- The price is made of the parts by sums and products of what is not negative. -/
theorem Covers.price_le (h : Covers p p') (endpoint : String) :
    price endpoint p ≤ price endpoint p' := by
  have hone : 1 ≤ limitOr p 10 := le_max_left _ _
  have hlimit := h.limit 10
  unfold price
  split_ifs
  · exact h.scrape
  · exact le_rfl
  · have hpages : 2 * ((limitOr p 10 + 9) / 10) ≤ 2 * ((limitOr p' 10 + 9) / 10) := by omega
    have hsources : 0 ≤ sourceCount p := zero_le_one.trans (le_max_left _ _)
    refine add_le_add (mul_le_mul hpages h.sources hsources (by omega)) ?_
    exact mul_le_mul hlimit h.result (resultPrice_nonneg p) (by omega)
  · exact h.limit 1
  · exact h.urls
  · exact le_rfl

/-- The keys a scrape is estimated from. -/
def scrapeKeys : List String := ["formats", "onlyCleanContent", "actions"]

theorem estimateScrapeCredits_congr (h : ∀ key ∈ scrapeKeys, p'.get key = p.get key) :
    estimateScrapeCredits p' = estimateScrapeCredits p := by
  unfold estimateScrapeCredits
  rw [h "formats" (by decide), h "onlyCleanContent" (by decide), h "actions" (by decide)]

/-- When one key changes, only the part it belongs to is to be compared. -/
theorem covers_of_sameBut {key : String} (hsame : SameBut key p p')
    (hlimit : key = "limit" →
      (SmallLimit p → SmallLimit p') ∧ ∀ dflt, limitOr p dflt ≤ limitOr p' dflt)
    (hsources : key = "sources" → sourceCount p ≤ sourceCount p')
    (hurls : key = "urls" → urlCount p ≤ urlCount p')
    (hscrape : key ∈ scrapeKeys → estimateScrapeCredits p ≤ estimateScrapeCredits p')
    (hresult : key = "scrapeOptions" → resultPrice p ≤ resultPrice p') : Covers p p' := by
  have hkept : ∀ k, key ≠ k → p'.get k = p.get k := fun k hne => hsame k hne.symm
  have hlimit' : (SmallLimit p → SmallLimit p') ∧ ∀ dflt, limitOr p dflt ≤ limitOr p' dflt := by
    by_cases hkey : key = "limit"
    · exact hlimit hkey
    · unfold SmallLimit limitOr givenLimit
      rw [hkept "limit" hkey]
      exact ⟨id, fun _ => le_rfl⟩
  refine ⟨hlimit'.1, hlimit'.2, ?_, ?_, ?_, ?_⟩
  · by_cases hkey : key = "sources"
    · exact hsources hkey
    · rw [sourceCount, sourceCount, hkept "sources" hkey]
  · by_cases hkey : key = "urls"
    · exact hurls hkey
    · rw [urlCount, urlCount, hkept "urls" hkey]
  · by_cases hkey : key ∈ scrapeKeys
    · exact hscrape hkey
    · exact (estimateScrapeCredits_congr fun k hk => hkept k fun h => hkey (h ▸ hk)).ge
  · by_cases hkey : key = "scrapeOptions"
    · exact hresult hkey
    · rw [resultPrice, resultPrice, hkept "scrapeOptions" hkey]

/-! ### More formats -/

/-- The formats of a list that cost a credit each. -/
def expensiveOf (l : List Json) : Finset String :=
  (l.filterMap formatName).toFinset ∩ expensiveScrapeFormats

/-- An empty list of formats is as cheap as the default. -/
theorem normalizedScrapeFormats_inter {key : String} {l : List Json} (h : ListField p key l) :
    normalizedScrapeFormats (p.get key) ∩ expensiveScrapeFormats = expensiveOf l := by
  have hdefault : ({"markdown"} : Finset String) ∩ expensiveScrapeFormats = ∅ := by decide
  unfold normalizedScrapeFormats expensiveOf
  rcases h with h | ⟨h, rfl⟩
  · rw [h]
    by_cases hempty : (l.filterMap formatName).toFinset = ∅
    · simp only [Json.seq?, hempty, if_true, hdefault, Finset.empty_inter]
    · simp only [Json.seq?, if_neg hempty]
  · rw [h]
    simp only [Json.seq?, hdefault, List.filterMap_nil, List.toFinset_nil, Finset.empty_inter]

theorem expensiveOf_subset {l l' : List Json} (h : l ⊆ l') : expensiveOf l ⊆ expensiveOf l' := by
  refine Finset.inter_subset_inter_right fun s hs => ?_
  rw [List.mem_toFinset] at hs ⊢
  exact List.filterMap_subset formatName h hs

theorem ScrapesMore.estimate_le (h : ScrapesMore p p') :
    estimateScrapeCredits p ≤ estimateScrapeCredits p' := by
  have hoption : ∀ b b' : Bool, (b → b') → (if b then (1 : ℤ) else 0) ≤ if b' then 1 else 0 := by
    decide
  unfold estimateScrapeCredits
  cases h with
  | formats hsame hl hl' hadded =>
    have hcard := Finset.card_le_card (expensiveOf_subset hadded.subset)
    rw [hsame "onlyCleanContent" (by decide), hsame "actions" (by decide),
      normalizedScrapeFormats_inter hl, normalizedScrapeFormats_inter hl']
    omega
  | onlyCleanContent hsame hset =>
    have hle := hoption _ _ hset
    rw [hsame "formats" (by decide), hsame "actions" (by decide)]
    omega
  | actions hsame hset =>
    have hle := hoption _ _ hset
    rw [hsame "formats" (by decide), hsame "onlyCleanContent" (by decide)]
    omega

theorem ScrapesMore.covers (h : ScrapesMore p p') : Covers p p' := by
  have hle := h.estimate_le
  obtain ⟨key, hkey, hsame⟩ : ∃ key ∈ scrapeKeys, SameBut key p p' := by
    cases h with
    | formats hsame => exact ⟨_, by decide, hsame⟩
    | onlyCleanContent hsame => exact ⟨_, by decide, hsame⟩
    | actions hsame => exact ⟨_, by decide, hsame⟩
  have hother : ∀ k ∉ scrapeKeys, key ≠ k := fun k hk h => hk (h ▸ hkey)
  exact covers_of_sameBut hsame (fun h => absurd h (hother _ (by decide)))
    (fun h => absurd h (hother _ (by decide))) (fun h => absurd h (hother _ (by decide)))
    (fun _ => hle) fun h => absurd h (hother _ (by decide))

/-! ### More of anything -/

theorem length_mono {key : String} {l added : List Json} {missing : ℤ} (hmissing : missing ≤ 1)
    (hl : ListField p key l) (hl' : ListField p' key (l ++ added)) :
    max 1 (((p.get key).seq?.map fun l => (l.length : ℤ)).getD missing) ≤
      max 1 (((p'.get key).seq?.map fun l => (l.length : ℤ)).getD missing) := by
  have hcount : ∀ {p : JsonObject} {l : List Json}, ListField p key l →
      max 1 (((p.get key).seq?.map fun l => (l.length : ℤ)).getD missing) =
        max 1 (l.length : ℤ) := by
    rintro p l (h | ⟨h, rfl⟩)
    · rw [h]
      rfl
    · rw [h]
      exact (max_eq_left hmissing).trans (by rfl)
  rw [hcount hl, hcount hl', List.length_append]
  omega

/-- **Asking for more covers what was asked for.** -/
theorem AsksMore.covers (h : AsksMore p p') : Covers p p' := by
  cases h with
  | limit hsame hi hj hraised hsmall =>
    have hsmall' : SmallLimit p' := by
      unfold SmallLimit
      rw [hj]
      exact ⟨nofun, fun k hk => Json.int.inj hk ▸ hsmall⟩
    have hle : ∀ dflt, limitOr p dflt ≤ limitOr p' dflt := fun dflt => by
      rw [limitOr, limitOr, givenLimit, givenLimit, hi, hj]
      exact max_le_max_left 1 hraised
    exact covers_of_sameBut hsame (fun _ => ⟨fun _ => hsmall', hle⟩)
      (fun h => absurd h (by decide)) (fun h => absurd h (by decide))
      (fun h => absurd h (by decide)) fun h => absurd h (by decide)
  | sources hsame hl hl' =>
    exact covers_of_sameBut hsame (fun h => absurd h (by decide))
      (fun _ => length_mono le_rfl hl hl') (fun h => absurd h (by decide))
      (fun h => absurd h (by decide)) fun h => absurd h (by decide)
  | urls hsame hl hl' =>
    exact covers_of_sameBut hsame (fun h => absurd h (by decide))
      (fun h => absurd h (by decide)) (fun _ => length_mono zero_le_one hl hl')
      (fun h => absurd h (by decide)) fun h => absurd h (by decide)
  | scrape h => exact h.covers
  | scrapeOptions hsame hnone hadded =>
    refine covers_of_sameBut hsame (fun h => absurd h (by decide)) (fun h => absurd h (by decide))
      (fun h => absurd h (by decide)) (fun h => absurd h (by decide)) fun _ => ?_
    exact le_of_eq_of_le (by rw [resultPrice, hnone]; rfl) (resultPrice_nonneg p')
  | inScrapeOptions hsame ho ho' h =>
    refine covers_of_sameBut hsame (fun h => absurd h (by decide)) (fun h => absurd h (by decide))
      (fun h => absurd h (by decide)) (fun h => absurd h (by decide)) fun _ => ?_
    rw [resultPrice, resultPrice, ho, ho']
    exact h.estimate_le

theorem covers_of_asksMore (h : ReflTransGen AsksMore p p') : Covers p p' := by
  induction h with
  | refl => exact .refl p
  | tail _ hstep ih => exact ih.trans hstep.covers

/-! ### Spellings -/

theorem SpelledAs.expensiveOf_eq {l l' : List Json} (h : SpelledAs l l') :
    expensiveOf l' = expensiveOf l := by
  unfold expensiveOf
  congr 1
  cases h with
  | permuted h => exact (List.toFinset_eq_of_perm _ _ (h.filterMap formatName)).symm
  | duplicated h =>
    ext s
    simp only [List.mem_toFinset, List.mem_filterMap, List.mem_cons, exists_eq_or_imp]
    exact or_iff_right_of_imp fun hs => ⟨_, h, hs⟩
  | asObject s before after =>
    simp only [List.filterMap_append, List.filterMap_cons]
    rfl

theorem FormatsSpelledAs.estimate_eq (h : FormatsSpelledAs p p') :
    estimateScrapeCredits p' = estimateScrapeCredits p := by
  obtain ⟨hsame, l, l', hl, hl', hspelled⟩ := h
  unfold estimateScrapeCredits
  rw [hsame "onlyCleanContent" (by decide), hsame "actions" (by decide),
    normalizedScrapeFormats_inter (Or.inl hl), normalizedScrapeFormats_inter (Or.inl hl'),
    hspelled.expensiveOf_eq]

theorem estimateFromPayload_congr (hlimit : p'.get "limit" = p.get "limit")
    (hsources : p'.get "sources" = p.get "sources") (hurls : p'.get "urls" = p.get "urls")
    (hscrape : estimateScrapeCredits p' = estimateScrapeCredits p)
    (hresult : (p'.get "scrapeOptions").obj?.map estimateScrapeCredits =
      (p.get "scrapeOptions").obj?.map estimateScrapeCredits) (endpoint : String) :
    estimateFromPayload endpoint p' = estimateFromPayload endpoint p := by
  have hsearch : estimateSearchCredits p' = estimateSearchCredits p := by
    unfold estimateSearchCredits estimateSearchScrapeReservation
    rw [hlimit, hsources]
    cases ho : (p.get "scrapeOptions").obj? with
    | none =>
      rw [ho, Option.map_none, Option.map_eq_none_iff] at hresult
      rw [hresult]
    | some o =>
      rw [ho, Option.map_some, Option.map_eq_some_iff] at hresult
      obtain ⟨o', ho', heq⟩ := hresult
      simp only [ho', heq]
  unfold estimateFromPayload
  rw [hlimit, hurls, hscrape, hsearch]

theorem RequestSpelledAs.estimate_eq (h : RequestSpelledAs p p') (endpoint : String) :
    estimateFromPayload endpoint p' = estimateFromPayload endpoint p := by
  cases h with
  | scrape h =>
    have hsame := h.same
    exact estimateFromPayload_congr (hsame _ (by decide)) (hsame _ (by decide))
      (hsame _ (by decide)) h.estimate_eq (by rw [hsame _ (by decide)]) endpoint
  | inScrapeOptions hsame ho ho' h =>
    refine estimateFromPayload_congr (hsame _ (by decide)) (hsame _ (by decide))
      (hsame _ (by decide)) ?_ ?_ endpoint
    · exact estimateScrapeCredits_congr fun k hk => hsame k fun h => absurd (h ▸ hk) (by decide)
    · rw [ho, ho']
      exact congrArg some h.estimate_eq

theorem estimate_eq_of_spelledAs (h : EqvGen RequestSpelledAs p p') (endpoint : String) :
    estimateFromPayload endpoint p' = estimateFromPayload endpoint p := by
  induction h with
  | rel p p' h => exact h.estimate_eq endpoint
  | refl p => rfl
  | symm p p' _ ih => exact ih.symm
  | trans p p' q _ _ ih ih' => exact ih'.trans ih

/-- **Asking for more never costs less, and spelling does not count**: whatever ways of asking for
more are taken one after the other, both requests have an estimate, and the estimate does not fall;
and however the formats are spelled, it is the same. -/
theorem estimate_mono (endpoint : String) (p : JsonObject) (hlimit : SmallLimit p) :
    (∀ p', ReflTransGen AsksMore p p' →
      ∃ credits credits', estimateCredits endpoint p none = .ok credits ∧
        estimateCredits endpoint p' none = .ok credits' ∧ credits ≤ credits') ∧
    ∀ p', EqvGen RequestSpelledAs p p' →
      estimateCredits endpoint p' none = estimateCredits endpoint p none := by
  constructor
  · intro p' hmore
    have hcovers := covers_of_asksMore hmore
    exact ⟨_, _, estimateFromPayload_eq hlimit endpoint,
      estimateFromPayload_eq (hcovers.small hlimit) endpoint, hcovers.price_le endpoint⟩
  · intro p' hspelled
    exact estimate_eq_of_spelledAs hspelled endpoint

/-- One result more needs a second page, and an expensive format may be named by an object. -/
theorem estimate_mono_sample :
    (∃ credits credits',
      estimateCredits "search" [("limit", .int 10), ("formats", .arr [.str "json"])] none =
        .ok credits ∧
      estimateCredits "search" [("limit", .int 11), ("formats", .arr [.str "json"])] none =
        .ok credits' ∧ credits ≤ credits') ∧
    estimateCredits "search"
        [("limit", .int 10), ("formats", .arr [.obj [("type", .str "json")]])] none =
      estimateCredits "search" [("limit", .int 10), ("formats", .arr [.str "json"])] none := by
  have hlimit : SmallLimit [("limit", .int 10), ("formats", .arr [.str "json"])] :=
    ⟨nofun, fun i hi => by cases hi; decide⟩
  obtain ⟨hmore, hspelled⟩ := estimate_mono "search" _ hlimit
  refine ⟨hmore _ (.single (.limit (i := 10) (j := 11) ?_ rfl rfl (by decide) (by decide))),
    hspelled _ (.rel _ _ (.scrape ⟨?_, _, _, rfl, rfl, .asObject "json" [] []⟩))⟩
  · intro k hk
    simp [JsonObject.get, List.lookup_cons, beq_eq_false_iff_ne.2 hk]
  · intro k hk
    simp [JsonObject.get, List.lookup_cons, beq_eq_false_iff_ne.2 hk]

end FirecrawlLb.Firecrawl.EstimateOrder
