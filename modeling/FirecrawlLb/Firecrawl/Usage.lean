import FirecrawlLb.Python.Json
import Mathlib.Data.Finset.Card

/-!
# Credit estimates

The admission estimate of a request, and the credits an answer says were used.
-/

namespace FirecrawlLb.Firecrawl.Usage

open FirecrawlLb.Python

def expensiveScrapeFormats : Finset String :=
  {"json", "summary", "screenshot", "audio", "video", "question", "highlights"}

/-- `_response_credits_used`: `creditsUsed` of the answer, or of its `data`, when it is an int. -/
def responseCreditsUsed (responseJson : Option JsonObject) : Option ℤ :=
  match responseJson with
  | none => none
  | some response =>
    match (response.get "creditsUsed").plainInt? with
    | some credits => some credits
    | none => (response.get "data").obj?.bind fun data => (data.get "creditsUsed").plainInt?

/-- `_int_value`: an int as it is, a string through `int`, the default for everything else. -/
def intValue (value : Json) (dflt : ℤ) : Except Raised ℤ :=
  match value with
  | .int i => .ok i
  | .str s =>
    match intOfStr s with
    | some i => .ok i
    | none => .error .valueError
  | _ => .ok dflt

/-- The format an entry of `formats` names. -/
def formatName : Json → Option String
  | .str s => some s
  | .obj items => (JsonObject.get items "type").str?
  | _ => none

/-- `_normalized_scrape_formats` -/
def normalizedScrapeFormats (formats : Json) : Finset String :=
  match formats.seq? with
  | none => {"markdown"}
  | some items =>
    let normalized := (items.filterMap formatName).toFinset
    if normalized = ∅ then {"markdown"} else normalized

/-- `_estimate_scrape_credits` -/
def estimateScrapeCredits (payload : JsonObject) : ℤ :=
  1 + (normalizedScrapeFormats (payload.get "formats") ∩ expensiveScrapeFormats).card
    + (if (payload.get "onlyCleanContent").truthy then 1 else 0)
    + (if (payload.get "actions").truthy then 1 else 0)

/-- `_estimate_search_scrape_reservation` -/
def estimateSearchScrapeReservation (limit : ℤ) (scrapeOptions : JsonObject) : ℤ :=
  limit * estimateScrapeCredits scrapeOptions

/-- `ceil(limit / 10)` for `limit ≥ 1`. -/
def ceilTenth (limit : ℤ) : Except Raised ℤ :=
  match trueDiv limit.toNat 10 with
  | some q => .ok ⌈q⌉
  | none => .error .overflowError

/-- `_estimate_search_credits` -/
def estimateSearchCredits (payload : JsonObject) : Except Raised ℤ := do
  let limit := max 1 (← intValue (payload.get "limit") 10)
  let sourceCount : ℤ := max 1 (((payload.get "sources").seq?.map fun l => (l.length : ℤ)).getD 1)
  let credits := 2 * (← ceilTenth limit) * sourceCount
  match (payload.get "scrapeOptions").obj? with
  | some scrapeOptions => return credits + estimateSearchScrapeReservation limit scrapeOptions
  | none => return credits

/-- The estimate from the request alone. -/
def estimateFromPayload (endpoint : String) (payload : JsonObject) : Except Raised ℤ :=
  if endpoint = "scrape" then .ok (estimateScrapeCredits payload)
  else if endpoint = "map" then .ok 1
  else if endpoint = "search" then estimateSearchCredits payload
  else if endpoint = "crawl" then (intValue (payload.get "limit") 1).map (max 1 ·)
  else if endpoint = "batch_scrape" then
    .ok (max 1 (((payload.get "urls").seq?.map fun l => (l.length : ℤ)).getD 0))
  else .ok 1

/-- `estimate_credits`: what the answer says, else the estimate from the request. -/
def estimateCredits (endpoint : String) (payload : JsonObject) (responseJson : Option JsonObject) :
    Except Raised ℤ :=
  match responseCreditsUsed responseJson with
  | some credits => .ok credits
  | none => estimateFromPayload endpoint payload

@[simp] theorem estimateCredits_none (endpoint : String) (payload : JsonObject) :
    estimateCredits endpoint payload none = estimateFromPayload endpoint payload := rfl

theorem estimateCredits_isOk {endpoint : String} {payload : JsonObject} {estimate : ℤ}
    (h : estimateFromPayload endpoint payload = .ok estimate) (response : Option JsonObject) :
    ∃ credits, estimateCredits endpoint payload response = .ok credits := by
  unfold estimateCredits
  cases responseCreditsUsed response with
  | some credits => exact ⟨credits, rfl⟩
  | none => exact ⟨estimate, h⟩

end FirecrawlLb.Firecrawl.Usage
