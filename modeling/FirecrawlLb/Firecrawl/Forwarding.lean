import FirecrawlLb.Firecrawl.Client
import FirecrawlLb.Firecrawl.Stored

/-!
# What the proxy forwards

The nine proxied routes go through three functions, up to the request of the client.  The method and
the payload are passed on.  A `dict` is made of the query of a POST, the query of a job operation is
dropped, and the job id is written into the URL as it is (`forwards_iff`).
-/

namespace FirecrawlLb.Firecrawl.Forwarding

open FirecrawlLb.Lib FirecrawlLb.Python FirecrawlLb.Db.Models FirecrawlLb.Firecrawl.Models
open FirecrawlLb.Firecrawl.Routing FirecrawlLb.Firecrawl.Repository FirecrawlLb.Firecrawl.Service
open FirecrawlLb.Firecrawl.Stored

/-! ### Requests -/

/-- The proxied routes. -/
inductive Route where
  | scrape
  | mapUrls
  | search
  | submitCrawl
  | submitBatchScrape
  | getCrawlJob (jobId : String)
  | getBatchScrapeJob (jobId : String)
  | cancelCrawlJob (jobId : String)
  | cancelBatchScrapeJob (jobId : String)

namespace Route

def method : Route → String
  | .scrape | .mapUrls | .search | .submitCrawl | .submitBatchScrape => "POST"
  | .getCrawlJob _ | .getBatchScrapeJob _ => "GET"
  | .cancelCrawlJob _ | .cancelBatchScrapeJob _ => "DELETE"

/-- The path of a request to the route, decoded. -/
def path : Route → String
  | .scrape => "/v2/scrape"
  | .mapUrls => "/v2/map"
  | .search => "/v2/search"
  | .submitCrawl => "/v2/crawl"
  | .submitBatchScrape => "/v2/batch/scrape"
  | .getCrawlJob jobId | .cancelCrawlJob jobId => "/v2/crawl/" ++ jobId
  | .getBatchScrapeJob jobId | .cancelBatchScrapeJob jobId => "/v2/batch/scrape/" ++ jobId

end Route

/-- A request to the proxy: the pairs of its query string, and what `request.json()` returns, none
where it raises. -/
structure ClientRequest where
  route : Route
  query : List (String × String) := []
  body : Option Json := none

/-- The arguments of `FirecrawlClient.request`. -/
structure ClientCall where
  method : String
  path : String
  apiKey : String
  json : Option JsonObject
  params : Option (List (String × String))

/-- How a request ends that does not reach the upstream. -/
inductive NotForwarded where
  /-- `request.json()` raises -/
  | invalidJson
  | httpException (statusCode : ℕ) (detail : String)
  | raised (e : Raised)

/-! ### Up to the request of the client -/

/-- `_string_query_params` -/
def stringQueryParams (queryParams : List (String × String)) : Option (List (String × String)) :=
  let params := (Dict.ofItems queryParams).items
  if params = [] then none else some params

/-- The payload of a POST: `request.json()`, if it is a `dict`. -/
def payloadOf (request : ClientRequest) : Except NotForwarded JsonObject :=
  match request.body with
  | none => .error .invalidJson
  | some (.obj payload) => .ok payload
  | some _ => .error (.httpException 400 "Firecrawl request body must be a JSON object")

section Calls

variable (env : Env) (db : Database) (now : ℤ)

/-- `proxy` and `submit_job`, up to the request of the client. -/
def postCall (p : Post) : Except Raised ClientCall := do
  let accounts ← listAccounts env db
  let selected ← selectAccount accounts p.endpoint p.payload (.utc now)
  return {
    method := "POST"
    path := p.path
    apiKey := selected.credential.apiKey
    json := some p.payload
    params := p.params }

/-- `proxy_job_operation`, up to the request of the client; none when there is no job to ask for. -/
def jobCall (endpoint upstreamPath upstreamJobId method : String) :
    Except Raised (Option ClientCall) := do
  match ← getJobRecord db endpoint upstreamJobId with
  | none => return none
  | some job =>
    match ← jobKey env db job with
    | none => return none
    | some apiKey => return some ⟨method, upstreamPath, apiKey, none, none⟩

/-- `_proxy_firecrawl_request` -/
def proxyFirecrawlRequest (endpoint : String) (request : ClientRequest) :
    Except NotForwarded ClientCall := do
  let payload ← payloadOf request
  (postCall env db now ⟨.proxy, endpoint, "/v2/" ++ endpoint, payload,
    stringQueryParams request.query⟩).mapError .raised

/-- `_submit_firecrawl_job` -/
def submitFirecrawlJob (endpoint path : String) (request : ClientRequest) :
    Except NotForwarded ClientCall := do
  let payload ← payloadOf request
  (postCall env db now ⟨.submitJob, endpoint, path, payload,
    stringQueryParams request.query⟩).mapError .raised

/-- `_proxy_firecrawl_job_operation` -/
def proxyFirecrawlJobOperation (endpoint path jobId method : String) :
    Except NotForwarded ClientCall := do
  match ← (jobCall env db endpoint path jobId method).mapError .raised with
  | none => .error (.httpException 404 "Firecrawl job not found")
  | some call => return call

/-- The handlers of the routes: the one request they make of the client, if they come to it. -/
def handle (request : ClientRequest) : Except NotForwarded ClientCall :=
  match request.route with
  | .scrape => proxyFirecrawlRequest env db now "scrape" request
  | .mapUrls => proxyFirecrawlRequest env db now "map" request
  | .search => proxyFirecrawlRequest env db now "search" request
  | .submitCrawl => submitFirecrawlJob env db now "crawl" "/v2/crawl" request
  | .submitBatchScrape =>
    submitFirecrawlJob env db now "batch_scrape" "/v2/batch/scrape" request
  | .getCrawlJob jobId =>
    proxyFirecrawlJobOperation env db "crawl" ("/v2/crawl/" ++ jobId) jobId "GET"
  | .getBatchScrapeJob jobId =>
    proxyFirecrawlJobOperation env db "batch_scrape" ("/v2/batch/scrape/" ++ jobId) jobId "GET"
  | .cancelCrawlJob jobId =>
    proxyFirecrawlJobOperation env db "crawl" ("/v2/crawl/" ++ jobId) jobId "DELETE"
  | .cancelBatchScrapeJob jobId =>
    proxyFirecrawlJobOperation env db "batch_scrape" ("/v2/batch/scrape/" ++ jobId) jobId "DELETE"

end Calls

/-! ### What the upstream receives -/

/-- The default of `FirecrawlClient`. -/
def baseUrl : String := "https://api.firecrawl.dev"

/-- The URL of `FirecrawlClient.request`. -/
def url (path : String) : String :=
  baseUrl ++ "/" ++ String.ofList (path.toList.dropWhile (· = '/'))

/-- A path that needs no quoting. -/
def Plain (path : String) : Prop :=
  path.toList.head? = some '/' ∧ ∀ c ∈ path.toList, c.isAlphanum = true ∨ c ∈ ['/', '-', '_']

/-- How the HTTP library reads a URL: the path, decoded, and the pairs of the query.  The path ends
where a query begins. -/
structure UrlReader where
  read : String → String × List (String × String)
  plain : ∀ path, Plain path → read (baseUrl ++ path) = (path, [])
  whole : ∀ path, (read (baseUrl ++ path)).1 = path → (read (baseUrl ++ path)).2 = []

structure UpstreamRequest where
  method : String
  path : String
  query : List (String × String)
  json : Option JsonObject

/-- The request of `session.request`: the params are added to the query of the URL. -/
def sent (reader : UrlReader) (call : ClientCall) : UpstreamRequest where
  method := call.method
  path := (reader.read (url call.path)).1
  query := (reader.read (url call.path)).2 ++ call.params.getD []
  json := call.json

/-- The upstream receives what the client of the proxy sent. -/
structure Forwards (reader : UrlReader) (request : ClientRequest) (call : ClientCall) : Prop where
  method : (sent reader call).method = request.route.method
  path : (sent reader call).path = request.route.path
  query : (sent reader call).query = request.query
  payload : request.route.method = "POST" →
    ∃ payload, request.body = some (.obj payload) ∧ (sent reader call).json = some payload

/-- The query of a POST names no parameter twice; a job operation has no query, and the library
reads the job id back from the URL. -/
def Kept (reader : UrlReader) (request : ClientRequest) : Prop :=
  if request.route.method = "POST" then (request.query.map Prod.fst).Nodup
  else request.query = [] ∧ (reader.read (url request.route.path)).1 = request.route.path

section Forward

variable {env : Env} {db : Database} {now : ℤ} {request : ClientRequest} {call : ClientCall}

theorem url_eq {path : String} (rest : List Char) (hpath : path.toList = '/' :: rest)
    (hrest : rest.head? ≠ some '/') : url path = baseUrl ++ path := by
  have hdrop : path.toList.dropWhile (· = '/') = rest := by
    rw [hpath, List.dropWhile_cons_of_pos (by decide)]
    cases rest with
    | nil => rfl
    | cons c cs => exact List.dropWhile_cons_of_neg (by simpa using hrest)
  have hslash : "/" ++ String.ofList rest = path := by
    rw [← String.toList_inj, String.toList_append, hpath, String.toList_ofList,
      String.toList_ofList]
    rfl
  rw [url, hdrop, String.append_assoc, hslash]

theorem url_path (route : Route) : url route.path = baseUrl ++ route.path := by
  cases route with
  | scrape | mapUrls | search | submitCrawl | submitBatchScrape =>
    exact url_eq _ rfl (by decide)
  | getCrawlJob jobId | cancelCrawlJob jobId =>
    exact url_eq ("v2/crawl/".toList ++ jobId.toList) String.toList_append (by simp)
  | getBatchScrapeJob jobId | cancelBatchScrapeJob jobId =>
    exact url_eq ("v2/batch/scrape/".toList ++ jobId.toList) String.toList_append (by simp)

theorem getD_stringQueryParams (query : List (String × String)) :
    (stringQueryParams query).getD [] = (Dict.ofItems query).items := by
  simp only [stringQueryParams]
  split_ifs with h
  · exact h.symm
  · rfl

theorem postCall_eq_ok {p : Post} (h : postCall env db now p = .ok call) :
    call.method = "POST" ∧ call.path = p.path ∧ call.json = some p.payload ∧
      call.params = p.params := by
  obtain ⟨accounts, -, h⟩ := bind_eq_ok.1 h
  obtain ⟨selected, -, h⟩ := bind_eq_ok.1 h
  obtain rfl := pure_eq_ok.1 h
  exact ⟨rfl, rfl, rfl, rfl⟩

theorem jobCall_eq_ok {endpoint path jobId method : String}
    (h : jobCall env db endpoint path jobId method = .ok (some call)) :
    call.method = method ∧ call.path = path ∧ call.params = none := by
  obtain ⟨job?, -, h⟩ := bind_eq_ok.1 h
  cases job? with
  | none => cases pure_eq_ok.1 h
  | some job =>
    obtain ⟨key?, -, h⟩ := bind_eq_ok.1 h
    cases key? with
    | none => cases pure_eq_ok.1 h
    | some apiKey =>
      obtain rfl := Option.some.inj (pure_eq_ok.1 h)
      exact ⟨rfl, rfl, rfl⟩

theorem payloadOf_eq_ok {payload : JsonObject} (h : payloadOf request = .ok payload) :
    request.body = some (.obj payload) := by
  unfold payloadOf at h
  split at h
  · cases h
  · rename_i hbody
    rw [hbody, Except.ok.inj h]
  · cases h

theorem forwardPost_eq_ok {post : JsonObject → Post}
    (h : (do
      let payload ← payloadOf request
      (postCall env db now (post payload)).mapError NotForwarded.raised) = .ok call) :
    ∃ payload, request.body = some (.obj payload) ∧ call.method = "POST" ∧
      call.path = (post payload).path ∧ call.json = some (post payload).payload ∧
      call.params = (post payload).params := by
  obtain ⟨payload, hpayload, h⟩ := bind_eq_ok.1 h
  exact ⟨payload, payloadOf_eq_ok hpayload, postCall_eq_ok (mapError_eq_ok.1 h)⟩

theorem forwardJobOperation_eq_ok {endpoint path jobId method : String}
    (h : proxyFirecrawlJobOperation env db endpoint path jobId method = .ok call) :
    call.method = method ∧ call.path = path ∧ call.params = none := by
  obtain ⟨call?, hcall, h⟩ := bind_eq_ok.1 h
  cases call? with
  | none => cases h
  | some call' =>
    obtain rfl := pure_eq_ok.1 h
    exact jobCall_eq_ok (mapError_eq_ok.1 hcall)

/-- **The request of the client**: the parts of the caller's request, but for the query. -/
theorem handle_eq_ok (h : handle env db now request = .ok call) :
    call.method = request.route.method ∧ call.path = request.route.path ∧
    ((request.route.method = "POST" ∧ call.params = stringQueryParams request.query ∧
      ∃ payload, request.body = some (.obj payload) ∧ call.json = some payload) ∨
    (request.route.method ≠ "POST" ∧ call.params = none)) := by
  unfold handle at h
  cases hroute : request.route with
  | scrape | mapUrls | search | submitCrawl | submitBatchScrape =>
    rw [hroute] at h
    obtain ⟨payload, hbody, hmethod, hpath, hjson, hparams⟩ := forwardPost_eq_ok h
    exact ⟨hmethod, hpath, Or.inl ⟨rfl, hparams, payload, hbody, hjson⟩⟩
  | getCrawlJob jobId | getBatchScrapeJob jobId | cancelCrawlJob jobId
  | cancelBatchScrapeJob jobId =>
    rw [hroute] at h
    obtain ⟨hmethod, hpath, hparams⟩ := forwardJobOperation_eq_ok h
    exact ⟨hmethod, hpath, Or.inr ⟨by simp [Route.method], hparams⟩⟩

/-- The test by which a list of characters is found to need no quoting. -/
theorem unquoted_of_all {cs : List Char}
    (h : (cs.all fun c => c.isAlphanum || ['/', '-', '_'].contains c) = true) :
    ∀ c ∈ cs, c.isAlphanum = true ∨ c ∈ ['/', '-', '_'] := by
  intro c hc
  have hc := List.all_eq_true.1 h c hc
  rwa [Bool.or_eq_true, List.contains_iff_mem] at hc

theorem plain_of_post {route : Route} (h : route.method = "POST") : Plain route.path := by
  cases route with
  | scrape | mapUrls | search | submitCrawl | submitBatchScrape =>
    exact ⟨rfl, unquoted_of_all (by decide)⟩
  | getCrawlJob | getBatchScrapeJob | cancelCrawlJob | cancelBatchScrapeJob =>
    simp [Route.method] at h

theorem read_jobId (reader : UrlReader) {route : Route} {pre jobId : String}
    (hpath : route.path = pre ++ jobId) (hpre : Plain pre)
    (hid : ∀ c ∈ jobId.toList, c.isAlphanum = true ∨ c ∈ ['/', '-', '_']) :
    (reader.read (url route.path)).1 = route.path := by
  have hplain : Plain route.path := by
    obtain ⟨hhead, hall⟩ := hpre
    rw [hpath, Plain, String.toList_append]
    exact ⟨by rw [List.head?_append, hhead]; rfl, List.forall_mem_append.2 ⟨hall, hid⟩⟩
  rw [url_path, reader.plain _ hplain]

/-- **What the proxy forwards** is what it was sent exactly when a POST names no query parameter
twice, and a job operation has no query and a job id that the URL gives back. -/
theorem forwards_iff (reader : UrlReader) (h : handle env db now request = .ok call) :
    Forwards reader request call ↔ Kept reader request := by
  obtain ⟨hmethod, hpath, hcall⟩ := handle_eq_ok h
  have hurl : url call.path = baseUrl ++ request.route.path := by rw [hpath, url_path]
  unfold Kept
  rcases hcall with ⟨hpost, hparams, payload, hbody, hjson⟩ | ⟨hjob, hparams⟩
  · have hread := reader.plain _ (plain_of_post hpost)
    have hquery : (sent reader call).query = (Dict.ofItems request.query).items := by
      simp [sent, hurl, hread, hparams, getD_stringQueryParams]
    rw [if_pos hpost, ← Dict.items_ofItems_eq_iff]
    constructor
    · intro hforwards
      rw [← hquery, hforwards.query]
    · intro hkept
      exact ⟨hmethod, by simp [sent, hurl, hread], hquery.trans hkept,
        fun _ => ⟨payload, hbody, hjson⟩⟩
  · rw [if_neg hjob, url_path]
    have hquery : (sent reader call).query =
        (reader.read (baseUrl ++ request.route.path)).2 := by
      simp [sent, hurl, hparams]
    have hsent : (sent reader call).path = (reader.read (baseUrl ++ request.route.path)).1 := by
      simp [sent, hurl]
    constructor
    · intro hforwards
      have hread := hsent.symm.trans hforwards.path
      exact ⟨by rw [← hforwards.query, hquery, reader.whole _ hread], hread⟩
    · rintro ⟨hnone, hread⟩
      exact ⟨hmethod, hsent.trans hread, by rw [hquery, reader.whole _ hread, hnone],
        fun hpost => absurd hpost hjob⟩

end Forward

/-! ### A library -/

/-- The path up to the query, and the pairs of the query, of a URL without percent signs. -/
def sampleRead (url : String) : String × List (String × String) :=
  let rest := url.toList.drop baseUrl.toList.length
  let path := rest.takeWhile (· ∉ ['?', '#'])
  let query := ((rest.drop path.length).takeWhile (· ≠ '#')).drop 1
  (String.ofList path, if query = [] then [] else (query.splitOn '&').map fun pair =>
    let name := pair.takeWhile (· ≠ '=')
    (String.ofList name, String.ofList (pair.drop (name.length + 1))))

theorem drop_baseUrl (path : String) :
    (baseUrl ++ path).toList.drop baseUrl.toList.length = path.toList := by
  rw [String.toList_append, List.drop_left]

theorem sampleRead_eq {path : String} (h : ∀ c ∈ path.toList, c ∉ ['?', '#']) :
    sampleRead (baseUrl ++ path) = (path, []) := by
  have hpath : path.toList.takeWhile (· ∉ ['?', '#']) = path.toList :=
    List.takeWhile_eq_self_iff.2 fun c hc => decide_eq_true (h c hc)
  simp only [sampleRead, drop_baseUrl]
  rw [hpath]
  simp

def sampleReader : UrlReader where
  read := sampleRead
  plain := by
    rintro path ⟨-, hplain⟩
    refine sampleRead_eq fun c hc hmark => ?_
    have hc := hplain c hc
    simp only [List.mem_cons, List.not_mem_nil, or_false] at hmark
    rcases hmark with rfl | rfl <;> exact absurd hc (by decide)
  whole := by
    intro path hwhole
    have hlist : path.toList.takeWhile (· ∉ ['?', '#']) = path.toList := by
      rw [← String.ofList_inj, String.ofList_toList, ← drop_baseUrl path]
      exact hwhole
    have hall : ∀ c ∈ path.toList, c ∉ ['?', '#'] := fun c hc =>
      of_decide_eq_true (List.takeWhile_eq_self_iff.1 hlist c hc)
    rw [sampleRead_eq hall]

/-- The database of the samples, and a crawl that was submitted there. -/
def sampleJobs : Database :=
  (after (sampleEnv .sqlite) (sampleState .sqlite) (submitCrawl 2)).store

/-- What is forwarded of the query, if the request comes to the upstream. -/
def forwardedQuery (request : ClientRequest) : Option (List (String × String)) :=
  (handle (sampleEnv .sqlite) sampleJobs 0 request).toOption.map fun call =>
    (sent sampleReader call).query

theorem exists_call {request : ClientRequest} {query : List (String × String)}
    (h : forwardedQuery request = some query) : ∃ call,
    handle (sampleEnv .sqlite) sampleJobs 0 request = .ok call ∧
    (sent sampleReader call).query = query := by
  obtain ⟨call, hcall, hquery⟩ := Option.map_eq_some_iff.1 h
  exact ⟨call, toOption_eq_some.1 hcall, hquery⟩

/-- Of a parameter that is named twice the upstream receives the last value, and of the query of a
poll nothing. -/
theorem not_forwards_sample :
    let scrape : ClientRequest := ⟨.scrape, [("tag", "a"), ("tag", "b")], some (.obj [])⟩
    let poll : ClientRequest := ⟨.getCrawlJob "job-1", [("skip", "10")], none⟩
    (∃ call, handle (sampleEnv .sqlite) sampleJobs 0 scrape = .ok call ∧
      (sent sampleReader call).query = [("tag", "b")] ∧ ¬ Forwards sampleReader scrape call) ∧
    ∃ call, handle (sampleEnv .sqlite) sampleJobs 0 poll = .ok call ∧
      (sent sampleReader call).query = [] ∧ ¬ Forwards sampleReader poll call := by
  intro scrape poll
  obtain ⟨call, hcall, hquery⟩ : ∃ call, _ := exists_call
    (show forwardedQuery scrape = some [("tag", "b")] by decide +kernel)
  obtain ⟨call', hcall', hquery'⟩ : ∃ call, _ := exists_call
    (show forwardedQuery poll = some [] by decide +kernel)
  refine ⟨⟨call, hcall, hquery, fun h => ?_⟩, call', hcall', hquery', fun h => ?_⟩
  · exact absurd (hquery.symm.trans h.query) (by decide)
  · exact absurd (hquery'.symm.trans h.query) (by decide)

/-- A crawl with two parameters, and a poll without a query, are forwarded as they are. -/
theorem forwards_sample :
    let crawl : ClientRequest := ⟨.submitCrawl, [("a", "1"), ("b", "")], some (.obj [])⟩
    let poll : ClientRequest := ⟨.getCrawlJob "job-1", [], none⟩
    (∃ call, handle (sampleEnv .sqlite) sampleJobs 0 crawl = .ok call ∧
      Forwards sampleReader crawl call) ∧
    ∃ call, handle (sampleEnv .sqlite) sampleJobs 0 poll = .ok call ∧
      Forwards sampleReader poll call := by
  intro crawl poll
  obtain ⟨call, hcall, -⟩ : ∃ call, _ := exists_call
    (show forwardedQuery crawl = some [("a", "1"), ("b", "")] by decide +kernel)
  obtain ⟨call', hcall', -⟩ : ∃ call, _ := exists_call
    (show forwardedQuery poll = some [] by decide +kernel)
  refine ⟨⟨call, hcall, (forwards_iff sampleReader hcall).2 ?_⟩,
    call', hcall', (forwards_iff sampleReader hcall').2 ?_⟩
  · exact (if_pos rfl).mpr (by decide)
  · exact (if_neg (by decide)).mpr
      ⟨rfl, read_jobId sampleReader rfl ⟨rfl, unquoted_of_all (by decide)⟩
        (unquoted_of_all (by decide))⟩

end FirecrawlLb.Firecrawl.Forwarding
