import FirecrawlLb.Firecrawl.Service
import Mathlib.Data.List.Infix

/-!
# The client of the upstream, and the reply to the caller

The client reads the body of an answer as JSON where the headers say so, and as text otherwise or
when the JSON is no object.  The reply carries the one or the other, in UTF-8, and for a text the
content type of the answer, in Latin-1.  The decoders are those of the HTTP library: `json()` may
refuse the content type or fail to decode, `text()` may fail to decode.
-/

namespace FirecrawlLb.Firecrawl.Client

open FirecrawlLb.Python FirecrawlLb.Firecrawl.Service

/-! ### The upstream and the HTTP library -/

/-- An HTTP answer, as it comes in. -/
structure HttpAnswer where
  status : ℤ
  headers : List (String × String)
  body : List UInt8

/-- What `json()` does. -/
inductive JsonResult where
  | value (v : Json)
  /-- `aiohttp.ContentTypeError` -/
  | contentTypeError
  /-- `json.JSONDecodeError` -/
  | decodeError

/-- The decoders of the HTTP library; `text` is none where it raises `UnicodeDecodeError`.  What
they decode may hold lone surrogates, which no Lean string does: a character of the library's choice
stands for them, and `encodable` tells the strings without one, those that UTF-8 encodes. -/
structure Http where
  json : HttpAnswer → JsonResult
  text : HttpAnswer → Option String
  encodable : String → Bool

/-- What a call of the client can raise. -/
inductive ClientError where
  /-- `aiohttp.ClientError`, or another error of the transport -/
  | transport
  | timeout
  | jsonDecodeError
  | unicodeDecodeError

/-- What comes of a request that is sent. -/
inductive Outcome where
  | answered (answer : HttpAnswer)
  | raised (e : ClientError)

/-! ### `FirecrawlClient.request` -/

/-- `_is_json_response`.  Beyond ASCII no letter lowers to one of the content type. -/
def isJsonResponse (headers : List (String × String)) : Bool :=
  let contentType := ((headers.lookup "content-type").filter (· ≠ "") <|>
    (headers.lookup "Content-Type").filter (· ≠ "")).getD ""
  "application/json".toList <:+: contentType.toList.map Char.toLower

variable (http : Http)

/-- The answer with its text; the status and the headers are kept. -/
def textResponse (answer : HttpAnswer) : Except ClientError FirecrawlUpstreamResponse :=
  match http.text answer with
  | some text => .ok { status := answer.status, headers := answer.headers, textBody := some text }
  | none => .error .unicodeDecodeError

/-- `FirecrawlClient.request`, from the moment the request is sent. -/
def request : Outcome → Except ClientError FirecrawlUpstreamResponse
  | .raised e => .error e
  | .answered answer =>
    if isJsonResponse answer.headers then
      match http.json answer with
      | .decodeError => .error .jsonDecodeError
      | .contentTypeError => textResponse http answer
      | .value (.obj body) =>
        .ok { status := answer.status, headers := answer.headers, jsonBody := some body }
      | .value _ => textResponse http answer
    else textResponse http answer

/-! ### The reply -/

mutual

/-- `JSONResponse` takes finite floats, and the keys and the strings that UTF-8 encodes. -/
def renders : Json → Bool
  | .float (.finite _) => true
  | .float _ => false
  | .str s => http.encodable s
  | .arr l => rendersList l
  | .obj items => rendersItems items
  | _ => true

def rendersList : List Json → Bool
  | [] => true
  | v :: l => renders v && rendersList l

def rendersItems : List (String × Json) → Bool
  | [] => true
  | (key, v) :: items => http.encodable key && renders v && rendersItems items

end

/-- What the caller gets; a text comes with its media type. -/
inductive Reply where
  | json (status : ℤ) (content : JsonObject)
  | text (status : ℤ) (content : String) (mediaType : Option String)

/-- `_response_media_type` -/
def responseMediaType (headers : List (String × String)) : Option String :=
  (headers.lookup "content-type").filter (· ≠ "") <|> headers.lookup "Content-Type"

/-- `s.encode("latin-1")` does not raise. -/
def latin1 (s : String) : Bool := http.encodable s && s.toList.all (·.toNat < 256)

/-- `_upstream_response`; none where rendering the body or the header raises. -/
def upstreamResponse (upstream : FirecrawlUpstreamResponse) : Option Reply :=
  match upstream.jsonBody with
  | some body => if renders http (.obj body) then some (.json upstream.status body) else none
  | none =>
    let mediaType := responseMediaType upstream.headers
    if upstream.textBody.all http.encodable && mediaType.all (latin1 http) then
      some (.text upstream.status (upstream.textBody.getD "") mediaType)
    else none

/-! ### What the client makes of an answer -/

/-- The JSON object the client reads in an answer. -/
def jsonBody (answer : HttpAnswer) : Option JsonObject :=
  if isJsonResponse answer.headers then
    match http.json answer with
    | .value (.obj body) => some body
    | _ => none
  else none

/-- The text it reads where there is no object. -/
def textBody (answer : HttpAnswer) : Option String :=
  match jsonBody http answer with
  | some _ => none
  | none => http.text answer

/-- The body can be decoded, as JSON where it is labelled so and as text where it is no object. -/
structure Readable (answer : HttpAnswer) : Prop where
  json : isJsonResponse answer.headers = true → http.json answer ≠ .decodeError
  text : jsonBody http answer = none → http.text answer ≠ none

/-- The answer can be given on: the object as `JSONResponse` renders it, or the text in UTF-8 and
its media type in Latin-1. -/
structure Renderable (answer : HttpAnswer) : Prop where
  json : ∀ body, jsonBody http answer = some body → renders http (.obj body) = true
  text : ∀ text, textBody http answer = some text → http.encodable text = true
  mediaType : jsonBody http answer = none →
    ∀ mediaType, responseMediaType answer.headers = some mediaType → latin1 http mediaType = true

/-- The reply has the status of the answer, and its body as the JSON object or the text it is. -/
def Relays (answer : HttpAnswer) : Reply → Prop
  | .json status content => status = answer.status ∧ http.json answer = .value (.obj content)
  | .text status content mediaType => status = answer.status ∧ http.text answer = some content ∧
      mediaType = responseMediaType answer.headers

section Answers

variable {http} {answer : HttpAnswer} {response : FirecrawlUpstreamResponse}

theorem textResponse_eq_ok : textResponse http answer = .ok response ↔ ∃ text,
    http.text answer = some text ∧ response =
      { status := answer.status, headers := answer.headers, textBody := some text } := by
  unfold textResponse
  cases http.text answer with
  | none => simp
  | some text => simp [eq_comm]

theorem request_cases (http : Http) (answer : HttpAnswer) :
    (∃ body, jsonBody http answer = some body ∧ http.json answer = .value (.obj body) ∧
      request http (.answered answer) =
        .ok { status := answer.status, headers := answer.headers, jsonBody := some body }) ∨
    (jsonBody http answer = none ∧ isJsonResponse answer.headers = true ∧
      http.json answer = .decodeError ∧
      request http (.answered answer) = .error .jsonDecodeError) ∨
    (jsonBody http answer = none ∧
      (isJsonResponse answer.headers = true → http.json answer ≠ .decodeError) ∧
      request http (.answered answer) = textResponse http answer) := by
  unfold jsonBody request
  by_cases hlabel : isJsonResponse answer.headers = true
  · simp only [if_pos hlabel]
    rcases hjson : http.json answer with v | _ | _
    · cases v with
      | obj body => exact Or.inl ⟨body, rfl, rfl, rfl⟩
      | _ => exact Or.inr (Or.inr ⟨rfl, fun _ => nofun, rfl⟩)
    · exact Or.inr (Or.inr ⟨rfl, fun _ => nofun, rfl⟩)
    · exact Or.inr (Or.inl ⟨rfl, hlabel, rfl, rfl⟩)
  · exact Or.inr (Or.inr ⟨if_neg hlabel, fun h => absurd h hlabel, if_neg hlabel⟩)

/-- **What the client returns for an answer.** -/
theorem request_eq_ok : request http (.answered answer) = .ok response ↔
    Readable http answer ∧ response = {
      status := answer.status
      headers := answer.headers
      jsonBody := jsonBody http answer
      textBody := textBody http answer } := by
  unfold textBody
  rcases request_cases http answer with
    ⟨body, hbody, hjson, hrequest⟩ | ⟨hbody, hlabel, hjson, hrequest⟩ | ⟨hbody, hjson, hrequest⟩ <;>
    rw [hrequest, hbody]
  · have hreadable : Readable http answer := ⟨by simp [hjson], by simp [hbody]⟩
    simp [hreadable, eq_comm]
  · constructor
    · intro h
      cases h
    · rintro ⟨hreadable, -⟩
      exact absurd hjson (hreadable.json hlabel)
  · rw [textResponse_eq_ok]
    constructor
    · rintro ⟨text, htext, rfl⟩
      exact ⟨⟨hjson, by simp [htext]⟩, by rw [htext]⟩
    · rintro ⟨hreadable, rfl⟩
      obtain ⟨text, htext⟩ := Option.ne_none_iff_exists'.1 (hreadable.text hbody)
      exact ⟨text, htext, by rw [htext]⟩

/-- **The reply to a readable answer relays it**, when it can be rendered. -/
theorem upstreamResponse_relays (h : Readable http answer) :
    let response : FirecrawlUpstreamResponse := {
      status := answer.status
      headers := answer.headers
      jsonBody := jsonBody http answer
      textBody := textBody http answer }
    (∃ reply, upstreamResponse http response = some reply ∧ Relays http answer reply) ↔
      Renderable http answer := by
  intro response
  rcases request_cases http answer with
    ⟨body, hbody, hjson, -⟩ | ⟨-, hlabel, hjson, -⟩ | ⟨hbody, -, -⟩
  · have hreply : upstreamResponse http response =
        if renders http (.obj body) then some (.json answer.status body) else none := by
      simp [upstreamResponse, response, hbody]
    have htext : textBody http answer = none := by rw [textBody, hbody]
    rw [hreply]
    constructor
    · rintro ⟨reply, hreply, -⟩
      refine ⟨fun body' hbody' => ?_, by simp [htext], by simp [hbody]⟩
      obtain rfl := Option.some.inj (hbody.symm.trans hbody')
      by_contra hnot
      rw [if_neg hnot] at hreply
      cases hreply
    · intro hrenders
      exact ⟨_, if_pos (hrenders.json body hbody), rfl, hjson⟩
  · -- a body that `json()` cannot decode is not readable
    exact absurd hjson (h.json hlabel)
  · obtain ⟨text, htext⟩ := Option.ne_none_iff_exists'.1 (h.text hbody)
    have htextBody : textBody http answer = some text := by rw [textBody, hbody, htext]
    have hreply : upstreamResponse http response =
        if http.encodable text && (responseMediaType answer.headers).all (latin1 http) then
          some (.text answer.status text (responseMediaType answer.headers))
        else none := by
      simp [upstreamResponse, response, hbody, htextBody]
    rw [hreply]
    constructor
    · rintro ⟨reply, hreply, -⟩
      split_ifs at hreply with hboth
      rw [Bool.and_eq_true, Option.all_eq_true] at hboth
      refine ⟨by simp [hbody], fun text' htext' => ?_, fun _ => hboth.2⟩
      obtain rfl := Option.some.inj (htextBody.symm.trans htext')
      exact hboth.1
    · intro hrenders
      have hboth : (http.encodable text &&
          (responseMediaType answer.headers).all (latin1 http)) = true := by
        rw [Bool.and_eq_true, Option.all_eq_true]
        exact ⟨hrenders.text text htextBody, hrenders.mediaType hbody⟩
      exact ⟨_, if_pos hboth, rfl, htext, rfl⟩

theorem renders_of_get {body : JsonObject} (h : renders http (.obj body) = true) (key : String) :
    renders http (body.get key) = true := by
  induction body with
  | nil => rfl
  | cons item body ih =>
    obtain ⟨name, v⟩ := item
    obtain ⟨⟨-, hv⟩, hbody⟩ : (http.encodable name = true ∧ renders http v = true) ∧
        renders http (.obj body) = true := by
      simpa only [renders, rendersItems, Bool.and_eq_true] using h
    rw [JsonObject.get, List.lookup_cons]
    split
    · exact hv
    · exact ih hbody

theorem encodable_of_renders {body : JsonObject} {key s : String}
    (h : renders http (.obj body) = true) (hs : body.get key = .str s) :
    http.encodable s = true := by
  have hitem := renders_of_get h key
  rwa [hs] at hitem

end Answers

end FirecrawlLb.Firecrawl.Client
