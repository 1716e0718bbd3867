import FirecrawlLb.Core.RequestDecompression
import FirecrawlLb.Core.RequestLocality
import FirecrawlLb.Python.Decimals

/-!
# Encoded requests

The middleware that decodes the bodies of requests.  It reads the encodings from the header,
decodes the body and writes the header fields anew, so that what comes after it sees the request as
if the client had not encoded the body.
-/

namespace FirecrawlLb.Core.DecodedRequests

open FirecrawlLb.Python FirecrawlLb.Core.ForwardedFor FirecrawlLb.Core.RequestDecompression
open FirecrawlLb.Core.RequestLocality (nonEmpty)

structure Settings where
  maxDecompressedBodyBytes : ℕ
  maxDecompressedResponsesBodyBytes : ℕ

structure Request where
  path : String
  headers : Headers
  /-- what `body()` returns, unless the client goes away -/
  body : Option Bytes
  deriving DecidableEq

inductive Outcome where
  /-- The request goes on to the application. -/
  | passed (request : Request)
  | answered (statusCode : ℕ) (code message : String)
  /-- `ClientDisconnect` -/
  | disconnected
  deriving DecidableEq

/-- The encodings that a header value lists. -/
def parseEncodings (contentEncoding : String) : List String :=
  ((split ',' contentEncoding).filter fun enc => strip enc ≠ "").map fun enc => lower (strip enc)

/-- `_max_decompressed_body_bytes_for_request` -/
def maxDecompressedBodyBytesForRequest (settings : Settings) (request : Request) : ℕ :=
  let path := (request.path.toList.reverse.dropWhile (· = '/')).reverse
  if "/v2/".toList.isPrefixOf path then
    max settings.maxDecompressedBodyBytes settings.maxDecompressedResponsesBodyBytes
  else settings.maxDecompressedBodyBytes

def replacedHeaders : List String := ["content-encoding", "content-length"]

/-- `_replace_request_body` -/
def replaceRequestBody (request : Request) (body : Bytes) : Request :=
  { request with
    body := some body
    headers := (request.headers.filter fun field => lower field.1 ∉ replacedHeaders) ++
      [("content-length", String.ofList (decimal body.length))] }

/-- `request_decompression_middleware` -/
def requestDecompressionMiddleware (codecs : Codecs) (settings : Settings) (request : Request) :
    Outcome :=
  match nonEmpty (request.headers.get "content-encoding") with
  | none => .passed request
  | some contentEncoding =>
    let encodings := parseEncodings contentEncoding
    if encodings = [] then .passed request
    else
      match request.body with
      | none => .disconnected
      | some body =>
        match decompressBody codecs body encodings
          (maxDecompressedBodyBytesForRequest settings request) with
        | .ok decompressed => .passed (replaceRequestBody request decompressed)
        | .error (.tooLarge _) =>
          .answered 413 "payload_too_large" "Request body exceeds the maximum allowed size"
        | .error .unsupported => .answered 400 "invalid_request" "Unsupported Content-Encoding"
        | .error .library =>
          .answered 400 "invalid_request" "Request body is compressed but could not be decompressed"

/-! ### Lists of encodings -/

section Encodings

variable {member encoding : String} {members encodings : List String}

/-- A member of the header value names the encoding, in any case and with any space around it. -/
structure Names (member encoding : String) : Prop where
  name : lower (strip member) = encoding
  named : strip member ≠ ""
  no_comma : ',' ∉ member.toList

theorem parseEncodings_append (value value' : String) : parseEncodings (value ++ "," ++ value') =
    parseEncodings value ++ parseEncodings value' := by
  have hchars : (value ++ "," ++ value').toList = value.toList ++ ',' :: value'.toList := by
    simp [String.toList_append]
  rw [parseEncodings, split, hchars, List.splitOn_append_cons_self, List.map_append,
    List.filter_append, List.map_append]
  rfl

theorem parseEncodings_singleton (h : Names member encoding) :
    parseEncodings member = [encoding] := by
  rw [parseEncodings, split, List.splitOn_eq_singleton h.no_comma, List.map_singleton,
    String.ofList_toList]
  simp [h.named, h.name]

/-- **The encodings of a list** are those its members name. -/
theorem parseEncodings_intercalate (h : List.Forall₂ Names members encodings)
    (hne : members ≠ []) : parseEncodings (",".intercalate members) = encodings := by
  induction h with
  | nil => exact absurd rfl hne
  | @cons member encoding members encodings hmember hrest ih =>
    cases members with
    | nil =>
      cases hrest
      simpa using parseEncodings_singleton hmember
    | cons second members =>
      rw [String.intercalate_cons_cons, parseEncodings_append, parseEncodings_singleton hmember,
        ih (List.cons_ne_nil _ _), List.singleton_append]

end Encodings

/-! ### What the application sees -/

section Delivery

variable {codecs : Codecs} {formats : Formats} {settings : Settings} {request request' : Request}
  {content data : Bytes} {members encodings : List String} {layers : List (String × Bytes)}

/-- The application sees the request with this body: its length is the one length field, no field
tells of an encoding, and all else is as the client sent it. -/
structure Delivered (request : Request) (content : Bytes) (request' : Request) : Prop where
  path : request'.path = request.path
  body : request'.body = some content
  contentLength : request'.headers.filter (fun field => lower field.1 = "content-length") =
    [("content-length", String.ofList (decimal content.length))]
  contentEncoding : ∀ field ∈ request'.headers, lower field.1 ≠ "content-encoding"
  others : request'.headers.filter (fun field => lower field.1 ∉ replacedHeaders) =
    request.headers.filter fun field => lower field.1 ∉ replacedHeaders

theorem lower_contentLength : lower "content-length" = "content-length" := by decide

theorem lower_contentEncoding : lower "content-encoding" = "content-encoding" := by decide

theorem delivered_replaceRequestBody (request : Request) (content : Bytes) :
    Delivered request content (replaceRequestBody request content) where
  path := rfl
  body := rfl
  contentLength := by
    have hrest : (request.headers.filter fun field => lower field.1 ∉ replacedHeaders).filter
        (fun field => lower field.1 = "content-length") = [] := by
      rw [List.filter_filter, List.filter_eq_nil_iff]
      intro field _ hboth
      obtain ⟨hlength, hother⟩ := Bool.and_eq_true_iff.1 hboth
      have hmem : lower field.1 ∈ replacedHeaders := by
        rw [of_decide_eq_true hlength]
        decide
      exact of_decide_eq_true hother hmem
    rw [replaceRequestBody, List.filter_append, hrest, List.nil_append,
      List.filter_singleton, lower_contentLength]
    rfl
  contentEncoding := fun field hfield => by
    rcases List.mem_append.1 hfield with hfield | hfield
    · have hother := of_decide_eq_true (List.mem_filter.1 hfield).2
      exact fun heq => hother (by rw [heq]; decide)
    · obtain rfl := List.mem_singleton.1 hfield
      rw [lower_contentLength]
      decide
  others := by
    rw [replaceRequestBody, List.filter_append, List.filter_filter, List.filter_singleton,
      lower_contentLength]
    simp [replacedHeaders]

theorem passed_of_no_encoding (h : ∀ field ∈ request.headers, lower field.1 ≠ "content-encoding") :
    requestDecompressionMiddleware codecs settings request = .passed request := by
  have hnone : request.headers.get "content-encoding" = none := by
    refine List.lookup_eq_none_iff.2 fun field hfield => ?_
    refine bne_iff_ne.2 fun heq => h field hfield ?_
    rw [← heq, lower_contentEncoding]
  rw [requestDecompressionMiddleware, hnone]
  rfl

/-- **An encoded request is delivered.** -/
theorem encoded_request_delivered (h : codecs.Decode formats)
    (hmembers : List.Forall₂ Names members encodings) (hne : members ≠ [])
    (hheader : request.headers.get "content-encoding" = some (",".intercalate members))
    (hbody : request.body = some data) (hdata : Encoded formats encodings content data layers) :
    ((∀ layer ∈ layers, Passes (maxDecompressedBodyBytesForRequest settings request) layer) →
      ∃ request', requestDecompressionMiddleware codecs settings request = .passed request' ∧
        Delivered request content request' ∧
        requestDecompressionMiddleware codecs settings request' = .passed request') ∧
    (¬ (∀ layer ∈ layers, Passes (maxDecompressedBodyBytesForRequest settings request) layer) →
      requestDecompressionMiddleware codecs settings request =
        .answered 413 "payload_too_large" "Request body exceeds the maximum allowed size") := by
  have hparse := parseEncodings_intercalate hmembers hne
  have hencodings : encodings ≠ [] := fun heq => by
    rw [heq] at hmembers
    exact hne (List.forall₂_nil_right_iff.1 hmembers)
  have hvalue : ",".intercalate members ≠ "" := fun heq => by
    rw [heq] at hparse
    exact hencodings hparse.symm
  have hsome : nonEmpty (some (",".intercalate members)) = some (",".intercalate members) := by
    simp [nonEmpty, hvalue]
  simp only [requestDecompressionMiddleware, hheader, hsome, hparse, hencodings, if_false, hbody,
    decompressBody_eq h hdata]
  constructor
  · intro hpass
    have hdelivered := delivered_replaceRequestBody request content
    rw [if_pos hpass]
    exact ⟨_, rfl, hdelivered, passed_of_no_encoding hdelivered.contentEncoding⟩
  · intro hpass
    rw [if_neg hpass]

/-- A body that is deflated and then zipped, with room for it and without. -/
theorem encoded_request_delivered_sample :
    let members := ["Deflate", "\tGZIP "]
    let request : Request := ⟨"/v2/scrape/",
      [("content-length", "29"), ("content-encoding", ",".intercalate members), ("host", "lb")],
      some sampleGzip⟩
    (∃ request',
      requestDecompressionMiddleware sampleCodecs ⟨4, 9⟩ request = .passed request' ∧
      Delivered request [0x61] request') ∧
    requestDecompressionMiddleware sampleCodecs ⟨4, 8⟩ request =
      .answered 413 "payload_too_large" "Request body exceeds the maximum allowed size" := by
  intro members request
  have hmembers : List.Forall₂ Names members ["deflate", "gzip"] :=
    .cons ⟨by decide, by decide, by decide⟩ (.cons ⟨by decide, by decide, by decide⟩ .nil)
  have hdata : Encoded sampleFormats ["deflate", "gzip"] [0x61] sampleGzip
      [("deflate", [0x61]), ("gzip", sampleZlib)] :=
    .cons (Or.inr (Or.inl ⟨rfl, rfl, rfl⟩)) (.cons (Or.inl ⟨rfl, rfl, rfl⟩) (.nil _))
  have hdelivered (settings : Settings) :=
    @encoded_request_delivered _ _ settings request _ _ _ _ _ decode_sampleCodecs hmembers
      (List.cons_ne_nil _ _) rfl rfl hdata
  obtain ⟨request', hpassed, hsees, -⟩ := (hdelivered ⟨4, 9⟩).1 (by decide)
  exact ⟨⟨request', hpassed, hsees⟩, (hdelivered ⟨4, 8⟩).2 (by decide)⟩

end Delivery

end FirecrawlLb.Core.DecodedRequests
