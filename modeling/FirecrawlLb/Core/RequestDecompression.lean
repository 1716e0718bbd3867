import FirecrawlLb.Lib.Results
import Mathlib.Tactic.Cases

/-!
# The decompression of request bodies

The layers of a body are decoded one after the other, the last encoding first.  The decoder of each
encoding has its own loop that stops at the size limit: the one for `deflate` raises already when
the output has the limit's length, and `identity` is not decoded at all.  The libraries are
parameters, with what reading a stream of theirs promises (`limitHolds_iff`).
-/

namespace FirecrawlLb.Core.RequestDecompression

open FirecrawlLb.Lib

abbrev Bytes := List UInt8

/-! ### The libraries -/

/-- A stream reader, such as `gzip.GzipFile`; a read that raises gives none. -/
structure Readable where
  State : Type
  start : Bytes → State
  read : State → ℕ → Option (Bytes × State)

/-- `zlib`: a call with a limit puts out no more than the limit, and leaves no input unconsumed
unless it reaches the limit. -/
structure Zlib where
  State : Type
  decompressobj : State
  decompress : State → Bytes → ℕ → Option (Bytes × State)
  unconsumedTail : State → Bytes
  eof : State → Bool
  limited : ∀ {z chunk n piece z'}, decompress z chunk n = some (piece, z') → 0 < n →
    piece.length ≤ n
  consumed : ∀ {z chunk n piece z'}, decompress z chunk n = some (piece, z') → piece.length < n →
    unconsumedTail z' = []

structure Codecs where
  gzip : Readable
  zlib : Zlib
  /-- `ZstdDecompressor().decompress` with its `max_output_size` -/
  zstdDecompress : Bytes → ℕ → Option Bytes
  zstdStream : Readable

inductive DecompressError where
  /-- `_DecompressedBodyTooLarge` -/
  | tooLarge (maxSize : ℕ)
  /-- `ValueError("Unsupported content-encoding")` -/
  | unsupported
  /-- an exception of a library, or `zlib.error("Incomplete deflate stream")` -/
  | library

/-! ### The decoders -/

def chunkSize : ℕ := 64 * 1024

/-- The loop of `_read_limited`; `total` is the length of the buffer. -/
def readLoop {σ : Type} (read : σ → Option (Bytes × σ)) (maxSize : ℕ) (buffer : Bytes) (s : σ) :
    Except DecompressError Bytes :=
  match read s with
  | none => .error .library
  | some (chunk, s') =>
    if chunk = [] then .ok buffer
    else if maxSize < buffer.length + chunk.length then .error (.tooLarge maxSize)
    else readLoop read maxSize (buffer ++ chunk) s'
termination_by maxSize - buffer.length
decreasing_by
  rename_i hchunk htotal
  have hpos := List.length_pos_of_ne_nil hchunk
  rw [List.length_append]
  omega

/-- `_read_limited` -/
def readLimited (reader : Readable) (data : Bytes) (maxSize : ℕ) : Except DecompressError Bytes :=
  readLoop (reader.read · chunkSize) maxSize [] (reader.start data)

section Deflate

variable (lib : Zlib) (maxSize : ℕ)

/-- `while chunk` of `_decompress_deflate`. -/
def inflateChunk (z : lib.State) (buffer chunk : Bytes) :
    Except DecompressError (Bytes × lib.State) :=
  if chunk = [] then .ok (buffer, z)
  else if maxSize - buffer.length = 0 then .error (.tooLarge maxSize)
  else
    match hpiece : lib.decompress z chunk (maxSize - buffer.length) with
    | none => .error .library
    | some (piece, z') => inflateChunk z' (buffer ++ piece) (lib.unconsumedTail z')
termination_by 2 * (maxSize - buffer.length) + if chunk = [] then 0 else 1
decreasing_by
  -- a tail is left only when the piece has reached the limit
  rename_i hchunk hfull
  rw [if_neg hchunk, List.length_append]
  by_cases hlimit : piece.length < maxSize - buffer.length
  · rw [if_pos (lib.consumed hpiece hlimit)]
    omega
  · split_ifs <;> omega

/-- The loop of `_decompress_deflate` over the chunks of the data. -/
def inflateChunks (z : lib.State) (buffer data : Bytes) :
    Except DecompressError (Bytes × lib.State) :=
  if data = [] then .ok (buffer, z)
  else do
    let (buffer', z') ← inflateChunk lib maxSize z buffer (data.take chunkSize)
    inflateChunks z' buffer' (data.drop chunkSize)
termination_by data.length
decreasing_by
  rename_i hdata
  have hpos := List.length_pos_of_ne_nil hdata
  rw [List.length_drop, chunkSize]
  omega

/-- `while True` of `_decompress_deflate`. -/
def drain (z : lib.State) (buffer : Bytes) : Except DecompressError (Bytes × lib.State) :=
  if maxSize - buffer.length = 0 then .error (.tooLarge maxSize)
  else
    match lib.decompress z [] (maxSize - buffer.length) with
    | none => .error .library
    | some (drained, z') =>
      if drained = [] then .ok (buffer, z') else drain z' (buffer ++ drained)
termination_by maxSize - buffer.length
decreasing_by
  rename_i hfull hdrained
  have hpos := List.length_pos_of_ne_nil hdrained
  rw [List.length_append]
  omega

end Deflate

section Body

variable (codecs : Codecs)

/-- `_decompress_gzip` -/
def decompressGzip (data : Bytes) (maxSize : ℕ) : Except DecompressError Bytes :=
  readLimited codecs.gzip data maxSize

/-- `_decompress_deflate` -/
def decompressDeflate (data : Bytes) (maxSize : ℕ) : Except DecompressError Bytes := do
  let (buffer, z) ← inflateChunks codecs.zlib maxSize codecs.zlib.decompressobj [] data
  let (buffer, z) ← drain codecs.zlib maxSize z buffer
  if codecs.zlib.eof z then .ok buffer else .error .library

/-- `_decompress_zstd`: where the one call raises, the stream is read instead. -/
def decompressZstd (data : Bytes) (maxSize : ℕ) : Except DecompressError Bytes :=
  match codecs.zstdDecompress data maxSize with
  | some decompressed =>
    if maxSize < decompressed.length then .error (.tooLarge maxSize) else .ok decompressed
  | none => readLimited codecs.zstdStream data maxSize

def supported : List String := ["zstd", "gzip", "deflate", "identity"]

/-- The body of the loop of `_decompress_body`. -/
def decodeLayer (maxSize : ℕ) (encoding : String) (result : Bytes) :
    Except DecompressError Bytes :=
  if encoding = "zstd" then decompressZstd codecs result maxSize
  else if encoding = "gzip" then decompressGzip codecs result maxSize
  else if encoding = "deflate" then decompressDeflate codecs result maxSize
  else .ok result

/-- `_decompress_body` -/
def decompressBody (data : Bytes) (encodings : List String) (maxSize : ℕ) :
    Except DecompressError Bytes :=
  if encodings.any (· ∉ supported) then .error .unsupported
  else encodings.reverse.foldlM (fun result encoding => decodeLayer codecs maxSize encoding result)
    data

end Body

/-! ### What the libraries promise -/

/-- The reads put out the content, in chunks that are not empty before its end. -/
inductive Delivers {σ : Type} (read : σ → Option (Bytes × σ)) : σ → Bytes → Prop
  | eof {s s'} (h : read s = some ([], s')) : Delivers read s []
  | chunk {s s' chunk rest} (h : read s = some (chunk, s')) (hchunk : chunk ≠ [])
      (hrest : Delivers read s' rest) : Delivers read s (chunk ++ rest)

/-- A reader delivers the content of each stream of its format. -/
def Readable.Decodes (reader : Readable) (format : Bytes → Bytes → Prop) : Prop :=
  ∀ content data, format content data →
    Delivers (reader.read · chunkSize) (reader.start data) content

/-- How a decompression object goes through a stream of its format: in a state, with this input to
come, it has this output to give.  When there is neither it is at the end of the stream. -/
structure Inflation (lib : Zlib) (format : Bytes → Bytes → Prop) where
  Inflates : lib.State → Bytes → Bytes → Prop
  start : ∀ {content data}, format content data → Inflates lib.decompressobj data content
  step : ∀ {z chunk later out n}, Inflates z (chunk ++ later) out → 0 < n → ∃ piece z' out',
    lib.decompress z chunk n = some (piece, z') ∧ out = piece ++ out' ∧
    Inflates z' (lib.unconsumedTail z' ++ later) out'
  finish : ∀ {z z' out n}, Inflates z [] out → 0 < n → lib.decompress z [] n = some ([], z') →
    out = [] ∧ lib.eof z' = true

/-- The formats: which data is an encoding of which content. -/
structure Formats where
  gzip : Bytes → Bytes → Prop
  zlib : Bytes → Bytes → Prop
  zstd : Bytes → Bytes → Prop

/-- The libraries decode correctly. -/
structure Codecs.Decode (codecs : Codecs) (formats : Formats) : Prop where
  gzip : codecs.gzip.Decodes formats.gzip
  zlib : Nonempty (Inflation codecs.zlib formats.zlib)
  zstd : ∀ content data maxSize decompressed, formats.zstd content data →
    codecs.zstdDecompress data maxSize = some decompressed → decompressed = content
  zstdStream : codecs.zstdStream.Decodes formats.zstd

/-! ### The limit of a decoder -/

section Decoders

variable {maxSize : ℕ} {buffer content data : Bytes}

/-- **The loop over the reads** returns the content if it fits. -/
theorem readLoop_eq {σ : Type} {read : σ → Option (Bytes × σ)} {s : σ}
    (h : Delivers read s content) (hbuffer : buffer.length ≤ maxSize) :
    readLoop read maxSize buffer s =
      if buffer.length + content.length ≤ maxSize then .ok (buffer ++ content)
      else .error (.tooLarge maxSize) := by
  induction h generalizing buffer with
  | eof h =>
    rw [readLoop, h]
    simp [hbuffer]
  | @chunk s s' chunk rest h hchunk _ ih =>
    rw [readLoop, h]
    simp only [if_neg hchunk]
    by_cases htotal : maxSize < buffer.length + chunk.length
    · rw [if_pos htotal, if_neg (by rw [List.length_append]; omega)]
    · rw [if_neg htotal, ih (by rw [List.length_append]; omega)]
      simp only [List.length_append, List.append_assoc, Nat.add_assoc]

theorem readLimited_eq {reader : Readable} {format : Bytes → Bytes → Prop}
    (h : reader.Decodes format) (hdata : format content data) (maxSize : ℕ) :
    readLimited reader data maxSize =
      if content.length ≤ maxSize then .ok content else .error (.tooLarge maxSize) := by
  rw [readLimited, readLoop_eq (h content data hdata) (Nat.zero_le _)]
  simp

section Deflate

variable {lib : Zlib} {format : Bytes → Bytes → Prop} (I : Inflation lib format)
  {z : lib.State} {chunk later out : Bytes}

theorem inflateChunk_cases (h : I.Inflates z (chunk ++ later) out)
    (hbuffer : buffer.length ≤ maxSize) :
    (inflateChunk lib maxSize z buffer chunk = .error (.tooLarge maxSize) ∧
      maxSize ≤ buffer.length + out.length) ∨
    ∃ buffer' z' out', inflateChunk lib maxSize z buffer chunk = .ok (buffer', z') ∧
      buffer' ++ out' = buffer ++ out ∧ buffer'.length ≤ maxSize ∧ I.Inflates z' later out' := by
  fun_induction inflateChunk lib maxSize z buffer chunk generalizing out with
  | case1 z buffer => exact Or.inr ⟨buffer, z, out, rfl, rfl, hbuffer, h⟩
  | case2 z buffer chunk hchunk hfull => exact Or.inl ⟨rfl, by omega⟩
  | case3 z buffer chunk hchunk hfull hpiece =>
    obtain ⟨piece, z', out', hstep, -⟩ := I.step h (Nat.pos_of_ne_zero hfull)
    rw [hstep] at hpiece
    cases hpiece
  | case4 z buffer chunk hchunk hfull piece z' hpiece ih =>
    obtain ⟨piece, z', out', hstep, rfl, hnext⟩ := I.step h (Nat.pos_of_ne_zero hfull)
    obtain ⟨rfl, rfl⟩ := Prod.mk.inj (Option.some.inj (hpiece.symm.trans hstep))
    have hlimited := lib.limited hstep (Nat.pos_of_ne_zero hfull)
    rcases ih hnext (by rw [List.length_append]; omega) with ⟨herror, hlong⟩ | h'
    · refine Or.inl ⟨herror, ?_⟩
      simpa only [List.length_append, Nat.add_assoc] using hlong
    · simpa only [List.append_assoc] using Or.inr h'

theorem inflateChunks_cases (h : I.Inflates z data out) (hbuffer : buffer.length ≤ maxSize) :
    (inflateChunks lib maxSize z buffer data = .error (.tooLarge maxSize) ∧
      maxSize ≤ buffer.length + out.length) ∨
    ∃ buffer' z' out', inflateChunks lib maxSize z buffer data = .ok (buffer', z') ∧
      buffer' ++ out' = buffer ++ out ∧ buffer'.length ≤ maxSize ∧ I.Inflates z' [] out' := by
  fun_induction inflateChunks lib maxSize z buffer data generalizing out with
  | case1 z buffer => exact Or.inr ⟨buffer, z, out, rfl, rfl, hbuffer, h⟩
  | case2 z buffer data hdata ih =>
    rw [← List.take_append_drop chunkSize data] at h
    rcases inflateChunk_cases I h hbuffer with
      ⟨herror, hlong⟩ | ⟨buffer', z', out', hok, happend, hlength, hnext⟩
    · exact Or.inl ⟨by rw [herror]; rfl, hlong⟩
    · have htotal := congrArg List.length happend
      rw [List.length_append, List.length_append] at htotal
      rw [hok]
      rcases ih buffer' z' hnext hlength with ⟨herror, hlong⟩ | ⟨b, z'', o, hok', happend', h'⟩
      · exact Or.inl ⟨herror, by omega⟩
      · exact Or.inr ⟨b, z'', o, hok', happend'.trans happend, h'⟩

/-- **The rest of the output** is drained if it leaves room under the limit. -/
theorem drain_cases (h : I.Inflates z [] out) (hbuffer : buffer.length ≤ maxSize) :
    (drain lib maxSize z buffer = .error (.tooLarge maxSize) ∧
      maxSize ≤ buffer.length + out.length) ∨
    ∃ z', drain lib maxSize z buffer = .ok (buffer ++ out, z') ∧ lib.eof z' = true ∧
      buffer.length + out.length < maxSize := by
  have hnothing : ∀ {z out}, I.Inflates z [] out → I.Inflates z ([] ++ []) out := id
  fun_induction drain lib maxSize z buffer generalizing out with
  | case1 z buffer hfull => exact Or.inl ⟨rfl, by omega⟩
  | case2 z buffer hfull hpiece =>
    obtain ⟨piece, z', out', hstep, -⟩ := I.step (hnothing h) (Nat.pos_of_ne_zero hfull)
    rw [hstep] at hpiece
    cases hpiece
  | case3 z buffer hfull z' hpiece =>
    obtain ⟨rfl, heof⟩ := I.finish h (Nat.pos_of_ne_zero hfull) hpiece
    exact Or.inr ⟨z', by rw [List.append_nil], heof, by rw [List.length_nil]; omega⟩
  | case4 z buffer hfull drained z' hpiece hdrained ih =>
    obtain ⟨piece, z'', out', hstep, rfl, hnext⟩ := I.step (hnothing h) (Nat.pos_of_ne_zero hfull)
    obtain ⟨rfl, rfl⟩ := Prod.mk.inj (Option.some.inj (hpiece.symm.trans hstep))
    have hlimited := lib.limited hstep (Nat.pos_of_ne_zero hfull)
    by_cases hlimit : drained.length < maxSize - buffer.length
    · rw [lib.consumed hstep hlimit] at hnext
      rcases ih hnext (by rw [List.length_append]; omega) with ⟨herror, hlong⟩ | h'
      · refine Or.inl ⟨herror, ?_⟩
        simpa only [List.length_append, Nat.add_assoc] using hlong
      · simpa only [List.length_append, List.append_assoc, Nat.add_assoc] using Or.inr h'
    · refine Or.inl ⟨?_, by rw [List.length_append]; omega⟩
      rw [drain, if_pos (by rw [List.length_append]; omega)]

/-- **The decoder of `deflate`** returns the content only if it leaves room under the limit. -/
theorem decompressDeflate_eq {codecs : Codecs} (I : Inflation codecs.zlib format)
    (hdata : format content data) (maxSize : ℕ) : decompressDeflate codecs data maxSize =
      if content.length < maxSize then .ok content else .error (.tooLarge maxSize) := by
  have hempty : ([] : Bytes).length ≤ maxSize := Nat.zero_le _
  unfold decompressDeflate
  rcases inflateChunks_cases I (I.start hdata) hempty with
    ⟨herror, hlong⟩ | ⟨buffer, z, out, hok, rfl, hlength, hnext⟩
  · rw [herror, if_neg (by simpa using hlong)]
    rfl
  · rw [hok]
    rcases drain_cases I hnext hlength with ⟨herror, hlong⟩ | ⟨z', hok', heof, hshort⟩
    · rw [if_neg (by simpa using hlong)]
      simp only [bind, Except.bind, herror]
    · rw [if_pos (by simpa using hshort)]
      simp only [bind, Except.bind, hok', heof, if_true]

end Deflate

theorem decompressZstd_eq {codecs : Codecs} {formats : Formats} (h : codecs.Decode formats)
    (hdata : formats.zstd content data) (maxSize : ℕ) : decompressZstd codecs data maxSize =
      if content.length ≤ maxSize then .ok content else .error (.tooLarge maxSize) := by
  unfold decompressZstd
  cases hone : codecs.zstdDecompress data maxSize with
  | none => exact readLimited_eq h.zstdStream hdata maxSize
  | some decompressed =>
    rw [h.zstd _ _ _ _ hdata hone]
    by_cases hlength : content.length ≤ maxSize
    · rw [if_pos hlength]
      exact if_neg (Nat.not_lt.2 hlength)
    · rw [if_neg hlength]
      exact if_pos (Nat.not_le.1 hlength)

end Decoders

/-! ### The layers of a body -/

section Layers

variable {codecs : Codecs} {formats : Formats} {maxSize : ℕ} {encoding : String}
  {encodings : List String} {content data : Bytes} {layers : List (String × Bytes)}

/-- The data is an encoding of the content. -/
def Formats.Encodes (formats : Formats) (encoding : String) (content data : Bytes) : Prop :=
  (encoding = "gzip" ∧ formats.gzip content data) ∨
  (encoding = "deflate" ∧ formats.zlib content data) ∨
  (encoding = "zstd" ∧ formats.zstd content data) ∨ (encoding = "identity" ∧ data = content)

/-- The content is encoded with one encoding after the other; each has its decoded layer. -/
inductive Encoded (formats : Formats) : List String → Bytes → Bytes → List (String × Bytes) → Prop
  | nil (content : Bytes) : Encoded formats [] content content []
  | cons {encoding : String} {encodings : List String} {content layer data : Bytes}
      {layers : List (String × Bytes)}
      (h : formats.Encodes encoding content layer)
      (hrest : Encoded formats encodings layer data layers) :
      Encoded formats (encoding :: encodings) content data ((encoding, content) :: layers)

/-- The decoder of the encoding lets a layer of this length pass. -/
def Passes (maxSize : ℕ) (layer : String × Bytes) : Prop :=
  (layer.1 = "deflate" → layer.2.length < maxSize) ∧
  (layer.1 ≠ "identity" → layer.2.length ≤ maxSize)

instance : DecidablePred (Passes maxSize) := fun _ => by unfold Passes; infer_instance

theorem decodeLayer_eq (h : codecs.Decode formats) (hdata : formats.Encodes encoding content data)
    (maxSize : ℕ) : decodeLayer codecs maxSize encoding data =
      if Passes maxSize (encoding, content) then .ok content else .error (.tooLarge maxSize) := by
  obtain ⟨I⟩ := h.zlib
  rcases hdata with ⟨rfl, hdata⟩ | ⟨rfl, hdata⟩ | ⟨rfl, hdata⟩ | ⟨rfl, rfl⟩
  · simpa [decodeLayer, decompressGzip, Passes] using readLimited_eq h.gzip hdata maxSize
  · have hpasses : Passes maxSize ("deflate", content) ↔ content.length < maxSize := by
      simp [Passes]
      omega
    simpa [decodeLayer, hpasses] using decompressDeflate_eq I hdata maxSize
  · simpa [decodeLayer, Passes] using decompressZstd_eq h hdata maxSize
  · simp [decodeLayer, Passes]

theorem supported_of_encodes (h : formats.Encodes encoding content data) :
    encoding ∈ supported := by
  rcases h with ⟨rfl, -⟩ | ⟨rfl, -⟩ | ⟨rfl, -⟩ | ⟨rfl, -⟩ <;> decide

theorem supported_of_encoded (h : Encoded formats encodings content data layers) :
    ∀ encoding ∈ encodings, encoding ∈ supported := by
  induction h with
  | nil => simp
  | cons h _ ih => exact List.forall_mem_cons.2 ⟨supported_of_encodes h, ih⟩

/-- **Decoding** returns the content if every layer passes its decoder. -/
theorem decompressBody_eq (h : codecs.Decode formats)
    (hdata : Encoded formats encodings content data layers) (maxSize : ℕ) :
    decompressBody codecs data encodings maxSize =
      if ∀ layer ∈ layers, Passes maxSize layer then .ok content
      else .error (.tooLarge maxSize) := by
  have hsupported : encodings.any (· ∉ supported) = false := by
    simpa using supported_of_encoded hdata
  rw [decompressBody, hsupported]
  simp only [Bool.false_eq_true, if_false]
  clear hsupported
  induction hdata with
  | nil => simp [pure, Except.pure]
  | @cons encoding encodings content layer data layers hlayer _ ih =>
    rw [List.reverse_cons, List.foldlM_append, ih]
    by_cases hrest : ∀ l ∈ layers, Passes maxSize l
    · rw [if_pos hrest]
      simp only [bind, Except.bind, List.foldlM_cons, List.foldlM_nil, decodeLayer_eq h hlayer]
      by_cases hpasses : Passes maxSize (encoding, content)
      · rw [if_pos hpasses, if_pos (List.forall_mem_cons.2 ⟨hpasses, hrest⟩)]
        rfl
      · rw [if_neg hpasses, if_neg fun hall => hpasses (hall _ List.mem_cons_self)]
    · rw [if_neg hrest, if_neg fun hall => hrest fun l hl => hall l (List.mem_cons_of_mem _ hl)]
      rfl

/-- The body is returned when no decoded layer is longer than the limit, and is too large
otherwise. -/
def LimitHolds (maxSize : ℕ) (content : Bytes) (layers : List (String × Bytes))
    (result : Except DecompressError Bytes) : Prop :=
  result = if ∀ layer ∈ layers, layer.2.length ≤ maxSize then .ok content
    else .error (.tooLarge maxSize)

/-- A layer of `deflate` has the limit's length only beside a layer that is longer, and a layer of
`identity` is longer only beside a layer that its decoder refuses. -/
structure LimitFits (maxSize : ℕ) (layers : List (String × Bytes)) : Prop where
  deflate : (∃ layer ∈ layers, layer.1 = "deflate" ∧ layer.2.length = maxSize) →
    ∃ layer ∈ layers, maxSize < layer.2.length
  identity : (∃ layer ∈ layers, layer.1 = "identity" ∧ maxSize < layer.2.length) →
    ∃ layer ∈ layers, layer.1 ≠ "identity" ∧
      (maxSize < layer.2.length ∨ layer.1 = "deflate" ∧ layer.2.length = maxSize)

/-- A decoder refuses the layers beyond the limit, and that of `deflate` those at the limit. -/
theorem not_passes_iff {layer : String × Bytes} : ¬ Passes maxSize layer ↔
    layer.1 ≠ "identity" ∧
      (maxSize < layer.2.length ∨ layer.1 = "deflate" ∧ layer.2.length = maxSize) := by
  unfold Passes
  by_cases hdeflate : layer.1 = "deflate"
  · simp [hdeflate]
    omega
  · simp [hdeflate]

/-- The layers that fit are those that pass, in the cases that matter. -/
theorem limitFits_iff : LimitFits maxSize layers ↔
    ((∀ layer ∈ layers, layer.2.length ≤ maxSize) ↔ ∀ layer ∈ layers, Passes maxSize layer) := by
  constructor
  · rintro ⟨hdeflate, hidentity⟩
    constructor
    · intro hshort layer hlayer
      by_contra hnot
      obtain ⟨-, hlong | ⟨hname, hlength⟩⟩ := not_passes_iff.1 hnot
      · exact absurd (hshort layer hlayer) (Nat.not_le.2 hlong)
      · -- a `deflate` layer at the limit is refused, so another one has to be longer
        obtain ⟨longer, hmem, hlong⟩ := hdeflate ⟨layer, hlayer, hname, hlength⟩
        exact absurd (hshort longer hmem) (Nat.not_le.2 hlong)
    · intro hpass layer hlayer
      by_contra hlong
      by_cases hname : layer.1 = "identity"
      · obtain ⟨refused, hmem, hrefused⟩ :=
          hidentity ⟨layer, hlayer, hname, Nat.not_le.1 hlong⟩
        exact not_passes_iff.2 hrefused (hpass refused hmem)
      · exact not_passes_iff.2 ⟨hname, Or.inl (Nat.not_le.1 hlong)⟩ (hpass layer hlayer)
  · intro hiff
    constructor
    · rintro ⟨layer, hlayer, hname, hlength⟩
      by_contra hnone
      have hshort : ∀ l ∈ layers, l.2.length ≤ maxSize := fun l hl =>
        Nat.not_lt.1 fun hlong => hnone ⟨l, hl, hlong⟩
      exact not_passes_iff.2 ⟨by rw [hname]; decide, Or.inr ⟨hname, hlength⟩⟩
        (hiff.1 hshort layer hlayer)
    · rintro ⟨layer, hlayer, -, hlong⟩
      by_contra hnone
      have hpass : ∀ l ∈ layers, Passes maxSize l := fun l hl => by
        by_contra hnot
        exact hnone ⟨l, hl, not_passes_iff.1 hnot⟩
      exact absurd (hiff.2 hpass layer hlayer) (Nat.not_le.2 hlong)

/-- **The size limit** means the same for every encoding exactly when no `deflate` layer has its
length and no `identity` layer is longer, but for bodies that are too large anyway. -/
theorem limitHolds_iff (h : codecs.Decode formats)
    (hdata : Encoded formats encodings content data layers) :
    LimitHolds maxSize content layers (decompressBody codecs data encodings maxSize) ↔
      LimitFits maxSize layers := by
  rw [decompressBody_eq h hdata, limitFits_iff, LimitHolds]
  exact ite_ok_error_inj

end Layers

/-! ### Libraries for one stream each -/

section Sample

variable (content data : Bytes)

/-- A reader of one stream: its state is what is left to read. -/
def readerOf : Readable where
  State := Option Bytes
  start stream := if stream = data then some content else none
  read state n := state.map fun rest => (rest.take n, some (rest.drop n))

theorem delivers_rest (rest : Bytes) :
    Delivers (fun s : Option Bytes => s.map fun rest => (rest.take chunkSize,
      some (rest.drop chunkSize))) (some rest) rest := by
  have hreads : ∀ k (rest : Bytes), rest.length ≤ k →
      Delivers (fun s : Option Bytes => s.map fun rest => (rest.take chunkSize,
        some (rest.drop chunkSize))) (some rest) rest := by
    intro k
    induction k with
    | zero =>
      intro rest hrest
      obtain rfl := List.length_eq_zero_iff.1 (Nat.le_zero.1 hrest)
      exact .eof rfl
    | succ k ih =>
      intro rest hrest
      cases rest with
      | nil => exact .eof rfl
      | cons b rest =>
        have htail := ih ((b :: rest).drop chunkSize) (by
          rw [List.length_drop, chunkSize]
          omega)
        have hchunk : (b :: rest).take chunkSize ≠ [] := by simp [chunkSize]
        have hdelivers := Delivers.chunk (s := some (b :: rest)) rfl hchunk htail
        rwa [List.take_append_drop] at hdelivers
  exact hreads _ rest (Nat.le_refl _)

theorem decodes_readerOf :
    (readerOf content data).Decodes fun content' data' => content' = content ∧ data' = data := by
  rintro content' data' ⟨hcontent, hdata⟩
  have hstart : (readerOf content data).start data' = some content := if_pos hdata
  rw [hstart, hcontent]
  exact delivers_rest content

/-- `zlib` for one stream: its state is what it has received, and how much it has put out. -/
def zlibOf : Zlib where
  State := Bytes × ℕ
  decompressobj := ([], 0)
  decompress z chunk n :=
    if z.1 ++ chunk = data then some ((content.drop z.2).take n, (z.1 ++ chunk, z.2 + n))
    else some ([], (z.1 ++ chunk, z.2))
  unconsumedTail _ := []
  eof z := z.1 = data
  limited := by
    intro z chunk n piece z' h _
    split_ifs at h <;> obtain ⟨rfl, -⟩ := Prod.mk.inj (Option.some.inj h)
    · exact List.length_take_le _ _
    · exact Nat.zero_le _
  consumed := fun _ _ => rfl

def inflationOf : Inflation (zlibOf content data) fun content' data' =>
    content' = content ∧ data' = data where
  Inflates z input out := z.1 ++ input = data ∧ out = content.drop z.2
  start := by
    rintro _ _ ⟨rfl, rfl⟩
    exact ⟨rfl, rfl⟩
  step := by
    rintro z chunk later out n ⟨hinput, rfl⟩ -
    rw [← List.append_assoc] at hinput
    by_cases hall : z.1 ++ chunk = data
    · refine ⟨_, _, _, if_pos hall, (List.take_append_drop n _).symm, hinput, ?_⟩
      rw [List.drop_drop]
    · exact ⟨_, _, _, if_neg hall, rfl, hinput, rfl⟩
  finish := by
    rintro z z' out n ⟨hinput, rfl⟩ hn h
    rw [List.append_nil] at hinput
    have hall : z.1 ++ [] = data := by rw [List.append_nil, hinput]
    obtain ⟨hpiece, rfl⟩ := Prod.mk.inj (Option.some.inj ((if_pos hall).symm.trans h))
    rw [List.take_eq_nil_iff] at hpiece
    exact ⟨hpiece.resolve_left (Nat.ne_of_gt hn), decide_eq_true hall⟩

end Sample

/-- `zlib.compress(b"a")` -/
def sampleZlib : Bytes := [0x78, 0x9c, 0x4b, 0x04, 0x00, 0x00, 0x62, 0x00, 0x62]

/-- `gzip.compress` of it. -/
def sampleGzip : Bytes :=
  [0x1f, 0x8b, 0x08, 0x00, 0x00, 0x00, 0x00, 0x00, 0x02, 0xff, 0xab, 0x98, 0xe3, 0xcd, 0xc2, 0xc0,
    0x90, 0xc4, 0x90, 0x04, 0x00, 0x72, 0xa8, 0x2f, 0xe0, 0x09, 0x00, 0x00, 0x00]

/-- A frame of `b"a"`. -/
def sampleZstd : Bytes := [0x28, 0xb5, 0x2f, 0xfd, 0x20, 0x01, 0x09, 0x00, 0x00, 0x61]

def sampleFormats : Formats where
  gzip content data := content = sampleZlib ∧ data = sampleGzip
  zlib content data := content = [0x61] ∧ data = sampleZlib
  zstd content data := content = [0x61] ∧ data = sampleZstd

def sampleCodecs : Codecs where
  gzip := readerOf sampleZlib sampleGzip
  zlib := zlibOf [0x61] sampleZlib
  zstdDecompress data _ := if data = sampleZstd then some [0x61] else none
  zstdStream := readerOf [0x61] sampleZstd

theorem decode_sampleCodecs : sampleCodecs.Decode sampleFormats where
  gzip := decodes_readerOf _ _
  zlib := ⟨inflationOf _ _⟩
  zstd := by
    rintro content data maxSize decompressed ⟨rfl, rfl⟩ h
    exact (Option.some.inj h).symm
  zstdStream := decodes_readerOf _ _

/-- A `deflate` body of the limit's length is too large, and an `identity` body beyond the limit is
returned. -/
theorem not_limitHolds_sample :
    sampleCodecs.Decode sampleFormats ∧
    (Encoded sampleFormats ["deflate"] [0x61] sampleZlib [("deflate", [0x61])] ∧
      decompressBody sampleCodecs sampleZlib ["deflate"] 1 = .error (.tooLarge 1) ∧
      ¬ LimitHolds 1 [0x61] [("deflate", [0x61])]
        (decompressBody sampleCodecs sampleZlib ["deflate"] 1)) ∧
    (Encoded sampleFormats ["identity"] [0x61, 0x62] [0x61, 0x62] [("identity", [0x61, 0x62])] ∧
      decompressBody sampleCodecs [0x61, 0x62] ["identity"] 1 = .ok [0x61, 0x62] ∧
      ¬ LimitHolds 1 [0x61, 0x62] [("identity", [0x61, 0x62])]
        (decompressBody sampleCodecs [0x61, 0x62] ["identity"] 1)) := by
  have hdeflate : Encoded sampleFormats ["deflate"] [0x61] sampleZlib [("deflate", [0x61])] :=
    .cons (Or.inr (Or.inl ⟨rfl, rfl, rfl⟩)) (.nil _)
  have hidentity : Encoded sampleFormats ["identity"] [0x61, 0x62] [0x61, 0x62]
      [("identity", [0x61, 0x62])] := .cons (Or.inr (Or.inr (Or.inr ⟨rfl, rfl⟩))) (.nil _)
  have htoo : decompressBody sampleCodecs sampleZlib ["deflate"] 1 = .error (.tooLarge 1) :=
    (decompressBody_eq decode_sampleCodecs hdeflate 1).trans (if_neg (by decide))
  have hok : decompressBody sampleCodecs [0x61, 0x62] ["identity"] 1 = .ok [0x61, 0x62] :=
    (decompressBody_eq decode_sampleCodecs hidentity 1).trans (if_pos (by decide))
  refine ⟨decode_sampleCodecs, ⟨hdeflate, htoo, fun h => ?_⟩, hidentity, hok, fun h => ?_⟩
  · rw [htoo, LimitHolds, if_pos (by decide)] at h
    cases h
  · rw [hok, LimitHolds, if_neg (by decide)] at h
    cases h

/-- A body of two layers, the outer one of the limit's length. -/
theorem limitHolds_sample : LimitHolds 9 [0x61] [("deflate", [0x61]), ("gzip", sampleZlib)]
    (decompressBody sampleCodecs sampleGzip ["deflate", "gzip"] 9) :=
  (limitHolds_iff decode_sampleCodecs (.cons (Or.inr (Or.inl ⟨rfl, rfl, rfl⟩))
    (.cons (Or.inl ⟨rfl, rfl, rfl⟩) (.nil _)))).2 ⟨by decide, by decide⟩

end FirecrawlLb.Core.RequestDecompression
