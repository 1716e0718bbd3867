import FirecrawlLb.Core.RequestDecompression

/-!
# Truncated bodies

What the decoders make of a body that was cut off.  Each library shows the premature end in its own
way: reading `gzip` raises, `zlib` is not at the end of its stream, and the one call of `zstd`
raises.  But the stream of `zstd` that is read after this failure ends like a complete one, and no
bytes at all are an empty `gzip` file (`rejected_iff`).
-/

namespace FirecrawlLb.Core.RequestDecompression

/-! ### What the libraries do at a premature end -/

/-- The reads put out some of the content in chunks that are not empty, and then one raises. -/
inductive Breaks {σ : Type} (read : σ → Option (Bytes × σ)) : σ → Prop
  | raises {s} (h : read s = none) : Breaks read s
  | chunk {s s' chunk} (h : read s = some (chunk, s')) (hchunk : chunk ≠ [])
      (hrest : Breaks read s') : Breaks read s

/-- The data is cut off. -/
def Truncates (data part : Bytes) : Prop := part <+: data ∧ part ≠ data

/-- How a decompression object goes through a part of a stream of its format: in a state, with this
input to come, it does not reach the end. -/
structure Shortfall (lib : Zlib) (format : Bytes → Bytes → Prop) where
  Short : lib.State → Bytes → Prop
  start : ∀ {content data part}, format content data → Truncates data part →
    Short lib.decompressobj part
  step : ∀ {z chunk later n piece z'}, Short z (chunk ++ later) →
    lib.decompress z chunk n = some (piece, z') → Short z' (lib.unconsumedTail z' ++ later)
  notEof : ∀ {z}, Short z [] → lib.eof z = false

/-- How the libraries show that a stream of theirs is cut off, and what the stream of `zstd` has
decoded up to there. -/
structure Truncation (codecs : Codecs) (formats : Formats) where
  gzip : ∀ content data part, formats.gzip content data → Truncates data part → part ≠ [] →
    Breaks (codecs.gzip.read · chunkSize) (codecs.gzip.start part)
  /-- no bytes are a file without members -/
  gzip_nil : Delivers (codecs.gzip.read · chunkSize) (codecs.gzip.start []) []
  zlib : Shortfall codecs.zlib formats.zlib
  zstd : ∀ content data part maxSize, formats.zstd content data → Truncates data part →
    codecs.zstdDecompress part maxSize = none
  decodedSoFar : Bytes → Bytes
  zstdStream : ∀ content data part, formats.zstd content data → Truncates data part →
    Delivers (codecs.zstdStream.read · chunkSize) (codecs.zstdStream.start part) (decodedSoFar part)

/-! ### The decoders -/

section Decoders

variable {maxSize : ℕ} {buffer content data part : Bytes}

theorem readLoop_breaks {σ : Type} {read : σ → Option (Bytes × σ)} {s : σ} (h : Breaks read s)
    (maxSize : ℕ) (buffer : Bytes) : ∃ e, readLoop read maxSize buffer s = .error e := by
  induction h generalizing buffer with
  | raises h => exact ⟨.library, by rw [readLoop, h]⟩
  | @chunk s s' chunk h hchunk _ ih =>
    rw [readLoop, h]
    simp only [if_neg hchunk]
    split_ifs
    · exact ⟨_, rfl⟩
    · exact ih _

theorem readLoop_ends {σ : Type} {read : σ → Option (Bytes × σ)} {s : σ} {out : Bytes}
    (h : Delivers read s out) (maxSize : ℕ) :
    (∃ e, readLoop read maxSize [] s = .error e) ↔ maxSize < out.length := by
  rw [readLoop_eq h (Nat.zero_le _), List.length_nil, Nat.zero_add]
  split_ifs with hfits
  · exact iff_of_false (fun ⟨_, he⟩ => by cases he) (Nat.not_lt.2 hfits)
  · exact iff_of_true ⟨_, rfl⟩ (Nat.not_le.1 hfits)

section Shortfall

variable {lib : Zlib} {format : Bytes → Bytes → Prop} (S : Shortfall lib format)
  {z z' : lib.State} {chunk later buffer' : Bytes}

include S

theorem short_inflateChunk (h : S.Short z (chunk ++ later))
    (hok : inflateChunk lib maxSize z buffer chunk = .ok (buffer', z')) : S.Short z' later := by
  fun_induction inflateChunk lib maxSize z buffer chunk with
  | case1 z buffer =>
    cases hok
    exact h
  | case2 => cases hok
  | case3 => cases hok
  | case4 z buffer chunk hchunk hfull piece z₁ hpiece ih => exact ih (S.step h hpiece) hok

theorem short_inflateChunks (h : S.Short z part)
    (hok : inflateChunks lib maxSize z buffer part = .ok (buffer', z')) : S.Short z' [] := by
  fun_induction inflateChunks lib maxSize z buffer part with
  | case1 z buffer =>
    cases hok
    exact h
  | case2 z buffer part hpart ih =>
    obtain ⟨⟨buffer₁, z₁⟩, hchunk, hrest⟩ := Lib.bind_eq_ok.1 hok
    rw [← List.take_append_drop chunkSize part] at h
    exact ih buffer₁ z₁ (short_inflateChunk S h hchunk) hrest

/-- What the drained output leaves of the input does not matter: it is nothing, or the limit is
reached. -/
theorem short_drain (h : S.Short z [])
    (hok : drain lib maxSize z buffer = .ok (buffer', z')) : S.Short z' [] := by
  have hnext : ∀ {z z' n piece}, S.Short z [] → lib.decompress z [] n = some (piece, z') →
      piece.length < n → S.Short z' [] := by
    intro z z' n piece h hpiece hlimit
    have hshort : S.Short z' (lib.unconsumedTail z' ++ []) := S.step h hpiece
    rwa [lib.consumed hpiece hlimit] at hshort
  fun_induction drain lib maxSize z buffer with
  | case1 => cases hok
  | case2 => cases hok
  | case3 z buffer hfull z₁ hpiece =>
    cases hok
    exact hnext h hpiece (Nat.pos_of_ne_zero hfull)
  | case4 z buffer hfull drained z₁ hpiece hdrained ih =>
    by_cases hlimit : drained.length < maxSize - buffer.length
    · exact ih (hnext h hpiece hlimit) hok
    · rw [drain, if_pos (by rw [List.length_append]; omega)] at hok
      cases hok

end Shortfall

/-- **A part of a `deflate` stream** is never accepted. -/
theorem decompressDeflate_part {codecs : Codecs} {format : Bytes → Bytes → Prop}
    (S : Shortfall codecs.zlib format) (hdata : format content data)
    (hpart : Truncates data part) (maxSize : ℕ) :
    ∃ e, decompressDeflate codecs part maxSize = .error e := by
  cases hresult : decompressDeflate codecs part maxSize with
  | error e => exact ⟨e, rfl⟩
  | ok out =>
    obtain ⟨⟨buffer, z⟩, hchunks, hrest⟩ := Lib.bind_eq_ok.1 hresult
    obtain ⟨⟨buffer', z'⟩, hdrain, heof⟩ := Lib.bind_eq_ok.1 hrest
    have hshort := short_drain S (short_inflateChunks S (S.start hdata hpart) hchunks) hdrain
    simp only [S.notEof hshort] at heof
    cases heof

end Decoders

/-! ### Bodies of one encoding -/

section Bodies

variable {codecs : Codecs} {formats : Formats} {maxSize : ℕ} {encoding : String}
  {content data part : Bytes}

/-- `_decompress_body` raises. -/
def Rejected (result : Except DecompressError Bytes) : Prop := ∃ e, result = .error e

/-- The premature end is found: with `gzip` if there is a byte, with `zstd` only if what has been
decoded up to there is too large. -/
def Found (T : Truncation codecs formats) (encoding : String) (part : Bytes) (maxSize : ℕ) : Prop :=
  (encoding = "gzip" → part ≠ []) ∧
  (encoding = "zstd" → maxSize < (T.decodedSoFar part).length)

theorem decompressBody_singleton (hsupported : encoding ∈ supported) (data : Bytes)
    (maxSize : ℕ) : decompressBody codecs data [encoding] maxSize =
      decodeLayer codecs maxSize encoding data := by
  have hall : ([encoding].any (· ∉ supported)) = false := by simpa using hsupported
  rw [decompressBody, hall]
  simp only [Bool.false_eq_true, if_false, List.reverse_singleton, List.foldlM_cons,
    List.foldlM_nil]
  cases decodeLayer codecs maxSize encoding data <;> rfl

/-- **A truncated body** of one compressed encoding is rejected exactly when its premature end is
found. -/
theorem rejected_iff (T : Truncation codecs formats) (hdata : formats.Encodes encoding content data)
    (hcompressed : encoding ≠ "identity") (hpart : Truncates data part) (maxSize : ℕ) :
    Rejected (decompressBody codecs part [encoding] maxSize) ↔ Found T encoding part maxSize := by
  rw [decompressBody_singleton (supported_of_encodes hdata), Rejected, Found]
  rcases hdata with ⟨rfl, hdata⟩ | ⟨rfl, hdata⟩ | ⟨rfl, hdata⟩ | ⟨rfl, -⟩
  · have hlayer : decodeLayer codecs maxSize "gzip" part =
        readLoop (codecs.gzip.read · chunkSize) maxSize [] (codecs.gzip.start part) := by
      simp [decodeLayer, decompressGzip, readLimited]
    rw [hlayer]
    by_cases hnil : part = []
    · rw [hnil, readLoop_ends T.gzip_nil]
      simp
    · exact iff_of_true (readLoop_breaks (T.gzip _ _ _ hdata hpart hnil) maxSize [])
        ⟨fun _ => hnil, by simp⟩
  · have hlayer : decodeLayer codecs maxSize "deflate" part =
        decompressDeflate codecs part maxSize := by simp [decodeLayer]
    rw [hlayer]
    exact iff_of_true (decompressDeflate_part T.zlib hdata hpart maxSize) (by simp)
  · have hlayer : decodeLayer codecs maxSize "zstd" part =
        readLoop (codecs.zstdStream.read · chunkSize) maxSize []
          (codecs.zstdStream.start part) := by
      simp [decodeLayer, decompressZstd, readLimited, T.zstd _ _ _ maxSize hdata hpart]
    rw [hlayer, readLoop_ends (T.zstdStream _ _ _ hdata hpart)]
    simp
  · exact absurd rfl hcompressed

end Bodies

/-! ### Libraries for one stream each -/

/-- A reader that finds nothing to read, or that part of the content that the stream has. -/
def readerFrom (start : Bytes → Option Bytes) : Readable where
  State := Option Bytes
  start := start
  read state n := state.map fun rest => (rest.take n, some (rest.drop n))

/-- A frame of `b"ab"`, of two blocks. -/
def sampleFrame : Bytes :=
  [0x28, 0xb5, 0x2f, 0xfd, 0x20, 0x02, 0x08, 0x00, 0x00, 0x61, 0x09, 0x00, 0x00, 0x62]

def cutFormats : Formats where
  gzip content data := content = sampleZlib ∧ data = sampleGzip
  zlib content data := content = [0x61] ∧ data = sampleZlib
  zstd content data := content = [0x61, 0x62] ∧ data = sampleFrame

def cutCodecs : Codecs where
  gzip := readerFrom fun stream =>
    if stream = sampleGzip then some sampleZlib else if stream = [] then some [] else none
  zlib := zlibOf [0x61] sampleZlib
  zstdDecompress data _ := if data = sampleFrame then some [0x61, 0x62] else none
  zstdStream := readerFrom fun stream =>
    if stream = sampleFrame then some [0x61, 0x62]
    else if 10 ≤ stream.length then some [0x61] else some []

def shortfallOf (content data : Bytes) : Shortfall (zlibOf content data) fun content' data' =>
    content' = content ∧ data' = data where
  Short z input := Truncates data (z.1 ++ input)
  start := by
    rintro _ _ part ⟨-, rfl⟩ hpart
    exact hpart
  step := by
    rintro z chunk later n piece z' ⟨hpart, hne⟩ h
    rw [← List.append_assoc] at hpart hne
    have hmore : z.1 ++ chunk ≠ data := by
      intro hall
      rw [hall] at hpart hne
      exact hne ((List.prefix_append data later).eq_of_length_le hpart.length_le).symm
    obtain ⟨-, rfl⟩ := Prod.mk.inj (Option.some.inj ((if_neg hmore).symm.trans h))
    exact ⟨hpart, hne⟩
  notEof := by
    rintro z ⟨-, hne⟩
    rw [List.append_nil] at hne
    exact decide_eq_false hne

def cutTruncation : Truncation cutCodecs cutFormats where
  gzip := by
    rintro _ _ part ⟨rfl, rfl⟩ ⟨-, hne⟩ hnil
    have hstart : cutCodecs.gzip.start part = none := (if_neg hne).trans (if_neg hnil)
    rw [hstart]
    exact .raises rfl
  gzip_nil := delivers_rest []
  zlib := shortfallOf _ _
  zstd := by
    rintro _ _ part maxSize ⟨rfl, rfl⟩ ⟨-, hne⟩
    exact if_neg hne
  decodedSoFar part := if 10 ≤ part.length then [0x61] else []
  zstdStream := by
    rintro _ _ part ⟨rfl, rfl⟩ ⟨-, hne⟩
    have hstart : cutCodecs.zstdStream.start part =
        some (if 10 ≤ part.length then [0x61] else []) := by
      refine (if_neg hne).trans ?_
      split_ifs <;> rfl
    rw [hstart]
    exact delivers_rest _

/-- A frame that lacks its last block is accepted as a shorter body, and no bytes of a `gzip` file
as an empty one. -/
theorem not_rejected_sample :
    (cutFormats.Encodes "zstd" [0x61, 0x62] sampleFrame ∧
      Truncates sampleFrame (sampleFrame.take 10) ∧
      decompressBody cutCodecs (sampleFrame.take 10) ["zstd"] 8 = .ok [0x61] ∧
      ¬ Rejected (decompressBody cutCodecs (sampleFrame.take 10) ["zstd"] 8)) ∧
    cutFormats.Encodes "gzip" sampleZlib sampleGzip ∧ Truncates sampleGzip [] ∧
    decompressBody cutCodecs [] ["gzip"] 8 = .ok [] ∧
    ¬ Rejected (decompressBody cutCodecs [] ["gzip"] 8) := by
  have hframe : decompressBody cutCodecs (sampleFrame.take 10) ["zstd"] 8 = .ok [0x61] := by
    rw [decompressBody_singleton (by decide)]
    exact readLoop_eq (delivers_rest [0x61]) (Nat.zero_le 8)
  have hnothing : decompressBody cutCodecs [] ["gzip"] 8 = .ok [] := by
    rw [decompressBody_singleton (by decide)]
    exact readLoop_eq (delivers_rest []) (Nat.zero_le 8)
  refine ⟨⟨Or.inr (Or.inr (Or.inl ⟨rfl, rfl, rfl⟩)), ⟨List.take_prefix _ _, by decide⟩, hframe,
    ?_⟩, Or.inl ⟨rfl, rfl, rfl⟩, ⟨List.nil_prefix, by decide⟩, hnothing, ?_⟩
  · rintro ⟨e, he⟩
    cases hframe.symm.trans he
  · rintro ⟨e, he⟩
    cases hnothing.symm.trans he

/-- A `gzip` file without its last byte, a `deflate` stream without its last byte, and a frame
whose first block is too large already. -/
theorem rejected_sample :
    Rejected (decompressBody cutCodecs (sampleGzip.take 28) ["gzip"] 8) ∧
    Rejected (decompressBody cutCodecs (sampleZlib.take 8) ["deflate"] 8) ∧
    Rejected (decompressBody cutCodecs (sampleFrame.take 10) ["zstd"] 0) := by
  refine ⟨?_, ?_, ?_⟩
  · exact (rejected_iff cutTruncation (Or.inl ⟨rfl, rfl, rfl⟩) (by decide)
      ⟨List.take_prefix _ _, by decide⟩ 8).2 ⟨fun _ => by decide, by decide⟩
  · exact (rejected_iff cutTruncation (Or.inr (Or.inl ⟨rfl, rfl, rfl⟩)) (by decide)
      ⟨List.take_prefix _ _, by decide⟩ 8).2 ⟨by decide, by decide⟩
  · exact (rejected_iff cutTruncation (Or.inr (Or.inr (Or.inl ⟨rfl, rfl, rfl⟩))) (by decide)
      ⟨List.take_prefix _ _, by decide⟩ 0).2 ⟨by decide, fun _ => by decide⟩

end FirecrawlLb.Core.RequestDecompression
