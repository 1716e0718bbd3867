import FirecrawlLb.Lib.Results
import FirecrawlLb.Python.Decimals
import FirecrawlLb.Python.Patterns

/-!
# Release versions

The versions of a release, `X.Y.Z` or `X.Y.Z-(alpha|beta|rc).N`, and their spelling in PEP 440.  The
spelling is read back by two copies of one function, in two scripts.
-/

namespace FirecrawlLb.Scripts

open FirecrawlLb.Lib FirecrawlLb.Python

/-! ### The patterns -/

/-- `\d+` at the front of a text, where no digit can follow in the pattern. -/
def takeDigits (cs : List Char) : Option (List Char × List Char) :=
  let digits := cs.takeWhile isDecimal
  if digits = [] then none else some (digits, cs.dropWhile isDecimal)

/-- `\d+\.\d+\.\d+` at the front of a text. -/
def takeBase (cs : List Char) : Option (List Char × List Char) := do
  let (major, cs) ← takeDigits cs
  let cs ← takeChar '.' cs
  let (minor, cs) ← takeDigits cs
  let cs ← takeChar '.' cs
  let (patch, cs) ← takeDigits cs
  return (major ++ '.' :: (minor ++ '.' :: patch), cs)

/-- `[1-9]\d*`, all of the text -/
def isSerial : List Char → Bool
  | [] => false
  | c :: cs => '1' ≤ c && c ≤ '9' && cs.all isDecimal

/-- The channels of a pre-release. -/
inductive Channel where
  | alpha
  | beta
  | rc
  deriving DecidableEq

namespace Channel

/-- The name in a release version. -/
def name : Channel → List Char
  | alpha => ['a', 'l', 'p', 'h', 'a']
  | beta => ['b', 'e', 't', 'a']
  | rc => ['r', 'c']

/-- The key of `_PEP440_CHANNELS`, whose value is the name. -/
def letters : Channel → List Char
  | alpha => ['a']
  | beta => ['b']
  | rc => ['r', 'c']

/-- `alpha|beta|rc`, or `a|b|rc`, at the front of a text; no word begins with another one. -/
def take (word : Channel → List Char) (cs : List Char) : Option (Channel × List Char) :=
  [alpha, beta, rc].findSome? fun channel => (takeWord (word channel) cs).map (channel, ·)

end Channel

/-- The groups of a match: the base, and the channel and the serial of a pre-release. -/
structure VersionMatch where
  base : List Char
  prerelease : Option (Channel × List Char)

/-- `_VERSION_RE.fullmatch` -/
def matchVersion (cs : List Char) : Option VersionMatch := do
  let (base, cs) ← takeBase cs
  if cs = [] then return ⟨base, none⟩
  let cs ← takeChar '-' cs
  let (channel, cs) ← Channel.take Channel.name cs
  let serial ← takeChar '.' cs
  if isSerial serial then some ⟨base, some (channel, serial)⟩ else none

/-- `_PEP440_PRERELEASE_RE.fullmatch` -/
def matchPep440 (cs : List Char) : Option (List Char × Channel × List Char) := do
  let (base, cs) ← takeBase cs
  let (channel, serial) ← Channel.take Channel.letters cs
  if isSerial serial then some (base, channel, serial) else none

/-! ### The versions -/

/-- `ReleaseVersion`; a stable one has no channel. -/
structure ReleaseVersion where
  version : List Char
  base : List Char
  channel : Option Channel
  serial : Option ℤ
  deriving DecidableEq

/-- `f"{serial}"` -/
def serialText : Option ℤ → List Char
  | none => ['N', 'o', 'n', 'e']
  | some n => intText n

/-- `ReleaseVersion.pypi_version` -/
def ReleaseVersion.pypiVersion (release : ReleaseVersion) : List Char :=
  match release.channel with
  | none => release.version
  | some channel => release.base ++ (channel.letters ++ serialText release.serial)

/-- `parse_version` -/
def parseVersion (version : List Char) : Except Raised ReleaseVersion :=
  match matchVersion version with
  | none => .error .valueError
  | some ⟨base, none⟩ => .ok ⟨version, base, none, none⟩
  | some ⟨base, some (channel, serial)⟩ =>
    (toInt serial).map fun n => ⟨version, base, some channel, some n⟩

/-- `canonical_release_version` -/
def canonicalReleaseVersion (value : List Char) : List Char :=
  match matchPep440 value with
  | none => value
  | some (base, channel, serial) => base ++ '-' :: (channel.name ++ '.' :: serial)

/-! ### The copy of the guard of the beta releases -/

namespace GuardBetaRelease

/-- The key of `_PEP440_CHANNELS`, in the table of the guard. -/
def letters : Channel → List Char
  | .alpha => ['a']
  | .beta => ['b']
  | .rc => ['r', 'c']

/-- The value of `_PEP440_CHANNELS`, in the table of the guard. -/
def name : Channel → List Char
  | .alpha => ['a', 'l', 'p', 'h', 'a']
  | .beta => ['b', 'e', 't', 'a']
  | .rc => ['r', 'c']

/-- `_PEP440_PRERELEASE_RE.fullmatch` of the guard -/
def matchPep440 (cs : List Char) : Option (List Char × Channel × List Char) := do
  let (base, cs) ← takeBase cs
  let (channel, serial) ← Channel.take letters cs
  if isSerial serial then some (base, channel, serial) else none

/-- `_canonical_release_version` -/
def canonicalReleaseVersion (value : List Char) : List Char :=
  match matchPep440 value with
  | none => value
  | some (base, channel, serial) => base ++ '-' :: (name channel ++ '.' :: serial)

end GuardBetaRelease

/-! ### What the patterns accept -/

section Patterns

variable {c : Char} {cs ds rest base serial word : List Char} {channel : Channel}

theorem takeDigits_eq_some : takeDigits cs = some (ds, rest) ↔
    cs = ds ++ rest ∧ ds ≠ [] ∧ ds.all isDecimal = true ∧ NoDigit rest := by
  unfold takeDigits
  constructor
  · intro h
    dsimp only at h
    split_ifs at h with hne
    obtain ⟨rfl, rfl⟩ := Prod.mk.inj (Option.some.inj h)
    exact ⟨List.takeWhile_append_dropWhile.symm, hne, List.all_takeWhile, noDigit_dropWhile cs⟩
  · rintro ⟨rfl, hne, hall, hrest⟩
    obtain ⟨htake, hdrop⟩ := span_isDecimal hall hrest
    rw [htake, hdrop]
    exact if_neg hne

/-- Three numbers with dots between them. -/
def IsBase (base : List Char) : Prop :=
  ∃ major minor patch : List Char, base = major ++ '.' :: (minor ++ '.' :: patch) ∧
    ∀ part ∈ [major, minor, patch], part ≠ [] ∧ part.all isDecimal = true

theorem takeBase_eq_some : takeBase cs = some (base, rest) ↔
    cs = base ++ rest ∧ IsBase base ∧ NoDigit rest := by
  constructor
  · intro h
    simp only [takeBase, Option.bind_eq_bind, Option.bind_eq_some_iff, takeChar_eq_some,
      Prod.exists, takeDigits_eq_some] at h
    obtain ⟨major, _, ⟨rfl, hmajor⟩, _, rfl, minor, _, ⟨rfl, hminor⟩, _, rfl, patch, rest',
      ⟨rfl, hpatch⟩, heq⟩ := h
    obtain ⟨rfl, rfl⟩ := Prod.mk.inj (Option.some.inj heq)
    refine ⟨by simp, ⟨major, minor, patch, rfl, ?_⟩, hpatch.2.2⟩
    simpa using ⟨⟨hmajor.1, by simpa using hmajor.2.1⟩, ⟨hminor.1, by simpa using hminor.2.1⟩,
      ⟨hpatch.1, by simpa using hpatch.2.1⟩⟩
  · rintro ⟨rfl, ⟨major, minor, patch, rfl, hparts⟩, hrest⟩
    simp only [List.forall_mem_cons] at hparts
    obtain ⟨hmajor, hminor, hpatch, -⟩ := hparts
    have hdot : ∀ cs : List Char, NoDigit ('.' :: cs) :=
      fun _ => show (!isDecimal '.') = true by decide
    simp only [takeBase, Option.bind_eq_bind, Option.bind_eq_some_iff, takeChar_eq_some,
      Prod.exists, takeDigits_eq_some]
    exact ⟨major, _, ⟨by simp, hmajor.1, hmajor.2, hdot _⟩, _, rfl, minor, _,
      ⟨rfl, hminor.1, hminor.2, hdot _⟩, _, rfl, patch, rest,
      ⟨rfl, hpatch.1, hpatch.2, hrest⟩, rfl⟩

/-- The words of the channels are told apart. -/
def PrefixFree (words : Channel → List Char) : Prop := ∀ a b, words a <+: words b → a = b

theorem takeWord_eq_none {words : Channel → List Char} (h : PrefixFree words) {other : Channel}
    (hne : other ≠ channel) : takeWord (words other) (words channel ++ rest) = none := by
  rw [takeWord, if_neg]
  intro hprefix
  have hother := List.isPrefixOf_iff_prefix.1 hprefix
  have hself := List.prefix_append (words channel) rest
  rcases List.prefix_or_prefix_of_prefix hother hself with h' | h'
  · exact hne (h _ _ h')
  · exact hne (h _ _ h').symm

theorem take_eq_some {words : Channel → List Char} (h : PrefixFree words) :
    Channel.take words cs = some (channel, rest) ↔ cs = words channel ++ rest := by
  constructor
  · intro htake
    obtain ⟨channel', -, heq⟩ := List.exists_of_findSome?_eq_some htake
    obtain ⟨rest', hword, heq⟩ := Option.map_eq_some_iff.1 heq
    obtain ⟨rfl, rfl⟩ := Prod.mk.inj heq
    exact takeWord_eq_some.1 hword
  · rintro rfl
    have hself : takeWord (words channel) (words channel ++ rest) = some rest :=
      takeWord_eq_some.2 rfl
    cases channel with
    | alpha => simp [Channel.take, hself]
    | beta =>
      simp [Channel.take, hself, takeWord_eq_none h (show Channel.alpha ≠ .beta by decide)]
    | rc =>
      simp [Channel.take, hself, takeWord_eq_none h (show Channel.alpha ≠ .rc by decide),
        takeWord_eq_none h (show Channel.beta ≠ .rc by decide)]

theorem prefixFree_name : PrefixFree Channel.name := by
  intro a b h
  cases a <;> cases b <;> first | rfl | exact absurd h (by decide)

theorem prefixFree_letters : PrefixFree Channel.letters := by
  intro a b h
  cases a <;> cases b <;> first | rfl | exact absurd h (by decide)

theorem noDigit_letters (channel : Channel) (rest : List Char) :
    NoDigit (channel.letters ++ rest) := by
  cases channel with
  | alpha => exact show (!isDecimal 'a') = true by decide
  | beta => exact show (!isDecimal 'b') = true by decide
  | rc => exact show (!isDecimal 'r') = true by decide

/-- How a pre-release is written, in a release version and in PEP 440. -/
def prereleaseText (base : List Char) (channel : Channel) (serial : List Char) : List Char :=
  base ++ '-' :: (channel.name ++ '.' :: serial)

def pep440Text (base : List Char) (channel : Channel) (serial : List Char) : List Char :=
  base ++ (channel.letters ++ serial)

/-- **The pattern of PEP 440.** -/
theorem matchPep440_eq_some : matchPep440 cs = some (base, channel, serial) ↔
    IsBase base ∧ isSerial serial = true ∧ cs = pep440Text base channel serial := by
  simp only [matchPep440, Option.bind_eq_bind, Option.bind_eq_some_iff, Prod.exists,
    takeBase_eq_some, take_eq_some prefixFree_letters]
  constructor
  · rintro ⟨base', _, ⟨rfl, hbase, -⟩, channel', serial', rfl, h⟩
    split_ifs at h with hserial
    obtain ⟨rfl, hgroups⟩ := Prod.mk.inj (Option.some.inj h)
    obtain ⟨rfl, rfl⟩ := Prod.mk.inj hgroups
    exact ⟨hbase, hserial, rfl⟩
  · rintro ⟨hbase, hserial, rfl⟩
    exact ⟨base, _, ⟨rfl, hbase, noDigit_letters _ _⟩, channel, serial, rfl, if_pos hserial⟩

/-- **The pattern of a release version**, stable or not. -/
theorem matchVersion_eq_some {prerelease : Option (Channel × List Char)} :
    matchVersion cs = some ⟨base, prerelease⟩ ↔ IsBase base ∧
      match prerelease with
      | none => cs = base
      | some (channel, serial) =>
        isSerial serial = true ∧ cs = prereleaseText base channel serial := by
  simp only [matchVersion, Option.bind_eq_bind, Option.bind_eq_some_iff, Prod.exists,
    takeBase_eq_some]
  constructor
  · rintro ⟨base', rest, ⟨rfl, hbase, -⟩, h⟩
    split_ifs at h with hrest
    · obtain ⟨rfl, rfl⟩ := VersionMatch.mk.inj (Option.some.inj h)
      exact ⟨hbase, by rw [hrest, List.append_nil]⟩
    · simp only [Option.bind_eq_some_iff, Prod.exists, takeChar_eq_some,
        take_eq_some prefixFree_name] at h
      obtain ⟨_, rfl, channel, _, rfl, serial, rfl, h⟩ := h
      split_ifs at h with hserial
      obtain ⟨rfl, rfl⟩ := VersionMatch.mk.inj (Option.some.inj h)
      exact ⟨hbase, hserial, rfl⟩
  · rintro ⟨hbase, h⟩
    cases prerelease with
    | none =>
      subst h
      exact ⟨cs, [], ⟨by simp, hbase, rfl⟩, by simp⟩
    | some groups =>
      obtain ⟨channel, serial⟩ := groups
      obtain ⟨hserial, rfl⟩ := h
      refine ⟨base, _, ⟨rfl, hbase, show (!isDecimal '-') = true by decide⟩, ?_⟩
      rw [if_neg (List.cons_ne_nil _ _)]
      simp only [Option.bind_eq_some_iff, Prod.exists, takeChar_eq_some,
        take_eq_some prefixFree_name]
      exact ⟨_, rfl, channel, _, rfl, serial, rfl, if_pos hserial⟩

end Patterns

/-! ### The round trip -/

/-- The decimal digits of the text are those of ASCII. -/
def AsciiDecimals (cs : List Char) : Prop := (cs.all fun c => !isDecimal c || c.isDigit) = true

instance : DecidablePred AsciiDecimals := fun _ => inferInstanceAs (Decidable (_ = true))

section RoundTrip

variable {base serial v w : List Char} {channel : Channel} {release release' : ReleaseVersion}
variable {n : ℤ}

theorem parseVersion_cases (h : parseVersion v = .ok release) :
    ∃ base, IsBase base ∧ ((v = base ∧ release = ⟨v, base, none, none⟩) ∨
      ∃ channel serial n, isSerial serial = true ∧ v = prereleaseText base channel serial ∧
        toInt serial = .ok n ∧ release = ⟨v, base, some channel, some n⟩) := by
  unfold parseVersion at h
  split at h
  · cases h
  · rename_i base hmatch
    obtain ⟨hbase, hv⟩ := matchVersion_eq_some.1 hmatch
    exact ⟨base, hbase, Or.inl ⟨hv, (Except.ok.inj h).symm⟩⟩
  · rename_i base channel serial hmatch
    obtain ⟨hbase, hserial, hv⟩ := matchVersion_eq_some.1 hmatch
    obtain ⟨n, hn, rfl⟩ := map_eq_ok.1 h
    exact ⟨base, hbase, Or.inr ⟨channel, serial, n, hserial, hv, hn, rfl⟩⟩

theorem parseVersion_prerelease (hbase : IsBase base) (hserial : isSerial serial = true) :
    parseVersion (prereleaseText base channel serial) = (toInt serial).map fun n =>
      ⟨prereleaseText base channel serial, base, some channel, some n⟩ := by
  have hmatch : matchVersion (prereleaseText base channel serial) =
      some ⟨base, some (channel, serial)⟩ := matchVersion_eq_some.2 ⟨hbase, hserial, rfl⟩
  unfold parseVersion
  rw [hmatch]

theorem asciiDigits_of_isSerial (hserial : isSerial serial = true) (h : AsciiDecimals serial) :
    AsciiDigits serial := by
  cases serial with
  | nil => cases hserial
  | cons c cs =>
    simp only [isSerial, Bool.and_eq_true, decide_eq_true_eq] at hserial
    obtain ⟨⟨hlow, hhigh⟩, hrest⟩ := hserial
    refine List.all_eq_true.2 fun d hd => ?_
    have hascii := List.all_eq_true.1 h d hd
    rcases List.mem_cons.1 hd with rfl | hd
    · simp only [Char.isDigit, Bool.and_eq_true, decide_eq_true_eq]
      exact ⟨le_trans (show '0' ≤ '1' by decide) hlow, hhigh⟩
    · simpa [List.all_eq_true.1 hrest d hd] using hascii

/-- **The number of a serial** is written as the serial. -/
theorem intText_of_isSerial (hserial : isSerial serial = true) (h : AsciiDecimals serial)
    (hn : toInt serial = .ok n) : intText n = serial := by
  have hdigits := asciiDigits_of_isSerial hserial h
  cases serial with
  | nil => cases hserial
  | cons c cs =>
    have hne := List.cons_ne_nil c cs
    have hfirst : '1' ≤ c := by
      simp only [isSerial, Bool.and_eq_true, decide_eq_true_eq] at hserial
      exact hserial.1.1
    rw [toInt, intOfStr_of_asciiDigits hdigits] at hn
    by_cases hlength : (c :: cs).length ≤ maxStrDigits
    · rw [natOfChars_of_asciiDigits hne hdigits hlength] at hn
      obtain rfl := Except.ok.inj hn
      have hpos : ¬ ((Nat.ofDigitChars 10 (c :: cs) 0 : ℕ) : ℤ) < 0 := by omega
      rw [intText, if_neg hpos, Int.natAbs_natCast, decimal_ofDigitChars hdigits hfirst]
    · rw [natOfChars_eq_none hne hdigits (not_le.1 hlength)] at hn
      cases hn

theorem AsciiDecimals.of_subset {x y : List Char} (h : AsciiDecimals x) (hsub : y ⊆ x) :
    AsciiDecimals y :=
  List.all_eq_true.2 fun c hc => List.all_eq_true.1 h c (hsub hc)

theorem serial_subset_prereleaseText : serial ⊆ prereleaseText base channel serial :=
  fun c hc => by simp [prereleaseText, hc]

theorem serial_subset_pep440Text : serial ⊆ pep440Text base channel serial :=
  fun c hc => by simp [pep440Text, hc]

theorem canonicalReleaseVersion_pep440Text (hbase : IsBase base)
    (hserial : isSerial serial = true) :
    canonicalReleaseVersion (pep440Text base channel serial) =
      prereleaseText base channel serial := by
  rw [canonicalReleaseVersion, matchPep440_eq_some.2 ⟨hbase, hserial, rfl⟩]
  rfl

/-- A stable version has no spelling of its own. -/
theorem canonicalReleaseVersion_of_isBase (hbase : IsBase base) :
    canonicalReleaseVersion base = base := by
  have hrest : takeBase base = some (base, []) :=
    takeBase_eq_some.2 ⟨(List.append_nil base).symm, hbase, rfl⟩
  have hmatch : matchPep440 base = none := by
    rw [matchPep440, hrest]
    rfl
  rw [canonicalReleaseVersion, hmatch]

/-- **From a release version to PEP 440 and back.** -/
theorem canonicalReleaseVersion_pypiVersion (hv : AsciiDecimals v)
    (h : parseVersion v = .ok release) : canonicalReleaseVersion release.pypiVersion = v := by
  obtain ⟨base, hbase, ⟨rfl, rfl⟩ | ⟨channel, serial, n, hserial, rfl, hn, rfl⟩⟩ :=
    parseVersion_cases h
  · exact canonicalReleaseVersion_of_isBase hbase
  · have hascii := hv.of_subset serial_subset_prereleaseText
    rw [ReleaseVersion.pypiVersion]
    simp only [serialText, intText_of_isSerial hserial hascii hn]
    exact canonicalReleaseVersion_pep440Text hbase hserial

/-- **From PEP 440 to a release version and back**, for a serial that `int` converts. -/
theorem pypiVersion_canonicalReleaseVersion (hw : AsciiDecimals (pep440Text base channel serial))
    (hbase : IsBase base) (hserial : isSerial serial = true)
    (hlength : serial.length ≤ maxStrDigits) :
    ∃ release, parseVersion (canonicalReleaseVersion (pep440Text base channel serial)) =
      .ok release ∧ release.pypiVersion = pep440Text base channel serial := by
  have hascii := hw.of_subset serial_subset_pep440Text
  have hdigits := asciiDigits_of_isSerial hserial hascii
  have hne : serial ≠ [] := by
    rintro rfl
    cases hserial
  obtain ⟨n, hn⟩ : ∃ n, toInt serial = .ok n := by
    refine ⟨(Nat.ofDigitChars 10 serial 0 : ℕ), ?_⟩
    rw [toInt, intOfStr_of_asciiDigits hdigits, natOfChars_of_asciiDigits hne hdigits hlength]
    rfl
  refine ⟨⟨prereleaseText base channel serial, base, some channel, some n⟩, ?_, ?_⟩
  · rw [canonicalReleaseVersion_pep440Text hbase hserial, parseVersion_prerelease hbase hserial, hn]
    rfl
  · simp only [ReleaseVersion.pypiVersion, serialText, intText_of_isSerial hserial hascii hn]
    rfl

end RoundTrip

/-- **Release versions survive the spelling of PEP 440**: reading back the spelling gives the
version, so that no two versions share a spelling; a spelling whose serial has no leading zero, and
not too many digits, is that of the version it is read as; and the copy of the guard reads every
text alike. -/
theorem spelling_roundTrip :
    (∀ v release, AsciiDecimals v → parseVersion v = .ok release →
      canonicalReleaseVersion release.pypiVersion = v) ∧
    (∀ v w release release', AsciiDecimals v → AsciiDecimals w → parseVersion v = .ok release →
      parseVersion w = .ok release' → release.pypiVersion = release'.pypiVersion → v = w) ∧
    (∀ base channel serial, AsciiDecimals (pep440Text base channel serial) → IsBase base →
      isSerial serial = true → serial.length ≤ maxStrDigits →
      ∃ release, parseVersion (canonicalReleaseVersion (pep440Text base channel serial)) =
        .ok release ∧ release.pypiVersion = pep440Text base channel serial) ∧
    ∀ value, GuardBetaRelease.canonicalReleaseVersion value = canonicalReleaseVersion value := by
  refine ⟨fun v release hv h => canonicalReleaseVersion_pypiVersion hv h, ?_,
    fun base channel serial => pypiVersion_canonicalReleaseVersion, fun _ => rfl⟩
  intro v w release release' hv hw h h' heq
  rw [← canonicalReleaseVersion_pypiVersion hv h, heq, canonicalReleaseVersion_pypiVersion hw h']

/-- `1.0.0` -/
def sampleBase : List Char := ['1', '.', '0', '.', '0']

theorem isBase_sampleBase : IsBase sampleBase :=
  ⟨['1'], ['0'], ['0'], rfl, by decide⟩

/-- `1.0.0-beta.12`, whose spelling is not that of `1.0.0-rc.12`, and `1.0.0b12`. -/
theorem spelling_roundTrip_sample :
    canonicalReleaseVersion (pep440Text sampleBase .beta ['1', '2']) =
        prereleaseText sampleBase .beta ['1', '2'] ∧
      pep440Text sampleBase .beta ['1', '2'] ≠ pep440Text sampleBase .rc ['1', '2'] ∧
      ∃ release, parseVersion (canonicalReleaseVersion (pep440Text sampleBase .beta ['1', '2'])) =
        .ok release ∧ release.pypiVersion = pep440Text sampleBase .beta ['1', '2'] := by
  obtain ⟨hback, hinjective, hforth, -⟩ := spelling_roundTrip
  have hbeta : parseVersion (prereleaseText sampleBase .beta ['1', '2']) =
      .ok ⟨prereleaseText sampleBase .beta ['1', '2'], sampleBase, some .beta, some 12⟩ := by decide
  have hrc : parseVersion (prereleaseText sampleBase .rc ['1', '2']) =
      .ok ⟨prereleaseText sampleBase .rc ['1', '2'], sampleBase, some .rc, some 12⟩ := by decide
  refine ⟨hback _ _ (by decide) hbeta, fun heq => ?_, hforth _ _ _ (by decide) isBase_sampleBase
    (by decide) (by decide)⟩
  exact absurd (hinjective _ _ _ _ (by decide) (by decide) hbeta hrc heq) (by decide)

/-- A serial of too many digits is one that `int` refuses. -/
theorem toInt_replicate {k : ℕ} (h : maxStrDigits < k) :
    toInt (List.replicate k '1') = .error .valueError := by
  have hdigits : AsciiDigits (List.replicate k '1') := by simp [AsciiDigits]
  have hne : List.replicate k '1' ≠ [] := by simp; omega
  rw [toInt, intOfStr_of_asciiDigits hdigits, natOfChars_eq_none hne hdigits (by simpa using h)]
  rfl

theorem isSerial_replicate {k : ℕ} (h : 0 < k) : isSerial (List.replicate k '1') = true := by
  obtain ⟨k, rfl⟩ := Nat.exists_eq_add_of_lt h
  have hone : isDecimal '1' = true := by decide
  simp [isSerial, List.replicate_succ, hone]

/-- A serial `0`, which the pattern does not take by design, as in `1.0.0a0`, and a serial of 4301
digits, which `int` refuses. -/
theorem not_spelling_roundTrip :
    (¬ ∀ base channel serial, AsciiDecimals (pep440Text base channel serial) → IsBase base →
      serial ≠ [] → serial.all isDecimal = true →
      ∃ release, parseVersion (canonicalReleaseVersion (pep440Text base channel serial)) =
        .ok release ∧ release.pypiVersion = pep440Text base channel serial) ∧
    ¬ ∀ base channel serial, AsciiDecimals (pep440Text base channel serial) → IsBase base →
      isSerial serial = true →
      ∃ release, parseVersion (canonicalReleaseVersion (pep440Text base channel serial)) =
        .ok release ∧ release.pypiVersion = pep440Text base channel serial := by
  constructor
  · intro h
    obtain ⟨release, hparse, -⟩ := h sampleBase .alpha ['0'] (by decide) isBase_sampleBase
      (by decide) (by decide)
    have herror : parseVersion (canonicalReleaseVersion (pep440Text sampleBase .alpha ['0'])) =
        .error .valueError := by decide
    cases herror.symm.trans hparse
  · intro h
    have hserial := isSerial_replicate (Nat.succ_pos maxStrDigits)
    have hone : '1'.isDigit = true := by decide
    have hfront : AsciiDecimals (sampleBase ++ Channel.alpha.letters) := by decide
    have hascii : AsciiDecimals (pep440Text sampleBase .alpha
        (List.replicate (maxStrDigits + 1) '1')) := by
      rw [pep440Text, ← List.append_assoc, AsciiDecimals, List.all_append, hfront]
      simp [hone]
    obtain ⟨release, hparse, -⟩ := h _ _ _ hascii isBase_sampleBase hserial
    rw [canonicalReleaseVersion_pep440Text isBase_sampleBase hserial,
      parseVersion_prerelease isBase_sampleBase hserial, toInt_replicate (Nat.lt_succ_self _)]
      at hparse
    cases hparse

end FirecrawlLb.Scripts
