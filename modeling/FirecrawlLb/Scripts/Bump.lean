import FirecrawlLb.Scripts.ProjectVersions
import Mathlib.Data.List.Infix

/-!
# Bumping the version of the project

When an update of the managed files is complete or has no effect.  The writers of four of the files
agree with their readers; the line that is written in `pyproject.toml` need not be the one that is
read, a serial need not be written in ASCII digits, and the first two files are written before
`json` has dumped the third.
-/

namespace FirecrawlLb.Scripts

open FirecrawlLb.Lib FirecrawlLb.Python

/-! ### The texts of versions -/

/-- No quote, no backslash and no control character. -/
def plainChar (c : Char) : Bool := c ≠ '"' && c ≠ '\\' && 0x20 ≤ c.toNat

def Plain (cs : List Char) : Prop := cs.all plainChar = true

/-- The serial of a pre-release is written in the digits of ASCII. -/
def SerialAscii (version : List Char) : Prop :=
  ∀ base channel serial, IsBase base → isSerial serial = true →
    version = prereleaseText base channel serial → AsciiDigits serial

section Texts

variable {c : Char} {base serial version : List Char} {channel : Channel}
  {release : ReleaseVersion}

theorem le_toNat_of_isDecimal (h : isDecimal c = true) : 0x30 ≤ c.toNat := by
  have hzeros : ∀ z ∈ decimalZeros, 0x30 ≤ z := by decide
  obtain ⟨n, hn⟩ := Option.isSome_iff_exists.1 h
  obtain ⟨z, hz, -⟩ := Option.map_eq_some_iff.1 hn
  have hle : z ≤ c.toNat := by
    have hin := List.find?_some hz
    simp only [decide_eq_true_eq] at hin
    exact hin.1
  exact (hzeros z (List.mem_of_find?_eq_some hz)).trans hle

theorem plainChar_of_isDecimal (h : isDecimal c = true) : plainChar c = true := by
  have hle := le_toNat_of_isDecimal h
  have hquote : c ≠ '"' := by
    rintro rfl
    exact absurd h (by decide)
  have hbackslash : c ≠ '\\' := by
    rintro rfl
    exact absurd h (by decide)
  have hcontrol : 0x20 ≤ c.toNat := by omega
  simp [plainChar, hquote, hbackslash, hcontrol]

theorem plain_cons {cs : List Char} : Plain (c :: cs) ↔ plainChar c = true ∧ Plain cs := by
  simp [Plain]

theorem plain_append {x y : List Char} : Plain (x ++ y) ↔ Plain x ∧ Plain y := by
  simp [Plain]

theorem plain_of_isDecimal {cs : List Char} (h : cs.all isDecimal = true) : Plain cs :=
  List.all_eq_true.2 fun c hc => plainChar_of_isDecimal (List.all_eq_true.1 h c hc)

theorem Plain.notMem {cs : List Char} (h : Plain cs) (hc : plainChar c = false) : c ∉ cs := by
  intro hmem
  rw [List.all_eq_true.1 h c hmem] at hc
  cases hc

theorem IsBase.plain (h : IsBase base) : Plain base := by
  obtain ⟨major, minor, patch, rfl, hparts⟩ := h
  simp only [List.forall_mem_cons] at hparts
  obtain ⟨⟨-, hmajor⟩, ⟨-, hminor⟩, ⟨-, hpatch⟩, -⟩ := hparts
  have hdot : plainChar '.' = true := by decide
  simp only [plain_append, plain_cons]
  exact ⟨plain_of_isDecimal hmajor, hdot, plain_of_isDecimal hminor, hdot,
    plain_of_isDecimal hpatch⟩

theorem IsBase.ne_nil (h : IsBase base) : base ≠ [] := by
  obtain ⟨major, minor, patch, rfl, -⟩ := h
  simp

theorem IsBase.dash_notMem (h : IsBase base) : '-' ∉ base := by
  obtain ⟨major, minor, patch, rfl, hparts⟩ := h
  have hpart : ∀ part ∈ [major, minor, patch], '-' ∉ part := fun part hpart hdash =>
    absurd (List.all_eq_true.1 (hparts part hpart).2 '-' hdash) (by decide)
  simp only [List.forall_mem_cons] at hpart
  simp [hpart.1, hpart.2.1, hpart.2.2.1]

theorem plain_of_isSerial (h : isSerial serial = true) : Plain serial := by
  cases serial with
  | nil => cases h
  | cons c cs =>
    simp only [isSerial, Bool.and_eq_true, decide_eq_true_eq] at h
    obtain ⟨⟨hlow, hhigh⟩, hrest⟩ := h
    have hdigit : c.isDigit = true := by
      simp only [Char.isDigit, Bool.and_eq_true, decide_eq_true_eq]
      exact ⟨le_trans (show '0' ≤ '1' by decide) hlow, hhigh⟩
    exact plain_cons.2 ⟨plainChar_of_isDecimal (isDecimal_of_isDigit hdigit),
      plain_of_isDecimal hrest⟩

theorem plain_intText (n : ℤ) : Plain (intText n) := by
  have hdecimal : Plain (decimal n.natAbs) := List.all_eq_true.2 fun c hc =>
    plainChar_of_isDecimal (isDecimal_of_isDigit ((asciiDigits_decimal _).mem hc))
  unfold intText
  split_ifs
  · exact plain_cons.2 ⟨by decide, hdecimal⟩
  · exact hdecimal

theorem plain_name (channel : Channel) : Plain channel.name := by
  cases channel <;> exact show List.all _ _ = true by decide

theorem plain_letters (channel : Channel) : Plain channel.letters := by
  cases channel <;> exact show List.all _ _ = true by decide

/-- **A release version and its spelling** are plain texts. -/
theorem plain_of_parseVersion (h : parseVersion version = .ok release) :
    (Plain version ∧ version ≠ []) ∧ Plain release.pypiVersion ∧ release.pypiVersion ≠ [] := by
  obtain ⟨base, hbase, ⟨rfl, rfl⟩ | ⟨channel, serial, n, hserial, rfl, -, rfl⟩⟩ :=
    parseVersion_cases h
  · exact ⟨⟨hbase.plain, hbase.ne_nil⟩, hbase.plain, hbase.ne_nil⟩
  · have hdash : plainChar '-' = true := by decide
    have hdot : plainChar '.' = true := by decide
    refine ⟨⟨?_, by simp [prereleaseText]⟩, ?_, ?_⟩
    · simp only [prereleaseText, plain_append, plain_cons]
      exact ⟨hbase.plain, hdash, plain_name channel, hdot, plain_of_isSerial hserial⟩
    · simp only [ReleaseVersion.pypiVersion, serialText, plain_append]
      exact ⟨hbase.plain, plain_letters channel, plain_intText n⟩
    · simp [ReleaseVersion.pypiVersion, hbase.ne_nil]

theorem canonicalReleaseVersion_prereleaseText (hbase : IsBase base) :
    canonicalReleaseVersion (prereleaseText base channel serial) =
      prereleaseText base channel serial := by
  have hrest : takeBase (prereleaseText base channel serial) =
      some (base, '-' :: (channel.name ++ '.' :: serial)) :=
    takeBase_eq_some.2 ⟨rfl, hbase, show (!isDecimal '-') = true by decide⟩
  have hmatch : matchPep440 (prereleaseText base channel serial) = none := by
    rw [matchPep440, hrest]
    rfl
  rw [canonicalReleaseVersion, hmatch]

theorem canonicalReleaseVersion_of_parseVersion (h : parseVersion version = .ok release) :
    canonicalReleaseVersion version = version := by
  obtain ⟨base, hbase, ⟨rfl, -⟩ | ⟨channel, serial, n, hserial, rfl, -, -⟩⟩ :=
    parseVersion_cases h
  · exact canonicalReleaseVersion_of_isBase hbase
  · exact canonicalReleaseVersion_prereleaseText hbase

theorem prereleaseText_inj {base' serial' : List Char} {channel' : Channel} (hbase : IsBase base)
    (hserial : isSerial serial = true) (hbase' : IsBase base') (hserial' : isSerial serial' = true)
    (h : prereleaseText base channel serial = prereleaseText base' channel' serial') :
    base = base' ∧ channel = channel' ∧ serial = serial' := by
  have hmatch : matchVersion (prereleaseText base channel serial) =
      some ⟨base, some (channel, serial)⟩ := matchVersion_eq_some.2 ⟨hbase, hserial, rfl⟩
  have hmatch' : matchVersion (prereleaseText base' channel' serial') =
      some ⟨base', some (channel', serial')⟩ := matchVersion_eq_some.2 ⟨hbase', hserial', rfl⟩
  rw [h, hmatch'] at hmatch
  obtain ⟨rfl, hgroups⟩ := VersionMatch.mk.inj (Option.some.inj hmatch)
  obtain ⟨rfl, rfl⟩ := Prod.mk.inj (Option.some.inj hgroups)
  exact ⟨rfl, rfl, rfl⟩

theorem asciiDigits_of_intText {n : ℤ} (hserial : isSerial serial = true)
    (h : intText n = serial) : AsciiDigits serial := by
  subst h
  unfold intText at hserial ⊢
  split_ifs at hserial ⊢
  · have hdash : ¬ '1' ≤ '-' := by decide
    simp [isSerial, hdash] at hserial
  · exact asciiDigits_decimal _

/-- **The spelling in `uv.lock`** is read back as the version if and only if the serial is written
in the digits of ASCII. -/
theorem canonicalReleaseVersion_pypiVersion_iff (h : parseVersion version = .ok release) :
    canonicalReleaseVersion release.pypiVersion = version ↔ SerialAscii version := by
  obtain ⟨base, hbase, ⟨rfl, rfl⟩ | ⟨channel, serial, n, hserial, rfl, hn, rfl⟩⟩ :=
    parseVersion_cases h
  · refine iff_of_true (canonicalReleaseVersion_of_isBase hbase) ?_
    rintro base channel serial hbase' - rfl
    exact absurd (by simp [prereleaseText]) hbase.dash_notMem
  · have hpypi : (ReleaseVersion.mk (prereleaseText base channel serial) base (some channel)
        (some n)).pypiVersion = pep440Text base channel (intText n) := rfl
    rw [hpypi]
    constructor
    · rintro heq base' channel' serial' hbase' hserial' hversion
      obtain ⟨rfl, rfl, rfl⟩ := prereleaseText_inj hbase hserial hbase' hserial' hversion
      cases hmatch : matchPep440 (pep440Text base channel (intText n)) with
      | none =>
        rw [canonicalReleaseVersion, hmatch] at heq
        have htail := List.append_cancel_left heq
        cases channel <;> simp [Channel.letters] at htail
      | some groups =>
        obtain ⟨base', channel', serial'⟩ := groups
        obtain ⟨hbase', hserial', hspelling⟩ := matchPep440_eq_some.1 hmatch
        rw [hspelling, canonicalReleaseVersion_pep440Text hbase' hserial'] at heq
        obtain ⟨rfl, rfl, rfl⟩ := prereleaseText_inj hbase' hserial' hbase hserial heq
        have htext := List.append_cancel_left (List.append_cancel_left hspelling)
        exact asciiDigits_of_intText hserial htext
    · intro hascii
      have hdigits := hascii base channel serial hbase hserial rfl
      have hdecimals : AsciiDecimals serial := List.all_eq_true.2 fun c hc => by
        simp [hdigits.mem hc]
      rw [intText_of_isSerial hserial hdecimals hn]
      exact canonicalReleaseVersion_pep440Text hbase hserial

end Texts

/-! ### The patterns -/

theorem initLine_local : initLine.Local := by
  refine ⟨rfl, fun b x hb hline h => ?_, ?_, fun c _ => List.not_mem_nil⟩
  · -- a line ends between the two matches
    have hnewline := mem_of_lastOr hb none (hline rfl)
    rcases List.prefix_or_prefix_of_prefix h (List.prefix_append b _) with h | h
    · exact h
    · exact absurd (h.subset hnewline) (by decide)
  · exact ⟨"__version__ = ".toList, [], by decide, by decide, fun _ _ _ => List.nil_prefix⟩

/-- The front of the entry does not overlap with itself. -/
theorem uvEntry_front_overlap :
    (uvEntry.front.tails.tail.all fun s => s = [] || !s.isPrefixOf uvEntry.front) = true := by
  decide

theorem uvEntry_local : uvEntry.Local := by
  refine ⟨rfl, fun b x hb _ h => ?_, ?_, fun c hc => ?_⟩
  · rcases List.prefix_or_prefix_of_prefix h (List.prefix_append b _) with hfront | ⟨s, hs⟩
    · exact hfront
    · -- a match that begins inside the front would be an overlap of the front with itself
      have hinside : s <+: uvEntry.front ++ x := by
        obtain ⟨t, ht⟩ := h
        have hcancel : b ++ (s ++ t) = b ++ (uvEntry.front ++ x) := by
          rw [← List.append_assoc, hs, ht]
        exact ⟨t, List.append_cancel_left hcancel⟩
      have hshorter : s.length < uvEntry.front.length := by
        have hpos := List.length_pos_of_ne_nil hb
        rw [← hs, List.length_append]
        omega
      have hprefix : s <+: uvEntry.front :=
        List.prefix_of_prefix_length_le hinside (List.prefix_append _ _) hshorter.le
      have htails : uvEntry.front.tails = uvEntry.front :: uvEntry.front.tails.tail := by decide
      have hmem : s ∈ uvEntry.front.tails.tail := by
        have hsuffix : s ∈ uvEntry.front.tails := (List.mem_tails _ _).2 ⟨b, hs⟩
        rw [htails] at hsuffix
        rcases List.mem_cons.1 hsuffix with rfl | hmem
        · exact absurd hshorter (lt_irrefl _)
        · exact hmem
      have hoverlap := List.all_eq_true.1 uvEntry_front_overlap s hmem
      simp only [List.isPrefixOf_iff_prefix.2 hprefix, Bool.not_true, Bool.or_false,
        decide_eq_true_eq] at hoverlap
      rw [← hs, hoverlap, List.append_nil]
  · refine ⟨"[[package]]\nname = ".toList, "firecrawl-lb\"\nversion = \"".toList, by decide,
      by decide, fun x y h => ?_⟩
    change '\n' :: _ <+: 'f' :: _ at h
    exact absurd (List.cons_prefix_cons.1 h).1 (by decide)
  · obtain rfl : '[' = c := Option.some.inj hc
    decide

/-! ### The steps -/

section Steps

variable {lib : Codecs} {files files' : Files} {version pre run rest : List Char} {p : Pattern}

theorem compute_ok {α : Type} (a : α) : compute files (.ok a) = .ok a := rfl

theorem replaceOnce_of_search (h : p.search run = some (pre, version, rest)) (value : List Char) :
    p.replaceOnce value run = .ok (p.written pre value rest) := by
  rw [Pattern.replaceOnce, h]

theorem replaceOnce_of_none (h : p.search run = none) (value : List Char) :
    p.replaceOnce value run = .error .valueError := by
  rw [Pattern.replaceOnce, h]

/-- A file that is written without carriage returns is read as it was written. -/
theorem universalNewlines_written {text value : List Char}
    (h : p.search (universalNewlines text) = some (pre, run, rest)) (hvalue : Plain value) :
    universalNewlines (p.written pre value rest) = p.written pre value rest := by
  have hold := cr_notMem_universalNewlines text
  rw [(Pattern.eq_written h).1] at hold
  refine universalNewlines_eq_self ?_
  have hnew : '\r' ∉ value := hvalue.notMem (by decide)
  simp only [Pattern.written, List.mem_append, List.mem_cons, not_or] at hold ⊢
  exact ⟨hold.1, hold.2.1, hnew, hold.2.2.2⟩

theorem search_rewritten {text value : List Char} (hp : p.Local)
    (h : p.search (universalNewlines text) = some (pre, run, rest)) (hvalue : Plain value)
    (hne : value ≠ []) :
    p.search (universalNewlines (p.written pre value rest)) = some (pre, value, rest) := by
  rw [universalNewlines_written h hvalue]
  exact Pattern.search_written hp h hne (hvalue.notMem (by decide))

theorem chart_keys (line : List Char) :
    (chartVersionKey <+: line → ¬ chartAppVersionKey <+: line) ∧
      (chartAppVersionKey <+: line → ¬ chartVersionKey <+: line) := by
  have hdiffer : ¬ chartVersionKey <+: chartAppVersionKey ∧
      ¬ chartAppVersionKey <+: chartVersionKey := by decide
  have hnot : ¬ (chartVersionKey <+: line ∧ chartAppVersionKey <+: line) := by
    rintro ⟨h, h'⟩
    rcases List.prefix_or_prefix_of_prefix h h' with hprefix | hprefix
    · exact hdiffer.1 hprefix
    · exact hdiffer.2 hprefix
  exact ⟨fun h h' => hnot ⟨h, h'⟩, fun h h' => hnot ⟨h', h⟩⟩

/-- **Both lines of the chart** hold the version afterwards. -/
theorem updateChart_ok {chartVersion appVersion : List Char} (hplain : Plain version)
    (hne : version ≠ [])
    (hchart : findLine chartVersionKey (universalNewlines files.chart) = some chartVersion)
    (happ : findLine chartAppVersionKey (universalNewlines files.chart) = some appVersion) :
    ∃ text, updateChart version files = .ok { files with chart := text } ∧
      findLine chartVersionKey (universalNewlines text) = some version ∧
      findLine chartAppVersionKey (universalNewlines text) = some version := by
  have hversion : '\n' ∉ version ∧ '\r' ∉ version :=
    ⟨hplain.notMem (by decide), hplain.notMem (by decide)⟩
  have hkey : ∀ c, c ∉ chartVersionKey ∧ c ∉ chartAppVersionKey → c ∉ version →
      c ∉ chartVersionKey ++ version ∧ c ∉ chartAppVersionKey ++ version := by
    intro c hc hv
    simp [hc.1, hc.2, hv]
  obtain ⟨hline, hline'⟩ := hkey '\n' (by decide) hversion.1
  obtain ⟨hcr, hcr'⟩ := hkey '\r' (by decide) hversion.2
  obtain ⟨text, htext⟩ := exists_replaceLine hchart version
  have happ' : findLine chartAppVersionKey text = some appVersion := by
    rw [findLine_replaceLine_of_ne htext hline fun line => (chart_keys line).1, happ]
  obtain ⟨text', htext'⟩ := exists_replaceLine happ' version
  have hread : universalNewlines text' = text' :=
    universalNewlines_eq_self (notMem_replaceLine htext' (by decide)
      (notMem_replaceLine htext (by decide) (cr_notMem_universalNewlines _) hcr) hcr')
  refine ⟨text', ?_, ?_, ?_⟩
  · rw [updateChart, htext, compute_ok]
    change compute files (replaceLine chartAppVersionKey version text) >>= _ = _
    rw [htext']
    rfl
  · rw [hread, findLine_replaceLine_of_ne htext' hline' fun line => (chart_keys line).2,
      findLine_replaceLine htext hline hne]
  · rw [hread, findLine_replaceLine htext' hline' hne]

end Steps

/-! ### The versions that are read -/

section Read

variable {lib : Codecs} {files : Files} {version pypiVersion : List Char}
  {packageVersion : Option (List Char)} {data : lib.Data}

theorem found_eq_ok {value : Option (List Char)} : found value = .ok version ↔
    value = some version := by
  cases value <;> simp [found]

/-- What a reading that succeeds has found. -/
structure Readable (lib : Codecs) (files : Files) (data : lib.Data) : Prop where
  loads : lib.jsonLoads (universalNewlines files.packageJson) = .ok data
  version : ∃ value, lib.version data = .ok value
  init : ∃ pre run rest, initLine.search (universalNewlines files.init) = some (pre, run, rest)
  chartVersion : ∃ value, findLine chartVersionKey (universalNewlines files.chart) = some value
  chartAppVersion : ∃ value,
    findLine chartAppVersionKey (universalNewlines files.chart) = some value
  uvLock : ∃ pre run rest, uvEntry.search (universalNewlines files.uvLock) = some (pre, run, rest)

theorem readable_of_readProjectVersions
    (h : ∃ versions, readProjectVersions lib files = .ok versions) :
    ∃ data, Readable lib files data := by
  obtain ⟨versions, h⟩ := h
  simp only [readProjectVersions, bind_eq_ok, found_eq_ok, Option.map_eq_some_iff,
    Prod.exists] at h
  obtain ⟨data, hloads, -, -, init, ⟨pre, run, rest, hinit, -⟩, value, hversion, chartVersion,
    hchart, appVersion, happ, uvLock, ⟨pre', run', rest', huv, -⟩, -⟩ := h
  exact ⟨data, hloads, ⟨value, hversion⟩, ⟨pre, run, rest, hinit⟩, ⟨_, hchart⟩, ⟨_, happ⟩,
    ⟨pre', run', rest', huv⟩⟩

/-- The files hold the version, apart from what TOML reads in `pyproject.toml`. -/
structure Bumped (lib : Codecs) (files : Files) (version pypiVersion : List Char) : Prop where
  packageJson : ∃ data, lib.jsonLoads (universalNewlines files.packageJson) = .ok data ∧
    lib.version data = .ok (some version)
  init : ∃ pre rest, initLine.search (universalNewlines files.init) = some (pre, version, rest)
  chartVersion : findLine chartVersionKey (universalNewlines files.chart) = some version
  chartAppVersion : findLine chartAppVersionKey (universalNewlines files.chart) = some version
  uvLock : ∃ pre rest,
    uvEntry.search (universalNewlines files.uvLock) = some (pre, pypiVersion, rest)

theorem readProjectVersions_of_bumped (h : Bumped lib files version pypiVersion) :
    readProjectVersions lib files =
      (readPyprojectVersionText lib (universalNewlines files.pyproject)).map fun pyproject =>
        [(.pyproject, some pyproject), (.init, some version), (.packageJson, some version),
          (.chartVersion, some version), (.chartAppVersion, some version),
          (.uvLock, some pypiVersion)] := by
  obtain ⟨data, hloads, hversion⟩ := h.packageJson
  obtain ⟨pre, rest, hinit⟩ := h.init
  obtain ⟨pre', rest', huv⟩ := h.uvLock
  unfold readProjectVersions
  dsimp only
  rw [hloads, hinit, h.chartVersion, h.chartAppVersion, huv]
  cases readPyprojectVersionText lib (universalNewlines files.pyproject) with
  | error e => rfl
  | ok pyproject =>
    change (lib.version data >>= _) = _
    rw [hversion]
    rfl

/-- **The check after an update** passes if and only if TOML reads the version and the spelling in
`uv.lock` is read back as it. -/
theorem assertProjectVersions_iff (h : Bumped lib files version pypiVersion)
    (hcanonical : canonicalReleaseVersion version = version) :
    assertProjectVersions lib files version = .ok () ↔
      readPyprojectVersionText lib (universalNewlines files.pyproject) = .ok version ∧
        canonicalReleaseVersion pypiVersion = version := by
  rw [assertProjectVersions, readProjectVersions_of_bumped h]
  cases readPyprojectVersionText lib (universalNewlines files.pyproject) with
  | error e => simp [Except.map, bind, Except.bind]
  | ok pyproject =>
    have hall : ([(.pyproject, some pyproject), (.init, some version),
        (.packageJson, some version), (.chartVersion, some version),
        (.chartAppVersion, some version), (.uvLock, some pypiVersion)].all
          fun v : ManagedVersion × Option (List Char) => canonicalReleaseVersionForFile v.1 v.2 =
            canonicalReleaseVersionForFile v.1 (some (canonicalReleaseVersion version))) = true ↔
        pyproject = version ∧ canonicalReleaseVersion pypiVersion = version := by
      simp [canonicalReleaseVersionForFile, hcanonical]
    change (if _ then pure () else Except.error Raised.valueError) = Except.ok () ↔ _
    split_ifs with h'
    · exact iff_of_true rfl ((hall.1 h').imp_left (congrArg Except.ok))
    · refine iff_of_false (fun heq => by cases heq) fun hboth => h' (hall.2 ?_)
      exact hboth.imp_left Except.ok.inj

end Read

/-! ### Complete or without effect -/

/-- What the update relies on of `json`. -/
structure Codecs.Lawful (lib : Codecs) : Prop where
  /-- the empty text is no JSON -/
  empty : ∀ data, lib.jsonLoads [] ≠ .ok data
  /-- what was loaded and given a version is dumped without carriage returns, and loaded again with
  this version -/
  dumps : ∀ text data value version cs, lib.jsonLoads text = .ok data →
    lib.version data = .ok value → Plain version → version ≠ [] →
    lib.jsonDumps (lib.setVersion data version) = .ok (.text cs) →
    '\r' ∉ cs ∧ ∃ data', lib.jsonLoads (cs ++ ['\n']) = .ok data' ∧
      lib.version data' = .ok (some version)

/-- An update that returns has made all files pass the check; one that raises has changed none. -/
def CompleteOrNoEffect (lib : Codecs) (files : Files) (version : List Char) : Prop :=
  match updateProjectVersions lib files version with
  | .ok files' => assertProjectVersions lib files' version = .ok ()
  | .error (_, files') => files' = files

/-- No line of `pyproject.toml` has the form that is replaced; or, with the version in the first
such line, TOML reads it as the version of the project, its serial is in ASCII digits, and `json`
dumps a text that can be encoded; or `json` dumps nothing, and the first two files are what the
update makes of them. -/
def Safe (lib : Codecs) (files : Files) (version : List Char) : Prop :=
  ∀ pre old rest, projectLine.search (universalNewlines files.pyproject) = some (pre, old, rest) →
    ∀ data, lib.jsonLoads (universalNewlines files.packageJson) = .ok data →
      match lib.jsonDumps (lib.setVersion data version) with
      | .ok (.text _) =>
        readPyprojectVersionText lib (projectLine.written pre version rest) = .ok version ∧
          SerialAscii version
      | .ok .surrogates => False
      | .error _ => files.pyproject = projectLine.written pre version rest ∧
          ∀ pre' old' rest', initLine.search (universalNewlines files.init) =
            some (pre', old', rest') → files.init = initLine.written pre' version rest'

section Update

variable {lib : Codecs} {files : Files} {version : List Char} {release : ReleaseVersion}
  {data : lib.Data} {pre old rest pre' old' rest' : List Char}

theorem updateProjectVersions_of_none (hv : parseVersion version = .ok release)
    (h : projectLine.search (universalNewlines files.pyproject) = none) :
    updateProjectVersions lib files version = .error (.valueError, files) := by
  rw [updateProjectVersions, hv, compute_ok]
  change updatePyproject version files >>= _ = _
  rw [updatePyproject, replaceOnce_of_none h]
  rfl

/-- The files when the first two are written. -/
def Files.begun (files : Files) (pyproject init : List Char) : Files :=
  { files with pyproject := pyproject, init := init }

/-- **The first two files** are written before the third is looked at. -/
theorem updateProjectVersions_of_some (hv : parseVersion version = .ok release)
    (h : projectLine.search (universalNewlines files.pyproject) = some (pre, old, rest))
    (h' : initLine.search (universalNewlines files.init) = some (pre', old', rest')) :
    updateProjectVersions lib files version =
      (updatePackageJson lib version (files.begun (projectLine.written pre version rest)
        (initLine.written pre' version rest')) >>= fun files =>
          updateChart version files >>= updateUvLock release.pypiVersion) := by
  rw [updateProjectVersions, hv, compute_ok]
  change updatePyproject version files >>= _ = _
  rw [updatePyproject, replaceOnce_of_search h]
  change updateInit version { files with pyproject := projectLine.written pre version rest } >>=
    _ = _
  rw [updateInit, replaceOnce_of_search h']
  rfl

/-- `json` dumps nothing: what is written by then stays. -/
theorem updateProjectVersions_of_error {e : Raised} (hv : parseVersion version = .ok release)
    (h : projectLine.search (universalNewlines files.pyproject) = some (pre, old, rest))
    (h' : initLine.search (universalNewlines files.init) = some (pre', old', rest'))
    (hloads : lib.jsonLoads (universalNewlines files.packageJson) = .ok data)
    (hdumps : lib.jsonDumps (lib.setVersion data version) = .error e) :
    updateProjectVersions lib files version = .error (e, files.begun
      (projectLine.written pre version rest) (initLine.written pre' version rest')) := by
  rw [updateProjectVersions_of_some hv h h', updatePackageJson]
  change (compute _ (lib.jsonLoads (universalNewlines files.packageJson)) >>= _) >>= _ = _
  rw [hloads, compute_ok]
  change (compute _ (lib.jsonDumps (lib.setVersion data version)) >>= _) >>= _ = _
  rw [hdumps]
  rfl

/-- `json` dumps a text without an encoding: the third file is empty then. -/
theorem updateProjectVersions_of_surrogates (hv : parseVersion version = .ok release)
    (h : projectLine.search (universalNewlines files.pyproject) = some (pre, old, rest))
    (h' : initLine.search (universalNewlines files.init) = some (pre', old', rest'))
    (hloads : lib.jsonLoads (universalNewlines files.packageJson) = .ok data)
    (hdumps : lib.jsonDumps (lib.setVersion data version) = .ok .surrogates) :
    ∃ files', updateProjectVersions lib files version = .error (.valueError, files') ∧
      files'.packageJson = [] := by
  refine ⟨{ files.begun (projectLine.written pre version rest)
    (initLine.written pre' version rest') with packageJson := [] }, ?_, rfl⟩
  rw [updateProjectVersions_of_some hv h h', updatePackageJson]
  change (compute _ (lib.jsonLoads (universalNewlines files.packageJson)) >>= _) >>= _ = _
  rw [hloads, compute_ok]
  change (compute _ (lib.jsonDumps (lib.setVersion data version)) >>= _) >>= _ = _
  rw [hdumps]
  rfl

/-- **A dump that can be encoded**: the update returns, and the files hold the version. -/
theorem updateProjectVersions_of_text {cs : List Char} (hlib : lib.Lawful)
    (hread : Readable lib files data) (hv : parseVersion version = .ok release)
    (h : projectLine.search (universalNewlines files.pyproject) = some (pre, old, rest))
    (hdumps : lib.jsonDumps (lib.setVersion data version) = .ok (.text cs)) :
    ∃ files', updateProjectVersions lib files version = .ok files' ∧
      files'.pyproject = projectLine.written pre version rest ∧
      Bumped lib files' version release.pypiVersion := by
  obtain ⟨⟨hplain, hne⟩, hpypi, hpypiNe⟩ := plain_of_parseVersion hv
  obtain ⟨pre', old', rest', hinit⟩ := hread.init
  obtain ⟨value, hversion⟩ := hread.version
  obtain ⟨chartVersion, hchart⟩ := hread.chartVersion
  obtain ⟨appVersion, happ⟩ := hread.chartAppVersion
  obtain ⟨preUv, oldUv, restUv, huv⟩ := hread.uvLock
  obtain ⟨hcr, data', hloads', hversion'⟩ := hlib.dumps _ _ _ _ _ hread.loads hversion hplain hne
    hdumps
  have hjson : universalNewlines (cs ++ ['\n']) = cs ++ ['\n'] :=
    universalNewlines_eq_self (by simp [hcr])
  -- the files after the first two writes, then with `package.json`, then with the chart
  let files₁ := files.begun (projectLine.written pre version rest)
    (initLine.written pre' version rest')
  let files₂ : Files := { files₁ with packageJson := cs ++ ['\n'] }
  obtain ⟨chart, hupdate, hchart', happ'⟩ :=
    @updateChart_ok files₂ version chartVersion appVersion hplain hne hchart happ
  let files₃ : Files := { files₂ with chart := chart }
  refine ⟨{ files₃ with uvLock := uvEntry.written preUv release.pypiVersion restUv }, ?_, rfl, ?_⟩
  · have hpackage : updatePackageJson lib version files₁ = .ok files₂ := by
      rw [updatePackageJson]
      change compute _ (lib.jsonLoads (universalNewlines files.packageJson)) >>= _ = _
      rw [hread.loads, compute_ok]
      change compute _ (lib.jsonDumps (lib.setVersion data version)) >>= _ = _
      rw [hdumps]
      rfl
    have huvLock : updateUvLock release.pypiVersion files₃ =
        .ok { files₃ with uvLock := uvEntry.written preUv release.pypiVersion restUv } := by
      rw [updateUvLock]
      change compute _ (uvEntry.replaceOnce _ (universalNewlines files.uvLock)) >>= _ = _
      rw [replaceOnce_of_search huv]
      rfl
    rw [updateProjectVersions_of_some hv h hinit, hpackage]
    change updateChart version files₂ >>= _ = _
    rw [hupdate]
    exact huvLock
  · exact ⟨⟨data', by rw [← hloads', ← hjson], hversion'⟩,
      ⟨pre', rest', search_rewritten initLine_local hinit hplain hne⟩, hchart', happ',
      ⟨preUv, restUv, search_rewritten uvEntry_local huv hpypi hpypiNe⟩⟩

end Update

/-- **A bump is complete or has no effect** if and only if the files are safe. -/
theorem completeOrNoEffect_iff {lib : Codecs} (hlib : lib.Lawful) {files : Files}
    (hread : ∃ versions, readProjectVersions lib files = .ok versions) {version : List Char}
    (hv : ∃ release, parseVersion version = .ok release) :
    CompleteOrNoEffect lib files version ↔ Safe lib files version := by
  obtain ⟨data, hread⟩ := readable_of_readProjectVersions hread
  obtain ⟨release, hv⟩ := hv
  have hdata : ∀ {data'}, lib.jsonLoads (universalNewlines files.packageJson) = .ok data' →
      data' = data := fun hloads => Except.ok.inj (hloads.symm.trans hread.loads)
  cases hsearch : projectLine.search (universalNewlines files.pyproject) with
  | none =>
    -- without a version line the update raises before it writes a file
    refine iff_of_true ?_ fun pre old rest h => ?_
    · rw [CompleteOrNoEffect, updateProjectVersions_of_none hv hsearch]
    · rw [hsearch] at h
      cases h
  | some found =>
    obtain ⟨pre, old, rest⟩ := found
    obtain ⟨pre', old', rest', hinit⟩ := hread.init
    -- what was read has each line once, so `Safe` speaks of these lines only
    have hsafe : Safe lib files version ↔
        match lib.jsonDumps (lib.setVersion data version) with
        | .ok (.text _) =>
          readPyprojectVersionText lib (projectLine.written pre version rest) = .ok version ∧
            SerialAscii version
        | .ok .surrogates => False
        | .error _ => files.pyproject = projectLine.written pre version rest ∧
            files.init = initLine.written pre' version rest' := by
      unfold Safe
      constructor
      · intro h
        have h := h pre old rest hsearch data hread.loads
        cases hdumps : lib.jsonDumps (lib.setVersion data version) with
        | error e =>
          rw [hdumps] at h
          exact ⟨h.1, h.2 pre' old' rest' hinit⟩
        | ok dump =>
          rw [hdumps] at h
          cases dump <;> exact h
      · intro h pre₁ old₁ rest₁ hsearch₁ data₁ hloads₁
        rw [hsearch] at hsearch₁
        cases hsearch₁
        obtain rfl := hdata hloads₁
        cases hdumps : lib.jsonDumps (lib.setVersion data₁ version) with
        | error e =>
          rw [hdumps] at h
          refine ⟨h.1, fun pre₂ old₂ rest₂ hinit₂ => ?_⟩
          rw [hinit] at hinit₂
          cases hinit₂
          exact h.2
        | ok dump =>
          rw [hdumps] at h
          cases dump <;> exact h
    rw [hsafe]
    cases hdumps : lib.jsonDumps (lib.setVersion data version) with
    | error e =>
      rw [CompleteOrNoEffect, updateProjectVersions_of_error hv hsearch hinit hread.loads hdumps]
      obtain ⟨pyproject, init, packageJson, chart, uvLock⟩ := files
      simp only [Files.begun, Files.mk.injEq, and_true]
      exact and_congr eq_comm eq_comm
    | ok dump =>
      cases dump with
      | surrogates =>
        obtain ⟨files', hupdate, hempty⟩ :=
          updateProjectVersions_of_surrogates hv hsearch hinit hread.loads hdumps
        rw [CompleteOrNoEffect, hupdate]
        -- `package.json` is empty now, and no empty text was read from it
        refine iff_of_false (fun heq => ?_) id
        have hloads := hread.loads
        rw [← heq, hempty] at hloads
        exact hlib.empty data hloads
      | text cs =>
        obtain ⟨files', hupdate, hpyproject, hbumped⟩ :=
          updateProjectVersions_of_text hlib hread hv hsearch hdumps
        have hplain := (plain_of_parseVersion hv).1.1
        rw [CompleteOrNoEffect, hupdate]
        change assertProjectVersions lib files' version = .ok () ↔ _
        rw [assertProjectVersions_iff hbumped (canonicalReleaseVersion_of_parseVersion hv),
          hpyproject, universalNewlines_written hsearch hplain,
          canonicalReleaseVersion_pypiVersion_iff hv]

/-! ### Sample files -/

/-- A `package.json` that holds a version only. -/
def packagePattern : Pattern :=
  ⟨false, "\x7b\n  \"version\": \"".toList, "\n\x7d\n".toList, false⟩

/-- A line of TOML: a table, or a key with a text.  The lines after it come first. -/
def sampleTomlLine (line : List Char)
    (parsed : List (List Char × Toml) × List (List Char × Toml)) :
    List (List Char × Toml) × List (List Char × Toml) :=
  match line with
  | [] => parsed
  | '[' :: name => ([], (name.takeWhile (· ≠ ']'), .table parsed.1) :: parsed.2)
  | line =>
    ((line.takeWhile (· ≠ ' '),
      .str (((line.dropWhile (· ≠ '"')).drop 1).takeWhile (· ≠ '"'))) :: parsed.1, parsed.2)

/-- `tomllib` and `json` on the sample files. -/
def sampleCodecs : Codecs where
  tomlLoads text :=
    let parsed := (text.splitOn '\n').foldr sampleTomlLine ([], [])
    .ok (parsed.1 ++ parsed.2)
  Data := List Char
  jsonLoads text :=
    match packagePattern.matchAt none text with
    | some (version, []) => .ok version
    | _ => .error .valueError
  version data := .ok (some data)
  setVersion _ version := version
  jsonDumps data := .ok (.text (packagePattern.front ++ (data ++ '"' :: "\n\x7d".toList)))

theorem sampleCodecs_lawful : sampleCodecs.Lawful := by
  refine ⟨fun data h => (by cases h), fun text data value version cs _ _ hplain hne hdumps => ?_⟩
  obtain rfl : packagePattern.front ++ (version ++ '"' :: "\n\x7d".toList) = cs := by
    cases hdumps
    rfl
  have hcr : '\r' ∉ version := hplain.notMem (by decide)
  have hquote : '"' ∉ version := hplain.notMem (by decide)
  refine ⟨?_, version, ?_, rfl⟩
  · have hfront : '\r' ∉ packagePattern.front := by decide
    have htail : '\r' ∉ "\n\x7d".toList := by decide
    simp only [List.mem_append, List.mem_cons, not_or]
    exact ⟨hfront, hcr, by decide, htail⟩
  · have hmatch : packagePattern.matchAt none (packagePattern.front ++ (version ++
        '"' :: "\n\x7d".toList) ++ ['\n']) = some (version, []) := by
      refine Pattern.matchAt_eq_some.2 ⟨fun h => (by cases h), ?_, hne, hquote, fun h => by cases h⟩
      simp [packagePattern]
    change (match packagePattern.matchAt none _ with
      | some (version, []) => Except.ok version
      | _ => .error Raised.valueError) = _
    rw [hmatch]
    rfl

/-- The files of a project, with `above` before the table of the project. -/
def sampleFiles (above : List Char) : Files where
  pyproject := above ++ "[project]\nname = \"firecrawl-lb\"\nversion = \"0.0.0\"\n".toList
  init := "__version__ = \"0.0.0\"\n".toList
  packageJson := "\x7b\n  \"version\": \"0.0.0\"\n\x7d\n".toList
  chart := "apiVersion: v2\nversion: 0.0.0\nappVersion: 0.0.0\n".toList
  uvLock := uvEntry.written [] "0.0.0".toList ['\n']

theorem serialAscii_of_parseVersion {version : List Char} {release : ReleaseVersion}
    (h : parseVersion version = .ok release)
    (hcanonical : canonicalReleaseVersion release.pypiVersion = version) : SerialAscii version :=
  (canonicalReleaseVersion_pypiVersion_iff h).1 hcanonical

/-- From `0.0.0` to `0.1.0-beta.1`. -/
theorem completeOrNoEffect_sample :
    CompleteOrNoEffect sampleCodecs (sampleFiles []) "0.1.0-beta.1".toList := by
  have hsearch : projectLine.search (universalNewlines (sampleFiles []).pyproject) =
      some ("[project]\nname = \"firecrawl-lb\"\n".toList, "0.0.0".toList, ['\n']) := by decide
  have hparse : parseVersion "0.1.0-beta.1".toList =
      .ok ⟨"0.1.0-beta.1".toList, "0.1.0".toList, some .beta, some 1⟩ := by decide
  refine (completeOrNoEffect_iff sampleCodecs_lawful ⟨_, rfl⟩ ⟨_, hparse⟩).2 ?_
  intro pre old rest h data _
  cases hsearch.symm.trans h
  exact ⟨by rfl, serialAscii_of_parseVersion hparse (by decide)⟩

/-- A line `version = "9"` in a table above that of the project is replaced instead. -/
theorem not_completeOrNoEffect_sample :
    let files := sampleFiles "[tool]\nversion = \"9\"\n".toList
    let version := "0.1.0".toList
    (∃ versions, readProjectVersions sampleCodecs files = .ok versions) ∧
      (∃ release, parseVersion version = .ok release) ∧
      ¬ CompleteOrNoEffect sampleCodecs files version := by
  intro files version
  refine ⟨⟨_, rfl⟩, ⟨_, rfl⟩, fun h => ?_⟩
  have hupdate : ∃ files', updateProjectVersions sampleCodecs files version = .ok files' ∧
      assertProjectVersions sampleCodecs files' version = .error .valueError := ⟨_, rfl, rfl⟩
  obtain ⟨files', hupdate, hassert⟩ := hupdate
  rw [CompleteOrNoEffect, hupdate] at h
  cases hassert.symm.trans h

end FirecrawlLb.Scripts
