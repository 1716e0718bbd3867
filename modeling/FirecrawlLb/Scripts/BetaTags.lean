import FirecrawlLb.Lib.Run
import FirecrawlLb.Scripts.ReleaseVersions

/-!
# Beta releases

A beta release of a stable version is numbered after the tags that are there.  `git` lists the tags,
in its own order and with others that the pattern lets through; the loop over the lines keeps the
one with the greatest number.
-/

namespace FirecrawlLb.Scripts.BetaTags

open FirecrawlLb.Lib FirecrawlLb.Lib.Run FirecrawlLb.Python FirecrawlLb.Scripts

/-- `parse_tag` -/
def parseTag (tag : List Char) : Except Raised ReleaseVersion :=
  match tag with
  | [] => .error .valueError
  | c :: version =>
    if c = 'v' ∧ (matchVersion version).isSome then parseVersion version else .error .valueError

/-- `ReleaseVersion.tag` -/
def tag (release : ReleaseVersion) : List Char := 'v' :: release.version

/-- The beta of the base that a line names. -/
def betaOf (base line : List Char) : Option ReleaseVersion :=
  match parseTag (strip (String.ofList line)).toList with
  | .error _ => none
  | .ok parsed =>
    if parsed.base ≠ base ∨ parsed.channel ≠ some .beta ∨ parsed.serial = none then none
    else some parsed

/-- The loop of `latest_beta_tag`, for one line. -/
def later (base : List Char) (latest : Option ReleaseVersion) (line : List Char) :
    Option ReleaseVersion :=
  match betaOf base line with
  | none => latest
  | some parsed =>
    match latest with
    | none => some parsed
    | some release =>
      if release.serial.getD 0 < parsed.serial.getD 0 then some parsed else some release

/-- `latest_beta_tag` -/
def latestBetaTag (lines : List (List Char)) (baseVersion : List Char) :
    Except Raised (Option ReleaseVersion) :=
  (parseVersion baseVersion).map fun _ => lines.foldl (later baseVersion) none

/-- `next_beta_number` -/
def nextBetaNumber (lines : List (List Char)) (baseVersion : List Char) : Except Raised ℤ :=
  (latestBetaTag lines baseVersion).map fun latest =>
    match latest.bind (·.serial) with
    | some serial => serial + 1
    | none => 1

/-- `f"{n}"` of an `int`, which has not too many digits. -/
def formatInt (n : ℤ) : Except Raised (List Char) :=
  if Short n.natAbs then .ok (intText n) else .error .valueError

/-- What stops `prepare_beta_release`. -/
inductive Stop where
  | raised (exception : Raised)
  /-- `SystemExit` -/
  | exit (message : String)
  deriving DecidableEq

def Stop.ofExcept {α : Type} : Except Raised α → Except Stop α
  | .ok a => .ok a
  | .error exception => .error (.raised exception)

/-- What `main` of `prepare_beta_release` settles on, before it touches the files. -/
inductive Plan where
  /-- The latest beta already covers all releasable commits. -/
  | covered (latest : ReleaseVersion)
  | create (release : ReleaseVersion)
  deriving DecidableEq

/-- `main` of `prepare_beta_release`, up to the writing of the files: for the lines that
`git tag --list` shows, the answers of `releasable_commits_since`, and the arguments
`--base-version`, which is there, and `--beta-number`, which is zero by default. -/
def prepareBetaRelease (lines : List (List Char)) (releasableCommitsSince : List Char → Bool)
    (baseVersion : List Char) (number : ℤ) : Except Stop Plan := do
  let base ← Stop.ofExcept (parseVersion baseVersion)
  if base.channel.isSome then
    .error (.exit ("--base-version must be stable, got '" ++ String.ofList base.version ++ "'"))
  else
    let latestBeta ← Stop.ofExcept (latestBetaTag lines base.version)
    match latestBeta.filter fun latest => number = 0 && !releasableCommitsSince (tag latest) with
    | some latest => .ok (.covered latest)
    | none =>
      let betaNumber ← Stop.ofExcept
        (if number = 0 then nextBetaNumber lines base.version else .ok number)
      if betaNumber < 1 then .error (.exit "--beta-number must be >= 1")
      else
        let serial ← Stop.ofExcept (formatInt betaNumber)
        let release ← Stop.ofExcept (parseVersion (prereleaseText base.version .beta serial))
        .ok (.create release)

/-! ### The latest beta -/

section Latest

variable {base line : List Char} {lines : List (List Char)} {parsed : ReleaseVersion}
  {latest : Option ReleaseVersion} {n : ℤ}

/-- The number of the latest beta is no less. -/
def AtLeast (n : ℤ) (latest : Option ReleaseVersion) : Prop :=
  ∃ release, latest = some release ∧ n ≤ release.serial.getD 0

theorem AtLeast.later (h : AtLeast n latest) : AtLeast n (later base latest line) := by
  obtain ⟨release, rfl, hn⟩ := h
  unfold BetaTags.later
  split
  · exact ⟨release, rfl, hn⟩
  · dsimp only
    split_ifs with hlt
    · exact ⟨_, rfl, hn.trans hlt.le⟩
    · exact ⟨_, rfl, hn⟩

theorem atLeast_later (hbeta : betaOf base line = some parsed) :
    AtLeast (parsed.serial.getD 0) (later base latest line) := by
  unfold later
  rw [hbeta]
  cases latest with
  | none => exact ⟨_, rfl, le_rfl⟩
  | some release =>
    dsimp only
    split_ifs with hlt
    · exact ⟨_, rfl, le_rfl⟩
    · exact ⟨_, rfl, not_lt.1 hlt⟩

/-- **The loop keeps the greatest number.** -/
theorem atLeast_foldl_later (hline : line ∈ lines) (hbeta : betaOf base line = some parsed) :
    AtLeast (parsed.serial.getD 0) (lines.foldl (later base) latest) := by
  have hkeep : ∀ (lines : List (List Char)) (latest : Option ReleaseVersion),
      AtLeast (parsed.serial.getD 0) latest →
      AtLeast (parsed.serial.getD 0) (lines.foldl (later base) latest) := by
    intro lines
    induction lines with
    | nil => exact fun latest h => h
    | cons line lines ih =>
      intro latest h
      rw [List.foldl_cons]
      exact ih _ h.later
  obtain ⟨before, after, rfl⟩ := List.append_of_mem hline
  rw [List.foldl_append, List.foldl_cons]
  exact hkeep after _ (atLeast_later hbeta)

end Latest

/-! ### Texts of tags -/

section Texts

variable {base serial text version : List Char} {release : ReleaseVersion} {c : Char} {n : ℤ}

/-- The characters of the pattern of a version, apart from digits. -/
def marks : List Char := ['.', '-', 'a', 'l', 'p', 'h', 'b', 'e', 't', 'r', 'c']

theorem char_of_isBase (h : IsBase base) (hc : c ∈ base) : isDecimal c = true ∨ c ∈ marks := by
  obtain ⟨major, minor, patch, rfl, hparts⟩ := h
  have hdot : '.' ∈ marks := by decide
  have hpart : ∀ part ∈ [major, minor, patch], c ∈ part → isDecimal c = true :=
    fun part hpart hc => List.all_eq_true.1 (hparts part hpart).2 c hc
  simp only [List.forall_mem_cons] at hpart
  simp only [List.mem_append, List.mem_cons] at hc
  rcases hc with hc | rfl | hc | rfl | hc
  exacts [Or.inl (hpart.1 hc), Or.inr hdot, Or.inl (hpart.2.1 hc), Or.inr hdot,
    Or.inl (hpart.2.2.1 hc)]

theorem isDecimal_of_isSerial (h : isSerial serial = true) (hc : c ∈ serial) :
    isDecimal c = true := by
  cases serial with
  | nil => cases hc
  | cons d ds =>
    simp only [isSerial, Bool.and_eq_true, decide_eq_true_eq] at h
    rcases List.mem_cons.1 hc with rfl | hc
    · refine isDecimal_of_isDigit ?_
      simp only [Char.isDigit, Bool.and_eq_true, decide_eq_true_eq]
      exact ⟨le_trans (show '0' ≤ '1' by decide) h.1.1, h.1.2⟩
    · exact List.all_eq_true.1 h.2 c hc

theorem char_of_parseVersion (h : parseVersion version = .ok release) (hc : c ∈ version) :
    isDecimal c = true ∨ c ∈ marks := by
  have hname : ∀ channel : Channel, (channel.name.all fun c => decide (c ∈ marks)) = true := by
    intro channel
    cases channel <;> rfl
  obtain ⟨base, hbase, ⟨rfl, -⟩ | ⟨channel, serial, n, hserial, rfl, -, -⟩⟩ :=
    parseVersion_cases h
  · exact char_of_isBase hbase hc
  · simp only [prereleaseText, List.mem_append, List.mem_cons] at hc
    rcases hc with hc | rfl | hc | rfl | hc
    · exact char_of_isBase hbase hc
    · exact Or.inr (by decide)
    · exact Or.inr (of_decide_eq_true (List.all_eq_true.1 (hname channel) c hc))
    · exact Or.inr (by decide)
    · exact Or.inl (isDecimal_of_isSerial hserial hc)

theorem version_of_parseVersion (h : parseVersion version = .ok release) :
    release.version = version := by
  obtain ⟨base, -, ⟨-, rfl⟩ | ⟨channel, serial, n, -, -, -, rfl⟩⟩ := parseVersion_cases h <;> rfl

theorem parseTag_eq_ok : parseTag text = .ok release ↔
    text = tag release ∧ parseVersion release.version = .ok release := by
  unfold parseTag
  split
  · simp [tag]
  · rename_i c version
    constructor
    · intro h
      split_ifs at h with hv
      have hversion := version_of_parseVersion h
      rw [tag, hversion, hv.1]
      exact ⟨rfl, h⟩
    · rintro ⟨htext, h⟩
      obtain ⟨rfl, rfl⟩ := List.cons.inj htext
      have hmatch : (matchVersion release.version).isSome = true := by
        unfold parseVersion at h
        split at h
        · cases h
        all_goals
          rename_i hmatch
          rw [hmatch]
          rfl
      rw [if_pos ⟨rfl, hmatch⟩, h]

/-- A tag has no white space in it. -/
theorem isSpace_of_parseTag (h : parseTag text = .ok release) (hc : c ∈ text) :
    isSpace c = false := by
  obtain ⟨rfl, hversion⟩ := parseTag_eq_ok.1 h
  have hall : (('v' :: marks).all fun c => !isSpace c) = true := by rfl
  have hmarks : ∀ c ∈ 'v' :: marks, isSpace c = false := fun c hc => by
    simpa only [Bool.not_eq_true'] using List.all_eq_true.1 hall c hc
  rcases List.mem_cons.1 hc with rfl | hc
  · exact hmarks _ List.mem_cons_self
  · rcases char_of_parseVersion hversion hc with hdigit | hc
    · exact isSpace_of_isDecimal hdigit
    · exact hmarks c (List.mem_cons_of_mem _ hc)

/-- **A tag of a beta is found by its line.** -/
theorem betaOf_tag (h : parseTag text = .ok release) (hbase : release.base = base)
    (hbeta : release.channel = some .beta) (hserial : release.serial = some n) :
    betaOf base text = some release := by
  have hstrip : strip (String.ofList text) = String.ofList text := by
    rw [strip_eq_self_iff, String.toList_ofList]
    exact ⟨fun c hc => isSpace_of_parseTag h (List.mem_of_mem_head? hc),
      fun c hc => isSpace_of_parseTag h (List.mem_of_mem_getLast? hc)⟩
  simp [betaOf, hstrip, h, hbase, hbeta, hserial]

end Texts

/-! ### Prepared releases -/

section Prepared

variable {base baseVersion text : List Char} {lines tags : List (List Char)}
  {release : ReleaseVersion} {releasable : List Char → Bool} {number m n : ℤ}

/-- `git tag --list` shows the tags that start as the pattern does; a tag with a line break in it
may come in parts, and other lines do no harm. -/
def Lists (lines tags : List (List Char)) (baseVersion : List Char) : Prop :=
  ∀ text ∈ tags, 'v' :: (baseVersion ++ "-beta.".toList) <+: text →
    (∀ c ∈ text, isSpace c = false) → text ∈ lines

theorem ofExcept_eq_ok {α : Type} {x : Except Raised α} {a : α} :
    Stop.ofExcept x = .ok a ↔ x = .ok a := by
  cases x <;> simp [Stop.ofExcept]

theorem isSerial_intText (hn : 1 ≤ n) : isSerial (intText n) = true := by
  obtain ⟨c, cs, hdecimal, hlow, hhigh⟩ := decimal_pos (n := n.natAbs) (by omega)
  have hdigits := asciiDigits_decimal n.natAbs
  rw [intText, if_neg (by omega), hdecimal]
  rw [hdecimal] at hdigits
  simp only [isSerial, hlow, hhigh, decide_true, Bool.true_and]
  exact List.all_eq_true.2 fun c hc =>
    isDecimal_of_isDigit (hdigits.mem (List.mem_cons_of_mem _ hc))

/-- **What is prepared** is the beta of the base with the given number, or with the next one. -/
theorem prepareBetaRelease_eq_create
    (h : prepareBetaRelease lines releasable baseVersion number = .ok (.create release)) :
    ∃ n, (number = 0 → nextBetaNumber lines baseVersion = .ok n) ∧ 1 ≤ n ∧
      parseVersion release.version = .ok release ∧ release =
        ⟨prereleaseText baseVersion .beta (intText n), baseVersion, some .beta, some n⟩ := by
  obtain ⟨base, hbase, h⟩ := bind_eq_ok.1 h
  rw [ofExcept_eq_ok] at hbase
  split at h
  · cases h
  rename_i hstable
  obtain ⟨latest, -, h⟩ := bind_eq_ok.1 h
  split at h
  · cases h
  obtain ⟨n, hn, h⟩ := bind_eq_ok.1 h
  rw [ofExcept_eq_ok] at hn
  split_ifs at h with hpos
  obtain ⟨serial, hserial, h⟩ := bind_eq_ok.1 h
  obtain ⟨release', hrelease, h⟩ := bind_eq_ok.1 h
  rw [ofExcept_eq_ok] at hserial hrelease
  cases h
  unfold formatInt at hserial
  split_ifs at hserial with hshort
  obtain rfl := Except.ok.inj hserial
  obtain ⟨_, hisBase, ⟨rfl, rfl⟩ | ⟨channel, serial, m, -, -, -, rfl⟩⟩ := parseVersion_cases hbase
  · have hparse := @parseVersion_prerelease _ _ .beta hisBase (isSerial_intText (not_lt.1 hpos))
    rw [toInt, intOfStr_intText hshort] at hparse
    dsimp only at hrelease
    obtain rfl := Except.ok.inj (hparse.symm.trans hrelease)
    exact ⟨n, fun hzero => by simpa [hzero] using hn, not_lt.1 hpos, hrelease, rfl⟩
  · exact absurd rfl hstable

/-- The next number is above the number of every beta of the base that is tagged. -/
theorem lt_nextBetaNumber (hlists : Lists lines tags baseVersion)
    (hnext : nextBetaNumber lines baseVersion = .ok n) (htag : text ∈ tags)
    (hparsed : parseTag text = .ok release) (hbase : release.base = baseVersion)
    (hbeta : release.channel = some .beta) (hserial : release.serial = some m) : m < n := by
  have hline : text ∈ lines := by
    refine hlists text htag ?_ fun c hc => isSpace_of_parseTag hparsed hc
    obtain ⟨rfl, hversion⟩ := parseTag_eq_ok.1 hparsed
    obtain ⟨base, -, ⟨-, hrelease⟩ | ⟨channel, serial, k, -, hv, -, hrelease⟩⟩ :=
      parseVersion_cases hversion
    · rw [hrelease] at hserial
      cases hserial
    · rw [hrelease] at hbase hbeta
      obtain rfl : channel = .beta := Option.some.inj hbeta
      obtain rfl : base = baseVersion := hbase
      exact ⟨serial, by simp [tag, hv, prereleaseText, Channel.name]⟩
  obtain ⟨latest, hlatest, hle⟩ : AtLeast (release.serial.getD 0)
      (lines.foldl (later baseVersion) none) :=
    atLeast_foldl_later hline (betaOf_tag hparsed hbase hbeta hserial)
  rw [hserial, Option.getD_some] at hle
  obtain ⟨_, hlatest', rfl⟩ := map_eq_ok.1 hnext
  obtain ⟨_, -, rfl⟩ := map_eq_ok.1 hlatest'
  rw [hlatest, Option.bind_some]
  cases hlast : latest.serial with
  | none =>
    rw [hlast, Option.getD_none] at hle
    exact Int.lt_add_one_of_le hle
  | some k =>
    rw [hlast, Option.getD_some] at hle
    exact Int.lt_add_one_of_le hle

/-- **A prepared beta is new.**  Whatever is tagged, and in whatever order `git` lists it, the
release that is prepared without a number of its own is a beta of the base under a tag that reads
back as it and is not there yet, with a number above those of all betas of the base that are
tagged. -/
theorem prepared_beta_fresh (hlists : Lists lines tags baseVersion)
    (h : prepareBetaRelease lines releasable baseVersion 0 = .ok (.create release)) :
    parseTag (tag release) = .ok release ∧ tag release ∉ tags ∧
      release.base = baseVersion ∧ release.channel = some .beta ∧
      ∃ n, release.serial = some n ∧ 1 ≤ n ∧
        ∀ text ∈ tags, ∀ release', parseTag text = .ok release' → release'.base = baseVersion →
          release'.channel = some .beta → ∀ m, release'.serial = some m → m < n := by
  obtain ⟨n, hnext, hpos, hversion, hrelease⟩ := prepareBetaRelease_eq_create h
  have hparsed : parseTag (tag release) = .ok release := parseTag_eq_ok.2 ⟨rfl, hversion⟩
  have habove : ∀ text ∈ tags, ∀ release', parseTag text = .ok release' →
      release'.base = baseVersion → release'.channel = some .beta →
      ∀ m, release'.serial = some m → m < n :=
    fun _ htag _ hparsed' hbase hbeta _ hserial =>
      lt_nextBetaNumber hlists (hnext rfl) htag hparsed' hbase hbeta hserial
  obtain ⟨hbase, hbeta, hserial⟩ : release.base = baseVersion ∧ release.channel = some .beta ∧
      release.serial = some n := by rw [hrelease]; exact ⟨rfl, rfl, rfl⟩
  refine ⟨hparsed, fun htag => ?_, hbase, hbeta, n, hserial, hpos, habove⟩
  exact lt_irrefl n (habove _ htag _ hparsed hbase hbeta n hserial)

/-- The tenth beta comes before the ninth in the list, and there is a tag that is no release. -/
theorem prepared_beta_fresh_sample :
    let tags := ["v1.2.0-beta.10", "v1.2.0-beta.9", "v1.2.0-beta.next"].map String.toList
    let release : ReleaseVersion :=
      ⟨"1.2.0-beta.11".toList, "1.2.0".toList, some .beta, some 11⟩
    prepareBetaRelease tags (fun _ => true) "1.2.0".toList 0 = .ok (.create release) ∧
      parseTag (tag release) = .ok release ∧ tag release ∉ tags := by
  intro tags release
  have hlists : Lists tags tags "1.2.0".toList := fun _ htag _ _ => htag
  have hcreate : prepareBetaRelease tags (fun _ => true) "1.2.0".toList 0 =
      .ok (.create release) := by decide +kernel
  obtain ⟨hparsed, hfresh, -⟩ := prepared_beta_fresh hlists hcreate
  exact ⟨hcreate, hparsed, hfresh⟩

end Prepared

end FirecrawlLb.Scripts.BetaTags
