import FirecrawlLb.Runtime.Versions

/-!
# Semantic Versioning

The versions of SemVer 2.0 without build metadata, their texts and their precedence.  The comparison
of the code is that precedence as far as `int` converts the numbers it compares.
-/

namespace FirecrawlLb.Runtime

open FirecrawlLb.Lib FirecrawlLb.Python

/-! ### Identifiers -/

/-- An alphanumeric identifier: letters, digits and hyphens of ASCII that are not all digits. -/
structure Alphanumeric where
  text : List Char
  characters : (text.all fun c => c.isAlphanum || c = '-') = true
  nonDigit : text.all Char.isDigit = false
  deriving DecidableEq

/-- An identifier of a pre-release; a numeric one is written without leading zeros. -/
inductive Identifier where
  | numeric (value : ℕ)
  | alphanumeric (name : Alphanumeric)
  deriving DecidableEq

namespace Identifier

def text : Identifier → List Char
  | numeric value => decimal value
  | alphanumeric name => name.text

/-- Numeric identifiers compare as numbers and have lower precedence than the others, which compare
in the order of ASCII. -/
def Precedes : Identifier → Identifier → Prop
  | numeric m, numeric n => m < n
  | numeric _, alphanumeric _ => True
  | alphanumeric _, numeric _ => False
  | alphanumeric s, alphanumeric t => s.text < t.text

end Identifier

/-- A version without build metadata. -/
structure SemVer where
  major : ℕ
  minor : ℕ
  patch : ℕ
  prerelease : List Identifier

namespace SemVer

def core (version : SemVer) : List ℕ := [version.major, version.minor, version.patch]

/-- The identifiers, separated by dots. -/
def dotted (ids : List Identifier) : List Char := ['.'].intercalate (ids.map Identifier.text)

def prereleaseText : List Identifier → List Char
  | [] => []
  | id :: ids => '-' :: dotted (id :: ids)

def chars (version : SemVer) : List Char :=
  decimal version.major ++ '.' :: (decimal version.minor ++ '.' ::
    (decimal version.patch ++ prereleaseText version.prerelease))

/-- How the version is written. -/
def text (version : SemVer) : String := String.ofList version.chars

/-- **Precedence**: the three numbers decide first; then a pre-release has lower precedence than
none, and the identifiers of two pre-releases decide from left to right, where more identifiers
have higher precedence if all before them are equal. -/
def Precedes (a b : SemVer) : Prop :=
  a.core < b.core ∨ a.core = b.core ∧ a.prerelease ≠ [] ∧
    (b.prerelease = [] ∨ List.Lex Identifier.Precedes a.prerelease b.prerelease)

end SemVer

/-- Two different numbers are compared only when `int` converts them. -/
def Identifier.Convertible (i j : Identifier) : Prop :=
  ∀ m n, i = .numeric m → j = .numeric n → m ≠ n → Short m ∧ Short n

/-- So are the first identifiers that differ. -/
def PrereleaseConvertible (p q : List Identifier) : Prop :=
  ∀ (common p' q' : List Identifier) (i j : Identifier), i ≠ j →
    p = common ++ i :: p' → q = common ++ j :: q' → i.Convertible j

/-- The numbers that the code converts have not too many digits: the six in front, and, when these
agree, the first two identifiers that differ, if both are numeric. -/
structure SemVer.Convertible (a b : SemVer) : Prop where
  core : ∀ n ∈ a.core ++ b.core, Short n
  prerelease : a.core = b.core → PrereleaseConvertible a.prerelease b.prerelease

/-! ### Identifiers as parts -/

section Identifiers

variable {c : Char} {i j : Identifier} {p q : List Identifier}

theorem toNat_lt_of_identifier (h : (c.isAlphanum || c = '-') = true) : c.toNat < 128 := by
  delta Char.isAlphanum Char.isAlpha Char.isUpper Char.isLower Char.isDigit at h
  simp only [UInt32.le_iff_toNat_le, Bool.or_eq_true, Bool.and_eq_true, decide_eq_true_eq] at h
  rcases h with ((⟨-, h⟩ | ⟨-, h⟩) | ⟨-, h⟩) | rfl
  · exact lt_of_le_of_lt h (by decide)
  · exact lt_of_le_of_lt h (by decide)
  · exact lt_of_le_of_lt h (by decide)
  · decide

theorem isDigitText_numeric (n : ℕ) : isDigitText (Identifier.numeric n).text = true := by
  have hall : (decimal n).all Python.isDigit = true := by
    refine List.all_eq_true.2 fun c hc => ?_
    rw [Python.isDigit, decimalValue_of_isDigit ((asciiDigits_decimal n).mem hc)]
    rfl
  simp [isDigitText, Identifier.text, decimal_ne_nil, hall]

theorem isDigitText_alphanumeric (name : Alphanumeric) :
    isDigitText (Identifier.alphanumeric name).text = false := by
  obtain ⟨text, hchars, hdigit⟩ := name
  have hall : text.all Python.isDigit = text.all Char.isDigit := by
    rw [Bool.eq_iff_iff, List.all_eq_true, List.all_eq_true]
    refine forall₂_congr fun c hc => ?_
    rw [isDigit_eq_isDigit (toNat_lt_of_identifier (List.all_eq_true.1 hchars c hc))]
  simp [isDigitText, Identifier.text, hall, hdigit]

/-- **Two different identifiers**: the code compares them by precedence or fails. -/
theorem partCmp_text (h : i ≠ j) :
    (i.Convertible j → ∃ o, partCmp i.text j.text = some o ∧ o ≠ .eq ∧
      (o = .gt ↔ j.Precedes i)) ∧
    (¬ i.Convertible j → partCmp i.text j.text = none) := by
  cases i with
  | numeric m =>
    cases j with
    | numeric n =>
      have hmn : m ≠ n := fun heq => h (heq ▸ rfl)
      have hne : decimal m ≠ decimal n := fun heq => hmn (decimal_injective heq)
      -- both numbers are converted, and either may have too many digits
      have hconv : (Identifier.numeric m).Convertible (.numeric n) ↔ Short m ∧ Short n := by
        constructor
        · intro hconv
          exact hconv m n rfl rfl hmn
        · rintro hshort _ _ ⟨⟩ ⟨⟩ -
          exact hshort
      rw [hconv, partCmp_numeric (isDigitText_numeric m) (isDigitText_numeric n) hne,
        Identifier.text, Identifier.text, intOfStr_decimal, intOfStr_decimal]
      refine ⟨fun ⟨hm, hn⟩ => ⟨_, by rw [if_pos hm, if_pos hn]; rfl, ?_, ?_⟩, fun hnot => ?_⟩
      · exact fun heq => hmn (Int.ofNat_inj.1 ((cmp_eq_eq_iff (m : ℤ) n).1 heq))
      · exact (cmp_eq_gt_iff (m : ℤ) n).trans Int.ofNat_lt
      · by_cases hm : Short m
        · rw [if_pos hm, if_neg fun hn => hnot ⟨hm, hn⟩]
          rfl
        · rw [if_neg hm]
          rfl
    | alphanumeric t =>
      refine ⟨fun _ => ⟨.lt, partCmp_left (isDigitText_numeric m) (isDigitText_alphanumeric t),
        by decide, ?_⟩, fun hnot => absurd (fun _ _ _ heq => by cases heq) hnot⟩
      simp [Identifier.Precedes]
  | alphanumeric s =>
    cases j with
    | numeric n =>
      refine ⟨fun _ => ⟨.gt, partCmp_right (isDigitText_alphanumeric s) (isDigitText_numeric n),
        by decide, ?_⟩, fun hnot => absurd (fun _ _ heq => by cases heq) hnot⟩
      simp [Identifier.Precedes]
    | alphanumeric t =>
      have hne : s.text ≠ t.text := by
        intro heq
        obtain ⟨s, _, _⟩ := s
        obtain ⟨t, _, _⟩ := t
        obtain rfl : s = t := heq
        exact h rfl
      refine ⟨fun _ => ⟨_, partCmp_texts (isDigitText_alphanumeric s) (isDigitText_alphanumeric t),
        ?_, ?_⟩, fun hnot => absurd (fun _ _ heq => by cases heq) hnot⟩
      · exact fun heq => hne ((cmp_eq_eq_iff s.text t.text).1 heq)
      · exact cmp_eq_gt_iff s.text t.text

theorem precedes_irrefl (i : Identifier) : ¬ i.Precedes i := by
  cases i <;> simp [Identifier.Precedes]

theorem prereleaseConvertible_cons_self :
    PrereleaseConvertible (i :: p) (i :: q) ↔ PrereleaseConvertible p q := by
  constructor
  · intro h common p' q' j k hjk hp hq
    exact h (i :: common) p' q' j k hjk (by rw [hp, List.cons_append])
      (by rw [hq, List.cons_append])
  · intro h common p' q' j k hjk hp hq
    cases common with
    | nil =>
      obtain ⟨rfl, -⟩ := List.cons.inj hp
      exact absurd (List.cons.inj hq).1 hjk
    | cons d common =>
      obtain ⟨-, hp⟩ := List.cons.inj hp
      obtain ⟨-, hq⟩ := List.cons.inj hq
      exact h common p' q' j k hjk hp hq

theorem prereleaseConvertible_cons (h : i ≠ j) :
    PrereleaseConvertible (i :: p) (j :: q) ↔ i.Convertible j := by
  constructor
  · intro hconv
    exact hconv [] p q i j h rfl rfl
  · intro hconv common p' q' k l hkl hp hq
    cases common with
    | nil =>
      obtain ⟨rfl, -⟩ := List.cons.inj hp
      obtain ⟨rfl, -⟩ := List.cons.inj hq
      exact hconv
    | cons d common =>
      obtain ⟨rfl, -⟩ := List.cons.inj hp
      exact absurd (List.cons.inj hq).1.symm h

theorem prereleaseConvertible_nil_left : PrereleaseConvertible [] q := by
  intro common p' q' i j _ hp
  simp at hp

theorem prereleaseConvertible_nil_right : PrereleaseConvertible p [] := by
  intro common p' q' i j _ _ hq
  simp at hq

/-- **Lists of identifiers**, by the first two that differ. -/
theorem lexCmp_text (p q : List Identifier) :
    (PrereleaseConvertible p q →
      ∃ o, lexCmp partCmp (p.map Identifier.text) (q.map Identifier.text) = some o ∧
        (o = .gt ↔ List.Lex Identifier.Precedes q p)) ∧
    (¬ PrereleaseConvertible p q →
      lexCmp partCmp (p.map Identifier.text) (q.map Identifier.text) = none) := by
  induction p generalizing q with
  | nil =>
    refine ⟨fun _ => ?_, fun hnot => absurd prereleaseConvertible_nil_left hnot⟩
    cases q with
    | nil => exact ⟨.eq, rfl, by simp⟩
    | cons j q => exact ⟨.lt, rfl, by simp⟩
  | cons i p ih =>
    cases q with
    | nil =>
      exact ⟨fun _ => ⟨.gt, rfl, by simp⟩,
        fun hnot => absurd prereleaseConvertible_nil_right hnot⟩
    | cons j q =>
      simp only [List.map_cons, lexCmp]
      by_cases heq : i = j
      · subst heq
        have hlex : List.Lex Identifier.Precedes (i :: q) (i :: p) ↔
            List.Lex Identifier.Precedes q p := by
          constructor
          · intro h
            cases h with
            | cons h => exact h
            | rel h => exact absurd h (precedes_irrefl i)
          · exact List.Lex.cons
        rw [prereleaseConvertible_cons_self, hlex, partCmp_self]
        exact ih q
      · -- the first two identifiers that differ decide
        have hlex : List.Lex Identifier.Precedes (j :: q) (i :: p) ↔ j.Precedes i := by
          constructor
          · intro h
            cases h with
            | cons h => exact absurd rfl heq
            | rel h => exact h
          · exact List.Lex.rel
        obtain ⟨hsome, hnone⟩ := partCmp_text heq
        rw [prereleaseConvertible_cons heq, hlex]
        refine ⟨fun hconv => ?_, fun hnot => ?_⟩
        · obtain ⟨o, ho, hne, hgt⟩ := hsome hconv
          exact ⟨o, andThen_eq_some.2 (Or.inr ⟨ho, hne⟩), hgt⟩
        · rw [hnone hnot]
          rfl

end Identifiers

/-! ### Versions as texts -/

section Texts

variable {c : Char}

theorem takeNumber_decimal (n : ℕ) {rest : List Char} (h : NoDigit rest) :
    takeNumber (decimal n ++ rest) = some (decimal n, rest) := by
  have hall : (decimal n).all isDecimal = true := List.all_eq_true.2 fun c hc =>
    isDecimal_of_isDigit ((asciiDigits_decimal n).mem hc)
  have hnumber : decimal n = ['0'] ∨
      ((decimal n).head?.any fun c => '1' ≤ c ∧ c ≤ '9') = true := by
    rcases Nat.eq_zero_or_pos n with rfl | hpos
    · exact Or.inl (Nat.toDigits_zero 10)
    · obtain ⟨c, cs, heq, hc⟩ := decimal_pos hpos
      exact Or.inr (by simp [heq, hc])
  rw [takeNumber, (span_isDecimal hall h).1, (span_isDecimal hall h).2]
  exact if_pos hnumber

theorem isPrereleaseChar_of_isDigit (h : c.isDigit = true) : isPrereleaseChar c = true := by
  simp [isPrereleaseChar, Char.isAlphanum, h]

theorem all_decimal (n : ℕ) : (decimal n).all isPrereleaseChar = true :=
  List.all_eq_true.2 fun _ hc => isPrereleaseChar_of_isDigit ((asciiDigits_decimal n).mem hc)

theorem all_identifier (i : Identifier) : i.text.all isPrereleaseChar = true := by
  cases i with
  | numeric n => exact all_decimal n
  | alphanumeric name =>
    refine List.all_eq_true.2 fun c hc => ?_
    have hchar := List.all_eq_true.1 name.characters c hc
    rcases Bool.or_eq_true _ _ ▸ hchar with h | h
    · simp [isPrereleaseChar, h]
    · simp [isPrereleaseChar, h]

theorem all_dotted (ids : List Identifier) : (SemVer.dotted ids).all isPrereleaseChar = true := by
  induction ids with
  | nil => rfl
  | cons i ids ih =>
    cases ids with
    | nil => simpa [SemVer.dotted] using all_identifier i
    | cons j ids =>
      have hdot : isPrereleaseChar '.' = true := by decide
      rw [SemVer.dotted, List.map_cons, List.map_cons, List.intercalate_cons_cons, ← List.map_cons,
        ← SemVer.dotted, List.all_append, List.all_append, all_identifier i, ih]
      simp [hdot]

theorem dot_notMem_text (i : Identifier) : '.' ∉ i.text := by
  cases i with
  | numeric n =>
    intro h
    exact absurd ((asciiDigits_decimal n).mem h) (by decide)
  | alphanumeric name =>
    intro h
    exact absurd (List.all_eq_true.1 name.characters '.' h) (by decide)

theorem text_ne_nil (i : Identifier) : i.text ≠ [] := by
  cases i with
  | numeric n => exact decimal_ne_nil n
  | alphanumeric name =>
    intro h
    have hdigit := name.nonDigit
    rw [show name.text = [] from h] at hdigit
    exact absurd hdigit (by decide)

theorem splitOn_dotted {ids : List Identifier} (h : ids ≠ []) :
    (SemVer.dotted ids).splitOn '.' = ids.map Identifier.text := by
  refine List.splitOn_intercalate '.' (fun part hpart => ?_) (by simpa using h)
  obtain ⟨i, -, rfl⟩ := List.mem_map.1 hpart
  exact dot_notMem_text i

theorem dotted_ne_nil {ids : List Identifier} (h : ids ≠ []) : SemVer.dotted ids ≠ [] := by
  intro hnil
  have hsplit := splitOn_dotted h
  rw [hnil] at hsplit
  cases ids with
  | nil => exact h rfl
  | cons i ids =>
    simp only [List.splitOn_nil, List.map_cons] at hsplit
    exact text_ne_nil i (List.cons.inj hsplit).1.symm

end Texts

/-! ### Parsed versions -/

namespace SemVer

/-- The group of the pre-release. -/
def prereleaseGroup (version : SemVer) : Option (List Char) :=
  if version.prerelease = [] then none else some (dotted version.prerelease)

def parsed (version : SemVer) : ParsedVersion :=
  ⟨version.major, version.minor, version.patch, version.prereleaseGroup⟩

end SemVer

section Parsed

variable (a b v : SemVer)

theorem matchVersion_chars : matchVersion v.chars =
    some ⟨decimal v.major, decimal v.minor, decimal v.patch, v.prereleaseGroup⟩ := by
  obtain ⟨c, cs, hmajor⟩ := List.exists_cons_of_ne_nil (decimal_ne_nil v.major)
  have hdigit : c.isDigit = true := (asciiDigits_decimal v.major).mem (hmajor ▸ List.mem_cons_self)
  have hv : takeChar 'v' v.chars = none := by
    have hne : c ≠ 'v' := by
      rintro rfl
      exact absurd hdigit (by decide)
    rw [SemVer.chars, hmajor, List.cons_append, takeChar, if_neg hne]
  have hpatch : takeNumber (decimal v.patch ++ SemVer.prereleaseText v.prerelease) =
      some (decimal v.patch, SemVer.prereleaseText v.prerelease) := by
    refine takeNumber_decimal v.patch ?_
    cases v.prerelease with
    | nil => rfl
    | cons i ids => exact show (!isDecimal '-') = true by decide
  have hdot : ∀ rest : List Char, NoDigit ('.' :: rest) :=
    fun _ => show (!isDecimal '.') = true by decide
  rw [matchVersion, hv, Option.getD_none, SemVer.chars, takeNumber_decimal v.major (hdot _)]
  simp only [Option.bind_eq_bind, Option.bind_some, takeChar, if_true]
  rw [takeNumber_decimal v.minor (hdot _)]
  simp only [Option.bind_some, if_true]
  rw [hpatch]
  simp only [Option.bind_some, SemVer.prereleaseGroup]
  cases v.prerelease with
  | nil => rfl
  | cons i ids =>
    have hne := List.cons_ne_nil i ids
    rw [SemVer.prereleaseText, if_neg hne]
    exact if_pos ⟨rfl, dotted_ne_nil hne, all_dotted _⟩

theorem isSpace_of_isPrereleaseChar {c : Char} (h : isPrereleaseChar c = true) :
    isSpace c = false := by
  have hrange : 45 ≤ c.toNat ∧ c.toNat ≤ 122 := by
    delta isPrereleaseChar Char.isAlphanum Char.isAlpha Char.isUpper Char.isLower Char.isDigit at h
    simp only [UInt32.le_iff_toNat_le, Bool.or_eq_true, Bool.and_eq_true, decide_eq_true_eq] at h
    rcases h with (((⟨h, h'⟩ | ⟨h, h'⟩) | ⟨h, h'⟩) | rfl) | rfl
    · exact ⟨le_trans (by decide) h, le_trans h' (by decide)⟩
    · exact ⟨le_trans (by decide) h, le_trans h' (by decide)⟩
    · exact ⟨le_trans (by decide) h, le_trans h' (by decide)⟩
    · decide
    · decide
  simp [isSpace]
  omega

theorem all_chars : v.chars.all isPrereleaseChar = true := by
  have hdot : isPrereleaseChar '.' = true := by decide
  have hpre : (SemVer.prereleaseText v.prerelease).all isPrereleaseChar = true := by
    cases v.prerelease with
    | nil => rfl
    | cons i ids =>
      have hdash : isPrereleaseChar '-' = true := by decide
      rw [SemVer.prereleaseText, List.all_cons, hdash, all_dotted, Bool.and_self]
  simp only [SemVer.chars, List.all_append, List.all_cons, all_decimal, hdot, hpre, Bool.and_self]

theorem strip_text : strip v.text = v.text := by
  rw [strip, SemVer.text, String.toList_ofList, dropWhile_ends_eq_self]
  exact fun c hc => isSpace_of_isPrereleaseChar (List.all_eq_true.1 (all_chars v) c hc)

theorem parseVersion_text (h : ∀ n ∈ v.core, Short n) :
    parseVersion v.text = .ok (some v.parsed) := by
  simp only [SemVer.core, List.forall_mem_cons] at h
  obtain ⟨hmajor, hminor, hpatch, -⟩ := h
  unfold parseVersion
  rw [strip_text, SemVer.text, String.toList_ofList, matchVersion_chars]
  simp only [toInt_decimal, if_pos hmajor, if_pos hminor, if_pos hpatch]
  rfl

theorem parseVersion_text_error (h : ¬ ∀ n ∈ v.core, Short n) :
    parseVersion v.text = .error .valueError := by
  unfold parseVersion
  rw [strip_text, SemVer.text, String.toList_ofList, matchVersion_chars]
  simp only [toInt_decimal]
  by_cases hmajor : Short v.major
  · by_cases hminor : Short v.minor
    · have hpatch : ¬ Short v.patch := fun hpatch =>
        h (by simp [SemVer.core, hmajor, hminor, hpatch])
      rw [if_pos hmajor, if_pos hminor, if_neg hpatch]
      rfl
    · rw [if_pos hmajor, if_neg hminor]
      rfl
  · rw [if_neg hmajor]
    rfl

theorem core_lt_iff : a.parsed.core < b.parsed.core ↔ a.core < b.core := by
  simp [ParsedVersion.core, SemVer.core, SemVer.parsed, List.cons_lt_cons_iff]

theorem core_eq_iff : a.parsed.core = b.parsed.core ↔ a.core = b.core := by
  simp [ParsedVersion.core, SemVer.core, SemVer.parsed]

/-- **The comparison of two parsed versions** is that of their precedence, or fails. -/
theorem versionCmp_parsed :
    ((a.core = b.core → PrereleaseConvertible a.prerelease b.prerelease) →
      ∃ o, versionCmp a.parsed b.parsed = some o ∧ (o = .gt ↔ b.Precedes a)) ∧
    (¬ (a.core = b.core → PrereleaseConvertible a.prerelease b.prerelease) →
      versionCmp a.parsed b.parsed = none) := by
  rcases lt_trichotomy a.core b.core with hlt | heq | hgt
  · have hcmp := orderCmp_eq_lt.2 ((core_lt_iff a b).2 hlt)
    refine ⟨fun _ => ⟨.lt, by rw [versionCmp, hcmp]; rfl, ?_⟩,
      fun hnot => absurd (fun heq => absurd heq hlt.ne) hnot⟩
    simp [SemVer.Precedes, hlt.not_gt, hlt.ne']
  · have hcmp := orderCmp_eq_eq.2 ((core_eq_iff a b).2 heq)
    have hprecedes : b.Precedes a ↔ b.prerelease ≠ [] ∧
        (a.prerelease = [] ∨ List.Lex Identifier.Precedes b.prerelease a.prerelease) := by
      simp [SemVer.Precedes, heq]
    rw [versionCmp, hcmp, hprecedes, forall_prop_of_true heq]
    simp only [andThen, SemVer.parsed, SemVer.prereleaseGroup]
    by_cases ha : a.prerelease = [] <;> by_cases hb : b.prerelease = []
    · rw [if_pos ha, if_pos hb, ha]
      exact ⟨fun _ => ⟨.eq, rfl, by simp [hb]⟩,
        fun hnot => absurd prereleaseConvertible_nil_left hnot⟩
    · rw [if_pos ha, if_neg hb, ha]
      exact ⟨fun _ => ⟨.gt, rfl, by simp [hb]⟩,
        fun hnot => absurd prereleaseConvertible_nil_left hnot⟩
    · rw [if_neg ha, if_pos hb, hb]
      exact ⟨fun _ => ⟨.lt, rfl, by simp⟩,
        fun hnot => absurd prereleaseConvertible_nil_right hnot⟩
    · rw [if_neg ha, if_neg hb, topCmp, prereleaseCmp, splitOn_dotted ha, splitOn_dotted hb]
      simpa [ha, hb] using lexCmp_text a.prerelease b.prerelease
  · have hcmp := orderCmp_eq_gt.2 ((core_lt_iff b a).2 hgt)
    refine ⟨fun _ => ⟨.gt, by rw [versionCmp, hcmp]; rfl, ?_⟩,
      fun hnot => absurd (fun heq => absurd heq hgt.ne') hnot⟩
    simp [SemVer.Precedes, hgt]

/-- **The newer version has the higher precedence**, when the numbers are converted. -/
theorem isNewerVersion_text :
    (∃ r, isNewerVersion a.text b.text = .ok r ∧ (r = true ↔ b.Precedes a)) ↔
      a.Convertible b := by
  have hfails : isNewerVersion a.text b.text = .error .valueError → ¬ a.Convertible b →
      ((∃ r, isNewerVersion a.text b.text = .ok r ∧ (r = true ↔ b.Precedes a)) ↔
        a.Convertible b) := by
    intro herror hnot
    refine ⟨fun ⟨r, hr, _⟩ => ?_, fun hconv => absurd hconv hnot⟩
    cases herror.symm.trans hr
  by_cases ha : ∀ n ∈ a.core, Short n
  swap
  · refine hfails ?_ fun hconv => ha fun n hn => hconv.core n (List.mem_append_left _ hn)
    rw [isNewerVersion, parseVersion_text_error a ha]
    rfl
  by_cases hb : ∀ n ∈ b.core, Short n
  swap
  · refine hfails ?_ fun hconv => hb fun n hn => hconv.core n (List.mem_append_right _ hn)
    rw [isNewerVersion, parseVersion_text a ha, parseVersion_text_error b hb]
    rfl
  have hnewer := isNewerVersion_eq (parseVersion_text a ha) (parseVersion_text b hb)
  obtain ⟨hsome, hnone⟩ := versionCmp_parsed a b
  by_cases hpre : a.core = b.core → PrereleaseConvertible a.prerelease b.prerelease
  · obtain ⟨o, ho, hgt⟩ := hsome hpre
    have hconv : a.Convertible b :=
      ⟨fun n hn => (List.mem_append.1 hn).elim (ha n) (hb n), hpre⟩
    refine ⟨fun _ => hconv, fun _ => ⟨decide (o = .gt), ?_, ?_⟩⟩
    · rw [hnewer, ho]
      rfl
    · rw [decide_eq_true_iff, hgt]
  · refine hfails ?_ fun hconv => hpre hconv.prerelease
    rw [hnewer, hnone hpre]
    rfl

end Parsed

/-- **The comparison of versions**: it is a strict weak order of the texts it accepts, and on the
versions of SemVer it is their precedence if and only if `int` converts what is compared. -/
theorem order_exact (a b : SemVer) : StrictWeakOrder ∧
    ((∃ r, isNewerVersion a.text b.text = .ok r ∧ (r = true ↔ b.Precedes a)) ↔
      a.Convertible b) :=
  ⟨strictWeakOrder, isNewerVersion_text a b⟩

/-- `1.0.0-N` for a number `N`. -/
def numbered (n : ℕ) : SemVer := ⟨1, 0, 0, [.numeric n]⟩

/-- A number with too many digits is not compared with another one. -/
theorem not_convertible_numbered {m n : ℕ} (h : m ≠ n) (hm : ¬ Short m) :
    ¬ (numbered m).Convertible (numbered n) := by
  intro hconv
  have hfirst := hconv.prerelease rfl [] [] [] (.numeric m) (.numeric n)
    (fun heq => h (Identifier.numeric.inj heq)) rfl rfl
  exact hm (hfirst m n rfl rfl h).1

/-- The precedence of `1.0.0-N` over `1.0.0-1`, which the code cannot tell for the least number `N`
that `int` does not convert. -/
theorem not_order_exact : ¬ ∀ a b : SemVer,
    ∃ r, isNewerVersion a.text b.text = .ok r ∧ (r = true ↔ b.Precedes a) := by
  intro h
  have hlong : ¬ Short (10 ^ maxStrDigits) := fun hshort => lt_irrefl _ (short_iff.1 hshort)
  have hone : 1 < 10 ^ maxStrDigits := short_iff.1 (by decide)
  exact not_convertible_numbered hone.ne' hlong ((isNewerVersion_text _ _).1 (h _ _))

end FirecrawlLb.Runtime
