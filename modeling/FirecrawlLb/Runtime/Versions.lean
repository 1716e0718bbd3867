import FirecrawlLb.Lib.Comparison
import FirecrawlLb.Lib.Results
import FirecrawlLb.Python.Decimals
import Mathlib.Data.List.Lex

/-!
# Versions of the program

Whether one version is newer than another.  A version is a text, which a pattern takes apart; its
three numbers compare first, and then the parts of its pre-release, from left to right.
-/

namespace FirecrawlLb.Runtime

open FirecrawlLb.Lib FirecrawlLb.Python

/-! ### `_VERSION_RE` -/

/-- `0|[1-9]\d*` at the front of a text, and what follows.  Behind it the pattern goes on with no
digit, so these are all digits that stand there. -/
def takeNumber (cs : List Char) : Option (List Char × List Char) :=
  let number := cs.takeWhile isDecimal
  if number = ['0'] ∨ number.head?.any (fun c => '1' ≤ c ∧ c ≤ '9') then
    some (number, cs.dropWhile isDecimal)
  else none

/-- `[0-9A-Za-z.-]` -/
def isPrereleaseChar (c : Char) : Bool := c.isAlphanum || c = '.' || c = '-'

/-- The groups of a match. -/
structure VersionMatch where
  major : List Char
  minor : List Char
  patch : List Char
  prerelease : Option (List Char)

/-- `_VERSION_RE.match` on a text that does not end in white space. -/
def matchVersion (cs : List Char) : Option VersionMatch := do
  let (major, cs) ← takeNumber ((takeChar 'v' cs).getD cs)
  let cs ← takeChar '.' cs
  let (minor, cs) ← takeNumber cs
  let cs ← takeChar '.' cs
  let (patch, cs) ← takeNumber cs
  match cs with
  | [] => some ⟨major, minor, patch, none⟩
  | sep :: prerelease =>
    if sep = '-' ∧ prerelease ≠ [] ∧ prerelease.all isPrereleaseChar then
      some ⟨major, minor, patch, some prerelease⟩
    else none

/-! ### The comparison -/

/-- `_ParsedVersion` -/
structure ParsedVersion where
  major : ℤ
  minor : ℤ
  patch : ℤ
  prerelease : Option (List Char)
  deriving DecidableEq

/-- The tuple that is compared first. -/
def ParsedVersion.core (version : ParsedVersion) : List ℤ :=
  [version.major, version.minor, version.patch]

/-- `_parse_version` -/
def parseVersion (value : String) : Except Raised (Option ParsedVersion) :=
  match matchVersion (strip value).toList with
  | none => .ok none
  | some groups => do
    let major ← toInt groups.major
    let minor ← toInt groups.minor
    let patch ← toInt groups.patch
    return some ⟨major, minor, patch, groups.prerelease⟩

/-- `part.isdigit()` -/
def isDigitText (part : List Char) : Bool := part ≠ [] && part.all Python.isDigit

/-- The loop over the pairs of parts; none when it runs to its end. -/
def compareParts : List (List Char × List Char) → Except Raised (Option ℤ)
  | [] => .ok none
  | (candidatePart, currentPart) :: rest =>
    if candidatePart = currentPart then compareParts rest
    else if isDigitText candidatePart && isDigitText currentPart then do
      let candidateNumber ← toInt candidatePart
      let currentNumber ← toInt currentPart
      if candidateNumber ≠ currentNumber then
        return some (if currentNumber < candidateNumber then 1 else -1)
      else compareParts rest
    else if isDigitText candidatePart then .ok (some (-1))
    else if isDigitText currentPart then .ok (some 1)
    else .ok (some (if currentPart < candidatePart then 1 else -1))

/-- `_compare_prerelease` -/
def comparePrerelease : Option (List Char) → Option (List Char) → Except Raised ℤ
  | none, none => .ok 0
  | none, some _ => .ok 1
  | some _, none => .ok (-1)
  | some candidate, some current => do
    let candidateParts := candidate.splitOn '.'
    let currentParts := current.splitOn '.'
    match ← compareParts (candidateParts.zip currentParts) with
    | some result => return result
    | none =>
      if candidateParts.length = currentParts.length then return 0
      else return if currentParts.length < candidateParts.length then 1 else -1

/-- `_is_newer_version` of two versions that were parsed. -/
def isNewer (candidate current : ParsedVersion) : Except Raised Bool :=
  if candidate.core ≠ current.core then .ok (current.core < candidate.core)
  else
    match candidate.prerelease, current.prerelease with
    | none, some _ => .ok true
    | some _, none => .ok false
    | none, none => .ok false
    | some candidate, some current => do
      let result ← comparePrerelease (some candidate) (some current)
      return 0 < result

/-- `_is_newer_version` -/
def isNewerVersion (candidate current : String) : Except Raised Bool := do
  match ← parseVersion candidate, ← parseVersion current with
  | some candidate, some current => isNewer candidate current
  | _, _ => return false

/-! ### The order of versions -/

/-- Numeric parts compare as numbers and are less than the others, which compare as texts; none
when a number has too many digits. -/
def partCmp : List Char → List Char → Option Ordering :=
  kindCmp isDigitText
    (keyCmp (fun part => intOfStr (String.ofList part)) orderCmp) orderCmp

/-- Texts compare part by part. -/
def prereleaseCmp (x y : List Char) : Option Ordering :=
  lexCmp partCmp (x.splitOn '.') (y.splitOn '.')

/-- The numbers compare first; a version without a pre-release is greater than one with it. -/
def versionCmp (a b : ParsedVersion) : Option Ordering :=
  andThen (orderCmp a.core b.core) (topCmp prereleaseCmp a.prerelease b.prerelease)

theorem lawfulCmp_partCmp : LawfulCmp partCmp :=
  (lawfulCmp_orderCmp.keyCmp _).kindCmp lawfulCmp_orderCmp _

theorem lawfulCmp_prereleaseCmp : LawfulCmp prereleaseCmp :=
  lawfulCmp_partCmp.lexCmp.on fun x : List Char => x.splitOn '.'

theorem lawfulCmp_versionCmp : LawfulCmp versionCmp :=
  (lawfulCmp_orderCmp.on ParsedVersion.core).andThen
    (lawfulCmp_prereleaseCmp.topCmp.on ParsedVersion.prerelease)

/-- The number that `_compare_prerelease` returns. -/
def sign : Ordering → ℤ
  | .lt => -1
  | .eq => 0
  | .gt => 1

/-- An answer as what the code returns or raises. -/
def outcome {α : Type} (f : Ordering → α) (answer : Option Ordering) : Except Raised α :=
  answer.elim (.error .valueError) fun o => .ok (f o)

section Parts

variable {x y : List Char}

theorem partCmp_self (x : List Char) : partCmp x x = some .eq := lawfulCmp_partCmp.self x

theorem partCmp_numeric (hx : isDigitText x = true) (hy : isDigitText y = true) (h : x ≠ y) :
    partCmp x y = (intOfStr (String.ofList x)).bind fun m =>
      (intOfStr (String.ofList y)).bind fun n => orderCmp m n := by
  simp [partCmp, kindCmp, keyCmp, hx, hy, h]

theorem partCmp_left (hx : isDigitText x = true) (hy : isDigitText y = false) :
    partCmp x y = some .lt := by
  simp [partCmp, kindCmp, hx, hy]

theorem partCmp_right (hx : isDigitText x = false) (hy : isDigitText y = true) :
    partCmp x y = some .gt := by
  simp [partCmp, kindCmp, hx, hy]

theorem partCmp_texts (hx : isDigitText x = false) (hy : isDigitText y = false) :
    partCmp x y = orderCmp x y := by
  simp [partCmp, kindCmp, hx, hy]

/-- The length of what is left decides when the loop has run to its end. -/
def finish (p q : List (List Char)) : Option ℤ → ℤ
  | some result => result
  | none =>
    if p.length = q.length then 0
    else if q.length < p.length then 1 else -1

theorem finish_cons (p q : List (List Char)) : finish (x :: p) (y :: q) = finish p q := by
  funext result
  cases result <;> simp [finish]

/-- **The loop and the lengths** compare the parts from left to right. -/
theorem compareParts_eq (p q : List (List Char)) :
    (compareParts (p.zip q)).map (finish p q) = outcome sign (lexCmp partCmp p q) := by
  induction p generalizing q with
  | nil => cases q <;> rfl
  | cons x p ih =>
    cases q with
    | nil => rfl
    | cons y q =>
      rw [finish_cons, List.zip_cons_cons, compareParts, lexCmp]
      by_cases heq : x = y
      · subst heq
        rw [if_pos rfl, ih, partCmp_self]
        rfl
      rw [if_neg heq]
      -- two texts, a text and a number either way round, two numbers
      cases hx : isDigitText x <;> cases hy : isDigitText y
      · rw [partCmp_texts hx hy]
        simp only [Bool.and_self, Bool.false_eq_true, if_false]
        rcases lt_trichotomy x y with hlt | rfl | hgt
        · rw [orderCmp_eq_lt.2 hlt, if_neg hlt.not_gt]
          rfl
        · exact absurd rfl heq
        · rw [orderCmp_eq_gt.2 hgt, if_pos hgt]
          rfl
      · rw [partCmp_right hx hy]
        rfl
      · rw [partCmp_left hx hy]
        rfl
      · rw [partCmp_numeric hx hy heq, Bool.and_self, if_pos rfl, toInt_bind]
        cases intOfStr (String.ofList x) with
        | none => rfl
        | some m =>
          simp only [Option.elim_some, Option.bind_some, toInt_bind]
          cases intOfStr (String.ofList y) with
          | none => rfl
          | some n =>
            simp only [Option.elim_some, Option.bind_some]
            -- different digits of one number, as `1` and `01`, leave it to the rest
            rcases lt_trichotomy m n with hlt | rfl | hgt
            · rw [orderCmp_eq_lt.2 hlt, if_pos hlt.ne, if_neg hlt.not_gt]
              rfl
            · rw [orderCmp_eq_eq.2 rfl, if_neg (not_not.2 rfl), ih]
              rfl
            · rw [orderCmp_eq_gt.2 hgt, if_pos hgt.ne', if_pos hgt]
              rfl

theorem comparePrerelease_eq (candidate current : List Char) :
    comparePrerelease (some candidate) (some current) =
      outcome sign (prereleaseCmp candidate current) := by
  rw [prereleaseCmp, ← compareParts_eq, comparePrerelease]
  cases compareParts _ with
  | error e => rfl
  | ok result =>
    cases result with
    | some result => rfl
    | none =>
      change (if _ then _ else _) = Except.ok (finish _ _ none)
      unfold finish
      split_ifs <;> rfl

end Parts

/-- **The comparison of the code** is the one of the numbers and then of the parts. -/
theorem isNewer_eq (a b : ParsedVersion) :
    isNewer a b = outcome (fun o => decide (o = .gt)) (versionCmp a b) := by
  unfold isNewer versionCmp
  by_cases hcore : a.core = b.core
  · rw [if_neg (not_not.2 hcore), orderCmp_eq_eq.2 hcore]
    obtain ⟨-, -, -, p⟩ := a
    obtain ⟨-, -, -, q⟩ := b
    cases p with
    | none => cases q <;> rfl
    | some p =>
      cases q with
      | none => rfl
      | some q =>
        simp only [comparePrerelease_eq]
        change _ = outcome _ (prereleaseCmp p q)
        rcases prereleaseCmp p q with _ | ⟨_ | _ | _⟩ <;> rfl
  · rw [if_pos hcore]
    rcases lt_trichotomy a.core b.core with hlt | heq | hgt
    · rw [orderCmp_eq_lt.2 hlt, decide_eq_false hlt.not_gt]
      rfl
    · exact absurd heq hcore
    · rw [orderCmp_eq_gt.2 hgt, decide_eq_true hgt]
      rfl

/-! ### The strict weak order -/

/-- `_parse_version` accepts the text. -/
def Accepted (value : String) : Prop := ∃ version, parseVersion value = .ok (some version)

/-- Neither version is newer. -/
def Incomparable (a b : String) : Prop :=
  isNewerVersion a b = .ok false ∧ isNewerVersion b a = .ok false

/-- What a strict weak order of the accepted texts is. -/
structure StrictWeakOrder : Prop where
  irrefl : ∀ a, Accepted a → isNewerVersion a a = .ok false
  asymm : ∀ a b, Accepted a → Accepted b → isNewerVersion a b = .ok true →
    isNewerVersion b a = .ok false
  trans : ∀ a b c, Accepted a → Accepted b → Accepted c → isNewerVersion a b = .ok true →
    isNewerVersion b c = .ok true → isNewerVersion a c = .ok true
  incomparable_trans : ∀ a b c, Accepted a → Accepted b → Accepted c → Incomparable a b →
    Incomparable b c → Incomparable a c

section StrictWeakOrder

variable {a b : String} {v w : ParsedVersion}

theorem isNewerVersion_eq (ha : parseVersion a = .ok (some v))
    (hb : parseVersion b = .ok (some w)) :
    isNewerVersion a b = outcome (fun o => decide (o = .gt)) (versionCmp v w) := by
  rw [← isNewer_eq, isNewerVersion, ha, hb]
  rfl

theorem isNewerVersion_eq_true (ha : parseVersion a = .ok (some v))
    (hb : parseVersion b = .ok (some w)) :
    isNewerVersion a b = .ok true ↔ versionCmp v w = some .gt := by
  rw [isNewerVersion_eq ha hb]
  rcases versionCmp v w with _ | ⟨_ | _ | _⟩ <;> simp [outcome]

theorem isNewerVersion_eq_false (ha : parseVersion a = .ok (some v))
    (hb : parseVersion b = .ok (some w)) :
    isNewerVersion a b = .ok false ↔ versionCmp v w = some .lt ∨ versionCmp v w = some .eq := by
  rw [isNewerVersion_eq ha hb]
  rcases versionCmp v w with _ | ⟨_ | _ | _⟩ <;> simp [outcome]

theorem incomparable_iff (ha : parseVersion a = .ok (some v)) (hb : parseVersion b = .ok (some w)) :
    Incomparable a b ↔ versionCmp v w = some .eq := by
  rw [Incomparable, isNewerVersion_eq_false ha hb, isNewerVersion_eq_false hb ha]
  constructor
  · rintro ⟨hlt | heq, hback⟩
    · have hgt := lawfulCmp_versionCmp.swap v w .lt hlt
      rcases hback with hback | hback
      · cases hgt.symm.trans hback
      · cases hgt.symm.trans hback
    · exact heq
  · intro heq
    exact ⟨Or.inr heq, Or.inr (lawfulCmp_versionCmp.swap v w .eq heq)⟩

theorem strictWeakOrder : StrictWeakOrder := by
  refine ⟨?_, ?_, ?_, ?_⟩
  · rintro a ⟨v, ha⟩
    exact (isNewerVersion_eq_false ha ha).2 (Or.inr (lawfulCmp_versionCmp.self v))
  · rintro a b ⟨v, ha⟩ ⟨w, hb⟩ hab
    have hgt := (isNewerVersion_eq_true ha hb).1 hab
    exact (isNewerVersion_eq_false hb ha).2 (Or.inl (lawfulCmp_versionCmp.swap v w .gt hgt))
  · rintro a b c ⟨v, ha⟩ ⟨w, hb⟩ ⟨u, hc⟩ hab hbc
    exact (isNewerVersion_eq_true ha hc).2 (lawfulCmp_versionCmp.gt_trans
      ((isNewerVersion_eq_true ha hb).1 hab) ((isNewerVersion_eq_true hb hc).1 hbc))
  · rintro a b c ⟨v, ha⟩ ⟨w, hb⟩ ⟨u, hc⟩ hab hbc
    exact (incomparable_iff ha hc).2 (lawfulCmp_versionCmp.eq_trans
      ((incomparable_iff ha hb).1 hab) ((incomparable_iff hb hc).1 hbc))

end StrictWeakOrder

end FirecrawlLb.Runtime
