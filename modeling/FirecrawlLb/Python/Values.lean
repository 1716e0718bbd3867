import FirecrawlLb.Lib.Dict
import Mathlib.Algebra.Order.Floor.Ring
import Mathlib.Data.Nat.Log
import Mathlib.Data.Rat.Floor

/-!
# Python values

The exceptions the modelled code raises, datetimes with and without a UTC offset, `int` of a
string, and the true division of two ints with its rounding to a double.
-/

namespace FirecrawlLb.Python

open FirecrawlLb.Lib

/-- What a call of the modelled code can raise. -/
inductive Raised where
  | typeError
  | valueError
  | overflowError
  | keyError
  | assertionError
  /-- `cryptography.fernet.InvalidToken` -/
  | invalidToken
  /-- `sqlalchemy.exc.MultipleResultsFound` -/
  | multipleResultsFound
  /-- a flush the database refuses: a constraint, or a value the driver cannot bind -/
  | databaseError
  /-- `pydantic.ValidationError` -/
  | validationError
  | accountNotFound
  | accountConflict
  | credentialNotFound
  | credentialConflict
  | noFirecrawlAccountAvailable (endpoint : String) (rejections : Dict String String)
  deriving DecidableEq

/-! ### Datetimes -/

/-- A `datetime`: its wall-clock fields, as microseconds since 1970-01-01T00:00, and its UTC offset
in microseconds.  A naive datetime has no offset. -/
structure DateTime where
  wall : ℤ
  offset : Option ℤ
  deriving DecidableEq

namespace DateTime

/-- `datetime.now(UTC)` at an instant. -/
def utc (instant : ℤ) : DateTime := ⟨instant, some 0⟩

def naive (wall : ℤ) : DateTime := ⟨wall, none⟩

def isNaive (d : DateTime) : Bool := d.offset.isNone

/-- `replace(tzinfo=None)`: the wall-clock fields stay. -/
def dropTzinfo (d : DateTime) : DateTime := ⟨d.wall, none⟩

/-- `a > b`: aware datetimes compare as instants, naive ones by their fields, and comparing a
naive with an aware one raises. -/
def gt (a b : DateTime) : Except Raised Bool :=
  match a.offset, b.offset with
  | none, none => .ok (b.wall < a.wall)
  | some oa, some ob => .ok (b.wall - ob < a.wall - oa)
  | _, _ => .error .typeError

/-- `datetime.max`, 9999-12-31T23:59:59.999999. -/
def maxWall : ℤ := 253402300799999999

/-- `datetime.min`, 0001-01-01T00:00. -/
def minWall : ℤ := -62135596800000000

/-- `d + timedelta(seconds=n)` for `n ≥ 0`. -/
def addSeconds (d : DateTime) (n : ℤ) : Except Raised DateTime :=
  if d.wall + n * 1000000 ≤ maxWall then .ok { d with wall := d.wall + n * 1000000 }
  else .error .overflowError

/-- `d.astimezone(UTC).replace(tzinfo=None)` of an aware datetime; a naive one stays. -/
def toNaiveUtc (d : DateTime) : Except Raised DateTime :=
  match d.offset with
  | none => .ok d
  | some offset =>
    if minWall ≤ d.wall - offset ∧ d.wall - offset ≤ maxWall then .ok (.naive (d.wall - offset))
    else .error .overflowError

/-- The instant a datetime denotes; a naive one is in UTC. -/
def instant (d : DateTime) : ℤ := d.wall - d.offset.getD 0

/-- Two datetimes can be compared. -/
def Comparable (a b : DateTime) : Prop := a.isNaive = b.isNaive

instance (a b : DateTime) : Decidable (Comparable a b) := by unfold Comparable; infer_instance

theorem gt_ok_iff {a b : DateTime} : (∃ r, a.gt b = .ok r) ↔ Comparable a b := by
  obtain ⟨wa, oa⟩ := a
  obtain ⟨wb, ob⟩ := b
  cases oa <;> cases ob <;> simp [gt, Comparable, isNaive]

theorem gt_of_not_comparable {a b : DateTime} (h : ¬ Comparable a b) :
    a.gt b = .error .typeError := by
  obtain ⟨wa, oa⟩ := a
  obtain ⟨wb, ob⟩ := b
  cases oa <;> cases ob <;> simp_all [gt, Comparable, isNaive]

theorem eq_naive_instant {d : DateTime} (h : d.isNaive = true) : d = naive d.instant := by
  obtain ⟨wall, offset⟩ := d
  cases offset with
  | none => simp [naive, instant]
  | some offset => cases h

theorem toNaiveUtc_eq {d v : DateTime} (h : d.toNaiveUtc = .ok v) : v = naive d.instant := by
  obtain ⟨wall, offset⟩ := d
  cases offset with
  | none =>
    obtain rfl : DateTime.mk wall none = v := by simpa [toNaiveUtc] using h
    exact eq_naive_instant rfl
  | some offset =>
    simp only [toNaiveUtc] at h
    split_ifs at h
    exact (Except.ok.inj h).symm

@[simp] theorem isNaive_dropTzinfo (d : DateTime) : d.dropTzinfo.isNaive = true := rfl

@[simp] theorem isNaive_utc (t : ℤ) : (utc t).isNaive = false := rfl

end DateTime

/-! ### `int` of a string -/

/-- The first of each run of ten decimal digits of Unicode 16. -/
def decimalZeros : List ℕ :=
  [0x30, 0x660, 0x6f0, 0x7c0, 0x966, 0x9e6, 0xa66, 0xae6, 0xb66, 0xbe6, 0xc66, 0xce6, 0xd66,
    0xde6, 0xe50, 0xed0, 0xf20, 0x1040, 0x1090, 0x17e0, 0x1810, 0x1946, 0x19d0, 0x1a80, 0x1a90,
    0x1b50, 0x1bb0, 0x1c40, 0x1c50, 0xa620, 0xa8d0, 0xa900, 0xa9d0, 0xa9f0, 0xaa50, 0xabf0,
    0xff10, 0x104a0, 0x10d30, 0x10d40, 0x11066, 0x110f0, 0x11136, 0x111d0, 0x112f0, 0x11450,
    0x114d0, 0x11650, 0x116c0, 0x116d0, 0x116da, 0x11730, 0x118e0, 0x11950, 0x11bf0, 0x11c50,
    0x11d50, 0x11da0, 0x11f50, 0x16130, 0x16a60, 0x16ac0, 0x16b50, 0x16d70, 0x1ccf0, 0x1d7ce,
    0x1d7d8, 0x1d7e2, 0x1d7ec, 0x1d7f6, 0x1e140, 0x1e2f0, 0x1e4f0, 0x1e5f1, 0x1e950, 0x1fbf0]

/-- The value of a decimal digit of any script. -/
def decimalValue (c : Char) : Option ℕ :=
  (decimalZeros.find? fun z => z ≤ c.toNat ∧ c.toNat < z + 10).map (c.toNat - ·)

/-- The white space `int` strips: that of C below 128, that of Unicode above. -/
def isIntSpace (c : Char) : Bool :=
  c.toNat ∈ [0x9, 0xa, 0xb, 0xc, 0xd, 0x20, 0x85, 0xa0, 0x1680, 0x2028, 0x2029, 0x202f, 0x205f,
    0x3000] || (0x2000 ≤ c.toNat && c.toNat ≤ 0x200a)

/-- The digits of a literal, where single underscores may stand between two digits. -/
def digits : List Char → Option (List ℕ)
  | [] => none
  | [c] => (decimalValue c).map ([·])
  | c :: '_' :: cs => (decimalValue c).bind fun d => (digits cs).map (d :: ·)
  | c :: cs => (decimalValue c).bind fun d => (digits cs).map (d :: ·)

/-- The default limit on the digits of a string that `int` converts. -/
def maxStrDigits : ℕ := 4300

/-- The value of an unsigned literal. -/
def natOfChars (cs : List Char) : Option ℤ :=
  (digits cs).bind fun ds =>
    if ds.length ≤ maxStrDigits then some (ds.foldl (fun n d => 10 * n + d) (0 : ℕ)) else none

/-- `int(s)`; none stands for `ValueError`. -/
def intOfStr (s : String) : Option ℤ :=
  let cs := ((s.toList.dropWhile isIntSpace).reverse.dropWhile isIntSpace).reverse
  match cs with
  | '-' :: cs => (natOfChars cs).map (- ·)
  | '+' :: cs => natOfChars cs
  | cs => natOfChars cs

example : intOfStr " +1_000 " = some 1000 ∧ intOfStr "1__0" = none ∧ intOfStr "- 5" = none := by
  decide

/-! ### `str.replace` -/

/-- Replaces from the left; the first `skip` characters belong to a match already replaced. -/
def replaceChars (old new : List Char) : ℕ → List Char → List Char
  | _, [] => []
  | skip + 1, _ :: cs => replaceChars old new skip cs
  | 0, c :: cs =>
    if old.isPrefixOf (c :: cs) then new ++ replaceChars old new (old.length - 1) cs
    else c :: replaceChars old new 0 cs

/-- `s.replace(old, new)` for a non-empty `old`. -/
def strReplace (s old new : String) : String :=
  String.ofList (replaceChars old.toList new.toList 0 s.toList)

example : strReplace "Bearer fc-fc-1" "fc-" "x" = "Bearer xx1" := by decide

/-! ### True division -/

/-- The integer nearest to `n / d`, the even one of two. -/
def roundHalfEven (n d : ℕ) : ℕ :=
  if 2 * (n % d) < d then n / d
  else if d < 2 * (n % d) then n / d + 1
  else n / d + n / d % 2

/-- The exponent of the last bit of the double nearest to `n / d`. -/
def lastBit (n d : ℕ) : ℤ :=
  if d ≤ n then (Nat.log 2 (n / d) : ℤ) - 52 else -(Nat.clog 2 ((d + n - 1) / n) : ℤ) - 52

/-- `n / d` on ints, `d > 0`: the nearest double with ties to even; none stands for
`OverflowError`. -/
def trueDiv (n d : ℕ) : Option ℚ :=
  if n = 0 then some 0
  else
    let e := lastBit n d
    let m := roundHalfEven (n * 2 ^ (-e).toNat) (d * 2 ^ e.toNat)
    let q : ℚ := (m * 2 ^ e.toNat : ℕ) / (2 ^ (-e).toNat : ℕ)
    if q < (2 ^ 1024 : ℕ) then some q else none

end FirecrawlLb.Python
