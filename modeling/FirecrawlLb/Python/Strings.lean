import FirecrawlLb.Python.Values
import Mathlib.Data.List.DropRight

/-!
# Python strings

The character classes of `str`, and the checks of `base64.b32decode` and `hmac.compare_digest`.
-/

namespace FirecrawlLb.Python

/-- `c.isspace()` -/
def isSpace (c : Char) : Bool :=
  (0x9 ≤ c.toNat && c.toNat ≤ 0xd) || (0x1c ≤ c.toNat && c.toNat ≤ 0x20) ||
    (0x2000 ≤ c.toNat && c.toNat ≤ 0x200a) ||
    c.toNat ∈ [0x85, 0xa0, 0x1680, 0x2028, 0x2029, 0x202f, 0x205f, 0x3000]

/-- `s.strip()` -/
def strip (s : String) : String :=
  String.ofList ((s.toList.dropWhile isSpace).reverse.dropWhile isSpace).reverse

/-- `s.strip(c)` for one character -/
def stripChar (c : Char) (s : String) : String :=
  String.ofList ((s.toList.dropWhile (· = c)).reverse.dropWhile (· = c)).reverse

/-- The digits that are no decimal digits, such as superscripts: first and last of each run. -/
def otherDigits : List (ℕ × ℕ) :=
  [(0xb2, 0xb3), (0xb9, 0xb9), (0x1369, 0x1371), (0x19da, 0x19da), (0x2070, 0x2070),
    (0x2074, 0x2079), (0x2080, 0x2089), (0x2460, 0x2468), (0x2474, 0x247c), (0x2488, 0x2490),
    (0x24ea, 0x24ea), (0x24f5, 0x24fd), (0x24ff, 0x24ff), (0x2776, 0x277e), (0x2780, 0x2788),
    (0x278a, 0x2792), (0x10a40, 0x10a43), (0x10e60, 0x10e68), (0x11052, 0x1105a),
    (0x1f100, 0x1f10a)]

/-- `c.isdigit()` -/
def isDigit (c : Char) : Bool :=
  (decimalValue c).isSome || otherDigits.any fun r => r.1 ≤ c.toNat && c.toNat ≤ r.2

/-- `s.isascii()` -/
def isAscii (s : String) : Bool := s.toList.all (·.toNat < 128)

/-- `c.upper()`, where it gives ASCII characters; the others keep what is no ASCII character. -/
def upperChar (c : Char) : List Char :=
  if c.toNat < 128 then [c.toUpper]
  else
    match c.toNat with
    | 0xdf => ['S', 'S']
    | 0x131 => ['I']
    | 0x17f => ['S']
    | 0xfb00 => ['F', 'F']
    | 0xfb01 => ['F', 'I']
    | 0xfb02 => ['F', 'L']
    | 0xfb03 => ['F', 'F', 'I']
    | 0xfb04 => ['F', 'F', 'L']
    | 0xfb05 => ['S', 'T']
    | 0xfb06 => ['S', 'T']
    | _ => [c]

/-- `c.lower()`, where it gives ASCII characters; the others keep what is no ASCII character. -/
def lowerChar (c : Char) : List Char :=
  if c.toNat < 128 then [c.toLower]
  else
    match c.toNat with
    | 0x130 => ['i', Char.ofNat 0x307]
    | 0x212a => ['k']
    | _ => [c]

/-- `s.lower()` -/
def lower (s : String) : String := String.ofList (s.toList.flatMap lowerChar)

/-- `s.split(sep)` for one character -/
def split (sep : Char) (s : String) : List String := (s.toList.splitOn sep).map String.ofList

/-- The alphabet of base 32. -/
def base32Alphabet : List Char := "ABCDEFGHIJKLMNOPQRSTUVWXYZ234567".toList

/-- `base64.b32decode` takes the characters: a multiple of eight of them, with an amount of padding
that some number of bytes has. -/
def base32Decodes (cs : List Char) : Bool :=
  let padding := (cs.reverse.takeWhile (· = '=')).length
  cs.length % 8 = 0 && padding ∈ [0, 1, 3, 4, 6] &&
    (cs.take (cs.length - padding)).all (· ∈ base32Alphabet)

/-- `hmac.compare_digest` on strings. -/
def compareDigest (a b : String) : Except Raised Bool :=
  if isAscii a && isAscii b then .ok (a = b) else .error .typeError

theorem compareDigest_eq_ok {a b : String} {r : Bool} (h : compareDigest a b = .ok r) :
    r = decide (a = b) := by
  unfold compareDigest at h
  split_ifs at h
  exact (Except.ok.inj h).symm

/-! ### Stripping -/

section Strip

variable {s : String}

theorem strip_eq (s : String) :
    strip s = String.ofList ((s.toList.dropWhile isSpace).rdropWhile isSpace) := rfl

/-- A text is stripped when it neither starts nor ends with white space. -/
theorem strip_eq_self_iff : strip s = s ↔
    (∀ c ∈ s.toList.head?, isSpace c = false) ∧ ∀ c ∈ s.toList.getLast?, isSpace c = false := by
  have hfront : s.toList.dropWhile isSpace = s.toList ↔
      ∀ c ∈ s.toList.head?, isSpace c = false := by
    cases s.toList with
    | nil => simp
    | cons c cs => simp [List.dropWhile_eq_self_iff]
  have hback : s.toList.rdropWhile isSpace = s.toList ↔
      ∀ c ∈ s.toList.getLast?, isSpace c = false := by
    rw [List.rdropWhile_eq_self_iff]
    constructor
    · intro h c hc
      obtain ⟨hne, rfl⟩ := List.mem_getLast?_eq_getLast hc
      exact Bool.eq_false_iff.2 (h hne)
    · exact fun h hne => Bool.eq_false_iff.1 (h _ (List.getLast?_eq_getLast_of_ne_nil hne ▸ rfl))
  rw [← hfront, ← hback, strip_eq]
  constructor
  · intro h
    have hlist : (s.toList.dropWhile isSpace).rdropWhile isSpace = s.toList := by
      rw [← String.toList_ofList (l := (s.toList.dropWhile isSpace).rdropWhile isSpace), h]
    have hle := (List.rdropWhile_prefix isSpace (l := s.toList.dropWhile isSpace)).length_le
    rw [hlist] at hle
    have hself := (List.dropWhile_suffix (l := s.toList) isSpace).eq_of_length_le hle
    exact ⟨hself, by rw [hself] at hlist; exact hlist⟩
  · rintro ⟨hself, hself'⟩
    rw [hself, hself', String.ofList_toList]

theorem strip_strip (s : String) : strip (strip s) = strip s := by
  have hlist : (strip s).toList = (s.toList.dropWhile isSpace).rdropWhile isSpace :=
    String.toList_ofList
  rw [strip_eq_self_iff, hlist]
  constructor
  · intro c hc
    obtain ⟨cs, hcs⟩ := List.head?_eq_some_iff.1 hc
    obtain ⟨rest, hrest⟩ := List.rdropWhile_prefix isSpace (l := s.toList.dropWhile isSpace)
    rw [hcs, List.cons_append] at hrest
    have := List.head?_dropWhile_not isSpace s.toList
    rw [← hrest] at this
    simpa using this
  · intro c hc
    obtain ⟨hne, rfl⟩ := List.mem_getLast?_eq_getLast hc
    exact Bool.eq_false_iff.2 (List.rdropWhile_last_not _ _ hne)

end Strip

end FirecrawlLb.Python
