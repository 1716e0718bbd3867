import FirecrawlLb.Python.Strings
import Mathlib.Data.Char
import Mathlib.Data.List.Lex
import Mathlib.Data.Nat.Basic

/-!
# Decimal texts

`str` of a natural number, a number filled with zeros to a width, and the order of such texts as
strings: texts of one width compare as what they are made of.
-/

namespace FirecrawlLb.Python

/-- `str(n)` -/
def decimal (n : ℕ) : List Char := Nat.toDigits 10 n

/-- A decimal digit of any script: `\d` in a pattern. -/
def isDecimal (c : Char) : Bool := (decimalValue c).isSome

theorem isSpace_of_isDecimal {c : Char} (h : isDecimal c = true) : isSpace c = false := by
  have hranges : ∀ z ∈ decimalZeros, (z + 9 < 0x9 ∨ 0xd < z) ∧ (z + 9 < 0x1c ∨ 0x20 < z) ∧
      (z + 9 < 0x2000 ∨ 0x200a < z) ∧
      ∀ k ∈ [0x85, 0xa0, 0x1680, 0x2028, 0x2029, 0x202f, 0x205f, 0x3000], z + 9 < k ∨ k < z := by
    decide
  obtain ⟨value, hvalue⟩ := Option.isSome_iff_exists.1 h
  obtain ⟨z, hfind, -⟩ := Option.map_eq_some_iff.1 hvalue
  have hz : z ≤ c.toNat ∧ c.toNat < z + 10 := by simpa using List.find?_some hfind
  obtain ⟨hcontrol, hseparator, hquad, hother⟩ := hranges z (List.mem_of_find?_eq_some hfind)
  simp only [List.forall_mem_cons] at hother
  simp [isSpace]
  omega

/-- `int` converts the digits of the number. -/
def Short (n : ℕ) : Prop := (decimal n).length ≤ maxStrDigits

instance : DecidablePred Short := fun _ => inferInstanceAs (Decidable (_ ≤ _))

/-- `int(text)` -/
def toInt (cs : List Char) : Except Raised ℤ :=
  (intOfStr (String.ofList cs)).elim (.error .valueError) .ok

/-- A character of a pattern that stands for itself, at the front of a text. -/
def takeChar (c : Char) : List Char → Option (List Char)
  | [] => none
  | d :: cs => if d = c then some cs else none

theorem takeChar_eq_some {c : Char} {cs rest : List Char} :
    takeChar c cs = some rest ↔ cs = c :: rest := by
  cases cs with
  | nil => simp [takeChar]
  | cons d cs => simp [takeChar, eq_comm]

/-- The last `width` decimal digits of `n`, with zeros in front. -/
def zeroFilled : ℕ → ℕ → List Char
  | 0, _ => []
  | width + 1, n => Nat.digitChar (n / 10 ^ width % 10) :: zeroFilled width n

theorem decimal_injective : Function.Injective decimal := by
  intro m n h
  have hvalue := congrArg (fun cs => Nat.ofDigitChars 10 cs 0) h
  simpa [decimal] using hvalue

@[simp] theorem length_zeroFilled (width n : ℕ) : (zeroFilled width n).length = width := by
  induction width with
  | zero => rfl
  | succ width ih => simp [zeroFilled, ih]

/-! ### Reading a decimal text -/

section Reading

variable {c : Char} {cs : List Char} {n : ℕ}

/-- The characters `0` to `9`. -/
def AsciiDigits (cs : List Char) : Prop := cs.all Char.isDigit = true

theorem AsciiDigits.mem (h : AsciiDigits cs) (hc : c ∈ cs) : c.isDigit = true :=
  List.all_eq_true.1 h c hc

theorem asciiDigits_decimal (n : ℕ) : AsciiDigits (decimal n) :=
  List.all_eq_true.2 fun _ hc => Nat.isDigit_of_mem_toDigits (by decide) (by decide) hc

theorem decimal_ne_nil (n : ℕ) : decimal n ≠ [] := Nat.toDigits_ne_nil

theorem toNat_of_isDigit (h : c.isDigit = true) : 48 ≤ c.toNat ∧ c.toNat ≤ 57 := by
  simpa [Char.isDigit, UInt32.le_iff_toNat_le] using h

theorem decimalValue_of_isDigit (h : c.isDigit = true) : decimalValue c = some (c.toNat - 48) := by
  obtain ⟨hlow, hhigh⟩ := toNat_of_isDigit h
  have hfind : decimalZeros.find? (fun z => z ≤ c.toNat ∧ c.toNat < z + 10) = some 48 :=
    List.find?_cons_of_pos (by simp; omega)
  rw [decimalValue, hfind]
  rfl

theorem digits_of_asciiDigits (hne : cs ≠ []) (h : AsciiDigits cs) :
    digits cs = some (cs.map (·.toNat - 48)) := by
  induction cs with
  | nil => exact absurd rfl hne
  | cons c cs ih =>
    have hc := decimalValue_of_isDigit (h.mem List.mem_cons_self)
    cases cs with
    | nil => rw [digits, hc]; rfl
    | cons d ds =>
      have hd : d ≠ '_' := by
        rintro rfl
        exact absurd (h.mem (List.mem_cons_of_mem _ List.mem_cons_self)) (by decide)
      have hrest := ih (List.cons_ne_nil _ _)
        (List.all_eq_true.2 fun x hx => h.mem (List.mem_cons_of_mem _ hx))
      rw [digits, hc, hrest]
      · rfl
      · exact List.cons_ne_nil _ _
      · exact fun _ heq => hd (List.cons.inj heq).1

theorem foldl_digits (ds : List ℕ) (n : ℕ) :
    (ds.map fun d : ℕ => (d : ℤ)).foldl (fun n d => 10 * n + d) (n : ℤ) =
      ((ds.foldl (fun n d => 10 * n + d) n : ℕ) : ℤ) := by
  induction ds generalizing n with
  | nil => rfl
  | cons d ds ih =>
    rw [List.map_cons, List.foldl_cons, List.foldl_cons, ← ih]
    simp

/-- **`int` of ASCII digits**, when they are not too many. -/
theorem natOfChars_of_asciiDigits (hne : cs ≠ []) (h : AsciiDigits cs)
    (hlength : cs.length ≤ maxStrDigits) :
    natOfChars cs = some ((Nat.ofDigitChars 10 cs 0 : ℕ) : ℤ) := by
  rw [natOfChars, digits_of_asciiDigits hne h, Option.bind_some, List.length_map,
    if_pos hlength, Nat.ofDigitChars_eq_foldl]
  have hfold := foldl_digits (cs.map (·.toNat - 48)) 0
  rw [List.foldl_map (f := fun c : Char => c.toNat - 48)] at hfold
  simpa [List.bind_eq_flatMap, ← List.map_eq_flatMap] using hfold

theorem isIntSpace_of_isDigit (h : c.isDigit = true) : isIntSpace c = false := by
  obtain ⟨hlow, hhigh⟩ := toNat_of_isDigit h
  simp [isIntSpace]
  omega

theorem natOfChars_decimal (h : (decimal n).length ≤ maxStrDigits) :
    natOfChars (decimal n) = some (n : ℤ) := by
  rw [natOfChars_of_asciiDigits (decimal_ne_nil n) (asciiDigits_decimal n) h, decimal,
    Nat.ofDigitChars_ten_toDigits]

/-- `str(n)` for an integer. -/
def intText (n : ℤ) : List Char :=
  if n < 0 then '-' :: decimal n.natAbs else decimal n.natAbs

theorem dropWhile_ends_eq_self {p : Char → Bool} (h : ∀ c ∈ cs, p c = false) :
    ((cs.dropWhile p).reverse.dropWhile p).reverse = cs := by
  have hkeep : ∀ ds : List Char, (∀ c ∈ ds, p c = false) → ds.dropWhile p = ds := by
    intro ds hds
    cases ds with
    | nil => rfl
    | cons c ds => simp [hds c List.mem_cons_self]
  rw [hkeep cs h, hkeep _ fun c hc => h c (List.mem_reverse.1 hc), List.reverse_reverse]

theorem AsciiDigits.ne_cons (h : AsciiDigits cs) (hc : c.isDigit = false) (ds : List Char) :
    cs ≠ c :: ds := by
  rintro rfl
  exact absurd (h.mem List.mem_cons_self) (by simp [hc])

theorem intOfStr_of_asciiDigits (h : AsciiDigits cs) :
    intOfStr (String.ofList cs) = natOfChars cs := by
  have hstrip := dropWhile_ends_eq_self (p := isIntSpace) fun c hc =>
    isIntSpace_of_isDigit (h.mem hc)
  rw [intOfStr, String.toList_ofList]
  simp only [hstrip]
  split
  · exact absurd rfl (h.ne_cons (by decide) _)
  · exact absurd rfl (h.ne_cons (by decide) _)
  · rfl

/-- `int` refuses too many digits. -/
theorem natOfChars_eq_none (hne : cs ≠ []) (h : AsciiDigits cs)
    (hlength : maxStrDigits < cs.length) : natOfChars cs = none := by
  rw [natOfChars, digits_of_asciiDigits hne h, Option.bind_some, List.length_map,
    if_neg hlength.not_ge]

theorem toInt_bind {α : Type} (cs : List Char) (f : ℤ → Except Raised α) :
    toInt cs >>= f = (intOfStr (String.ofList cs)).elim (.error .valueError) f := by
  unfold toInt
  cases intOfStr (String.ofList cs) <;> rfl

theorem short_iff : Short n ↔ n < 10 ^ maxStrDigits :=
  Nat.length_toDigits_le_iff (by decide) (by decide)

theorem intOfStr_decimal (n : ℕ) :
    intOfStr (String.ofList (decimal n)) = if Short n then some (n : ℤ) else none := by
  rw [intOfStr_of_asciiDigits (asciiDigits_decimal n)]
  split_ifs with h
  · exact natOfChars_decimal h
  · exact natOfChars_eq_none (decimal_ne_nil n) (asciiDigits_decimal n) (not_le.1 h)

theorem toInt_decimal (n : ℕ) :
    toInt (decimal n) = if Short n then .ok (n : ℤ) else .error .valueError := by
  rw [toInt, intOfStr_decimal]
  split_ifs <;> rfl

/-- **`int(str(n))`** is `n`, when it has not too many digits. -/
theorem intOfStr_intText {n : ℤ} (h : (decimal n.natAbs).length ≤ maxStrDigits) :
    intOfStr (String.ofList (intText n)) = some n := by
  have hdecimal := natOfChars_decimal h
  have hdigits := asciiDigits_decimal n.natAbs
  unfold intText
  split_ifs with hneg
  · have hstrip : ((('-' :: decimal n.natAbs).dropWhile isIntSpace).reverse.dropWhile
        isIntSpace).reverse = '-' :: decimal n.natAbs := by
      refine dropWhile_ends_eq_self fun c hc => ?_
      rcases List.mem_cons.1 hc with rfl | hc
      · decide
      · exact isIntSpace_of_isDigit (hdigits.mem hc)
    rw [intOfStr, String.toList_ofList]
    simp only [hstrip, hdecimal, Option.map_some]
    congr 1
    omega
  · rw [intOfStr_of_asciiDigits hdigits, hdecimal]
    congr 1
    omega

/-! ### Digits of ASCII -/

theorem isDecimal_eq_isDigit (h : c.toNat < 128) : isDecimal c = c.isDigit := by
  cases hdigit : c.isDigit with
  | true => rw [isDecimal, decimalValue_of_isDigit hdigit]; rfl
  | false =>
    have hzero : ∀ z ∈ decimalZeros, z = 48 ∨ 128 ≤ z := by decide
    have hfind : decimalZeros.find? (fun z => z ≤ c.toNat ∧ c.toNat < z + 10) = none := by
      refine List.find?_eq_none.2 fun z hz hin => ?_
      have hin : z ≤ c.toNat ∧ c.toNat < z + 10 := by simpa using hin
      rcases hzero z hz with rfl | hlarge
      · have hascii : c.isDigit = true := by
          simp [Char.isDigit, UInt32.le_iff_toNat_le]
          exact ⟨hin.1, by have := hin.2; omega⟩
        simp [hascii] at hdigit
      · omega
    rw [isDecimal, decimalValue, hfind]
    rfl

theorem isDecimal_of_isDigit (h : c.isDigit = true) : isDecimal c = true := by
  rw [isDecimal, decimalValue_of_isDigit h]
  rfl

theorem isDigit_eq_isDigit (h : c.toNat < 128) : isDigit c = c.isDigit := by
  have hother : ∀ r ∈ otherDigits, 128 ≤ r.1 := by decide
  have hany : (otherDigits.any fun r => r.1 ≤ c.toNat && c.toNat ≤ r.2) = false := by
    refine List.any_eq_false.2 fun r hr => ?_
    have := hother r hr
    simp
    omega
  rw [isDigit, hany, Bool.or_false]
  exact isDecimal_eq_isDigit h

/-- No digit stands at the front. -/
def NoDigit (cs : List Char) : Prop := (cs.head?.all fun c => !isDecimal c) = true

theorem noDigit_dropWhile (cs : List Char) : NoDigit (cs.dropWhile isDecimal) := by
  have h := List.head?_dropWhile_not isDecimal cs
  unfold NoDigit
  cases hhead : (cs.dropWhile isDecimal).head? with
  | none => rfl
  | some c =>
    rw [hhead] at h
    simpa using h

/-- The digits at the front end where no digit follows. -/
theorem span_isDecimal {ds rest : List Char} (h : ds.all isDecimal = true) (hrest : NoDigit rest) :
    (ds ++ rest).takeWhile isDecimal = ds ∧ (ds ++ rest).dropWhile isDecimal = rest := by
  have hall := List.all_eq_true.1 h
  have hends : rest.takeWhile isDecimal = [] ∧ rest.dropWhile isDecimal = rest := by
    cases rest with
    | nil => exact ⟨rfl, rfl⟩
    | cons c rest =>
      have hc : isDecimal c = false := by simpa [NoDigit] using hrest
      simp [hc]
  rw [List.takeWhile_append_of_pos hall, List.dropWhile_append_of_pos hall, hends.1, hends.2,
    List.append_nil]
  exact ⟨rfl, rfl⟩

theorem decimal_pos {n : ℕ} (h : 0 < n) : ∃ c cs, decimal n = c :: cs ∧ '1' ≤ c ∧ c ≤ '9' := by
  induction n using Nat.strongRecOn with
  | ind n ih =>
    rcases Nat.lt_or_ge n 10 with hlt | hge
    · have hdigit : ∀ k < 10, 0 < k → '1' ≤ Nat.digitChar k ∧ Nat.digitChar k ≤ '9' := by decide
      exact ⟨Nat.digitChar n, [], Nat.toDigits_of_lt_base hlt, hdigit n hlt h⟩
    · obtain ⟨c, cs, hrest, hc⟩ := ih (n / 10) (by omega) (by omega)
      refine ⟨c, cs ++ [Nat.digitChar (n % 10)], ?_, hc⟩
      rw [decimal, Nat.toDigits_of_base_le (by decide) hge, ← decimal, hrest, List.cons_append]

theorem digitChar_of_isDigit (h : c.isDigit = true) : Nat.digitChar (c.toNat - 48) = c := by
  obtain ⟨hlow, hhigh⟩ := toNat_of_isDigit h
  apply Char.toNat_inj.1
  rw [Nat.toNat_digitChar_of_lt_ten (by omega)]
  omega

theorem decimal_append (h : AsciiDigits cs) (hn : 0 < n) :
    decimal n ++ cs = decimal (Nat.ofDigitChars 10 cs n) := by
  induction cs generalizing n with
  | nil => rw [List.append_nil, Nat.ofDigitChars_nil]
  | cons c cs ih =>
    have hc := h.mem List.mem_cons_self
    have hcs : AsciiDigits cs := List.all_eq_true.2 fun d hd => h.mem (List.mem_cons_of_mem _ hd)
    obtain ⟨hlow, hhigh⟩ := toNat_of_isDigit hc
    have hdigit : decimal n ++ [c] = decimal (10 * n + (c.toNat - 48)) := by
      rw [decimal, decimal, ← Nat.toDigits_append_toDigits (by decide) hn (by omega),
        Nat.toDigits_of_lt_base (show c.toNat - 48 < 10 by omega), digitChar_of_isDigit hc]
    rw [List.append_cons, hdigit, ih hcs (by omega), Nat.ofDigitChars_cons]
    rfl

/-- **`str(int(text))`** is the text, when it has no leading zero. -/
theorem decimal_ofDigitChars (h : AsciiDigits (c :: cs)) (hc : '1' ≤ c) :
    decimal (Nat.ofDigitChars 10 (c :: cs) 0) = c :: cs := by
  have hdigit := h.mem List.mem_cons_self
  have hcs : AsciiDigits cs := List.all_eq_true.2 fun d hd => h.mem (List.mem_cons_of_mem _ hd)
  obtain ⟨hlow, hhigh⟩ := toNat_of_isDigit hdigit
  have hpos : 49 ≤ c.toNat := hc
  have hfirst : decimal (c.toNat - 48) = [c] := by
    rw [decimal, Nat.toDigits_of_lt_base (by omega), digitChar_of_isDigit hdigit]
  have hzero : ('0' : Char).toNat = 48 := rfl
  rw [Nat.ofDigitChars_cons, Nat.mul_zero, Nat.zero_add, hzero,
    ← decimal_append hcs (by omega), hfirst, List.singleton_append]

end Reading

/-! ### The order of texts -/

section Order

variable {α : Type*} [LinearOrder α] {a b x y : List α}

/-- Texts with equally long beginnings compare by these first. -/
theorem append_lt_append_iff (h : a.length = b.length) :
    a ++ x < b ++ y ↔ a < b ∨ a = b ∧ x < y := by
  induction a generalizing b with
  | nil =>
    obtain rfl := List.length_eq_zero_iff.1 h.symm
    simp
  | cons c a ih =>
    cases b with
    | nil => simp at h
    | cons d b =>
      have hlen : a.length = b.length := by simpa using h
      simp only [List.cons_append, List.cons_lt_cons_iff, ih hlen, List.cons.injEq]
      tauto

theorem append_left_lt_iff : a ++ x < a ++ y ↔ x < y := by
  simp [append_lt_append_iff]

end Order

theorem digitChar_lt_iff {m n : ℕ} (hm : m < 10) (hn : n < 10) :
    Nat.digitChar m < Nat.digitChar n ↔ m < n := by
  have hval : ∀ k < 10, (Nat.digitChar k).val.toNat = 48 + k := fun k hk =>
    Nat.toNat_digitChar_of_lt_ten hk
  rw [Char.lt_def, UInt32.lt_iff_toNat_lt, hval m hm, hval n hn]
  omega

theorem digitChar_inj {m n : ℕ} (hm : m < 10) (hn : n < 10)
    (h : Nat.digitChar m = Nat.digitChar n) : m = n := by
  have hmn := (digitChar_lt_iff hm hn).not.1 h.not_lt
  have hnm := (digitChar_lt_iff hn hm).not.1 h.symm.not_lt
  omega

theorem add_mul_lt_add_mul_iff {base x y j k : ℕ} (hx : x < base) (hy : y < base) :
    x + base * j < y + base * k ↔ j < k ∨ j = k ∧ x < y := by
  rcases lt_trichotomy j k with h | rfl | h
  · have := Nat.mul_le_mul_left base (show j + 1 ≤ k from h)
    rw [Nat.mul_succ] at this
    omega
  · omega
  · have := Nat.mul_le_mul_left base (show k + 1 ≤ j from h)
    rw [Nat.mul_succ] at this
    omega

theorem zeroFilled_lt_iff (width : ℕ) {m n : ℕ} :
    zeroFilled width m < zeroFilled width n ↔ m % 10 ^ width < n % 10 ^ width := by
  induction width with
  | zero => simp [zeroFilled, Nat.mod_one]
  | succ width ih =>
    have hm : m / 10 ^ width % 10 < 10 := Nat.mod_lt _ (by decide)
    have hn : n / 10 ^ width % 10 < 10 := Nat.mod_lt _ (by decide)
    have hlow : ∀ k : ℕ, k % 10 ^ width < 10 ^ width := fun k =>
      Nat.mod_lt _ (Nat.pow_pos (by decide))
    have heq : Nat.digitChar (m / 10 ^ width % 10) = Nat.digitChar (n / 10 ^ width % 10) ↔
        m / 10 ^ width % 10 = n / 10 ^ width % 10 := ⟨digitChar_inj hm hn, fun h => by rw [h]⟩
    have hsplit : ∀ k : ℕ, k % 10 ^ (width + 1) =
        k % 10 ^ width + 10 ^ width * (k / 10 ^ width % 10) := fun k => by
      rw [Nat.pow_succ, Nat.mod_mul]
    rw [zeroFilled, zeroFilled, List.cons_lt_cons_iff, ih, digitChar_lt_iff hm hn, heq, hsplit,
      hsplit, add_mul_lt_add_mul_iff (hlow m) (hlow n)]

theorem zeroFilled_lt_iff_of_lt {width m n : ℕ} (hm : m < 10 ^ width) (hn : n < 10 ^ width) :
    zeroFilled width m < zeroFilled width n ↔ m < n := by
  rw [zeroFilled_lt_iff, Nat.mod_eq_of_lt hm, Nat.mod_eq_of_lt hn]

theorem zeroFilled_eq_iff {width m n : ℕ} (hm : m < 10 ^ width) (hn : n < 10 ^ width) :
    zeroFilled width m = zeroFilled width n ↔ m = n := by
  constructor
  · intro h
    have hmn := (zeroFilled_lt_iff_of_lt hm hn).not.1 h.not_lt
    have hnm := (zeroFilled_lt_iff_of_lt hn hm).not.1 h.symm.not_lt
    omega
  · rintro rfl
    rfl

end FirecrawlLb.Python
