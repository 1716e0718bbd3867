import FirecrawlLb.Python.Values
import Mathlib.Algebra.Order.Field.Basic
import Mathlib.Tactic.Ring
import Mathlib.Tactic.Linarith

/-!
# How large a quotient can be

The true division of two positive ints gives a positive double.  It overflows from the midpoint on
between the greatest double and the next power of two.
-/

namespace FirecrawlLb.Python

variable {n d k : ℕ}

/-! ### Rounding -/

theorem div_le_roundHalfEven (n d : ℕ) : n / d ≤ roundHalfEven n d := by
  unfold roundHalfEven
  split_ifs <;> omega

theorem roundHalfEven_le_succ (n d : ℕ) : roundHalfEven n d ≤ n / d + 1 := by
  unfold roundHalfEven
  split_ifs <;> omega

theorem roundHalfEven_le (hd : 0 < d) (h : n ≤ d * k) : roundHalfEven n d ≤ k := by
  by_cases hlt : n / d < k
  · have := roundHalfEven_le_succ n d
    omega
  · have hk : k ≤ n / d := not_lt.1 hlt
    have hn : n = d * k := le_antisymm h ((Nat.mul_le_mul_left d hk).trans (Nat.mul_div_le n d))
    have hmod : n % d = 0 := by rw [hn, Nat.mul_mod_right]
    have hdiv : n / d = k := by rw [hn, Nat.mul_div_cancel_left k hd]
    unfold roundHalfEven
    rw [if_pos (by omega), hdiv]

/-- **An even number is reached from half a unit below it on.** -/
theorem le_roundHalfEven_iff (hd : 0 < d) (hk : k % 2 = 0) :
    k ≤ roundHalfEven n d ↔ 2 * (d * k) ≤ 2 * n + d := by
  have hn := Nat.div_add_mod n d
  have hr := Nat.mod_lt n hd
  have hlow := div_le_roundHalfEven n d
  have hhigh := roundHalfEven_le_succ n d
  rcases lt_trichotomy k (n / d + 1) with h | h | h
  · have hle : d * k ≤ d * (n / d) := Nat.mul_le_mul_left d (by omega)
    exact iff_of_true (by omega) (by omega)
  · -- the quotient below is odd, so a tie rounds up
    have hprod : d * k = d * (n / d) + d := by rw [h]; ring
    unfold roundHalfEven
    split_ifs <;> omega
  · have hle : d * (n / d + 2) ≤ d * k := Nat.mul_le_mul_left d (by omega)
    have hprod : d * (n / d + 2) = d * (n / d) + 2 * d := by ring
    exact iff_of_false (by omega) (by omega)

/-- What is rounded is at most half a unit above the result. -/
theorem two_mul_le_roundHalfEven (n : ℕ) (hd : 0 < d) :
    2 * n ≤ 2 * (d * roundHalfEven n d) + d := by
  have hn := Nat.div_add_mod n d
  have hrest := Nat.mod_lt n hd
  unfold roundHalfEven
  split_ifs with hlow hhigh
  · omega
  · have hprod : d * (n / d + 1) = d * (n / d) + d := by ring
    omega
  · have hprod : d * (n / d + n / d % 2) = d * (n / d) + d * (n / d % 2) := by ring
    omega

/-! ### The quotient -/

/-- The scale of the dividend, a power of two. -/
def dividendScale (n d : ℕ) : ℕ := 2 ^ (-lastBit n d).toNat

/-- The scale of the divisor, a power of two. -/
def divisorScale (n d : ℕ) : ℕ := 2 ^ (lastBit n d).toNat

/-- The significand of the quotient. -/
def significand (n d : ℕ) : ℕ := roundHalfEven (n * dividendScale n d) (d * divisorScale n d)

theorem trueDiv_eq (hn : n ≠ 0) : trueDiv n d =
    if ((significand n d * divisorScale n d : ℕ) : ℚ) / (dividendScale n d : ℕ) < (2 ^ 1024 : ℕ)
    then some (((significand n d * divisorScale n d : ℕ) : ℚ) / (dividendScale n d : ℕ))
    else none := by
  rw [trueDiv, if_neg hn]
  rfl

theorem dividendScale_pos (n d : ℕ) : 0 < dividendScale n d := Nat.two_pow_pos _

theorem divisorScale_pos (n d : ℕ) : 0 < divisorScale n d := Nat.two_pow_pos _

theorem trueDiv_eq_none (hn : n ≠ 0) : trueDiv n d = none ↔
    2 ^ 1024 * dividendScale n d ≤ significand n d * divisorScale n d := by
  have hpos : (0 : ℚ) < (dividendScale n d : ℕ) := by exact_mod_cast dividendScale_pos n d
  rw [trueDiv_eq hn, ite_eq_right_iff]
  simp only [reduceCtorEq, imp_false, not_lt, le_div_iff₀ hpos]
  exact_mod_cast Iff.rfl

section Binade

variable {e : ℕ}

/-- The binade of a quotient that is at least one. -/
theorem binade (hd : 0 < d) (h : d ≤ n) :
    d * 2 ^ Nat.log 2 (n / d) ≤ n ∧ n < d * 2 ^ (Nat.log 2 (n / d) + 1) := by
  have hdiv : n / d ≠ 0 := (Nat.div_pos h hd).ne'
  have hlow := Nat.pow_log_le_self 2 hdiv
  have hhigh := Nat.lt_pow_succ_log_self one_lt_two (n / d)
  rw [Nat.le_div_iff_mul_le hd] at hlow
  rw [Nat.div_lt_iff_lt_mul hd] at hhigh
  exact ⟨(mul_comm _ _).trans_le hlow, hhigh.trans_eq (mul_comm _ _)⟩

theorem lastBit_of_le (h : d ≤ n) : lastBit n d = (Nat.log 2 (n / d) : ℤ) - 52 := if_pos h

/-- In a binade up to the last but one nothing overflows. -/
theorem trueDiv_ne_none_of_log_lt (hd : 0 < d) (h : d ≤ n) (hlog : Nat.log 2 (n / d) < 1023) :
    trueDiv n d ≠ none := by
  have hhigh := (binade hd h).2
  have hbit := lastBit_of_le h
  rw [Ne, trueDiv_eq_none (by omega), not_le]
  set log := Nat.log 2 (n / d)
  rcases le_total 52 log with hle | hle
  · -- the significand has at most 53 bits
    have hdividend : dividendScale n d = 1 := by
      rw [dividendScale, hbit, show (-((log : ℤ) - 52)).toNat = 0 by omega, pow_zero]
    have hdivisor : divisorScale n d = 2 ^ (log - 52) := by
      rw [divisorScale, hbit, show ((log : ℤ) - 52).toNat = log - 52 by omega]
    have hpow : 2 ^ (log + 1) = 2 ^ (log - 52) * 2 ^ 53 := by rw [← pow_add]; congr 1; omega
    have hsignificand : significand n d ≤ 2 ^ 53 := by
      refine roundHalfEven_le (Nat.mul_pos hd (divisorScale_pos n d)) ?_
      rw [hdividend, hdivisor, mul_one, mul_assoc, ← hpow]
      exact hhigh.le
    calc significand n d * divisorScale n d ≤ 2 ^ 53 * 2 ^ (log - 52) := by
          rw [hdivisor]; exact Nat.mul_le_mul_right _ hsignificand
      _ = 2 ^ (log + 1) := by rw [hpow, mul_comm]
      _ < 2 ^ 1024 := Nat.pow_lt_pow_right one_lt_two (by omega)
      _ = 2 ^ 1024 * dividendScale n d := by simp only [hdividend, mul_one]
  · -- the significand is scaled up, and stays below the next power of two
    have hdividend : dividendScale n d = 2 ^ (52 - log) := by
      rw [dividendScale, hbit, show (-((log : ℤ) - 52)).toNat = 52 - log by omega]
    have hdivisor : divisorScale n d = 1 := by
      rw [divisorScale, hbit, show ((log : ℤ) - 52).toNat = 0 by omega, pow_zero]
    have hsignificand : significand n d ≤ 2 ^ (log + 1) * 2 ^ (52 - log) := by
      refine roundHalfEven_le (Nat.mul_pos hd (divisorScale_pos n d)) ?_
      rw [hdividend, hdivisor, mul_one, ← mul_assoc]
      exact Nat.mul_le_mul_right _ hhigh.le
    calc significand n d * divisorScale n d ≤ 2 ^ (log + 1) * 2 ^ (52 - log) := by
          rw [hdivisor, mul_one]; exact hsignificand
      _ < 2 ^ 1024 * 2 ^ (52 - log) :=
          Nat.mul_lt_mul_of_pos_right (Nat.pow_lt_pow_right one_lt_two (by omega))
            (Nat.two_pow_pos _)
      _ = 2 ^ 1024 * dividendScale n d := by rw [hdividend]

/-- In the last binade a quotient overflows when its significand rounds up to 54 bits. -/
theorem trueDiv_eq_none_of_log_eq (hd : 0 < d) (h : d ≤ n) (hlog : Nat.log 2 (n / d) = 1023) :
    trueDiv n d = none ↔ d * 2 ^ 971 * 2 ^ 53 ≤ n + d * 2 ^ 970 := by
  have hbit : lastBit n d = 971 := by rw [lastBit_of_le h, hlog]; rfl
  have hdividend : dividendScale n d = 1 := by rw [dividendScale, hbit]; rfl
  have hdivisor : divisorScale n d = 2 ^ 971 := by
    rw [divisorScale, hbit, show (971 : ℤ).toNat = 971 from rfl]
  have hhalf : d * 2 ^ 971 = 2 * (d * 2 ^ 970) := by rw [pow_succ]; ring
  have hsplit : 2 ^ 1024 * 1 = 2 ^ 53 * 2 ^ 971 := by rw [mul_one, ← pow_add]
  rw [trueDiv_eq_none (by omega), hdividend, hdivisor, hsplit,
    Nat.mul_le_mul_right_iff (Nat.two_pow_pos 971), significand, hdividend, hdivisor, mul_one,
    le_roundHalfEven_iff (Nat.mul_pos hd (Nat.two_pow_pos 971)) (by decide)]
  generalize d * 2 ^ 971 * 2 ^ 53 = bound
  omega

theorem trueDiv_eq_none_of_lt_log (hd : 0 < d) (h : d ≤ n) (hlog : 1023 < Nat.log 2 (n / d)) :
    trueDiv n d = none := by
  have hlow := (binade hd h).1
  have hbit := lastBit_of_le h
  rw [trueDiv_eq_none (by omega)]
  set log := Nat.log 2 (n / d)
  have hdividend : dividendScale n d = 1 := by
    rw [dividendScale, hbit, show (-((log : ℤ) - 52)).toNat = 0 by omega, pow_zero]
  have hdivisor : divisorScale n d = 2 ^ (log - 52) := by
    rw [divisorScale, hbit, show ((log : ℤ) - 52).toNat = log - 52 by omega]
  have hsignificand : 2 ^ 52 ≤ significand n d := by
    refine le_trans ?_ (div_le_roundHalfEven _ _)
    rw [Nat.le_div_iff_mul_le (Nat.mul_pos hd (divisorScale_pos n d)), hdividend, hdivisor,
      mul_one]
    calc 2 ^ 52 * (d * 2 ^ (log - 52)) = d * 2 ^ (52 + (log - 52)) := by rw [pow_add]; ring
      _ = d * 2 ^ log := by rw [show 52 + (log - 52) = log by omega]
      _ ≤ n := hlow
  calc 2 ^ 1024 * dividendScale n d = 2 ^ 1024 := by rw [hdividend, mul_one]
    _ ≤ 2 ^ log := Nat.pow_le_pow_right two_pos (by omega)
    _ = 2 ^ 52 * 2 ^ (log - 52) := by rw [← pow_add]; congr 1; omega
    _ ≤ significand n d * divisorScale n d := by
        rw [hdivisor]; exact Nat.mul_le_mul_right _ hsignificand

end Binade

theorem trueDiv_ne_none_of_lt (hn : n ≠ 0) (h : n < d) : trueDiv n d ≠ none := by
  have hbit : lastBit n d = -(Nat.clog 2 ((d + n - 1) / n) : ℤ) - 52 := if_neg (not_le.2 h)
  have hdivisor : divisorScale n d = 1 := by
    rw [divisorScale, hbit, Int.toNat_of_nonpos (by omega), pow_zero]
  have hsignificand : significand n d ≤ dividendScale n d := by
    refine roundHalfEven_le (Nat.mul_pos (by omega) (divisorScale_pos n d)) ?_
    rw [hdivisor, mul_one]
    exact Nat.mul_le_mul_right _ h.le
  rw [Ne, trueDiv_eq_none hn, hdivisor, mul_one, not_le]
  have hone : 1 < 2 ^ 1024 := one_lt_pow₀ one_lt_two (by decide)
  exact hsignificand.trans_lt (lt_mul_of_one_lt_left (dividendScale_pos n d) hone)

theorem two_pow_le_overflow : 2 ^ 1023 ≤ 2 ^ 1024 - 2 ^ 970 := by
  have hhalf : 2 ^ 1024 = 2 ^ 1023 + 2 ^ 1023 := by rw [pow_succ, mul_two]
  have hle : 2 ^ 970 ≤ 2 ^ 1023 := pow_le_pow_right₀ one_le_two (by decide)
  rw [hhalf]
  exact Nat.le_sub_of_add_le (add_le_add_right hle _)

/-- **When a quotient overflows**: from half a unit in the last place below `2 ^ 1024` on. -/
theorem trueDiv_eq_none_iff (hd : 0 < d) :
    trueDiv n d = none ↔ d * (2 ^ 1024 - 2 ^ 970) ≤ n := by
  have hpow := two_pow_le_overflow
  have hunits : d * (2 ^ 1024 - 2 ^ 970) + d * 2 ^ 970 = d * 2 ^ 971 * 2 ^ 53 := by
    have hle : (2 : ℕ) ^ 970 ≤ 2 ^ 1024 := pow_le_pow_right₀ one_le_two (by decide)
    have hsplit : (2 : ℕ) ^ 1024 = 2 ^ 971 * 2 ^ 53 := pow_add 2 971 53
    rw [← mul_add, Nat.sub_add_cancel hle, hsplit, mul_assoc]
  by_cases hn : n = 0
  · subst hn
    have hpos := Nat.mul_pos hd ((Nat.two_pow_pos 1023).trans_le hpow)
    exact iff_of_false (by simp [trueDiv]) (not_le.2 hpos)
  rcases lt_or_ge n d with h | h
  · refine iff_of_false (trueDiv_ne_none_of_lt hn h) (not_le.2 (h.trans_le ?_))
    exact Nat.le_mul_of_pos_right d ((Nat.two_pow_pos 1023).trans_le hpow)
  obtain ⟨hlow, hhigh⟩ := binade hd h
  rcases lt_trichotomy (Nat.log 2 (n / d)) 1023 with hlog | hlog | hlog
  · refine iff_of_false (trueDiv_ne_none_of_log_lt hd h hlog) (not_le.2 (hhigh.trans_le ?_))
    exact Nat.mul_le_mul_left d ((Nat.pow_le_pow_right two_pos hlog).trans hpow)
  · rw [trueDiv_eq_none_of_log_eq hd h hlog, ← hunits]
    exact Nat.add_le_add_iff_right
  · have hle : (2 : ℕ) ^ 1024 ≤ 2 ^ Nat.log 2 (n / d) := pow_le_pow_right₀ one_le_two hlog
    refine iff_of_true (trueDiv_eq_none_of_lt_log hd h hlog) (le_trans ?_ hlow)
    exact Nat.mul_le_mul_left d ((Nat.sub_le _ _).trans hle)

/-- **A quotient of positive ints is positive**: its significand has 53 bits at least. -/
theorem trueDiv_pos {q : ℚ} (hn : n ≠ 0) (hd : 0 < d) (h : trueDiv n d = some q) : 0 < q := by
  have hle : d * divisorScale n d ≤ n * dividendScale n d := by
    unfold divisorScale dividendScale
    rcases lt_or_ge n d with hlt | hge
    · have hbit : lastBit n d = -(Nat.clog 2 ((d + n - 1) / n) : ℤ) - 52 := if_neg (not_le.2 hlt)
      set up := (d + n - 1) / n
      -- below one the scale comes from the inverse quotient, rounded up
      have hup : d ≤ n * up := by
        have hmod : n * up + (d + n - 1) % n = d + n - 1 := Nat.div_add_mod (d + n - 1) n
        have hrest := Nat.mod_lt (d + n - 1) (Nat.pos_of_ne_zero hn)
        omega
      have hclog : up ≤ 2 ^ Nat.clog 2 up := Nat.le_pow_clog one_lt_two up
      rw [hbit, Int.toNat_of_nonpos (by omega), pow_zero, mul_one,
        show (-(-(Nat.clog 2 up : ℤ) - 52)).toNat = Nat.clog 2 up + 52 by omega]
      calc d ≤ n * up := hup
        _ ≤ n * 2 ^ Nat.clog 2 up := Nat.mul_le_mul_left n hclog
        _ ≤ n * 2 ^ (Nat.clog 2 up + 52) :=
            Nat.mul_le_mul_left n (Nat.pow_le_pow_right two_pos (by omega))
    · have hlow := (binade hd hge).1
      rw [lastBit_of_le hge]
      set log := Nat.log 2 (n / d)
      calc d * 2 ^ ((log : ℤ) - 52).toNat ≤ d * 2 ^ log :=
            Nat.mul_le_mul_left d (Nat.pow_le_pow_right two_pos (by omega))
        _ ≤ n := hlow
        _ ≤ n * 2 ^ (-((log : ℤ) - 52)).toNat := Nat.le_mul_of_pos_right n (Nat.two_pow_pos _)
  have hsignificand : 0 < significand n d :=
    (Nat.div_pos hle (Nat.mul_pos hd (divisorScale_pos n d))).trans_le (div_le_roundHalfEven _ _)
  rw [trueDiv_eq hn] at h
  split_ifs at h
  obtain rfl := Option.some.inj h
  have hnumerator := Nat.mul_pos hsignificand (divisorScale_pos n d)
  exact div_pos (by exact_mod_cast hnumerator) (by exact_mod_cast dividendScale_pos n d)

/-- **Rounding a quotient up gives the exact result** where the doubles are finer than the fractions
of the divisor. -/
theorem ceil_trueDiv {q : ℚ} (hn : n ≠ 0) (hd : 0 < d) (hbit : lastBit n d ≤ 0)
    (hscale : d < 2 * dividendScale n d) (h : trueDiv n d = some q) :
    ⌈q⌉ = ((n + d - 1) / d : ℕ) := by
  have hdivisor : divisorScale n d = 1 := by
    rw [divisorScale, Int.toNat_of_nonpos hbit, pow_zero]
  rw [trueDiv_eq hn] at h
  split_ifs at h
  obtain rfl := Option.some.inj h
  have hsig : significand n d = roundHalfEven (n * dividendScale n d) d := by
    rw [significand, hdivisor, mul_one]
  set scale := dividendScale n d
  have hpos : (0 : ℚ) < scale := by exact_mod_cast dividendScale_pos n d
  set up := (n + d - 1) / d
  have hup : n ≤ d * up ∧ d * up < n + d := by
    have hmod : d * up + (n + d - 1) % d = n + d - 1 := Nat.div_add_mod (n + d - 1) d
    have hrest := Nat.mod_lt (n + d - 1) hd
    omega
  -- the rounded quotient is at most the ceiling, and above the ceiling less one
  have hle : significand n d ≤ up * scale := by
    rw [hsig]
    refine roundHalfEven_le hd ?_
    rw [← mul_assoc]
    exact Nat.mul_le_mul_right scale hup.1
  have hlt : up * scale < significand n d + scale := by
    have hhalf := two_mul_le_roundHalfEven (n * scale) hd
    rw [← hsig] at hhalf
    have hcover : (d * up + 1) * scale ≤ (n + d) * scale := Nat.mul_le_mul_right scale hup.2
    refine lt_of_mul_lt_mul_left ?_ d.zero_le
    nlinarith
  rw [Int.ceil_eq_iff, hdivisor, mul_one, lt_div_iff₀ hpos, div_le_iff₀ hpos, sub_mul, one_mul,
    sub_lt_iff_lt_add]
  constructor
  · exact_mod_cast hlt
  · exact_mod_cast hle

end FirecrawlLb.Python
