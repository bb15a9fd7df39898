import Mathlib.Algebra.Order.Field.Power
import Mathlib.Algebra.Order.Field.Rat
import Mathlib.Tactic.FieldSimp
import Mathlib.Tactic.Linarith
import Mathlib.Tactic.NormNum
import Mathlib.Tactic.Positivity
import Mathlib.Tactic.Ring
import Unfurl.Number.Shortest

/-! Every rational near to a number of the format is rounded to it, as a ratio and as a decimal. -/

namespace Unfurl.Binary64

/-! ### Powers with a sign -/

/-- A power with a signed exponent is the quotient of the two powers of which one is trivial. -/
theorem zpow_eq_div {b : ℕ} (positive : 0 < b) (e : ℤ) :
    (b : ℚ) ^ e = ((b ^ e.toNat : ℕ) : ℚ) / ((b ^ (-e).toNat : ℕ) : ℚ) := by
  have nonzero : (b : ℚ) ≠ 0 := by positivity
  push_cast
  rw [← zpow_natCast, ← zpow_natCast, ← zpow_sub₀ nonzero]
  congr 1
  omega

theorem div_two_zpow (num den : ℕ) (e : ℤ) :
    ((num * 2 ^ (-e).toNat : ℕ) : ℚ) / ((den * 2 ^ e.toNat : ℕ) : ℚ) = (num / den : ℚ) / 2 ^ e := by
  have power := zpow_eq_div (by decide : 0 < 2) e
  rw [Nat.cast_ofNat] at power
  rw [power]
  push_cast
  field_simp

/-! ### Integers -/

/-- The rounded quotient is the integer within a half of it, or at a half the even one. -/
theorem roundQuotient_eq {num den m : ℕ} (positive : 0 < den) (low : (m : ℚ) - 1 / 2 ≤ num / den)
    (high : (num / den : ℚ) ≤ m + 1 / 2)
    (odd : m % 2 = 1 → (m : ℚ) - 1 / 2 < num / den ∧ (num / den : ℚ) < m + 1 / 2) :
    roundQuotient num den = m := by
  have den_pos : (0 : ℚ) < den := by exact_mod_cast positive
  have low' : 2 * m * den ≤ 2 * num + den := by
    rw [le_div_iff₀ den_pos] at low
    have : (2 * m * den : ℚ) ≤ 2 * num + den := by linarith
    exact_mod_cast this
  have high' : 2 * num ≤ 2 * m * den + den := by
    rw [div_le_iff₀ den_pos] at high
    have : (2 * num : ℚ) ≤ 2 * m * den + den := by linarith
    exact_mod_cast this
  have odd' : m % 2 = 1 → 2 * m * den < 2 * num + den ∧ 2 * num < 2 * m * den + den := by
    intro isOdd
    obtain ⟨above, under⟩ := odd isOdd
    rw [lt_div_iff₀ den_pos] at above
    rw [div_lt_iff₀ den_pos] at under
    have above' : (2 * m * den : ℚ) < 2 * num + den := by linarith
    have under' : (2 * num : ℚ) < 2 * m * den + den := by linarith
    exact ⟨by exact_mod_cast above', by exact_mod_cast under'⟩
  have split := Nat.div_add_mod num den
  have small := Nat.mod_lt num positive
  unfold roundQuotient
  generalize num / den = lower at split ⊢
  generalize num % den = rest at split small ⊢
  have above : lower ≤ m := by
    by_contra beyond
    have : (m + 1) * den ≤ lower * den := Nat.mul_le_mul_right den (by omega)
    nlinarith
  have under : m ≤ lower + 1 := by
    by_contra beyond
    have : (lower + 2) * den ≤ m * den := Nat.mul_le_mul_right den (by omega)
    nlinarith
  obtain rfl | rfl : m = lower ∨ m = lower + 1 := by omega
  · have bounds : 2 * rest ≤ den := by nlinarith
    have tie : m % 2 = 1 → 2 * rest < den := fun isOdd => by
      have := (odd' isOdd).2
      nlinarith
    grind
  · have bounds : den ≤ 2 * rest := by nlinarith
    have tie : (lower + 1) % 2 = 1 → den < 2 * rest := fun isOdd => by
      have := (odd' isOdd).1
      nlinarith
    grind

/-! ### The exponent of a ratio -/

/-- At the exponent `e` the number `x` has 53 bits before the point, or fewer at the least exponent. -/
structure Scaled (e : ℤ) (x : ℚ) : Prop where
  least : -1074 ≤ e
  below : x / 2 ^ e < 2 ^ 53
  full : 2 ^ 52 ≤ x / 2 ^ e ∨ e = -1074

theorem two_zpow_log2_le {n : ℕ} (positive : 0 < n) : (2 : ℚ) ^ (n.log2 : ℤ) ≤ n := by
  rw [zpow_natCast]
  exact_mod_cast Nat.log2_self_le positive.ne'

theorem lt_two_zpow_log2 (n : ℕ) : (n : ℚ) < 2 ^ ((n.log2 : ℤ) + 1) := by
  have : n < 2 ^ (n.log2 + 1) := Nat.lt_log2_self
  exact_mod_cast this

/-- The binary logarithms of its parts tell a ratio up to a factor of two either way. -/
theorem ratio_bounds {num den : ℕ} (num_pos : 0 < num) (den_pos : 0 < den) :
    (2 : ℚ) ^ ((num.log2 : ℤ) - den.log2 - 1) ≤ num / den ∧
      (num / den : ℚ) < 2 ^ ((num.log2 : ℤ) - den.log2 + 1) := by
  have den_pos' : (0 : ℚ) < den := by exact_mod_cast den_pos
  have numLow := two_zpow_log2_le num_pos
  have numHigh := lt_two_zpow_log2 num
  have denLow := two_zpow_log2_le den_pos
  have denHigh := lt_two_zpow_log2 den
  constructor
  · rw [le_div_iff₀ den_pos']
    calc (2 : ℚ) ^ ((num.log2 : ℤ) - den.log2 - 1) * den
        ≤ 2 ^ ((num.log2 : ℤ) - den.log2 - 1) * 2 ^ ((den.log2 : ℤ) + 1) := by gcongr
      _ = 2 ^ (num.log2 : ℤ) := by rw [← zpow_add₀ two_ne_zero]; congr 1; omega
      _ ≤ num := numLow
  · rw [div_lt_iff₀ den_pos']
    calc (num : ℚ) < 2 ^ ((num.log2 : ℤ) + 1) := numHigh
      _ = 2 ^ ((num.log2 : ℤ) - den.log2 + 1) * 2 ^ (den.log2 : ℤ) := by
        rw [← zpow_add₀ two_ne_zero]; congr 1; omega
      _ ≤ 2 ^ ((num.log2 : ℤ) - den.log2 + 1) * den := by gcongr

/-- A quotient of naturals lies below a natural exactly when their rational quotient does. -/
theorem natDiv_lt_iff {num den : ℕ} (positive : 0 < den) (n : ℕ) :
    num / den < n ↔ (num / den : ℚ) < n := by
  have den_pos : (0 : ℚ) < den := by exact_mod_cast positive
  rw [Nat.div_lt_iff_lt_mul positive, div_lt_iff₀ den_pos]
  exact_mod_cast Iff.rfl

theorem exponentOf_scaled {num den : ℕ} (num_pos : 0 < num) (den_pos : 0 < den) :
    Scaled (exponentOf num den) (num / den) := by
  obtain ⟨low, high⟩ := ratio_bounds num_pos den_pos
  unfold exponentOf
  generalize (num.log2 : ℤ) - den.log2 = t at low high ⊢
  dsimp only
  generalize chosen : max (t - 52) (-1074) = e
  have test : num * 2 ^ (-e).toNat / (den * 2 ^ e.toNat) < 2 ^ 52 ↔
      (num / den : ℚ) / 2 ^ e < 2 ^ 52 := by
    rw [natDiv_lt_iff (by positivity), div_two_zpow]
    norm_num
  have below : (num / den : ℚ) / 2 ^ e < 2 ^ 53 := by
    rw [div_lt_iff₀ (by positivity)]
    calc (num / den : ℚ) < 2 ^ (t + 1) := high
      _ ≤ 2 ^ (53 + e) := zpow_le_zpow_right₀ (by norm_num) (by omega)
      _ = 2 ^ 53 * 2 ^ e := by rw [zpow_add₀ two_ne_zero]; norm_num
  by_cases short : -1074 < e ∧ num * 2 ^ (-e).toNat / (den * 2 ^ e.toNat) < 2 ^ 52
  · rw [if_pos short]
    have halved : (num / den : ℚ) / 2 ^ (e - 1) = 2 * ((num / den : ℚ) / 2 ^ e) := by
      rw [zpow_sub_one₀ two_ne_zero]
      field_simp
    refine ⟨by omega, ?_, Or.inl ?_⟩
    · rw [halved]
      linarith [test.mp short.2]
    · rw [le_div_iff₀ (by positivity)]
      calc (2 : ℚ) ^ 52 * 2 ^ (e - 1) = 2 ^ (52 + (e - 1)) := by rw [zpow_add₀ two_ne_zero]; norm_num
        _ ≤ 2 ^ (t - 1) := zpow_le_zpow_right₀ (by norm_num) (by omega)
        _ ≤ num / den := low
  · rw [if_neg short]
    refine ⟨by omega, below, ?_⟩
    by_cases least : e = -1074
    · exact Or.inr least
    · have enough := fun small => short ⟨by omega, test.mpr small⟩
      exact Or.inl (not_lt.mp enough)

/-! ### The numbers that round to a given one -/

/-- Half the distance from `m * 2 ^ q` to its lower neighbour, in units of `2 ^ q`. The neighbour of a
power of two is half as far as the others. -/
def halfGap (m : ℕ) (q : ℤ) : ℚ := if m = 2 ^ 52 ∧ -1074 < q then 1 / 4 else 1 / 2

/-- The number `x` lies in the interval of the reals that round to `m * 2 ^ q`, whose ends belong to it
when `m` is even. -/
structure Near (m : ℕ) (q : ℤ) (x : ℚ) : Prop where
  low : m - halfGap m q ≤ x / 2 ^ q
  high : x / 2 ^ q ≤ m + 1 / 2
  odd : m % 2 = 1 → m - halfGap m q < x / 2 ^ q ∧ x / 2 ^ q < m + 1 / 2

theorem halfGap_le (m : ℕ) (q : ℤ) : halfGap m q ≤ 1 / 2 := by
  unfold halfGap
  split <;> norm_num

theorem div_zpow_sub (x : ℚ) (e k : ℤ) : x / 2 ^ (e - k) = x / 2 ^ e * 2 ^ k := by
  rw [zpow_sub₀ two_ne_zero]
  field_simp

theorem le_two_zpow {k n : ℤ} (le : k ≤ n) : (2 : ℚ) ^ k ≤ 2 ^ n :=
  zpow_le_zpow_right₀ (by norm_num) le

/-- A number is scaled as the number it rounds to, or falls short of a power of two to which it rounds. -/
theorem Near.exponent {m : ℕ} {q e : ℤ} {x : ℚ} (near : Near m q x) (canonical : Canonical m q)
    (scaled : Scaled e x) : e = q ∨ m = 2 ^ 52 ∧ -1074 < q ∧ e = q - 1 := by
  obtain ⟨bits, least, -, normal⟩ := canonical
  have low := near.low
  have high := near.high
  rcases lt_trichotomy e q with less | same | more
  · have normal' : 2 ^ 52 ≤ m := by
      have := scaled.least
      omega
    have below := scaled.below
    rw [show e = q - (q - e) by omega, div_zpow_sub] at below
    have gap := halfGap_le m q
    have positive : 0 ≤ x / 2 ^ q := by
      have : (2 ^ 52 : ℚ) ≤ m := by exact_mod_cast normal'
      linarith
    have power : m = 2 ^ 52 := by
      by_contra other
      have : (2 ^ 52 + 1 : ℚ) ≤ m := by exact_mod_cast (by omega : 2 ^ 52 + 1 ≤ m)
      have twice := mul_le_mul_of_nonneg_left (le_two_zpow (by omega : 1 ≤ q - e)) positive
      rw [zpow_one] at twice
      linarith
    have above : -1074 < q := lt_of_le_of_lt scaled.least less
    refine Or.inr ⟨power, above, ?_⟩
    by_contra farther
    have fourfold := mul_le_mul_of_nonneg_left (le_two_zpow (by omega : 2 ≤ q - e)) positive
    have near' : (2 : ℚ) ^ 52 - 1 / 4 ≤ x / 2 ^ q := by
      rw [halfGap, if_pos ⟨power, above⟩, power] at low
      exact_mod_cast low
    norm_num at fourfold
    linarith
  · exact Or.inl same
  · obtain full | lowest := scaled.full
    · have bits' : (m + 1 : ℚ) ≤ 2 ^ 53 := by exact_mod_cast bits
      have twice := mul_le_mul_of_nonneg_left (le_two_zpow (by omega : 1 ≤ e - q))
        (le_trans (by norm_num) full)
      rw [← div_zpow_sub x e (e - q), sub_sub_cancel, zpow_one] at twice
      linarith
    · omega

/-- The ratio `num / den` is rounded to each number it is near to. -/
theorem ofRatio_of_near {m num den : ℕ} {q : ℤ} (negative : Bool) (canonical : Canonical m q)
    (num_pos : 0 < num) (den_pos : 0 < den) (near : Near m q (num / den)) :
    ofRatio negative num den = .finite negative m q canonical := by
  have scaled := exponentOf_scaled num_pos den_pos
  unfold ofRatio
  rw [if_neg num_pos.ne']
  generalize exponentOf num den = e at scaled
  dsimp only
  have den_pos' : 0 < den * 2 ^ e.toNat := by positivity
  obtain rfl | ⟨rfl, above, rfl⟩ := near.exponent canonical scaled
  · have gap := halfGap_le m e
    have rounded : roundQuotient (num * 2 ^ (-e).toNat) (den * 2 ^ e.toNat) = m := by
      apply roundQuotient_eq den_pos' <;> rw [div_two_zpow]
      · linarith [near.low]
      · exact near.high
      · intro isOdd
        obtain ⟨low, high⟩ := near.odd isOdd
        exact ⟨by linarith, high⟩
    rw [rounded, if_neg (by have := canonical.1; omega), ofParts, dif_pos canonical]
  · have rounded : roundQuotient (num * 2 ^ (-(q - 1)).toNat) (den * 2 ^ (q - 1).toNat) = 2 ^ 53 := by
      have low := near.low
      have below := scaled.below
      rw [halfGap, if_pos ⟨rfl, above⟩] at low
      rw [div_zpow_sub] at below
      apply roundQuotient_eq den_pos' <;> rw [div_two_zpow, div_zpow_sub]
      · push_cast at low ⊢
        linarith
      · push_cast
        linarith
      · omega
    rw [rounded, if_pos rfl, sub_add_cancel, ofParts, dif_pos canonical]

/-! ### Decimals -/

/-- What rounds to a positive number is neither below half the least one nor beyond the format. -/
theorem Near.bounds {m : ℕ} {q : ℤ} {x : ℚ} (near : Near m q x) (canonical : Canonical m q)
    (positive : 0 < m) : 2 ^ (-1075 : ℤ) ≤ x ∧ x < 2 ^ (1024 : ℤ) := by
  obtain ⟨bits, least, top, -⟩ := canonical
  have bits' : (m + 1 : ℚ) ≤ 2 ^ 53 := by exact_mod_cast bits
  have positive' : (1 : ℚ) ≤ m := by exact_mod_cast positive
  have low : 2 ^ (-1 : ℤ) ≤ x / 2 ^ q := by
    norm_num
    linarith [near.low, halfGap_le m q]
  have high : x / 2 ^ q < 2 ^ (53 : ℤ) := by
    norm_num
    linarith [near.high]
  rw [le_div_iff₀ (by positivity), ← zpow_add₀ two_ne_zero] at low
  rw [div_lt_iff₀ (by positivity), ← zpow_add₀ two_ne_zero] at high
  exact ⟨(le_two_zpow (by omega)).trans low, high.trans_le (le_two_zpow (by omega))⟩

theorem Near.digits_pos {m digits : ℕ} {q e : ℤ} (near : Near m q (digits * 10 ^ e))
    (positive : 0 < m) : 0 < digits := by
  by_contra zero
  obtain rfl : digits = 0 := by omega
  have low := near.low
  have positive' : (1 : ℚ) ≤ m := by exact_mod_cast positive
  rw [Nat.cast_zero, zero_mul, zero_div] at low
  linarith [halfGap_le m q]

/-- The decimal `digits * 10 ^ e` is rounded to each number it is near to: such a decimal is neither so
large nor so small that its exponent alone decides. -/
theorem ofDecimal_of_near {m digits : ℕ} {q e : ℤ} (negative : Bool) (canonical : Canonical m q)
    (positive : 0 < m) (near : Near m q (digits * 10 ^ e)) :
    ofDecimal negative digits e = .finite negative m q canonical := by
  obtain ⟨low, high⟩ := near.bounds canonical positive
  have digits_pos := near.digits_pos positive
  have notLarge : ¬400 ≤ e := by
    intro large
    have digits_pos' : (1 : ℚ) ≤ digits := by exact_mod_cast digits_pos
    have beyond : (2 : ℚ) ^ (1024 : ℤ) ≤ digits * 10 ^ e := by
      calc (2 : ℚ) ^ (1024 : ℤ) ≤ 2 ^ (3 * 400 : ℤ) := le_two_zpow (by norm_num)
        _ = (2 ^ (3 : ℤ)) ^ (400 : ℤ) := zpow_mul _ _ _
        _ ≤ 10 ^ (400 : ℤ) := zpow_le_zpow_left₀ (by norm_num) (by norm_num) (by norm_num)
        _ ≤ 10 ^ e := zpow_le_zpow_right₀ (by norm_num) large
        _ ≤ digits * 10 ^ e := le_mul_of_one_le_left (by positivity) digits_pos'
    exact absurd high (not_lt.mpr beyond)
  have notSmall : ¬e < -((digits.log2 : ℤ) + 1500) := by
    intro small
    have fifths : (5 : ℚ) ^ e ≤ 5 ^ (0 : ℤ) := zpow_le_zpow_right₀ (by norm_num) (by omega)
    have under : (digits * 10 ^ e : ℚ) < 2 ^ (-1075 : ℤ) := by
      calc (digits * 10 ^ e : ℚ) < 2 ^ ((digits.log2 : ℤ) + 1) * 10 ^ e := by
            gcongr
            exact lt_two_zpow_log2 digits
        _ = 2 ^ ((digits.log2 : ℤ) + 1) * (2 ^ e * 5 ^ e) := by rw [← mul_zpow]; norm_num
        _ ≤ 2 ^ ((digits.log2 : ℤ) + 1) * (2 ^ e * 5 ^ (0 : ℤ)) := by gcongr
        _ = 2 ^ ((digits.log2 : ℤ) + 1 + e) := by rw [zpow_zero, mul_one, ← zpow_add₀ two_ne_zero]
        _ ≤ 2 ^ (-1075 : ℤ) := le_two_zpow (by omega)
    exact absurd low (not_le.mpr under)
  have ratio : ((digits * 10 ^ e.toNat : ℕ) : ℚ) / ((10 ^ (-e).toNat : ℕ) : ℚ) = digits * 10 ^ e := by
    have power := zpow_eq_div (by decide : 0 < 10) e
    rw [Nat.cast_ofNat] at power
    rw [power, Nat.cast_mul, mul_div_assoc]
  rw [ofDecimal, if_neg digits_pos.ne', if_neg notLarge, if_neg notSmall]
  apply ofRatio_of_near negative canonical (by positivity) (by positivity)
  rwa [ratio]

end Unfurl.Binary64
