import Unfurl.Proofs.Number.Rounding

namespace Unfurl.Binary64

def Decimal.toRat (d : Decimal) : ℚ := d.digits * 10 ^ d.exponent

theorem Decimal.strip_toRat (fuel : ℕ) (d : Decimal) : (d.strip fuel).toRat = d.toRat := by
  induction fuel generalizing d with
  | zero => rfl
  | succ fuel ih =>
    rw [Decimal.strip]
    split
    · rename_i trailing
      have tens : d.digits = 10 * (d.digits / 10) := by omega
      rw [ih, Decimal.toRat, Decimal.toRat, zpow_add_one₀ (by norm_num)]
      conv_rhs => rw [tens]
      push_cast
      ring
    · rfl

/-- The test on integers is the one on the numbers they stand for. -/
theorem near_of_readsBack {m d : ℕ} {q e : ℤ} (positive : 0 < m) (back : readsBack m q d e = true) :
    Near m q (d * 10 ^ e) := by
  unfold readsBack at back
  generalize gapDef : (if m = 2 ^ 52 ∧ -1074 < q then 1 else 2) = gap at back
  have gapLe : gap ≤ 2 := by
    rw [← gapDef]
    split <;> omega
  have half : halfGap m q = gap / 4 := by
    rw [← gapDef, halfGap]
    split <;> norm_num
  dsimp only at back
  generalize pointDef : d * 10 ^ e.toNat * 2 ^ (2 - q).toNat = point at back
  generalize quarterDef : 10 ^ (-e).toNat * 2 ^ (q - 2).toNat = quarter at back
  have quarterPos : (0 : ℚ) < quarter := by
    rw [← quarterDef]
    positivity
  have ratio : (point : ℚ) = 4 * (d * 10 ^ e / 2 ^ q) * quarter := by
    have tens := zpow_eq_div (by decide : 0 < 10) e
    have twos := zpow_eq_div (by decide : 0 < 2) (q - 2)
    have scaled : (2 : ℚ) ^ q = 2 ^ (q - 2) * 4 := by
      rw [zpow_sub₀ two_ne_zero]
      norm_num
    rw [neg_sub] at twos
    rw [← pointDef, ← quarterDef, scaled]
    push_cast at tens twos ⊢
    rw [tens, twos]
    field_simp
  have le_point (n : ℕ) : n * quarter ≤ point ↔ (n : ℚ) / 4 ≤ d * 10 ^ e / 2 ^ q := by
    rw [← Nat.cast_le (α := ℚ), Nat.cast_mul, ratio, mul_le_mul_iff_left₀ quarterPos]
    constructor <;> intro h <;> linarith
  have point_le (n : ℕ) : point ≤ n * quarter ↔ d * 10 ^ e / 2 ^ q ≤ (n : ℚ) / 4 := by
    rw [← Nat.cast_le (α := ℚ), Nat.cast_mul, ratio, mul_le_mul_iff_left₀ quarterPos]
    constructor <;> intro h <;> linarith
  have lowEnd : ((4 * m - gap : ℕ) : ℚ) / 4 = m - halfGap m q := by
    rw [half, Nat.cast_sub (by omega)]
    push_cast
    ring
  have highEnd : ((4 * m + 2 : ℕ) : ℚ) / 4 = m + 1 / 2 := by
    push_cast
    ring
  split at back
  · rename_i even
    rw [decide_eq_true_iff, le_point, point_le, lowEnd, highEnd] at back
    exact ⟨back.1, back.2, by omega⟩
  · rw [decide_eq_true_iff, ← not_le, ← not_le, point_le, le_point, lowEnd, highEnd, not_le,
      not_le] at back
    exact ⟨back.1.le, back.2.le, fun _ => back⟩

theorem readsBack_of_nearestOnGrid {m d : ℕ} {q g : ℤ} (found : nearestOnGrid m q g = some d) :
    readsBack m q d g = true := by
  unfold nearestOnGrid at found
  dsimp only at found
  generalize lowerDef : m * 2 ^ q.toNat * 10 ^ (-g).toNat / (2 ^ (-q).toNat * 10 ^ g.toNat) = lower
    at found
  split at found
  · rename_i lowBack highBack
    cases found
    unfold roundQuotient
    dsimp only
    rw [lowerDef]
    split
    · exact lowBack
    · split
      · exact highBack
      · split
        · exact lowBack
        · exact highBack
  · rename_i lowBack _
    cases found
    exact lowBack
  · rename_i _ highBack
    cases found
    exact highBack
  · cases found

theorem near_exact {m : ℕ} {q : ℤ} : Near m q (m * 2 ^ q) := by
  have same : (m * 2 ^ q : ℚ) / 2 ^ q = m := by
    field_simp
  have gap : 0 < halfGap m q := by
    unfold halfGap
    split <;> norm_num
  refine ⟨?_, ?_, fun _ => ⟨?_, ?_⟩⟩ <;> rw [same] <;> linarith

theorem exactDecimal_toRat (m : ℕ) (q : ℤ) : (exactDecimal m q).toRat = m * 2 ^ q := by
  unfold exactDecimal Decimal.toRat
  split
  · rename_i whole
    obtain ⟨n, rfl⟩ := Int.eq_ofNat_of_zero_le whole
    push_cast
    simp
  · rename_i fraction
    obtain ⟨n, rfl⟩ : ∃ n : ℕ, q = -(n : ℤ) := ⟨(-q).toNat, by omega⟩
    have tens : (10 : ℚ) ^ n = 5 ^ n * 2 ^ n := by
      rw [← mul_pow]
      norm_num
    simp only [neg_neg, Int.toNat_natCast, zpow_neg, zpow_natCast]
    push_cast
    rw [tens]
    field_simp

/-- The decimal written for a positive number is among those that round to it. -/
theorem shortest_near {m : ℕ} {q : ℤ} (positive : 0 < m) : Near m q (shortest m q).toRat := by
  unfold shortest
  dsimp only
  split
  · rename_i d found
    rw [Decimal.strip_toRat]
    obtain ⟨n, -, candidate⟩ := List.exists_of_findSome?_eq_some found
    obtain ⟨digits, nearest, rfl⟩ := Option.map_eq_some_iff.mp candidate
    exact near_of_readsBack positive (readsBack_of_nearestOnGrid nearest)
  · rw [exactDecimal_toRat]
    exact near_exact

end Unfurl.Binary64
