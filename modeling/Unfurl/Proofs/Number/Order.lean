import Mathlib.Algebra.Order.Field.Power
import Mathlib.Algebra.Order.Field.Rat
import Mathlib.Algebra.Order.Monoid.Unbundled.WithTop
import Mathlib.Tactic.Positivity
import Mathlib.Tactic.Ring
import Unfurl.Term.Equality

namespace Unfurl

namespace Extended

/-- The place of a denotation among the rationals and the two infinities. -/
def point : Extended → WithBot (WithTop ℚ)
  | .negInfinity => ⊥
  | .dyadic n q => ((n * 2 ^ q : ℚ) : WithTop ℚ)
  | .posInfinity => (⊤ : WithTop ℚ)

/-- A dyadic rational over a lesser exponent. -/
theorem dyadic_rescale (n : ℤ) {e q : ℤ} (le : e ≤ q) :
    (n * 2 ^ q : ℚ) = ((n * 2 ^ (q - e).toNat : ℤ) : ℚ) * 2 ^ e := by
  have power : (2 : ℚ) ^ q = 2 ^ (q - e).toNat * 2 ^ e := by
    rw [← zpow_natCast, ← zpow_add₀ two_ne_zero]
    congr 1
    omega
  rw [power]
  push_cast
  ring

theorem dyadic_le_iff (a b p q : ℤ) :
    (dyadic a p).le (dyadic b q) = true ↔ (a * 2 ^ p : ℚ) ≤ b * 2 ^ q := by
  have positive : (0 : ℚ) < 2 ^ min p q := by positivity
  rw [dyadic_rescale a (min_le_left p q), dyadic_rescale b (min_le_right p q),
    mul_le_mul_iff_left₀ positive, Int.cast_le]
  exact decide_eq_true_iff

theorem le_iff (a b : Extended) : a.le b = true ↔ a.point ≤ b.point := by
  cases a with
  | negInfinity => simp [le, point]
  | posInfinity =>
    cases b with
    | negInfinity | posInfinity => simp [le, point]
    | dyadic m q =>
      rw [point, point]
      generalize (m * 2 ^ q : ℚ) = x
      simp [le]
  | dyadic n p =>
    cases b with
    | negInfinity =>
      rw [point, point]
      generalize (n * 2 ^ p : ℚ) = x
      simp [le]
    | posInfinity => simp [le, point]
    | dyadic m q =>
      rw [dyadic_le_iff, point, point]
      exact (WithBot.coe_le_coe.trans WithTop.coe_le_coe).symm

theorem eq_iff (a b : Extended) : a.eq b = true ↔ a.point = b.point := by
  rw [eq, Bool.and_eq_true, le_iff, le_iff]
  exact le_antisymm_iff.symm

theorem eq_comm (a b : Extended) : a.eq b = b.eq a := by
  rw [Bool.eq_iff_iff, eq_iff, eq_iff]
  exact ⟨Eq.symm, Eq.symm⟩

end Extended

end Unfurl
