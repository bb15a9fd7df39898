import Mathlib.Tactic.IntervalCases
import Mathlib.Tactic.Ring
import Unfurl.Json.Reader

namespace Unfurl.Numeral

/-! ### Single digits -/

theorem isDigit_digitChar {d : Nat} (small : d < 10) : Json.isDigit (digitChar d) = true := by
  interval_cases d <;> decide

theorem toNat_digitChar {d : Nat} (small : d < 10) : (digitChar d).toNat - 48 = d := by
  interval_cases d <;> decide

theorem digitChar_ne_zero {d : Nat} (small : d < 10) (positive : d ≠ 0) : digitChar d ≠ '0' := by
  interval_cases d
  · exact absurd rfl positive
  all_goals decide

/-! ### Values of runs -/

theorem value_foldl (n : Nat) (ds : Text) :
    ds.foldl (fun n c => 10 * n + (c.toNat - 48)) n = n * 10 ^ ds.length + value ds := by
  induction ds generalizing n with
  | nil => simp [value]
  | cons c rest ih =>
    have here := ih (10 * n + (c.toNat - 48))
    have fresh := ih (10 * 0 + (c.toNat - 48))
    rw [value, List.foldl_cons, List.foldl_cons, List.length_cons, here, fresh]
    ring

theorem value_append (xs ys : Text) : value (xs ++ ys) = value xs * 10 ^ ys.length + value ys := by
  rw [value, List.foldl_append, value_foldl]
  rfl

theorem value_zeros (n : Nat) : value (List.replicate n '0') = 0 := by
  induction n with
  | zero => rfl
  | succ n ih => rw [List.replicate_succ', value_append, ih]; rfl

/-! ### Digits of a number -/

theorem digitsOnto_eq (n : Nat) (tail : Text) : digitsOnto n tail = digits n ++ tail := by
  rw [digits]
  induction n using Nat.strongRecOn generalizing tail with
  | _ n ih =>
    unfold digitsOnto
    split
    · rfl
    · have smaller : n / 10 < n := by omega
      rw [ih _ smaller, ih _ smaller [digitChar (n % 10)], List.append_assoc]
      rfl

theorem digits_of_lt {n : Nat} (small : n < 10) : digits n = [digitChar n] := by
  rw [digits, digitsOnto, if_pos small]

theorem digits_step {n : Nat} (large : ¬n < 10) :
    digits n = digits (n / 10) ++ [digitChar (n % 10)] := by
  rw [digits, digitsOnto, if_neg large, digitsOnto_eq]

theorem value_digits (n : Nat) : value (digits n) = n := by
  induction n using Nat.strongRecOn with
  | _ n ih =>
    by_cases small : n < 10
    · have here := toNat_digitChar small
      simp only [digits_of_lt small, value, List.foldl_cons, List.foldl_nil]
      omega
    · have last := toNat_digitChar (Nat.mod_lt n (by omega : 0 < 10))
      rw [digits_step small, value_append, ih _ (by omega)]
      simp only [value, List.foldl_cons, List.foldl_nil, List.length_singleton]
      omega

theorem isDigit_of_mem_digits {n : Nat} {c : CodePoint} (mem : c ∈ digits n) : Json.isDigit c = true := by
  induction n using Nat.strongRecOn with
  | _ n ih =>
    by_cases small : n < 10
    · rw [digits_of_lt small, List.mem_singleton] at mem
      exact mem ▸ isDigit_digitChar small
    · rw [digits_step small, List.mem_append, List.mem_singleton] at mem
      obtain higher | rfl := mem
      · exact ih _ (by omega) higher
      · exact isDigit_digitChar (by omega)

/-- The first digit of a number, which is a zero only where the number is. -/
theorem digits_eq_cons (n : Nat) :
    ∃ c rest, digits n = c :: rest ∧ Json.isDigit c = true ∧ (c = '0' → n = 0 ∧ rest = []) := by
  induction n using Nat.strongRecOn with
  | _ n ih =>
    by_cases small : n < 10
    · refine ⟨_, [], digits_of_lt small, isDigit_digitChar small, fun zero => ⟨?_, rfl⟩⟩
      by_contra positive
      exact digitChar_ne_zero small positive zero
    · obtain ⟨c, rest, higher, digit, leading⟩ := ih (n / 10) (by omega)
      refine ⟨c, rest ++ [digitChar (n % 10)], by rw [digits_step small, higher]; rfl, digit, ?_⟩
      intro zero
      have := (leading zero).1
      omega

theorem length_digits_pos (n : Nat) : 0 < (digits n).length := by
  obtain ⟨c, rest, cons, -, -⟩ := digits_eq_cons n
  rw [cons]
  exact Nat.succ_pos _

theorem length_digits_le {n k : Nat} (positive : 0 < k) (below : n < 10 ^ k) :
    (digits n).length ≤ k := by
  induction k generalizing n with
  | zero => omega
  | succ k ih =>
    by_cases small : n < 10
    · rw [digits_of_lt small, List.length_singleton]
      omega
    · have deeper : 0 < k := by
        by_contra zero
        obtain rfl : k = 0 := by omega
        omega
      have higher : n / 10 < 10 ^ k := by
        rw [pow_succ] at below
        omega
      have fewer := ih deeper higher
      rw [digits_step small, List.length_append, List.length_singleton]
      omega

/-- A number that can be written as an integer is read as one. -/
theorem read_digits {n : Nat} (short : n < bound) : read (digits n) = .ok n := by
  have few : (digits n).length ≤ maxDigits := length_digits_le (by decide) short
  rw [read, if_pos few, value_digits]

end Unfurl.Numeral
