import Unfurl.Term.Equality

/-!
A short program can build a list with exponentially many leaves out of few parts, each used more than
once. Comparison therefore stops at parts that are one and the same.
-/

namespace Unfurl

/-! ### Reflexivity -/

theorem Extended.le_refl (a : Extended) : a.le a = true := by
  cases a <;> simp [Extended.le]

theorem Extended.eq_refl (a : Extended) : a.eq a = true := by
  simp [Extended.eq, Extended.le_refl]

theorem Binary64.same_refl (x : Binary64) : x.same x = true := by
  cases x with
  | nan m => simp [Binary64.same]
  | infinite s => cases s <;> simp [Binary64.same, Binary64.extended?, Extended.eq_refl]
  | finite s m q h => simp [Binary64.same, Binary64.extended?, Extended.eq_refl]

namespace Value

mutual

theorem same_refl (strict : Bool) : (v : Value) → v.same strict v = true
  | .nil => by simp [same]
  | .bool _ => by simp [same]
  | .int _ => by simp [same]
  | .float x => by simp [same, Binary64.same_refl]
  | .text _ => by simp [same]
  | .symbol _ => by simp [same]
  | .list xs => by simp only [same]; exact sameItems_refl strict xs
  | .closure _ _ _ _ => by simp [same]
  | .builtin _ _ _ => by simp [same]
  | .unfolding _ _ _ => by simp [same]

theorem sameItems_refl (strict : Bool) : (xs : List Value) → sameItems strict xs xs = true
  | [] => by simp [sameItems]
  | x :: xs => by simp [sameItems, same_refl strict x, sameItems_refl strict xs]

end

theorem coincidesAtom_refl (v : Value) (atom : ∀ xs, v ≠ .list xs) : v.coincidesAtom v = true := by
  cases v with
  | list xs => exact absurd rfl (atom xs)
  | float x =>
    cases x with
    | nan m => simp [coincidesAtom]
    | infinite s => cases s <;> simp [coincidesAtom, numeric?, Binary64.extended?, Extended.eq_refl]
    | finite s m q h => simp [coincidesAtom, numeric?, Binary64.extended?, Extended.eq_refl]
  | _ => simp [coincidesAtom, numeric?, Extended.eq_refl]

mutual

theorem coincides_refl : (v : Value) → v.coincides v = true
  | .list xs => by simp only [coincides]; exact coincidesItems_refl xs
  | .nil => by simp [coincides, coincidesAtom_refl]
  | .bool _ => by simp [coincides, coincidesAtom_refl]
  | .int _ => by simp [coincides, coincidesAtom_refl]
  | .float _ => by simp [coincides, coincidesAtom_refl]
  | .text _ => by simp [coincides, coincidesAtom_refl]
  | .symbol _ => by simp [coincides, coincidesAtom_refl]
  | .closure _ _ _ _ => by simp [coincides, coincidesAtom_refl]
  | .builtin _ _ _ => by simp [coincides, coincidesAtom_refl]
  | .unfolding _ _ _ => by simp [coincides, coincidesAtom_refl]

theorem coincidesItems_refl : (xs : List Value) → coincidesItems xs xs = true
  | [] => by simp [coincidesItems]
  | x :: xs => by simp [coincidesItems, coincides_refl x, coincidesItems_refl xs]

end

/-! ### Comparison -/

theorem length_eq_of_sameItems {strict : Bool} {xs ys : List Value}
    (h : sameItems strict xs ys = true) : xs.length = ys.length := by
  induction xs generalizing ys with
  | nil => cases ys <;> simp_all [sameItems]
  | cons x xs ih =>
    cases ys with
    | nil => simp [sameItems] at h
    | cons y ys =>
      simp only [sameItems, Bool.and_eq_true] at h
      simp [ih h.2]

mutual

/-- `same`, which looks no further into two values that are one. -/
def sharedSame (strict : Bool) (a b : Value) : { r : Bool // r = a.same strict b } :=
  let parts : Unit → { r : Bool // r = a.same strict b } := fun _ =>
    match a, b with
    | .list xs, .list ys =>
      if h : xs.length = ys.length then
        ⟨(sharedSameItems strict xs ys).1, by simp [same, (sharedSameItems strict xs ys).2]⟩
      else
        ⟨false, by
          simp only [same, Bool.false_eq, Bool.eq_false_iff]
          exact fun items => h (length_eq_of_sameItems items)⟩
    | a, b => ⟨a.same strict b, rfl⟩
  ⟨withPtrEq a b (fun _ => (parts ()).1) fun h => by rw [(parts ()).2, h]; exact same_refl strict b,
    (parts ()).2⟩

def sharedSameItems (strict : Bool) (xs ys : List Value) : { r : Bool // r = sameItems strict xs ys } :=
  match xs, ys with
  | [], [] => ⟨true, by simp [sameItems]⟩
  | x :: xs, y :: ys =>
    ⟨(sharedSame strict x y).1 && (sharedSameItems strict xs ys).1, by
      simp only [sameItems, (sharedSame strict x y).2, (sharedSameItems strict xs ys).2]⟩
  | [], y :: ys => ⟨false, by simp [sameItems]⟩
  | x :: xs, [] => ⟨false, by simp [sameItems]⟩

end

mutual

/-- `coincides`, which looks no further into two values that are one. -/
def sharedCoincides (a b : Value) : { r : Bool // r = a.coincides b } :=
  let parts : Unit → { r : Bool // r = a.coincides b } := fun _ =>
    match a, b with
    | .list xs, .list ys =>
      ⟨(sharedCoincidesItems xs ys).1, by simp [coincides, (sharedCoincidesItems xs ys).2]⟩
    | a, b => ⟨a.coincides b, rfl⟩
  ⟨withPtrEq a b (fun _ => (parts ()).1) fun h => by rw [(parts ()).2, h]; exact coincides_refl b,
    (parts ()).2⟩

def sharedCoincidesItems (xs ys : List Value) : { r : Bool // r = coincidesItems xs ys } :=
  match xs, ys with
  | [], [] => ⟨true, by simp [coincidesItems]⟩
  | x :: xs, y :: ys =>
    ⟨(sharedCoincides x y).1 && (sharedCoincidesItems xs ys).1, by
      simp only [coincidesItems, (sharedCoincides x y).2, (sharedCoincidesItems xs ys).2]⟩
  | [], y :: ys => ⟨false, by simp [coincidesItems]⟩
  | x :: xs, [] => ⟨false, by simp [coincidesItems]⟩

end

def quickSame (strict : Bool) (a b : Value) : Bool := (sharedSame strict a b).1

@[simp] theorem quickSame_eq (strict : Bool) (a b : Value) : a.quickSame strict b = a.same strict b :=
  (sharedSame strict a b).2

def quickCoincides (a b : Value) : Bool := (sharedCoincides a b).1

@[simp] theorem quickCoincides_eq (a b : Value) : a.quickCoincides b = a.coincides b :=
  (sharedCoincides a b).2

end Value

end Unfurl
