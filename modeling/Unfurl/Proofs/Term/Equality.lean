import Mathlib.Tactic.NormNum
import Unfurl.Proofs.Number.Order
import Unfurl.Term.Sharing

/-! `Value.aspect` is what equality sees of a value: two values are equal exactly when they show the same. -/

namespace Unfurl

/-! ### What equality sees -/

/-- Numbers are seen by what they denote, functions and NaNs by their marks. A float shows that it is one
where this matters. -/
inductive Aspect where
  | nil
  | bool (b : Bool)
  | number (shownFloat : Bool) (point : WithBot (WithTop ℚ))
  | nan (mark : Mark)
  | text (s : Text)
  | symbol (name : Text)
  | list (items : List Aspect)
  | closure (mark : Mark)
  | builtin (mark : Mark)
  | unfolding (mark : Mark)

namespace Binary64

def nanMark : Binary64 → Mark
  | .nan mark => mark
  | _ => 0

def aspect (strict : Bool) (x : Binary64) : Aspect :=
  match x.extended? with
  | some a => .number strict a.point
  | none => .nan x.nanMark

theorem nan_or_extended (x : Binary64) : (∃ m, x = .nan m) ∨ ∃ a, x.extended? = some a := by
  cases x with
  | nan m => exact Or.inl ⟨m, rfl⟩
  | infinite s => cases s <;> exact Or.inr ⟨_, rfl⟩
  | finite s m q h => exact Or.inr ⟨_, rfl⟩

theorem same_of_extended {x y : Binary64} {a b : Extended} (left : x.extended? = some a)
    (right : y.extended? = some b) : x.same y = a.eq b := by
  unfold same
  split
  · cases left
  · rw [left, right]

theorem same_iff (x : Binary64) (strict : Bool) (y : Binary64) :
    x.same y = true ↔ x.aspect strict = y.aspect strict := by
  rcases x.nan_or_extended with ⟨m, rfl⟩ | ⟨a, left⟩
  · rcases y.nan_or_extended with ⟨n, rfl⟩ | ⟨b, right⟩
    · simp [same, aspect, extended?, nanMark]
    · cases y <;> simp_all [same, aspect, extended?]
  · rcases y.nan_or_extended with ⟨n, rfl⟩ | ⟨b, right⟩
    · cases x <;> simp_all [same, aspect, extended?]
    · rw [same_of_extended left right, Extended.eq_iff, aspect, aspect, left, right]
      simp

theorem aspect_cases (strict : Bool) (x : Binary64) :
    (∃ point, x.aspect strict = .number strict point) ∨ ∃ m, x.aspect strict = .nan m := by
  unfold aspect
  cases x.extended? with
  | none => exact Or.inr ⟨_, rfl⟩
  | some a => exact Or.inl ⟨_, rfl⟩

/-- Only in loose mode does a float show as the integer that it denotes. -/
theorem isInt_iff (strict : Bool) (x : Binary64) (n : Int) :
    (!strict && x.isInt n) = true ↔ x.aspect strict = .number false (Extended.ofInt n).point := by
  unfold isInt aspect
  cases strict with
  | true => cases x.extended? <;> simp
  | false => cases x.extended? <;> simp [Extended.eq_iff]

end Binary64

namespace Value

mutual

def aspect (strict : Bool) : Value → Aspect
  | .nil => .nil
  | .bool b => .bool b
  | .int n => .number false (Extended.ofInt n).point
  | .float x => x.aspect strict
  | .text s => .text s
  | .symbol name => .symbol name
  | .list items => .list (aspects strict items)
  | .closure mark _ _ _ => .closure mark
  | .builtin mark _ _ => .builtin mark
  | .unfolding mark _ _ => .unfolding mark

def aspects (strict : Bool) : List Value → List Aspect
  | [] => []
  | v :: rest => aspect strict v :: aspects strict rest

end

theorem int_same_iff (strict : Bool) (m n : Int) :
    (Value.int m).same strict (.int n) = true ↔
      (Value.int m).aspect strict = (Value.int n).aspect strict := by
  simp [same, aspect, Extended.ofInt, Extended.point]

mutual

theorem same_iff (strict : Bool) (a b : Value) :
    a.same strict b = true ↔ a.aspect strict = b.aspect strict := by
  cases a with
  | list xs =>
    cases b with
    | list ys =>
      rw [same, aspect, aspect, Aspect.list.injEq]
      exact sameItems_iff strict xs ys
    | float y => rcases y.aspect_cases strict with ⟨_, seen⟩ | ⟨_, seen⟩ <;> simp [same, aspect, seen]
    | _ => simp [same, aspect]
  | float x =>
    cases b with
    | float y => exact x.same_iff strict y
    | int n => exact x.isInt_iff strict n
    | _ => rcases x.aspect_cases strict with ⟨_, seen⟩ | ⟨_, seen⟩ <;> simp [same, aspect, seen]
  | int n =>
    cases b with
    | float y => exact (y.isInt_iff strict n).trans eq_comm
    | int m => exact int_same_iff strict n m
    | _ => simp [same, aspect]
  | _ =>
    cases b with
    | float y => rcases y.aspect_cases strict with ⟨_, seen⟩ | ⟨_, seen⟩ <;> simp [same, aspect, seen]
    | _ => simp [same, aspect]

theorem sameItems_iff (strict : Bool) (xs ys : List Value) :
    sameItems strict xs ys = true ↔ aspects strict xs = aspects strict ys := by
  cases xs with
  | nil => cases ys <;> simp [sameItems, aspects]
  | cons x xs =>
    cases ys with
    | nil => simp [sameItems, aspects]
    | cons y ys =>
      rw [sameItems, Bool.and_eq_true, same_iff strict x y, sameItems_iff strict xs ys, aspects, aspects,
        List.cons.injEq]

end

/-! ### Equivalence -/

theorem same_comm (strict : Bool) (a b : Value) : a.same strict b = b.same strict a := by
  rw [Bool.eq_iff_iff, same_iff, same_iff]
  exact eq_comm

theorem same_trans {strict : Bool} {a b c : Value} (first : a.same strict b = true)
    (second : b.same strict c = true) : a.same strict c = true := by
  rw [same_iff] at first second ⊢
  exact first.trans second

mutual

theorem same_loose (a b : Value) (equal : a.same true b = true) : a.same false b = true := by
  cases a with
  | list xs =>
    cases b with
    | list ys => exact sameItems_loose xs ys equal
    | _ => simp [same] at equal
  | _ => cases b <;> simp_all [same]

theorem sameItems_loose (xs ys : List Value) (equal : sameItems true xs ys = true) :
    sameItems false xs ys = true := by
  cases xs with
  | nil => cases ys <;> simp_all [sameItems]
  | cons x xs =>
    cases ys with
    | nil => simp [sameItems] at equal
    | cons y ys =>
      rw [sameItems, Bool.and_eq_true] at equal ⊢
      exact ⟨same_loose x y equal.1, sameItems_loose xs ys equal.2⟩

end

/-! ### Booleans as numbers -/

/-- One of the values is a boolean and the other a number. -/
def mixes : Value → Value → Bool
  | .bool _, v => v.isNumber
  | v, .bool _ => v.isNumber
  | _, _ => false

/-- The value at a position, given by one index for each list on the way. -/
def at? : Value → List Nat → Option Value
  | v, [] => some v
  | .list items, i :: path => (items[i]?).bind fun v => v.at? path
  | _, _ :: _ => none

/-- No boolean of one value faces a number at the same position of the other. -/
def Unmixed (a b : Value) : Prop :=
  ∀ path u w, a.at? path = some u → b.at? path = some w → u.mixes w = false

theorem unmixed_list {xs ys : List Value} : (Value.list xs).Unmixed (.list ys) ↔
    ∀ (i : Nat) (x y : Value), xs[i]? = some x → ys[i]? = some y → x.Unmixed y := by
  constructor
  · intro apart i x y left right path u w reached reached'
    refine apart (i :: path) u w ?_ ?_
    · rw [at?, left]
      exact reached
    · rw [at?, right]
      exact reached'
  · intro apart path u w reached reached'
    cases path with
    | nil =>
      cases reached
      cases reached'
      rfl
    | cons i path =>
      obtain ⟨x, left, inside⟩ := Option.bind_eq_some_iff.mp reached
      obtain ⟨y, right, inside'⟩ := Option.bind_eq_some_iff.mp reached'
      exact apart i x y left right path u w inside inside'

theorem unmixed_cons {x y : Value} {xs ys : List Value} :
    (Value.list (x :: xs)).Unmixed (.list (y :: ys)) ↔
      x.Unmixed y ∧ (Value.list xs).Unmixed (.list ys) := by
  rw [unmixed_list, unmixed_list]
  constructor
  · exact fun apart => ⟨apart 0 x y rfl rfl, fun i => apart (i + 1)⟩
  · rintro ⟨first, later⟩ i u w left right
    cases i with
    | zero =>
      cases left
      cases right
      exact first
    | succ i => exact later i u w left right

/-- Where not both values are lists, nothing but the values themselves face each other. -/
theorem unmixed_flat {a b : Value} (flat : (∀ xs, a ≠ .list xs) ∨ ∀ ys, b ≠ .list ys) :
    a.Unmixed b ↔ a.mixes b = false := by
  constructor
  · exact fun apart => apart [] a b rfl rfl
  · intro apart path u w reached reached'
    cases path with
    | nil =>
      cases reached
      cases reached'
      exact apart
    | cons i path =>
      rcases flat with flat | flat
      · cases a <;> simp_all [at?]
      · cases b <;> simp_all [at?]

theorem coincidesAtom_float (x y : Binary64) :
    (Value.float x).coincidesAtom (.float y) = x.same y := by
  cases x <;> cases y <;> rfl

theorem coincidesAtom_int (m n : Int) :
    (Value.int m).coincidesAtom (.int n) = true ↔ m = n := by
  simp [coincidesAtom, numeric?, Extended.eq_iff, Extended.ofInt, Extended.point]

theorem coincidesAtom_bool (b c : Bool) : (Value.bool b).coincidesAtom (.bool c) = (b == c) := by
  cases b <;> cases c <;> rfl

theorem coincidesAtom_int_float (n : Int) (y : Binary64) :
    (Value.int n).coincidesAtom (.float y) = y.isInt n := by
  rcases y.nan_or_extended with ⟨m, rfl⟩ | ⟨b, right⟩
  · rfl
  · simp [coincidesAtom, numeric?, Binary64.isInt, right, Extended.eq_comm b]

theorem coincidesAtom_float_int (x : Binary64) (n : Int) :
    (Value.float x).coincidesAtom (.int n) = x.isInt n := by
  rcases x.nan_or_extended with ⟨m, rfl⟩ | ⟨a, left⟩
  · rfl
  · simp [coincidesAtom, numeric?, Binary64.isInt, left]

theorem same_iff_coincidesAtom {a b : Value} (flat : (∀ xs, a ≠ .list xs) ∨ ∀ ys, b ≠ .list ys) :
    a.same false b = true ↔ a.coincidesAtom b = true ∧ a.mixes b = false := by
  cases a with
  | float x =>
    cases b with
    | float y => simp [same, coincidesAtom_float, mixes]
    | int n => simp [same, coincidesAtom_float_int, mixes]
    | _ => simp [same, coincidesAtom, numeric?, mixes, isNumber]
  | int m =>
    cases b with
    | float y => simp [same, coincidesAtom_int_float, mixes]
    | int n => simp [same, coincidesAtom_int, mixes]
    | _ => simp [same, coincidesAtom, numeric?, mixes, isNumber]
  | bool f =>
    cases b with
    | bool g => simp [same, coincidesAtom_bool, mixes, isNumber]
    | _ => simp [same, coincidesAtom, numeric?, mixes, isNumber]
  | _ => cases b <;> simp_all [same, coincidesAtom, numeric?, mixes]

mutual

theorem same_iff_coincides (a b : Value) :
    a.same false b = true ↔ a.coincides b = true ∧ a.Unmixed b := by
  cases a with
  | list xs =>
    cases b with
    | list ys =>
      rw [same, coincides]
      exact sameItems_iff_coincides xs ys
    | _ => simp [same, coincides, coincidesAtom, numeric?]
  | _ =>
    rw [unmixed_flat (Or.inl (by simp)), coincides]
    · exact same_iff_coincidesAtom (Or.inl (by simp))
    · simp

theorem sameItems_iff_coincides (xs ys : List Value) : sameItems false xs ys = true ↔
    coincidesItems xs ys = true ∧ (Value.list xs).Unmixed (.list ys) := by
  cases xs with
  | nil => cases ys <;> simp [sameItems, coincidesItems, unmixed_list]
  | cons x xs =>
    cases ys with
    | nil => simp [sameItems, coincidesItems]
    | cons y ys =>
      rw [sameItems, Bool.and_eq_true, same_iff_coincides x y, sameItems_iff_coincides xs ys,
        coincidesItems, Bool.and_eq_true, unmixed_cons]
      exact and_and_and_comm

end

/-- Only a NaN that stands alone is told apart from itself. -/
theorem equals_eq_coincides {a b : Value} (left : ∀ m, a ≠ .float (.nan m))
    (right : ∀ m, b ≠ .float (.nan m)) : a.equals b = a.coincides b := by
  unfold equals
  split
  · exact absurd rfl (left _)
  · exact absurd rfl (right _)
  · rfl

end Value

/-! ### The laws of equality -/

theorem Binary64.isInt_iff_denotes (x : Binary64) (n : Int) : x.isInt n = true ↔
    ∃ s m q canonical, x = .finite s m q canonical ∧ (signed s m * 2 ^ q : ℚ) = n := by
  cases x with
  | nan m => simp [isInt, extended?]
  | infinite s => cases s <;> simp [isInt, extended?, Extended.eq_iff, Extended.ofInt, Extended.point]
  | finite s m q h =>
    simp only [isInt, extended?, Extended.eq_iff, Extended.ofInt, Extended.point, zpow_zero, mul_one,
      WithBot.coe_inj, WithTop.coe_inj]
    constructor
    · exact fun denotes => ⟨s, m, q, h, rfl, denotes⟩
    · rintro ⟨s', m', q', h', same, denotes⟩
      cases same
      exact denotes

/-- Equality is an equivalence in both modes, and strict equality implies the loose one. Loose equality of
values of which neither is itself a NaN is equality with booleans as numbers, where no boolean faces a
number. An integer equals a float exactly if the float denotes it. -/
theorem equality_lawful :
    (∀ (strict : Bool) (a : Value), a.same strict a = true) ∧
    (∀ (strict : Bool) (a b : Value), a.same strict b = b.same strict a) ∧
    (∀ (strict : Bool) (a b c : Value),
      a.same strict b = true → b.same strict c = true → a.same strict c = true) ∧
    (∀ a b : Value, a.same true b = true → a.same false b = true) ∧
    (∀ a b : Value, (∀ m, a ≠ .float (.nan m)) → (∀ m, b ≠ .float (.nan m)) →
      (a.same false b = true ↔ a.equals b = true ∧ a.Unmixed b)) ∧
    ∀ (n : Int) (x : Binary64), (Value.int n).same false (.float x) = true ↔
      ∃ s m q canonical, x = .finite s m q canonical ∧ (Binary64.signed s m * 2 ^ q : ℚ) = n := by
  refine ⟨Value.same_refl, Value.same_comm, fun _ _ _ _ => Value.same_trans, Value.same_loose, ?_, ?_⟩
  · intro a b left right
    rw [Value.equals_eq_coincides left right]
    exact Value.same_iff_coincides a b
  · intro n x
    rw [← x.isInt_iff_denotes n]
    simp [Value.same]

/-- Around `2 ^ 53`, where not every integer is a float. -/
theorem equality_lawful_beyond_precision :
    let x : Binary64 := .finite false (2 ^ 52) 1 (by decide)
    let a : Value := .list [.int (2 ^ 53), .bool true]
    let b : Value := .list [.float x, .bool true]
    let c : Value := .list [.int (2 ^ 53), .int 1]
    a.same false b = true ∧ b.same true b = true ∧ b.same false a = true ∧ a.same false a = true ∧
      a.Unmixed b ∧ a.equals c = true ∧ ¬ a.Unmixed c ∧
      (Value.int (2 ^ 53 + 1)).same false (.float x) = false := by
  intro x a b c
  obtain ⟨_, comm, trans, loose, native, exact⟩ := equality_lawful
  have equal : a.same false b = true := by decide +kernel
  have strict : b.same true b = true := by decide +kernel
  have back : b.same false a = true := trans false b b a (loose b b strict) (comm false a b ▸ equal)
  have apart : a.same false c = false := by decide +kernel
  have native' : a.equals c = true := by decide +kernel
  refine ⟨equal, strict, back, trans false a b a equal back, ?_, native', ?_, ?_⟩
  · exact ((native a b (by simp [a]) (by simp [b])).mp equal).2
  · intro unmixed
    have same := (native a c (by simp [a]) (by simp [c])).mpr ⟨native', unmixed⟩
    rw [apart] at same
    cases same
  · rw [Bool.eq_false_iff]
    intro same
    obtain ⟨s, m, q, canonical, number, denotes⟩ := (exact _ _).mp same
    obtain ⟨rfl, rfl, rfl⟩ := Binary64.finite.inj number
    norm_num [Binary64.signed] at denotes

end Unfurl
