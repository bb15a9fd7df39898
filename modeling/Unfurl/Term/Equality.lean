import Unfurl.Term.Basic

namespace Unfurl

/-- Two binary64 numbers denote the same number, or are the same NaN. -/
def Binary64.same (x y : Binary64) : Bool :=
  match x, y with
  | .nan m, .nan n => m == n
  | x, y =>
    match x.extended?, y.extended? with
    | some a, some b => a.eq b
    | _, _ => false

def Binary64.isInt (x : Binary64) (n : Int) : Bool :=
  match x.extended? with
  | some a => a.eq (.ofInt n)
  | none => false

namespace Value

mutual

/-- Structural equality; `strict` keeps integers and floats apart. -/
def same (strict : Bool) : Value → Value → Bool
  | .nil, .nil => true
  | .bool a, .bool b => a == b
  | .int a, .int b => a == b
  | .float x, .float y => x.same y
  | .int n, .float x => !strict && x.isInt n
  | .float x, .int n => !strict && x.isInt n
  | .text s, .text t => s == t
  | .symbol s, .symbol t => s == t
  | .list xs, .list ys => sameItems strict xs ys
  | .closure m _ _ _, .closure n _ _ _ => m == n
  | .builtin m _ _, .builtin n _ _ => m == n
  | .unfolding m _ _, .unfolding n _ _ => m == n
  | _, _ => false

def sameItems (strict : Bool) : List Value → List Value → Bool
  | [], [] => true
  | x :: xs, y :: ys => same strict x y && sameItems strict xs ys
  | _, _ => false

end

/-- The number that a value counts as, where booleans count as 0 and 1. -/
def numeric? : Value → Option Extended
  | .bool b => some (.ofInt (if b then 1 else 0))
  | .int n => some (.ofInt n)
  | .float x => x.extended?
  | _ => none

def coincidesAtom : Value → Value → Bool
  | .nil, .nil => true
  | .text s, .text t => s == t
  | .symbol s, .symbol t => s == t
  | .closure m _ _ _, .closure n _ _ _ => m == n
  | .builtin m _ _, .builtin n _ _ => m == n
  | .unfolding m _ _, .unfolding n _ _ => m == n
  | .float (.nan m), .float (.nan n) => m == n
  | a, b =>
    match a.numeric?, b.numeric? with
    | some x, some y => x.eq y
    | _, _ => false

mutual

/-- Identity, or equality in which booleans count as numbers. -/
def coincides : Value → Value → Bool
  | .list xs, .list ys => coincidesItems xs ys
  | a, b => coincidesAtom a b

def coincidesItems : List Value → List Value → Bool
  | [], [] => true
  | x :: xs, y :: ys => coincides x y && coincidesItems xs ys
  | _, _ => false

end

/-- Equality in which booleans count as numbers and a NaN that stands alone differs from itself. -/
def equals : Value → Value → Bool
  | .float (.nan _), _ => false
  | _, .float (.nan _) => false
  | a, b => coincides a b

end Value

def Pattern.coincides : Pattern → Pattern → Bool
  | .literal a, .literal b => a.coincides b
  | .reference a, .reference b => a == b
  | .otherwise, .otherwise => true
  | _, _ => false

namespace Expr

mutual

def coincides : Expr → Expr → Bool
  | .literal a, .literal b => a.coincides b
  | .reference a, .reference b => a == b
  | .application f a, .application g b => coincides f g && coincides a b
  | .vector xs, .vector ys => coincidesAll xs ys
  | .lambda ps a, .lambda qs b => ps == qs && coincides a b
  | .fix f, .fix g => coincides f g
  | .select s bs, .select t cs => coincides s t && coincidesBranches bs cs
  | _, _ => false

def coincidesAll : List Expr → List Expr → Bool
  | [], [] => true
  | x :: xs, y :: ys => coincides x y && coincidesAll xs ys
  | _, _ => false

def coincidesBranches : List (Pattern × Expr) → List (Pattern × Expr) → Bool
  | [], [] => true
  | (p, a) :: xs, (q, b) :: ys => p.coincides q && coincides a b && coincidesBranches xs ys
  | _, _ => false

end

end Expr

def distinct {α : Type} (coincide : α → α → Bool) (items : List α) : List α :=
  items.foldl (fun seen x => if seen.any (coincide · x) then seen else seen ++ [x]) []

end Unfurl
