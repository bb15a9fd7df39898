/-! Every operation computes the exact result on integers and rounds it once, to nearest with ties to even. -/

namespace Unfurl

-- Powers are those of the numbers themselves, whatever algebra is in scope.
local instance (priority := 2000) Binary64.natPower : Pow Nat Nat := instPowNat

local instance (priority := 2000) Binary64.intPower : Pow Int Nat := instPowNat

/-- The magnitudes `m * 2 ^ q` of the format: 53 significant bits, fewer only at the least exponent. -/
def Binary64.Canonical (m : Nat) (q : Int) : Prop :=
  m < 2 ^ (53 : Nat) ∧ -1074 ≤ q ∧ q ≤ 971 ∧ (2 ^ (52 : Nat) ≤ m ∨ q = -1074)

instance (m : Nat) (q : Int) : Decidable (Binary64.Canonical m q) :=
  inferInstanceAs (Decidable (_ ∧ _ ∧ _ ∧ _))

/-- A binary64 number; the sign of a finite one also tells the two zeros apart. -/
inductive Binary64 where
  | nan (mark : Nat)
  | infinite (negative : Bool)
  | finite (negative : Bool) (m : Nat) (q : Int) (canonical : Binary64.Canonical m q)
deriving DecidableEq

/-- What a number other than NaN denotes: a dyadic rational `n * 2 ^ q` or an infinity. -/
inductive Extended where
  | negInfinity
  | dyadic (n : Int) (q : Int)
  | posInfinity

namespace Extended

def le : Extended → Extended → Bool
  | .negInfinity, _ => true
  | _, .posInfinity => true
  | .dyadic a p, .dyadic b q => decide (a * 2 ^ (p - min p q).toNat ≤ b * 2 ^ (q - min p q).toNat)
  | _, _ => false

def eq (a b : Extended) : Bool := a.le b && b.le a

def ofInt (n : Int) : Extended := .dyadic n 0

end Extended

def roundQuotient (num den : Nat) : Nat :=
  let lower := num / den
  let twice := 2 * (num % den)
  if twice < den then lower
  else if den < twice then lower + 1
  else if lower % 2 = 0 then lower
  else lower + 1

namespace Binary64

/-! ### Rounding -/

/-- The number with these parts, or the infinity of that sign when the exponent is out of range. -/
def ofParts (negative : Bool) (m : Nat) (q : Int) : Binary64 :=
  if h : Canonical m q then .finite negative m q h else .infinite negative

def zero (negative : Bool) : Binary64 := .finite negative 0 (-1074) (by decide)

/-- The exponent at which a positive `num / den` has 53 bits before the point, or the least one. -/
def exponentOf (num den : Nat) : Int :=
  let q := max ((num.log2 : Int) - den.log2 - 52) (-1074)
  if -1074 < q ∧ num * 2 ^ (-q).toNat / (den * 2 ^ q.toNat) < 2 ^ (52 : Nat) then q - 1 else q

/-- The magnitude `num / den` rounded to the format; a carry out of 53 bits moves the exponent. -/
def ofRatio (negative : Bool) (num den : Nat) : Binary64 :=
  if num = 0 then zero negative
  else
    let q := exponentOf num den
    let m := roundQuotient (num * 2 ^ (-q).toNat) (den * 2 ^ q.toNat)
    if m = 2 ^ (53 : Nat) then ofParts negative (2 ^ (52 : Nat)) (q + 1) else ofParts negative m q

/-- The dyadic rational `n * 2 ^ q` rounded to the format; `negativeZero` is the sign of an exact zero. -/
def ofDyadic (negativeZero : Bool) (n : Int) (q : Int) : Binary64 :=
  if n = 0 then zero negativeZero
  else ofRatio (decide (n < 0)) (n.natAbs * 2 ^ q.toNat) (2 ^ (-q).toNat)

def ofInt (n : Int) : Binary64 := ofDyadic false n 0

/-- The decimal `digits * 10 ^ exponent` rounded to the format. Exponents far out of range are decided
by their size, so that no large power is computed. -/
def ofDecimal (negative : Bool) (digits : Nat) (exponent : Int) : Binary64 :=
  if digits = 0 then zero negative
  else if 400 ≤ exponent then .infinite negative
  else if exponent < -((digits.log2 : Int) + 1500) then zero negative
  else ofRatio negative (digits * 10 ^ exponent.toNat) (10 ^ (-exponent).toNat)

/-! ### Views -/

def signed (negative : Bool) (m : Nat) : Int := if negative then -(m : Int) else m

def extended? : Binary64 → Option Extended
  | .nan _ => none
  | .infinite true => some .negInfinity
  | .infinite false => some .posInfinity
  | .finite s m q _ => some (.dyadic (signed s m) q)

def isNumber : Binary64 → Bool
  | .nan _ => false
  | _ => true

def isInfinite : Binary64 → Bool
  | .infinite _ => true
  | _ => false

/-! ### Arithmetic -/

def neg : Binary64 → Binary64
  | .nan mark => .nan mark
  | .infinite s => .infinite (!s)
  | .finite s m q h => .finite (!s) m q h

def add (mark : Nat) : Binary64 → Binary64 → Binary64
  | .finite s m p _, .finite t n q _ =>
    let e := min p q
    ofDyadic (s && t) (signed s m * 2 ^ (p - e).toNat + signed t n * 2 ^ (q - e).toNat) e
  | .infinite s, .infinite t => if s = t then .infinite s else .nan mark
  | .infinite s, .finite .. => .infinite s
  | .finite .., .infinite t => .infinite t
  | _, _ => .nan mark

def sub (mark : Nat) (a b : Binary64) : Binary64 := add mark a b.neg

def mul (mark : Nat) : Binary64 → Binary64 → Binary64
  | .finite s m p _, .finite t n q _ =>
    if m = 0 ∨ n = 0 then zero (s != t) else ofDyadic false (signed (s != t) (m * n)) (p + q)
  | .infinite s, .infinite t => .infinite (s != t)
  | .infinite s, .finite t n _ _ => if n = 0 then .nan mark else .infinite (s != t)
  | .finite s m _ _, .infinite t => if m = 0 then .nan mark else .infinite (s != t)
  | _, _ => .nan mark

end Binary64

end Unfurl
