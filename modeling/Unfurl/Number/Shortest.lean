import Unfurl.Number.Binary64
import Unfurl.Number.Numeral

namespace Unfurl.Binary64

local instance (priority := 2000) shortestPower : Pow Nat Nat := natPower

/-- `d * 10 ^ e` lies among the reals that round to `m * 2 ^ q`. Their interval ends halfway to the
two neighbours, of which the lower one is half as far below a power of two; the ends belong to it
exactly when `m` is even. -/
def readsBack (m : Nat) (q : Int) (d : Nat) (e : Int) : Bool :=
  let gapBelow := if m = 2 ^ (52 : Nat) ∧ -1074 < q then 1 else 2
  let point := d * 10 ^ e.toNat * 2 ^ (2 - q).toNat
  let quarter := 10 ^ (-e).toNat * 2 ^ (q - 2).toNat
  let low := (4 * m - gapBelow) * quarter
  let high := (4 * m + 2) * quarter
  if m % 2 = 0 then decide (low ≤ point ∧ point ≤ high) else decide (low < point ∧ point < high)

/-- The neighbour of `m * 2 ^ q` on the grid `10 ^ g` that reads back, the nearer one if both do. -/
def nearestOnGrid (m : Nat) (q : Int) (g : Int) : Option Nat :=
  let num := m * 2 ^ q.toNat * 10 ^ (-g).toNat
  let den := 2 ^ (-q).toNat * 10 ^ g.toNat
  let lower := num / den
  match readsBack m q lower g, readsBack m q (lower + 1) g with
  | true, true => some (roundQuotient num den)
  | true, false => some lower
  | false, true => some (lower + 1)
  | false, false => none

def belowPower (m : Nat) (q : Int) (k : Int) : Bool :=
  decide (m * 2 ^ q.toNat * 10 ^ (-k).toNat < 10 ^ k.toNat * 2 ^ (-q).toNat)

/-- The least `k` with `m * 2 ^ q < 10 ^ k`, searched from an estimate by the binary logarithm. -/
def magnitude (m : Nat) (q : Int) : Int :=
  let estimate := ((m.log2 : Int) + q) * 30103 / 100000 - 1
  if belowPower m q estimate then estimate
  else if belowPower m q (estimate + 1) then estimate + 1
  else if belowPower m q (estimate + 2) then estimate + 2
  else estimate + 3

structure Decimal where
  digits : Nat
  exponent : Int

/-- The decimal without trailing zeros among its digits, looked for at most `fuel` times. -/
def Decimal.strip : Nat → Decimal → Decimal
  | 0, d => d
  | fuel + 1, d =>
    if d.digits % 10 = 0 ∧ d.digits ≠ 0 then Decimal.strip fuel ⟨d.digits / 10, d.exponent + 1⟩ else d

def exactDecimal (m : Nat) (q : Int) : Decimal :=
  if 0 ≤ q then ⟨m * 2 ^ q.toNat, 0⟩ else ⟨m * 5 ^ (-q).toNat, q⟩

/-- The shortest decimal that reads back as the positive number `m * 2 ^ q`. -/
def shortest (m : Nat) (q : Int) : Decimal :=
  let k := magnitude m q
  let candidate (n : Nat) : Option Decimal :=
    (nearestOnGrid m q (k - (n + 1 : Nat))).map fun d => (⟨d, k - (n + 1 : Nat)⟩ : Decimal)
  match (List.range 17).findSome? candidate with
  | some d => d.strip 20
  | none => exactDecimal m q

/-! ### Layout -/

structure SpecialNames where
  nan : Text
  infinity : Text

def zeros (n : Nat) : Text := List.replicate n '0'

def exponentText (e : Int) : Text :=
  let ds := Numeral.digits e.natAbs
  (if e < 0 then '-' else '+') :: (if ds.length < 2 then '0' :: ds else ds)

/-- The digits of a decimal with a point, or with an exponent when the leading digit is far from it. -/
def layout (d : Decimal) : Text :=
  let ds := Numeral.digits d.digits
  let lead : Int := d.exponent + ds.length - 1
  if -4 ≤ lead ∧ lead < 16 then
    if 0 ≤ d.exponent then ds ++ zeros d.exponent.toNat ++ (['.', '0'] : Text)
    else if 0 ≤ lead then ds.take (lead.toNat + 1) ++ ('.' :: ds.drop (lead.toNat + 1) : Text)
    else '0' :: '.' :: (zeros (-lead - 1).toNat ++ ds)
  else
    match ds with
    | [] => []
    | [c] => c :: 'e' :: exponentText lead
    | c :: rest => c :: '.' :: (rest ++ ('e' :: exponentText lead : Text))

def magnitudeText (m : Nat) (q : Int) : Text :=
  if m = 0 then ['0', '.', '0'] else layout (shortest m q)

def render (names : SpecialNames) : Binary64 → Text
  | .nan _ => names.nan
  | .infinite negative => if negative then '-' :: names.infinity else names.infinity
  | .finite negative m q _ => if negative then '-' :: magnitudeText m q else magnitudeText m q

def displayNames : SpecialNames := ⟨"nan", "inf"⟩

def text (x : Binary64) : Text := x.render displayNames

end Unfurl.Binary64
