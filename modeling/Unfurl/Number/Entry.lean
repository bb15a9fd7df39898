import Unfurl.Number.Numeral
import Unfurl.Text.Classes

/-! Leading zeros are allowed and count toward the longest digit run. -/

namespace Unfurl.Entry

def isPadding (c : Char) : Bool :=
  c = ' ' ∨ (9 ≤ c.toNat ∧ c.toNat ≤ 13) ∨ (128 ≤ c.toNat ∧ Text.isBlank c)

def unpad (cs : List Char) : List Char :=
  ((cs.dropWhile isPadding).reverse.dropWhile isPadding).reverse

def sign : List Char → Bool × List Char
  | '-' :: rest => (true, rest)
  | '+' :: rest => (false, rest)
  | cs => (false, cs)

/-- The digits of a run in which single underscores may stand between digits. -/
def digits? : List Char → Option (List Nat)
  | [] => none
  | [c] => (Text.digitValue? c).map ([·])
  | c :: '_' :: rest => do
    let d ← Text.digitValue? c
    let ds ← digits? rest
    some (d :: ds)
  | c :: rest => do
    let d ← Text.digitValue? c
    let ds ← digits? rest
    some (d :: ds)

def value (ds : List Nat) : Nat := ds.foldl (fun n d => 10 * n + d) 0

/-- The integer that a text spells, if it spells one of at most `maxDigits` digits. -/
def read? (cs : List Char) : Option Int :=
  let (negative, body) := sign (unpad cs)
  match digits? body with
  | none => none
  | some ds =>
    if ds.length ≤ maxDigits then
      some (if negative then -(value ds : Int) else (value ds : Int))
    else none

end Unfurl.Entry
