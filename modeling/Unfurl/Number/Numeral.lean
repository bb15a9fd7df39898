import Unfurl.Text.Basic

namespace Unfurl

-- Powers are those of the numbers themselves, whatever algebra is in scope.
local instance (priority := 2000) Numeral.natPower : Pow Nat Nat := instPowNat

/-- Longest digit run that is read or written as an integer. -/
def maxDigits : Nat := 4300

inductive NumeralError where
  | unwritable
  | unreadable (digits : Nat)
deriving DecidableEq

namespace Numeral

def digitChar (d : Nat) : CodePoint := .char (Char.ofNat (48 + d))

/-- The digits of `n` in front of `tail`. -/
def digitsOnto (n : Nat) (tail : Text) : Text :=
  if n < 10 then digitChar n :: tail else digitsOnto (n / 10) (digitChar (n % 10) :: tail)
termination_by n

def digits (n : Nat) : Text := digitsOnto n []

def value (ds : Text) : Nat := ds.foldl (fun n c => 10 * n + (c.toNat - 48)) 0

def bound : Nat := 10 ^ maxDigits

def text (n : Int) : Text :=
  if n < 0 then '-' :: digits n.natAbs else digits n.natAbs

/-- The decimal text of an integer that is short enough to be written. -/
def write (n : Int) : Except NumeralError Text :=
  if n.natAbs < bound then .ok (text n) else .error .unwritable

def read (ds : Text) : Except NumeralError Nat :=
  if ds.length ≤ maxDigits then .ok (value ds) else .error (.unreadable ds.length)

end Numeral

def NumeralError.message : NumeralError → Text
  | .unwritable =>
    "Exceeds the limit (" ++ Numeral.digits maxDigits ++ " digits) for integer string conversion; " ++
      "use sys.set_int_max_str_digits() to increase the limit"
  | .unreadable n =>
    "Exceeds the limit (" ++ Numeral.digits maxDigits ++ " digits) for integer string conversion: " ++
      "value has " ++ Numeral.digits n ++ " digits; " ++
      "use sys.set_int_max_str_digits() to increase the limit"

end Unfurl
