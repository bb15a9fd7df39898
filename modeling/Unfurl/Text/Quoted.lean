import Unfurl.Text.Printable

/-! Double quotes are used when the text holds a single quote and no double one. -/

namespace Unfurl.Text

def hexDigit (d : Nat) : Char := if d < 10 then Char.ofNat (48 + d) else Char.ofNat (87 + d)

/-- The last `width` hexadecimal digits of a number. -/
def hex : (width : Nat) → Nat → Text
  | 0, _ => []
  | w + 1, n => hex w (n / 16) ++ [.char (hexDigit (n % 16))]

def quoteFor (s : Text) : CodePoint := if s.contains '\'' && !s.contains '"' then '"' else '\''

def quotedPoint (quote c : CodePoint) : Text :=
  if c = quote ∨ c = '\\' then ['\\', c]
  else if c = '\n' then ['\\', 'n']
  else if c = '\r' then ['\\', 'r']
  else if c = '\t' then ['\\', 't']
  else if isPrintable c then [c]
  else if c.toNat < 0x100 then '\\' :: 'x' :: hex 2 c.toNat
  else if c.toNat < 0x10000 then '\\' :: 'u' :: hex 4 c.toNat
  else '\\' :: 'U' :: hex 8 c.toNat

def quote (s : Text) : Text :=
  quoteFor s :: (s.flatMap (quotedPoint (quoteFor s)) ++ [quoteFor s])

end Unfurl.Text
