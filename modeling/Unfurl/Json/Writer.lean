import Unfurl.Json.Basic

/-! Each part is written in front of what follows it, so that the work grows with the length of the text alone. -/

namespace Unfurl.Json

def unitEscape (n : Nat) : Text := '\\' :: 'u' :: Text.hex 4 n

/-- One character of a string: ASCII stands for itself, all else is escaped, beyond U+FFFF as a pair. -/
def escapeChar (c : CodePoint) : Text :=
  if c = '"' then ['\\', '"']
  else if c = '\\' then ['\\', '\\']
  else if c = '\n' then ['\\', 'n']
  else if c = '\r' then ['\\', 'r']
  else if c = '\t' then ['\\', 't']
  else if c = '\x0c' then ['\\', 'f']
  else if c = '\x08' then ['\\', 'b']
  else if 0x20 ≤ c.toNat ∧ c.toNat < 0x7F then [c]
  else if c.toNat < 0x10000 then unitEscape c.toNat
  else
    unitEscape (0xD800 + (c.toNat - 0x10000) / 0x400) ++
      unitEscape (0xDC00 + (c.toNat - 0x10000) % 0x400)

def escapeOnto : Text → Text → Text
  | [], tail => tail
  | c :: rest, tail => escapeChar c ++ escapeOnto rest tail

def writeTextOnto (s : Text) (tail : Text) : Text :=
  '"' :: escapeOnto s ('"' :: tail)

def writeText (s : Text) : Text := writeTextOnto s []

/-- The start of a new line at a depth, where lines are in use, in front of `tail`. -/
def breakOnto (indent : Option Nat) (depth : Nat) (tail : Text) : Text :=
  match indent with
  | none => tail
  | some width => '\n' :: (Text.spaces (width * depth) ++ tail)

def separateOnto (indent : Option Nat) (depth : Nat) (tail : Text) : Text :=
  match indent with
  | none => ',' :: ' ' :: tail
  | some _ => ',' :: breakOnto indent depth tail

def numberNames : Binary64.SpecialNames := ⟨"NaN", "Infinity"⟩

mutual

/-- The text of a document whose container stands at `depth`, in front of `tail`. -/
def writeOnto (indent : Option Nat) (depth : Nat) : Json → Text → Text
  | .null, tail => 'n' :: 'u' :: 'l' :: 'l' :: tail
  | .bool true, tail => 't' :: 'r' :: 'u' :: 'e' :: tail
  | .bool false, tail => 'f' :: 'a' :: 'l' :: 's' :: 'e' :: tail
  | .int n, tail => Numeral.text n ++ tail
  | .float x, tail => x.render numberNames ++ tail
  | .text s, tail => writeTextOnto s tail
  | .array [], tail => '[' :: ']' :: tail
  | .array (item :: rest), tail =>
    '[' :: breakOnto indent (depth + 1) (writeOnto indent (depth + 1) item
      (writeItemsOnto indent (depth + 1) rest (breakOnto indent depth (']' :: tail))))
  | .object [], tail => '{' :: '}' :: tail
  | .object ((key, item) :: rest), tail =>
    '{' :: breakOnto indent (depth + 1) (writeTextOnto key (':' :: ' ' ::
      writeOnto indent (depth + 1) item
        (writeFieldsOnto indent (depth + 1) rest (breakOnto indent depth ('}' :: tail)))))

def writeItemsOnto (indent : Option Nat) (depth : Nat) : List Json → Text → Text
  | [], tail => tail
  | item :: rest, tail =>
    separateOnto indent depth (writeOnto indent depth item (writeItemsOnto indent depth rest tail))

def writeFieldsOnto (indent : Option Nat) (depth : Nat) :
    List (Text × Json) → Text → Text
  | [], tail => tail
  | (key, item) :: rest, tail =>
    separateOnto indent depth (writeTextOnto key (':' :: ' ' ::
      writeOnto indent depth item (writeFieldsOnto indent depth rest tail)))

end

def write (indent : Option Nat) (doc : Json) : Text := writeOnto indent 0 doc []

/-- The text of a document, if all its integers can be written. -/
def render (indent : Option Nat) (doc : Json) : Except NumeralError Text :=
  if doc.writable then .ok (write indent doc) else .error .unwritable

end Unfurl.Json
