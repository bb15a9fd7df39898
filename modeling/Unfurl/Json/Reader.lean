import Unfurl.Json.Basic

/-! A complaint tells what was expected and what was left of the text at that place. -/

namespace Unfurl.Json

inductive Complaint where
  | byteOrderMark
  | value
  | extraData
  | propertyName
  | colon
  | comma
  | unterminated
  | controlCharacter
  | escape
  | unicodeEscape
deriving DecidableEq

def Complaint.message : Complaint → Text
  | .byteOrderMark => "Unexpected UTF-8 BOM (decode using utf-8-sig)"
  | .value => "Expecting value"
  | .extraData => "Extra data"
  | .propertyName => "Expecting property name enclosed in double quotes"
  | .colon => "Expecting ':' delimiter"
  | .comma => "Expecting ',' delimiter"
  | .unterminated => "Unterminated string starting at"
  | .controlCharacter => "Invalid control character at"
  | .escape => "Invalid \\escape"
  | .unicodeEscape => "Invalid \\uXXXX escape"

/-- Why reading stopped: a complaint with the text that was left, or an integer of too many digits. -/
inductive Trouble where
  | complaint (what : Complaint) (left : Text)
  | numeral (error : NumeralError)
deriving DecidableEq

/-- Reading a part yields it with the rest of the text. -/
abbrev Reading (α : Type) := Except Trouble (α × Text)

/-! ### Blanks, hexadecimal digits -/

def isSpace (c : CodePoint) : Bool := c == ' ' || c == '\t' || c == '\n' || c == '\r'

def skip (cs : Text) : Text := cs.dropWhile isSpace

def hexValue? (c : CodePoint) : Option Nat :=
  if 0x30 ≤ c.toNat ∧ c.toNat ≤ 0x39 then some (c.toNat - 0x30)
  else if 0x61 ≤ c.toNat ∧ c.toNat ≤ 0x66 then some (c.toNat - 0x57)
  else if 0x41 ≤ c.toNat ∧ c.toNat ≤ 0x46 then some (c.toNat - 0x37)
  else none

def hex4? (a b c d : CodePoint) : Option Nat :=
  match hexValue? a, hexValue? b, hexValue? c, hexValue? d with
  | some a, some b, some c, some d => some (((a * 16 + b) * 16 + c) * 16 + d)
  | _, _, _, _ => none

/-! ### Strings -/

def unescape? : CodePoint → Option CodePoint
  | '"' => some '"'
  | '\\' => some '\\'
  | '/' => some '/'
  | 'b' => some '\x08'
  | 'f' => some '\x0c'
  | 'n' => some '\n'
  | 'r' => some '\r'
  | 't' => some '\t'
  | _ => none

def isHighUnit (n : Nat) : Bool := decide (0xD800 ≤ n) && decide (n < 0xDC00)

def isLowUnit (n : Nat) : Bool := decide (0xDC00 ≤ n) && decide (n < 0xE000)

def ofUnit (n : Nat) : CodePoint :=
  if half : 0xD800 ≤ n ∧ n < 0xE000 then .surrogate ⟨n - 0xD800, by omega⟩ else .char (Char.ofNat n)

def ofUnits (high low : Nat) : CodePoint :=
  .char (Char.ofNat (0x10000 + (high - 0xD800) * 0x400 + (low - 0xDC00)))

/-- A code point that stands in a string literal, or a unit that is escaped there. -/
inductive Piece where
  | point (c : CodePoint)
  | unit (n : Nat)

/-- The text of pieces. Two units that are the halves of a pair are one character; a surrogate that stands
for itself is never joined. -/
def joinPieces : List Piece → Text
  | [] => []
  | .unit high :: .unit low :: rest =>
    if isHighUnit high && isLowUnit low then ofUnits high low :: joinPieces rest
    else ofUnit high :: joinPieces (.unit low :: rest)
  | .unit n :: rest => ofUnit n :: joinPieces rest
  | .point c :: rest => c :: joinPieces rest

/-- The rest of a string literal, in front of which the pieces of `acc` were read, last first, and which
began at `opening`. A unit escape needs a code point behind it. -/
def readText (opening : Text) (acc : List Piece) : Text → Reading Text
  | [] => .error (.complaint .unterminated opening)
  | '"' :: rest => .ok (joinPieces acc.reverse, rest)
  | ['\\'] => .error (.complaint .unterminated opening)
  | '\\' :: 'u' :: a :: b :: c :: d :: rest =>
    match hex4? a b c d with
    | none => .error (.complaint .unicodeEscape ('u' :: a :: b :: c :: d :: rest))
    | some unit =>
      if rest.isEmpty then .error (.complaint .unicodeEscape ['u', a, b, c, d])
      else readText opening (.unit unit :: acc) rest
  | '\\' :: 'u' :: rest => .error (.complaint .unicodeEscape ('u' :: rest))
  | '\\' :: c :: rest =>
    match unescape? c with
    | some x => readText opening (.point x :: acc) rest
    | none => .error (.complaint .escape ('\\' :: c :: rest))
  | c :: rest =>
    if c.toNat < 0x20 then .error (.complaint .controlCharacter (c :: rest))
    else readText opening (.point c :: acc) rest

/-! ### Numbers -/

def isDigit (c : CodePoint) : Bool := decide (0x30 ≤ c.toNat) && decide (c.toNat ≤ 0x39)

/-- The digits before the point: a zero alone, or a run that starts with another digit. -/
def wholePart : Text → Option (Text × Text)
  | [] => none
  | c :: rest =>
    if c = '0' then some (['0'], rest)
    else if isDigit c then some (c :: rest.takeWhile isDigit, rest.dropWhile isDigit)
    else none

def fractionPart : Text → Text × Text
  | '.' :: c :: rest =>
    if isDigit c then (c :: rest.takeWhile isDigit, rest.dropWhile isDigit) else ([], '.' :: c :: rest)
  | cs => ([], cs)

def exponentPart : Text → Option Int × Text
  | [] => (none, [])
  | c :: rest =>
    if c = 'e' ∨ c = 'E' then
      let (negative, digits) := match rest with
        | '-' :: r => (true, r)
        | '+' :: r => (false, r)
        | r => (false, r)
      let run := digits.takeWhile isDigit
      if run.isEmpty then (none, c :: rest)
      else (some (Binary64.signed negative (Numeral.value run)), digits.dropWhile isDigit)
    else (none, c :: rest)

/-- The number after its sign, if it starts with a digit; with its sign it begins at `left`. -/
def readMagnitude (negative : Bool) (left cs : Text) : Reading Json :=
  match wholePart cs with
  | none => .error (.complaint .value left)
  | some (whole, afterWhole) =>
    let (fraction, afterFraction) := fractionPart afterWhole
    let (exponent, rest) := exponentPart afterFraction
    if fraction.isEmpty && exponent.isNone then
      match Numeral.read whole with
      | .ok n => .ok (.int (Binary64.signed negative n), rest)
      | .error e => .error (.numeral e)
    else
      let scale := exponent.getD 0 - fraction.length
      .ok (.float (Binary64.ofDecimal negative (Numeral.value (whole ++ fraction)) scale), rest)

def readNumber : Text → Reading Json
  | '-' :: rest => readMagnitude true ('-' :: rest) rest
  | cs => readMagnitude false cs cs

def nanMark : Nat := 0

def readName? : Text → Option (Json × Text)
  | 'n' :: 'u' :: 'l' :: 'l' :: rest => some (.null, rest)
  | 't' :: 'r' :: 'u' :: 'e' :: rest => some (.bool true, rest)
  | 'f' :: 'a' :: 'l' :: 's' :: 'e' :: rest => some (.bool false, rest)
  | 'N' :: 'a' :: 'N' :: rest => some (.float (.nan nanMark), rest)
  | 'I' :: 'n' :: 'f' :: 'i' :: 'n' :: 'i' :: 't' :: 'y' :: rest => some (.float (.infinite false), rest)
  | '-' :: 'I' :: 'n' :: 'f' :: 'i' :: 'n' :: 'i' :: 't' :: 'y' :: rest =>
    some (.float (.infinite true), rest)
  | _ => none

/-! ### Documents -/

mutual

/-- The document at the start of a text. Each level takes one unit of fuel. -/
def readValue : Nat → Text → Reading Json
  | 0, cs => .error (.complaint .value cs)
  | _ + 1, '"' :: rest =>
    match readText ('"' :: rest) [] rest with
    | .ok (s, after) => .ok (.text s, after)
    | .error e => .error e
  | fuel + 1, '[' :: rest =>
    match skip rest with
    | ']' :: after => .ok (.array [], after)
    | start =>
      match readItems fuel start with
      | .ok (items, after) => .ok (.array items, after)
      | .error e => .error e
  | fuel + 1, '{' :: rest =>
    match skip rest with
    | '}' :: after => .ok (.object [], after)
    | start =>
      match readFields fuel start with
      | .ok (fields, after) => .ok (.object (Overlay.ofPairs fields), after)
      | .error e => .error e
  | _ + 1, cs =>
    match readName? cs with
    | some found => .ok found
    | none => readNumber cs

def readItems : Nat → Text → Reading (List Json)
  | 0, cs => .error (.complaint .value cs)
  | fuel + 1, cs =>
    match readValue fuel cs with
    | .error e => .error e
    | .ok (item, rest) =>
      match skip rest with
      | ']' :: after => .ok ([item], after)
      | ',' :: after =>
        match readItems fuel (skip after) with
        | .ok (items, last) => .ok (item :: items, last)
        | .error e => .error e
      | other => .error (.complaint .comma other)

def readFields : Nat → Text → Reading (List (Text × Json))
  | fuel + 1, '"' :: rest =>
    match readText ('"' :: rest) [] rest with
    | .error e => .error e
    | .ok (key, afterKey) =>
      match skip afterKey with
      | ':' :: start =>
        match readValue fuel (skip start) with
        | .error e => .error e
        | .ok (item, afterItem) =>
          match skip afterItem with
          | '}' :: after => .ok ([(key, item)], after)
          | ',' :: after =>
            match readFields fuel (skip after) with
            | .ok (fields, last) => .ok ((key, item) :: fields, last)
            | .error e => .error e
          | other => .error (.complaint .comma other)
      | other => .error (.complaint .colon other)
  | _, cs => .error (.complaint .propertyName cs)

end

/-- Fuel for any text of this length: a level is opened by a character and takes two units. -/
def fuelFor (cs : Text) : Nat := 2 * cs.length + 2

def readAll (cs : Text) : Except Trouble Json :=
  if cs.head? = some (.char '\uFEFF') then .error (.complaint .byteOrderMark cs)
  else
    match readValue (fuelFor cs) (skip cs) with
    | .error e => .error e
    | .ok (doc, rest) =>
      match skip rest with
      | [] => .ok doc
      | extra => .error (.complaint .extraData extra)

/-! ### Places -/

/-- A place in a text: its index, and its line and column counted from one. -/
structure Place where
  index : Nat
  line : Nat
  column : Nat

def Place.after (before : Text) : Place :=
  { index := before.length
    line := before.count (.char '\n') + 1
    column := (before.reverse.takeWhile (· != .char '\n')).length + 1 }

inductive ReadError where
  | malformed (what : Complaint) (place : Place)
  | numeral (error : NumeralError)

def parse (text : Text) : Except ReadError Json :=
  match readAll text with
  | .ok doc => .ok doc
  | .error (.numeral e) => .error (.numeral e)
  | .error (.complaint what left) => .error (.malformed what (.after (text.take (text.length - left.length))))

def ReadError.message : ReadError → Text
  | .malformed what place =>
    what.message ++ ": line " ++ Numeral.digits place.line ++ " column " ++
      Numeral.digits place.column ++ " (char " ++ Numeral.digits place.index ++ ")"
  | .numeral e => e.message

end Unfurl.Json
