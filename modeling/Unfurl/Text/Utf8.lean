import Unfurl.Number.Numeral
import Unfurl.Text.Quoted

namespace Unfurl.Text

/-! ### Reading bytes -/

inductive Utf8Reason where
  | start
  | continuation
  | endOfData
deriving DecidableEq

def Utf8Reason.message : Utf8Reason → Text
  | .start => "invalid start byte"
  | .continuation => "invalid continuation byte"
  | .endOfData => "unexpected end of data"

/-- A sequence of bytes that is no character: its first byte and the positions from `start` up to, and
not including, `stop`. -/
structure Utf8Fault where
  start : Nat
  stop : Nat
  first : UInt8
  reason : Utf8Reason
deriving DecidableEq

def Utf8Fault.message (e : Utf8Fault) : Text :=
  let place : Text :=
    if e.stop = e.start + 1 then
      "byte 0x" ++ hex 2 e.first.toNat ++ " in position " ++ Numeral.digits e.start
    else
      "bytes in position " ++ Numeral.digits e.start ++ "-" ++ Numeral.digits (e.stop - 1)
  "'utf-8' codec can't decode " ++ place ++ ": " ++ e.reason.message

/-- A character that has begun. -/
structure Utf8Pending where
  first : UInt8
  seen : Nat
  owed : Nat
  low : UInt8
  high : UInt8
  code : Nat

def utf8Lead (b : UInt8) : Option Utf8Pending :=
  if b < 0xC2 then none
  else if b < 0xE0 then some ⟨b, 1, 1, 0x80, 0xBF, b.toNat - 0xC0⟩
  else if b = 0xE0 then some ⟨b, 1, 2, 0xA0, 0xBF, 0⟩
  else if b = 0xED then some ⟨b, 1, 2, 0x80, 0x9F, 0xD⟩
  else if b < 0xF0 then some ⟨b, 1, 2, 0x80, 0xBF, b.toNat - 0xE0⟩
  else if b = 0xF0 then some ⟨b, 1, 3, 0x90, 0xBF, 0⟩
  else if b < 0xF4 then some ⟨b, 1, 3, 0x80, 0xBF, b.toNat - 0xF0⟩
  else if b = 0xF4 then some ⟨b, 1, 3, 0x80, 0x8F, 4⟩
  else none

/-- Reads bytes from a position on, after the characters `done`, latest first. -/
def decodeFrom (position : Nat) (pending : Option Utf8Pending) (done : Text) :
    List UInt8 → Except Utf8Fault Text
  | [] =>
    match pending with
    | none => .ok done.reverse
    | some p => .error ⟨position - p.seen, position, p.first, .endOfData⟩
  | b :: rest =>
    match pending with
    | none =>
      if b < 0x80 then decodeFrom (position + 1) none (.char (Char.ofNat b.toNat) :: done) rest
      else
        match utf8Lead b with
        | none => .error ⟨position, position + 1, b, .start⟩
        | some p => decodeFrom (position + 1) (some p) done rest
    | some p =>
      if p.low ≤ b ∧ b ≤ p.high then
        let code := p.code * 0x40 + (b.toNat - 0x80)
        if p.owed = 1 then decodeFrom (position + 1) none (.char (Char.ofNat code) :: done) rest
        else
          decodeFrom (position + 1) (some ⟨p.first, p.seen + 1, p.owed - 1, 0x80, 0xBF, code⟩) done
            rest
      else .error ⟨position - p.seen, position, p.first, .continuation⟩

def decodeUtf8 (bytes : List UInt8) : Except Utf8Fault Text := decodeFrom 0 none [] bytes

def unifyNewlines : Text → Text
  | [] => []
  | '\r' :: '\n' :: rest => '\n' :: unifyNewlines rest
  | '\r' :: rest => '\n' :: unifyNewlines rest
  | c :: rest => c :: unifyNewlines rest

/-! ### Writing code points -/

/-- Surrogates side by side, which no bytes stand for: the first of them, and the positions from `start` up
to, and not including, `stop`. -/
structure SurrogateFault where
  first : CodePoint
  start : Nat
  stop : Nat
deriving DecidableEq

def escapeSurrogate : CodePoint → Text
  | .char c => [.char c]
  | .surrogate n => '\\' :: 'u' :: hex 4 (CodePoint.surrogate n).toNat

def SurrogateFault.message (e : SurrogateFault) : Text :=
  let place : Text :=
    if e.stop = e.start + 1 then
      "character '" ++ escapeSurrogate e.first ++ "' in position " ++ Numeral.digits e.start
    else "characters in position " ++ Numeral.digits e.start ++ "-" ++ Numeral.digits (e.stop - 1)
  "'utf-8' codec can't encode " ++ place ++ ": surrogates not allowed"

def characters (s : Text) : String := String.ofList (s.filterMap CodePoint.char?)

def encode (s : Text) : Except SurrogateFault String :=
  match s.dropWhile (·.char?.isSome) with
  | [] => .ok s.characters
  | first :: rest =>
    let start := (s.takeWhile (·.char?.isSome)).length
    .error ⟨first, start, start + 1 + (rest.takeWhile (·.char?.isNone)).length⟩

def escaped (s : Text) : String := characters (s.flatMap escapeSurrogate)

end Unfurl.Text
