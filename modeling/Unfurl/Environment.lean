import Unfurl.Eval.Evaluate
import Unfurl.Json.Basic

/-! Only strings are names: anything else is refused when it is to be bound, and is never found. -/

namespace Unfurl

structure BindError where
  offered : Json

def BindError.message (e : BindError) : Text :=
  "Cannot bind " ++ e.offered.quoted ++ ": names must be strings"

/-- What a reference to something offered as a name would read. -/
def Json.spelled : Json → Text
  | .text s => s
  | doc => doc.quoted

namespace Environment

/-- The pairs whose offered names are strings, or the first that is not. -/
def offer : List (Json × Value) → Except BindError (List (Text × Value))
  | [] => .ok []
  | (.text name, value) :: rest => do
    let pairs ← offer rest
    .ok ((name, value) :: pairs)
  | (other, _) :: _ => .error ⟨other⟩

def extend (env : List (Text × Value)) (pairs : List (Json × Value)) :
    Except BindError (List (Text × Value)) := do
  let named ← offer pairs
  .ok (Overlay.extend env named)

def find? (env : List (Text × Value)) : Json → Option Value
  | .text name => Overlay.get? env name
  | _ => none

def lookupOffered (env : List (Text × Value)) (name : Json) : Except EvalError Value :=
  match find? env name with
  | some value => .ok value
  | none => .error (.undefinedReference name.spelled)

/-- Both environments bind the same names, and the entries of each name coincide. -/
def coincides (a b : List (Text × Value)) : Bool :=
  a.length == b.length && a.all fun (name, x) =>
    match Overlay.get? b name with
    | some y => x.quickCoincides y
    | none => false

def displayed (env : List (Text × Value)) : Text :=
  "\x7b" ++ Text.joined ", " (env.map fun (name, value) => name ++ ": " ++ value.quoted) ++ "\x7d"

def display (env : List (Text × Value)) : Except NumeralError Text :=
  if env.all (·.2.quotable) then .ok (displayed env) else .error .unwritable

/-- The names in alphabetical order of their code points. -/
def sortedNames (env : List (Text × Value)) : List Text :=
  (Overlay.names env).mergeSort fun a b => !(b.map CodePoint.toNat).lex (a.map CodePoint.toNat) Nat.blt

def quoted (env : List (Text × Value)) : Text :=
  "<Environment names=" ++ bracketed ((sortedNames env).map Text.quote) ++ ">"

end Environment

end Unfurl
