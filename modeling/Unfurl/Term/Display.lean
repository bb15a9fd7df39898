import Unfurl.Json.Writer
import Unfurl.Term.Basic

/-! Functions show what they are called with, not what they hold. -/

namespace Unfurl.Value

def functionText : Value → Text
  | .closure _ params _ _ => "<closure (" ++ Text.joined " " params ++ ")>"
  | .builtin _ name _ => "<builtin " ++ name ++ ">"
  | .unfolding .. => "<builtin fix>"
  | _ => ""

mutual

def displayed : Value → Text
  | .nil => "nil"
  | .bool true => "#t"
  | .bool false => "#f"
  | .int n => Numeral.text n
  | .float x => x.text
  | .text s => Json.writeText s
  | .symbol name => "'" ++ name
  | .list items => "(" ++ Text.joined " " (displayedItems items) ++ ")"
  | v => v.functionText

def displayedItems : List Value → List Text
  | [] => []
  | v :: rest => displayed v :: displayedItems rest

end

mutual

/-- Every integer outside of functions is short enough to be written. -/
def displayable : Value → Bool
  | .int n => Json.writableInt n
  | .list items => allDisplayable items
  | _ => true

def allDisplayable : List Value → Bool
  | [] => true
  | v :: rest => displayable v && allDisplayable rest

end

def display (v : Value) : Except NumeralError Text :=
  if v.displayable then .ok v.displayed else .error .unwritable

end Unfurl.Value
