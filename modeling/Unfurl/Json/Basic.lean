import Unfurl.Number.Shortest
import Unfurl.Overlay
import Unfurl.Text.Quoted

namespace Unfurl

inductive Json where
  | null
  | bool (b : Bool)
  | int (n : Int)
  | float (x : Binary64)
  | text (s : Text)
  | array (items : List Json)
  | object (fields : List (Text × Json))

namespace Json

def field? : Json → Text → Option Json
  | .object fields, key => Overlay.get? fields key
  | _, _ => none

def writableInt (n : Int) : Bool := decide (n.natAbs < Numeral.bound)

mutual

/-- Every integer of the document is short enough to be written. -/
def writable : Json → Bool
  | .int n => writableInt n
  | .array items => allWritable items
  | .object fields => fieldsWritable fields
  | _ => true

def allWritable : List Json → Bool
  | [] => true
  | item :: rest => writable item && allWritable rest

def fieldsWritable : List (Text × Json) → Bool
  | [] => true
  | (_, item) :: rest => writable item && fieldsWritable rest

end

mutual

def quoted : Json → Text
  | .null => "None"
  | .bool true => "True"
  | .bool false => "False"
  | .int n => Numeral.text n
  | .float x => x.text
  | .text s => Text.quote s
  | .array items => "[" ++ Text.joined ", " (quotedItems items) ++ "]"
  | .object fields => "\x7b" ++ Text.joined ", " (quotedFields fields) ++ "\x7d"

def quotedItems : List Json → List Text
  | [] => []
  | item :: rest => quoted item :: quotedItems rest

def quotedFields : List (Text × Json) → List Text
  | [] => []
  | (key, item) :: rest => (Text.quote key ++ ": " ++ quoted item) :: quotedFields rest

end

end Json

end Unfurl
