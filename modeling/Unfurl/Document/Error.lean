import Unfurl.Json.Reader
import Unfurl.Term.Display

namespace Unfurl

/-- A document that does not have the shape of an expression, or a value without a document. -/
inductive DocumentError where
  | malformedText (what : Json.Complaint) (place : Json.Place)
  | notNode (doc : Json)
  | unknownKind (kind : Json)
  | referenceName (payload : Json)
  | vectorItems (payload : Json)
  | missingField (kind key : Text)
  | lambdaParams (params : Json)
  | matchBranches (branches : Json)
  | branchPair (branch : Json)
  | value (doc : Json)
  | pattern (doc : Json)
  | functionValue (fn : Value)

def DocumentError.message : DocumentError → Text
  | .malformedText what place => "JSON parse error: " ++ (Json.ReadError.malformed what place).message
  | .notNode doc => "Expected a \x7b'g', 'v'\x7d node, got " ++ doc.quoted
  | .unknownKind kind => "Unknown node kind " ++ kind.quoted
  | .referenceName payload => "'ref' node requires a name, got " ++ payload.quoted
  | .vectorItems payload => "'vec' node requires a list, got " ++ payload.quoted
  | .missingField kind key => "'" ++ kind ++ "' node requires a '" ++ key ++ "' field"
  | .lambdaParams params => "'lam' params must be a list of names, got " ++ params.quoted
  | .matchBranches branches => "'match' branches must be a list, got " ++ branches.quoted
  | .branchPair branch => "'match' branch must be a [pattern, expr] pair, got " ++ branch.quoted
  | .value doc => "Cannot decode value " ++ doc.quoted
  | .pattern doc => "Cannot decode pattern " ++ doc.quoted
  | .functionValue fn => "Cannot encode function value " ++ fn.functionText

/-- Why reading or writing an expression failed: its shape, or an integer of too many digits. -/
inductive DocumentFault where
  | shape (error : DocumentError)
  | numeral (error : NumeralError)

def DocumentFault.message : DocumentFault → Text
  | .shape e => e.message
  | .numeral e => e.message

/-- Refuses a document; a document that cannot be quoted in the refusal is refused for that. -/
def refuse {α : Type} (why : Json → DocumentError) (doc : Json) : Except DocumentFault α :=
  if doc.writable then .error (.shape (why doc)) else .error (.numeral .unwritable)

end Unfurl
