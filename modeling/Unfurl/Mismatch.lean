import Unfurl.Term.Quoted

/-! The printers fall back to the quoted form of what is meant for another operation; everything else refuses. -/

namespace Unfurl

inductive Subject where
  | value (v : Value)
  | node (e : Expr)

def Subject.quote : Subject → Except NumeralError Text
  | .value v => v.quote
  | .node e => e.quote

/-- What an operation that refuses its subject was to do. -/
inductive Purpose where
  | evaluate
  | encode
  | encodeValue
  | encodePattern
  | acceptByPattern
deriving DecidableEq

def Purpose.complaint : Purpose → Text
  | .evaluate => "Not a G-Expression: "
  | .encode => "Not a G-Expression: "
  | .encodeValue => "Cannot encode value "
  | .encodePattern => "Cannot encode pattern "
  | .acceptByPattern => "Not a pattern: "

def Purpose.refusal (purpose : Purpose) (subject : Subject) : Except NumeralError Text := do
  let text ← subject.quote
  .ok (purpose.complaint ++ text)

end Unfurl
