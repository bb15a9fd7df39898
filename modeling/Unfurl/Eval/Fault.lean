import Unfurl.Term.Quoted

namespace Unfurl

/-- A failure of the evaluated program. -/
inductive EvalError where
  | undefinedReference (name : Text)
  | arityMismatch (expected got : Nat)
  | notCallable (value : Value)
  | noMatchingPattern (value : Value)
  | refused (op : Primitive)
  | stepLimitExceeded (limit : Nat)

/-- Why an evaluation stopped without a value. -/
inductive Fault where
  | eval (error : EvalError)
  | numeral (error : NumeralError)
  /-- An integer beyond the range of binary64 was combined with a float. -/
  | overflow

def Primitive.refusal : Primitive → Text
  | .cons => "cons requires exactly 2 arguments"
  | .car => "car requires a non-empty list"
  | .cdr => "cdr requires a non-empty list"
  | .identity => "id requires 1 argument"
  | .eq => "eq? requires 2 arguments"
  | .cond => "cond requires 3 arguments [bool, then, else]"
  | op => op.name ++ " requires exactly 2 numbers"

def EvalError.message : EvalError → Text
  | .undefinedReference name => "Undefined reference: " ++ name
  | .arityMismatch expected got =>
    "Arity mismatch: expected " ++ Numeral.digits expected ++ ", got " ++ Numeral.digits got
  | .notCallable value => "Not a function: " ++ value.quoted
  | .noMatchingPattern value => "No matching pattern for value: " ++ value.quoted
  | .refused op => op.refusal
  | .stepLimitExceeded limit => "Step limit exceeded: " ++ Numeral.digits limit

def Fault.message : Fault → Text
  | .eval e => e.message
  | .numeral e => e.message
  | .overflow => "int too large to convert to float"

end Unfurl
