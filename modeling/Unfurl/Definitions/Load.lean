import Unfurl.Eval.Evaluate
import Unfurl.Log

/-! Every definition leaves one record, unless it fails for another reason than an evaluation error. -/

namespace Unfurl

abbrev Definition := Text × Expr

inductive LoadError where
  | definition (name : Text) (cause : EvalError)
  | numeral (error : NumeralError)
  | overflow

def definitionFailure (name : Text) (cause : EvalError) : Text :=
  "Failed to define " ++ name ++ ": " ++ cause.message

def LoadError.message : LoadError → Text
  | .definition name cause => definitionFailure name cause
  | .numeral e => e.message
  | .overflow => Fault.overflow.message

/-- The records of a load and how it ended. -/
structure Loading where
  log : List LogRecord
  outcome : Outcome LoadError Environment

namespace Loading

def source : Text := "gexpr.bootstrap"

def defined (name : Text) : LogRecord := ⟨.debug, source, "Defined " ++ name⟩

def failed (name : Text) (cause : EvalError) : LogRecord :=
  ⟨.error, source, definitionFailure name cause⟩

def bind (first : Loading) (next : Environment → Tally → Loading) : Loading :=
  match first.outcome with
  | .done env t =>
    let second := next env t
    ⟨first.log ++ second.log, second.outcome⟩
  | .failed e t => ⟨first.log, .failed e t⟩
  | .exhausted t => ⟨first.log, .exhausted t⟩

end Loading

/-- How a load ends at a definition whose evaluation fails. -/
def abortLoad (name : Text) (fault : Fault) (t : Tally) : Loading :=
  match fault with
  | .eval cause => ⟨[Loading.failed name cause], .failed (.definition name cause) t⟩
  | .numeral e => ⟨[], .failed (.numeral e) t⟩
  | .overflow => ⟨[], .failed .overflow t⟩

/-- Evaluates definitions in order on top of an environment, without a step limit. -/
def load (depth : Nat) : List Definition → Environment → Tally → Loading
  | [], env, t => ⟨[], .done env t⟩
  | (name, e) :: rest, env, t =>
    match evaluate depth e env none t with
    | .done value t' =>
      let later := load depth rest (Overlay.set env name value) t'
      ⟨Loading.defined name :: later.log, later.outcome⟩
    | .failed fault t' => abortLoad name fault t'
    | .exhausted t' => ⟨[], .exhausted t'⟩

end Unfurl
