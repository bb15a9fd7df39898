import Unfurl.Document.Decode
import Unfurl.Eval.Evaluate

/-! Only a `define` that succeeds changes a session, and every request has the whole step limit to itself. -/

namespace Unfurl

inductive SessionError where
  | document (fault : DocumentFault)
  | fault (fault : Fault)
  | limitNotPositive
  | exhausted

def SessionError.message : SessionError → Text
  | .document e => e.message
  | .fault e => e.message
  | .limitNotPositive => "max_steps must be positive"
  | .exhausted => "recursion depth exceeded (see GEXPR_RECURSION_LIMIT)"

structure Session where
  env : Environment
  maxSteps : Option Int := none
  tally : Tally := {}

inductive Request where
  | eval (e : Expr)
  | evalText (text : Text)
  | define (name : Text) (e : Expr)
  /-- Calls a function on values; a string stands for the function bound to it. -/
  | call (fn : Value) (args : List Value)

structure Reply where
  result : Except SessionError Value
  steps : Nat := 0

/-- The step limit that a number sets: none, or a positive number. -/
def stepLimit : Option Int → Except SessionError (Option Nat)
  | none => .ok none
  | some n => if n ≤ 0 then .error .limitNotPositive else .ok (some n.toNat)

def Outcome.result {α : Type} : Outcome Fault α → Except SessionError α
  | .done a _ => .ok a
  | .failed e _ => .error (.fault e)
  | .exhausted _ => .error .exhausted

namespace Session

/-- Runs under the step limit of the session, counting steps from zero. -/
def perform (s : Session) (run : Run Value) : Reply × Session :=
  match stepLimit s.maxSteps with
  | .error e => (⟨.error e, 0⟩, s)
  | .ok limit =>
    let outcome := run limit { s.tally with steps := 0 }
    (⟨outcome.result, outcome.tally.steps⟩, { s with tally := outcome.tally })

def bindReply (name : Text) : Reply × Session → Reply × Session
  | (⟨.ok value, steps⟩, s) => (⟨.ok value, steps⟩, { s with env := Overlay.set s.env name value })
  | (⟨.error e, steps⟩, s) => (⟨.error e, steps⟩, s)

def callee (s : Session) : Value → Except EvalError Value
  | .text name => Environment.lookup s.env name
  | fn => .ok fn

def answer (depth : Nat) (s : Session) : Request → Reply × Session
  | .eval e => s.perform (evaluate depth e s.env)
  | .evalText text =>
    match Expr.read text with
    | .ok e => s.perform (evaluate depth e s.env)
    | .error e => (⟨.error (.document e), 0⟩, s)
  | .define name e => bindReply name (s.perform (evaluate depth e s.env))
  | .call fn args =>
    match s.callee fn with
    | .ok f => s.perform (apply depth f args)
    | .error e => (⟨.error (.fault (.eval e)), 0⟩, s)

def answers (depth : Nat) (s : Session) : List Request → List Reply × Session
  | [] => ([], s)
  | request :: rest =>
    let (reply, s') := s.answer depth request
    let (replies, last) := answers depth s' rest
    (reply :: replies, last)

end Session

end Unfurl
