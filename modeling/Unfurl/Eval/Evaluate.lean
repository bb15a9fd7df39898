import Unfurl.Eval.Outcome
import Unfurl.Eval.Primitive
import Unfurl.Overlay

/-! Every entry into `evaluate` is a step, every entry into `apply` an application; each nests one level deeper. -/

namespace Unfurl

def Pattern.accepts : Pattern → Value → Bool
  | .literal expected, value => value.quickSame false expected
  | .reference _, _ => true
  | .otherwise, _ => true

/-- The index and body of the first branch that accepts the value, counted from `index`. -/
def selectFrom (index : Nat) (value : Value) : List Branch → Option (Nat × Expr)
  | [] => none
  | (p, body) :: rest => if p.accepts value then some (index, body) else selectFrom (index + 1) value rest

/-- Fails over a value, by the cause given or, if the value cannot be quoted, for that. -/
def blame (cause : Value → EvalError) (value : Value) : Fault :=
  if value.quotable then .eval (cause value) else .numeral .unwritable

def selectBranch (value : Value) (branches : List Branch) : Except Fault (Nat × Expr) :=
  match selectFrom 0 value branches with
  | some found => .ok found
  | none => .error (blame .noMatchingPattern value)

def Environment.lookup (env : List (Text × Value)) (name : Text) : Except EvalError Value :=
  match Overlay.get? env name with
  | some value => .ok value
  | none => .error (.undefinedReference name)

def resolve (env : Environment) (name : Text) : Run Value :=
  match Environment.lookup env name with
  | .ok value => Run.pure value
  | .error e => Run.fail (.eval e)

/-- Calls a primitive: the call is recorded and takes a mark, whatever comes of it. -/
def callPrimitive (op : Primitive) (args : List Value) : Run Value := do
  Run.record (op, args)
  let mark ← Run.freshMark
  Run.ofExcept (op.result mark args)

def unfurl (ev : Expr → Environment → Run Value) (ap : Value → List Value → Run Value)
    (env : Environment) : Expr → Run Value
  | .literal value => Run.pure value
  | .reference name => resolve env name
  | .vector elements =>
    (Run.each (fun element => ev element env) elements).bind fun values => Run.pure (.list values)
  | .application f a =>
    (ev f env).bind fun fn => (ev a env).bind fun arg => ap fn arg.spread
  | .lambda params body => Run.freshMark.bind fun mark => Run.pure (.closure mark params body env)
  | .fix f => (ev f env).bind fun fn => Run.freshMark.bind fun mark => ap fn [.unfolding mark f env]
  | .select scrutinee branches =>
    (ev scrutinee env).bind fun value =>
      (Run.ofExcept (selectBranch value branches)).bind fun found => ev found.2 env

/-- Makes one call, given how to evaluate and how to call below it. A closure binds its arguments over
the environment it captured; an unfolding unfurls its node again and calls the result. -/
def invoke (ev : Expr → Environment → Run Value) (ap : Value → List Value → Run Value)
    (args : List Value) : Value → Run Value
  | .closure _ params body env =>
    if args.length = params.length then ev body (Overlay.extend env (params.zip args))
    else Run.fail (.eval (.arityMismatch params.length args.length))
  | .unfolding _ f env => (ev (.fix f) env).bind fun fn => ap fn args
  | .builtin _ _ op => callPrimitive op args
  | value => Run.fail (blame .notCallable value)

mutual

/-- Unfurls an expression in an environment, nesting at most `depth` levels. -/
def evaluate : (depth : Nat) → Expr → Environment → Run Value
  | 0, _, _ => Run.exhausted
  | depth + 1, e, env => Run.tick.bind fun _ => unfurl (evaluate depth) (apply depth) env e

def apply : (depth : Nat) → Value → List Value → Run Value
  | 0, _, _ => Run.exhausted
  | depth + 1, fn, args => Run.count.bind fun _ => invoke (evaluate depth) (apply depth) args fn

end

def maxDepth : Nat := 20000

end Unfurl
