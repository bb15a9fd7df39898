import Unfurl.Eval.Fault
import Unfurl.Term.Sharing

/-! Comparison is exact and never converts; an integer that meets a float in arithmetic is rounded first. -/

namespace Unfurl

def toFloat (n : Int) : Except Fault Binary64 :=
  let x := Binary64.ofInt n
  if x.isInfinite then .error .overflow else .ok x

/-- An operation on two numbers: exact on integers, rounded as soon as one is a float. -/
def arithmetic (op : Primitive) (exact : Int → Int → Int) (rounded : Binary64 → Binary64 → Binary64) :
    List Value → Except Fault Value
  | [.int a, .int b] => .ok (.int (exact a b))
  | [.float x, .float y] => .ok (.float (rounded x y))
  | [.int a, .float y] => do
    let x ← toFloat a
    .ok (.float (rounded x y))
  | [.float x, .int b] => do
    let y ← toFloat b
    .ok (.float (rounded x y))
  | _ => .error (.eval (.refused op))

def Value.extended? : Value → Option Extended
  | .int n => some (.ofInt n)
  | .float x => x.extended?
  | _ => none

def Value.atMost (a b : Value) : Bool :=
  match a.extended?, b.extended? with
  | some x, some y => x.le y
  | _, _ => false

/-- The result of a primitive; a NaN that it computes gets the mark. -/
def Primitive.result (mark : Mark) : Primitive → List Value → Except Fault Value
  | .cons, [a, b] => .ok (.list [a, b])
  | .car, [.list (a :: _)] => .ok a
  | .cdr, [.list (_ :: rest)] => .ok (.list rest)
  | .identity, [a] => .ok a
  | .eq, [a, b] => .ok (.bool (a.quickSame true b))
  | .cond, [.bool flag, a, b] => .ok (if flag then a else b)
  | .add, args => arithmetic .add (· + ·) (Binary64.add mark) args
  | .sub, args => arithmetic .sub (· - ·) (Binary64.sub mark) args
  | .mul, args => arithmetic .mul (· * ·) (Binary64.mul mark) args
  | .le, [a, b] =>
    if a.isNumber && b.isNumber then .ok (.bool (a.atMost b)) else .error (.eval (.refused .le))
  | op, _ => .error (.eval (.refused op))

end Unfurl
