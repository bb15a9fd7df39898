import Unfurl.Number.Binary64
import Unfurl.Text.Basic

/-! Whatever has an identity of its own carries the mark of its creation. -/

namespace Unfurl

/-- The identity of a function: two marks differ if the functions were created apart. -/
abbrev Mark := Nat

inductive Primitive where
  | cons
  | car
  | cdr
  | identity
  | eq
  | cond
  | add
  | sub
  | mul
  | le
deriving DecidableEq

mutual

inductive Value where
  | nil
  | bool (b : Bool)
  | int (n : Int)
  | float (x : Binary64)
  | text (s : Text)
  | symbol (name : Text)
  | list (items : List Value)
  | closure (mark : Mark) (params : List Text) (body : Expr) (env : List (Text × Value))
  /-- A primitive under the name by which it is shown. -/
  | builtin (mark : Mark) (name : Text) (op : Primitive)
  /-- The argument that `fix fn` hands to `fn`; it unfurls the node again on every call. -/
  | unfolding (mark : Mark) (fn : Expr) (env : List (Text × Value))

inductive Expr where
  | literal (value : Value)
  | reference (name : Text)
  | application (fn arg : Expr)
  | vector (elements : List Expr)
  | lambda (params : List Text) (body : Expr)
  | fix (fn : Expr)
  | select (scrutinee : Expr) (branches : List (Pattern × Expr))

/-- What a branch asks of the scrutinee. Only a literal asks anything, and no pattern binds a name. -/
inductive Pattern where
  | literal (value : Value)
  | reference (name : Text)
  | otherwise

end

abbrev Environment := List (Text × Value)

abbrev Branch := Pattern × Expr

instance : Inhabited Value := ⟨.nil⟩

instance : Inhabited Expr := ⟨.literal .nil⟩

def Primitive.name : Primitive → Text
  | .cons => "cons"
  | .car => "car"
  | .cdr => "cdr"
  | .identity => "id"
  | .eq => "eq?"
  | .cond => "cond"
  | .add => "+"
  | .sub => "-"
  | .mul => "*"
  | .le => "<="

namespace Value

def isNumber : Value → Bool
  | .int _ => true
  | .float _ => true
  | _ => false

def isFunction : Value → Bool
  | .closure .. => true
  | .builtin .. => true
  | .unfolding .. => true
  | _ => false

/-- The positional arguments that a value stands for: a list is spread, anything else is one. -/
def spread : Value → List Value
  | .list items => items
  | v => [v]

def arity? : Value → Option Nat
  | .closure _ params _ _ => some params.length
  | _ => none

end Value

def Expr.call (name : Text) (args : List Expr) : Expr :=
  .application (.reference name) (.vector args)

end Unfurl
