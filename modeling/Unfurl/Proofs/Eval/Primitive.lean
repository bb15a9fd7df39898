import Unfurl.Eval.Primitive

/-! A primitive returns an argument, a part of one, the list of its arguments or something that holds no values. -/

namespace Unfurl.Primitive

def arity : Primitive → Nat
  | .car | .cdr | .identity => 1
  | .cond => 3
  | _ => 2

theorem arithmetic_arity {op : Primitive} {exact : Int → Int → Int}
    {rounded : Binary64 → Binary64 → Binary64} {args : List Value} (length : args.length ≠ 2) :
    arithmetic op exact rounded args = .error (.eval (.refused op)) := by
  unfold arithmetic
  split <;> first | rfl | exact absurd rfl length

theorem result_arity {op : Primitive} {mark : Mark} {args : List Value} (length : args.length ≠ op.arity) :
    op.result mark args = .error (.eval (.refused op)) := by
  unfold Primitive.result
  split
  case h_7 | h_8 | h_9 => exact arithmetic_arity length
  case h_11 => rfl
  all_goals exact absurd rfl length

/-- A result that is made from the arguments alone. A float is only made if there was one. -/
inductive Built (args : List Value) : Value → Prop
  | argument {v : Value} : v ∈ args → Built args v
  | item {items : List Value} {v : Value} : .list items ∈ args → v ∈ items → Built args v
  | rest {items : List Value} {v : Value} : .list (v :: items) ∈ args → Built args (.list items)
  | all : Built args (.list args)
  | bool (b : Bool) : Built args (.bool b)
  | int (n : Int) : Built args (.int n)
  | float {x : Binary64} (y : Binary64) : .float x ∈ args → Built args (.float y)

theorem arithmetic_built {op : Primitive} {exact : Int → Int → Int}
    {rounded : Binary64 → Binary64 → Binary64} {args : List Value} {v : Value}
    (ok : arithmetic op exact rounded args = .ok v) : Built args v := by
  unfold arithmetic at ok
  split at ok
  · cases ok
    exact .int _
  · rename_i x y
    cases ok
    exact .float _ (x := x) (by simp)
  · rename_i a y
    cases h : toFloat a with
    | ok x =>
      rw [h] at ok
      cases ok
      exact .float _ (x := y) (by simp)
    | error e =>
      rw [h] at ok
      cases ok
  · rename_i x b
    cases h : toFloat b with
    | ok y =>
      rw [h] at ok
      cases ok
      exact .float _ (x := x) (by simp)
    | error e =>
      rw [h] at ok
      cases ok
  · cases ok

theorem result_built {mark : Mark} {op : Primitive} {args : List Value} {v : Value}
    (ok : op.result mark args = .ok v) : Built args v := by
  unfold Primitive.result at ok
  split at ok
  · cases ok
    exact .all
  · cases ok
    exact .item List.mem_cons_self List.mem_cons_self
  · cases ok
    exact .rest List.mem_cons_self
  · cases ok
    exact .argument List.mem_cons_self
  · cases ok
    exact .bool _
  · rename_i flag a b
    cases ok
    cases flag with
    | true => exact .argument (by simp)
    | false => exact .argument (by simp)
  · exact arithmetic_built ok
  · exact arithmetic_built ok
  · exact arithmetic_built ok
  · split at ok
    · cases ok
      exact .bool _
    · cases ok
  · cases ok

theorem toFloat_error {n : Int} {fault : Fault} (error : toFloat n = .error fault) :
    fault = .overflow := by
  unfold toFloat at error
  dsimp only at error
  split at error
  · cases error
    rfl
  · cases error

def Refuses (op : Primitive) (args : List Value) (fault : Fault) : Prop :=
  fault = .eval (.refused op) ∨ (fault = .overflow ∧ ∃ x, Value.float x ∈ args)

theorem arithmetic_refuses {op : Primitive} {exact : Int → Int → Int}
    {rounded : Binary64 → Binary64 → Binary64} {args : List Value} {fault : Fault}
    (error : arithmetic op exact rounded args = .error fault) : op.Refuses args fault := by
  unfold arithmetic at error
  split at error
  · cases error
  · cases error
  · rename_i a y
    cases h : toFloat a with
    | ok x =>
      rw [h] at error
      cases error
    | error e =>
      rw [h] at error
      cases error
      exact Or.inr ⟨toFloat_error h, y, by simp⟩
  · rename_i x b
    cases h : toFloat b with
    | ok y =>
      rw [h] at error
      cases error
    | error e =>
      rw [h] at error
      cases error
      exact Or.inr ⟨toFloat_error h, x, by simp⟩
  · cases error
    exact Or.inl rfl

theorem result_refuses {mark : Mark} {op : Primitive} {args : List Value} {fault : Fault}
    (error : op.result mark args = .error fault) : op.Refuses args fault := by
  unfold Primitive.result at error
  split at error
  all_goals try cases error
  · exact arithmetic_refuses error
  · exact arithmetic_refuses error
  · exact arithmetic_refuses error
  · split at error
    · cases error
    · cases error
      exact Or.inl rfl
  · exact Or.inl rfl

end Unfurl.Primitive
