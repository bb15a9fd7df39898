import Mathlib.Logic.Relation
import Unfurl.Eval.Evaluate
import Unfurl.Proofs.Eval.Primitive

/-! A value reaches its items and, if it is a function, what its environment binds and what its code holds. -/

namespace Unfurl

namespace Expr

mutual

def free : Expr → List Text
  | .literal _ => []
  | .reference name => [name]
  | .application f a => free f ++ free a
  | .vector elements => freeAll elements
  | .lambda params body => (free body).filter (· ∉ params)
  | .fix f => free f
  | .select scrutinee branches => free scrutinee ++ freeBranches branches

def freeAll : List Expr → List Text
  | [] => []
  | e :: rest => free e ++ freeAll rest

def freeBranches : List (Pattern × Expr) → List Text
  | [] => []
  | (_, body) :: rest => free body ++ freeBranches rest

end

mutual

/-- The values that stand in the expression itself; what a pattern compares with is not among them. -/
def literals : Expr → List Value
  | .literal value => [value]
  | .reference _ => []
  | .application f a => literals f ++ literals a
  | .vector elements => literalsAll elements
  | .lambda _ body => literals body
  | .fix f => literals f
  | .select scrutinee branches => literals scrutinee ++ literalsBranches branches

def literalsAll : List Expr → List Value
  | [] => []
  | e :: rest => literals e ++ literalsAll rest

def literalsBranches : List (Pattern × Expr) → List Value
  | [] => []
  | (_, body) :: rest => literals body ++ literalsBranches rest

end

theorem mem_freeAll {x : Text} {elements : List Expr} :
    x ∈ freeAll elements ↔ ∃ e ∈ elements, x ∈ e.free := by
  induction elements with
  | nil => simp [freeAll]
  | cons e rest ih => simp [freeAll, ih]

theorem mem_freeBranches {x : Text} {branches : List Branch} :
    x ∈ freeBranches branches ↔ ∃ branch ∈ branches, x ∈ branch.2.free := by
  induction branches with
  | nil => simp [freeBranches]
  | cons branch rest ih => simp [freeBranches, ih]

theorem mem_literalsAll {v : Value} {elements : List Expr} :
    v ∈ literalsAll elements ↔ ∃ e ∈ elements, v ∈ e.literals := by
  induction elements with
  | nil => simp [literalsAll]
  | cons e rest ih => simp [literalsAll, ih]

theorem mem_literalsBranches {v : Value} {branches : List Branch} :
    v ∈ literalsBranches branches ↔ ∃ branch ∈ branches, v ∈ branch.2.literals := by
  induction branches with
  | nil => simp [literalsBranches]
  | cons branch rest ih => simp [literalsBranches, ih]

theorem mem_free_lambda {x : Text} {params : List Text} {body : Expr} :
    x ∈ (Expr.lambda params body).free ↔ x ∈ body.free ∧ x ∉ params := by
  simp [free]

end Expr

/-! ### Reachable values -/

namespace Value

/-- The values that a value holds directly. -/
def held : Value → List Value
  | .list items => items
  | .closure _ _ body env => body.literals ++ env.map Prod.snd
  | .unfolding _ fn env => fn.literals ++ env.map Prod.snd
  | _ => []

def Reaches : Value → Value → Prop := Relation.ReflTransGen fun v u => u ∈ v.held

def Throughout (P : Value → Prop) (v : Value) : Prop := ∀ u, v.Reaches u → P u

theorem throughout_iff {P : Value → Prop} {v : Value} :
    v.Throughout P ↔ P v ∧ ∀ u ∈ v.held, u.Throughout P := by
  constructor
  · intro all
    exact ⟨all v .refl, fun u member w reached => all w (.head member reached)⟩
  · rintro ⟨here, inside⟩ w reached
    rcases Relation.ReflTransGen.cases_head reached with rfl | ⟨u, member, further⟩
    · exact here
    · exact inside u member w further

theorem throughout_list {P : Value → Prop} {items : List Value} (here : P (.list items)) :
    (Value.list items).Throughout P ↔ ∀ v ∈ items, v.Throughout P := by
  rw [throughout_iff]
  exact and_iff_right here

theorem throughout_closure {P : Value → Prop} {mark : Mark} {params : List Text} {body : Expr}
    {env : Environment} :
    (Value.closure mark params body env).Throughout P ↔ P (.closure mark params body env) ∧
      (∀ v ∈ body.literals, v.Throughout P) ∧ ∀ pair ∈ env, pair.2.Throughout P := by
  rw [throughout_iff, held, List.forall_mem_append, List.forall_mem_map]

theorem throughout_unfolding {P : Value → Prop} {mark : Mark} {fn : Expr} {env : Environment} :
    (Value.unfolding mark fn env).Throughout P ↔ P (.unfolding mark fn env) ∧
      (∀ v ∈ fn.literals, v.Throughout P) ∧ ∀ pair ∈ env, pair.2.Throughout P := by
  rw [throughout_iff, held, List.forall_mem_append, List.forall_mem_map]

theorem throughout_of_plain {P : Value → Prop} {v : Value} (here : P v) (plain : v.held = []) :
    v.Throughout P :=
  throughout_iff.mpr ⟨here, by simp [plain]⟩

end Value

/-- A primitive adds nothing to what its arguments reach but lists, constants and, from floats, floats. -/
theorem Primitive.result_throughout {P : Value → Prop} {op : Primitive} {mark : Mark} {args : List Value}
    {v : Value} (lists : ∀ items, P (.list items)) (bools : ∀ b, P (.bool b)) (ints : ∀ n, P (.int n))
    (floats : ∀ x y, P (.float x) → P (.float y)) (values : ∀ v ∈ args, v.Throughout P)
    (ok : op.result mark args = .ok v) : v.Throughout P := by
  cases result_built ok with
  | argument member => exact values v member
  | item member inside => exact (Value.throughout_list (lists _)).mp (values _ member) v inside
  | rest member =>
    refine (Value.throughout_list (lists _)).mpr fun u inside => ?_
    exact (Value.throughout_list (lists _)).mp (values _ member) u (List.mem_cons_of_mem _ inside)
  | all => exact (Value.throughout_list (lists _)).mpr values
  | bool b => exact Value.throughout_of_plain (bools b) rfl
  | int n => exact Value.throughout_of_plain (ints n) rfl
  | @float x y member =>
    have given := (Value.throughout_iff.mp (values _ member)).1
    exact Value.throughout_of_plain (floats x y given) rfl

end Unfurl
