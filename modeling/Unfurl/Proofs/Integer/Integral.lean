import Unfurl.Proofs.Eval.Primitive
import Unfurl.Proofs.Overlay
import Unfurl.Proofs.Scope.Names

/-! A value is integral when it reaches no float; where there is none, nothing overflows. -/

namespace Unfurl

namespace Value

def Exact : Value → Prop
  | .float _ => False
  | _ => True

instance : (v : Value) → Decidable v.Exact
  | .float _ => isFalse id
  | .nil | .bool _ | .int _ | .text _ | .symbol _ => isTrue trivial
  | .list _ | .closure .. | .builtin .. | .unfolding .. => isTrue trivial

def Integral (v : Value) : Prop := v.Throughout Exact

theorem integral_list {items : List Value} :
    (Value.list items).Integral ↔ ∀ v ∈ items, v.Integral := throughout_list trivial

theorem not_integral_float (x : Binary64) : ¬ (Value.float x).Integral := fun integral =>
  (throughout_iff.mp integral).1

theorem Integral.spread {v : Value} (integral : v.Integral) : ∀ u ∈ v.spread, u.Integral := by
  cases v with
  | list items => exact integral_list.mp integral
  | _ =>
    intro u member
    rw [List.mem_singleton.mp member]
    exact integral

end Value

def Environment.Integral (env : List (Text × Value)) : Prop := ∀ pair ∈ env, pair.2.Integral

def Expr.Integral (e : Expr) : Prop := ∀ v ∈ e.literals, v.Integral

/-! ### Code -/

theorem integral_closure {mark : Mark} {params : List Text} {body : Expr} {env : Environment} :
    (Value.closure mark params body env).Integral ↔ body.Integral ∧ Environment.Integral env := by
  unfold Value.Integral
  rw [Value.throughout_closure]
  exact and_iff_right trivial

theorem integral_unfolding {mark : Mark} {f : Expr} {env : Environment} :
    (Value.unfolding mark f env).Integral ↔ f.Integral ∧ Environment.Integral env := by
  unfold Value.Integral
  rw [Value.throughout_unfolding]
  exact and_iff_right trivial

namespace Expr.Integral

theorem application {f a : Expr} (integral : (Expr.application f a).Integral) :
    f.Integral ∧ a.Integral :=
  List.forall_mem_append.mp integral

theorem vector {elements : List Expr} (integral : (Expr.vector elements).Integral) :
    ∀ e ∈ elements, e.Integral :=
  fun e member v literal => integral v (mem_literalsAll.mpr ⟨e, member, literal⟩)

theorem select {scrutinee : Expr} {branches : List Branch}
    (integral : (Expr.select scrutinee branches).Integral) :
    scrutinee.Integral ∧ ∀ branch ∈ branches, branch.2.Integral := by
  obtain ⟨first, bodies⟩ := List.forall_mem_append.mp integral
  refine ⟨first, fun branch member v literal => bodies v ?_⟩
  exact mem_literalsBranches.mpr ⟨branch, member, literal⟩

end Expr.Integral

/-! ### Primitives -/

theorem result_integral {op : Primitive} {args : List Value} {mark : Mark} {v : Value}
    (values : ∀ v ∈ args, v.Integral) (ok : op.result mark args = .ok v) : v.Integral :=
  Primitive.result_throughout (fun _ => trivial) (fun _ => trivial) (fun _ => trivial)
    (fun _ _ float => float) values ok

theorem result_integral_error {op : Primitive} {args : List Value} {mark : Mark} {fault : Fault}
    (values : ∀ v ∈ args, v.Integral) (error : op.result mark args = .error fault) :
    fault = .eval (.refused op) := by
  rcases Primitive.result_refuses error with refused | ⟨_, x, member⟩
  · exact refused
  · exact absurd (values _ member) (Value.not_integral_float x)

end Unfurl
