import Unfurl.Proofs.Eval.Invariant
import Unfurl.Proofs.Eval.Primitive
import Unfurl.Proofs.Overlay
import Unfurl.Proofs.Scope.Names

namespace Unfurl

namespace Value

/-- A function finds the names that its code reads, apart from its parameters, where it was captured. -/
def Scoped : Value → Prop
  | .closure _ params body env => ∀ x ∈ body.free, x ∈ params ∨ Overlay.has env x = true
  | .unfolding _ fn env => ∀ x ∈ fn.free, Overlay.has env x = true
  | _ => True

def WellScoped (v : Value) : Prop := v.Throughout Scoped

theorem wellScoped_of_plain {v : Value} (data : v.isFunction = false) (plain : v.held = []) :
    v.WellScoped := by
  refine throughout_of_plain ?_ plain
  cases v with
  | closure | unfolding => cases data
  | _ => trivial

theorem wellScoped_list {items : List Value} :
    (Value.list items).WellScoped ↔ ∀ v ∈ items, v.WellScoped := throughout_list trivial

end Value

def Environment.WellScoped (env : List (Text × Value)) : Prop := ∀ pair ∈ env, pair.2.WellScoped

/-- The names of the expression are bound in the environment and its literals are well-scoped. -/
structure Expr.ScopedIn (e : Expr) (env : Environment) : Prop where
  bound : ∀ x ∈ e.free, Overlay.has env x = true
  literals : ∀ v ∈ e.literals, v.WellScoped

namespace Environment

theorem WellScoped.set {env : List (Text × Value)} (safe : WellScoped env) (name : Text)
    {v : Value} (value : v.WellScoped) : WellScoped (Overlay.set env name v) :=
  Overlay.forall_set safe name value

theorem WellScoped.extend {env : List (Text × Value)} (safe : WellScoped env)
    (names : List Text) {args : List Value} (values : ∀ v ∈ args, v.WellScoped) :
    WellScoped (Overlay.extend env (names.zip args)) :=
  Overlay.forall_extend safe names values

theorem WellScoped.get? {env : List (Text × Value)} (safe : WellScoped env) {name : Text}
    {v : Value} (found : Overlay.get? env name = some v) : v.WellScoped :=
  safe _ (Overlay.mem_of_get? found)

end Environment

/-! ### Code in its environment -/

namespace Expr.ScopedIn

variable {env : Environment}

theorem of_subset {e part : Expr} (safe : e.ScopedIn env) (free : ∀ x ∈ part.free, x ∈ e.free)
    (literals : ∀ v ∈ part.literals, v ∈ e.literals) : part.ScopedIn env :=
  ⟨fun x member => safe.bound x (free x member), fun v member => safe.literals v (literals v member)⟩

theorem vector {elements : List Expr} (safe : (Expr.vector elements).ScopedIn env) :
    ∀ e ∈ elements, e.ScopedIn env := by
  intro e member
  refine safe.of_subset (fun x free => ?_) (fun v literal => ?_)
  · exact mem_freeAll.mpr ⟨e, member, free⟩
  · exact mem_literalsAll.mpr ⟨e, member, literal⟩

theorem application {f a : Expr} (safe : (Expr.application f a).ScopedIn env) :
    f.ScopedIn env ∧ a.ScopedIn env :=
  ⟨safe.of_subset (fun _ => List.mem_append_left _) fun _ => List.mem_append_left _,
    safe.of_subset (fun _ => List.mem_append_right _) fun _ => List.mem_append_right _⟩

theorem select {scrutinee : Expr} {branches : List Branch}
    (safe : (Expr.select scrutinee branches).ScopedIn env) :
    scrutinee.ScopedIn env ∧ ∀ branch ∈ branches, branch.2.ScopedIn env := by
  refine ⟨safe.of_subset (fun _ => List.mem_append_left _) fun _ => List.mem_append_left _, ?_⟩
  intro branch member
  refine safe.of_subset (fun x free => ?_) (fun v literal => ?_)
  · exact List.mem_append_right _ (mem_freeBranches.mpr ⟨branch, member, free⟩)
  · exact List.mem_append_right _ (mem_literalsBranches.mpr ⟨branch, member, literal⟩)

end Expr.ScopedIn

theorem wellScoped_closure {mark : Mark} {params : List Text} {body : Expr} {env : Environment} :
    (Value.closure mark params body env).WellScoped ↔
      (Expr.lambda params body).ScopedIn env ∧ Environment.WellScoped env := by
  constructor
  · intro safe
    obtain ⟨names, literals, bindings⟩ := Value.throughout_closure.mp safe
    refine ⟨⟨fun x member => ?_, literals⟩, bindings⟩
    obtain ⟨free, notParam⟩ := Expr.mem_free_lambda.mp member
    exact (names x free).resolve_left notParam
  · rintro ⟨safe, bindings⟩
    refine Value.throughout_closure.mpr ⟨fun x free => ?_, safe.literals, bindings⟩
    by_cases param : x ∈ params
    · exact Or.inl param
    · exact Or.inr (safe.bound x (Expr.mem_free_lambda.mpr ⟨free, param⟩))

theorem wellScoped_unfolding {mark : Mark} {f : Expr} {env : Environment} :
    (Value.unfolding mark f env).WellScoped ↔
      (Expr.fix f).ScopedIn env ∧ Environment.WellScoped env := by
  constructor
  · intro safe
    obtain ⟨names, literals, bindings⟩ := Value.throughout_unfolding.mp safe
    exact ⟨⟨names, literals⟩, bindings⟩
  · rintro ⟨safe, bindings⟩
    exact Value.throughout_unfolding.mpr ⟨safe.bound, safe.literals, bindings⟩

theorem scopedIn_call {params : List Text} {body : Expr} {env : Environment} {args : List Value}
    (safe : (Expr.lambda params body).ScopedIn env) (length : args.length = params.length) :
    body.ScopedIn (Overlay.extend env (params.zip args)) := by
  refine ⟨fun x free => ?_, safe.literals⟩
  rw [Overlay.has_extend, List.map_fst_zip (Nat.le_of_eq length.symm)]
  by_cases param : x ∈ params
  · exact Or.inl param
  · exact Or.inr (safe.bound x (Expr.mem_free_lambda.mpr ⟨free, param⟩))

/-! ### The invariant -/

theorem resolve_scoped {name : Text} {env : Environment}
    (bound : (Expr.reference name).ScopedIn env) (safe : Environment.WellScoped env) :
    (resolve env name).Meets Value.WellScoped fun fault =>
      ∀ name, fault ≠ .eval (.undefinedReference name) := by
  have has := bound.bound name (List.mem_singleton.mpr rfl)
  unfold resolve Environment.lookup
  cases found : Overlay.get? env name with
  | none => simp [Overlay.has, found] at has
  | some v => exact .pure (safe.get? found)

theorem result_scoped {op : Primitive} {args : List Value} {mark : Mark} {v : Value}
    (values : ∀ v ∈ args, v.WellScoped) (ok : op.result mark args = .ok v) : v.WellScoped :=
  Primitive.result_throughout (fun _ => trivial) (fun _ => trivial) (fun _ => trivial)
    (fun _ _ _ => trivial) values ok

def scopeSafety : Invariant where
  value := Value.WellScoped
  code e env := e.ScopedIn env ∧ Environment.WellScoped env
  fault fault := ∀ name, fault ≠ .eval (.undefinedReference name)
  limited n name := by simp
  arity expected got name := by simp
  notCallable {v} _ name := by unfold blame; split <;> simp
  noMatch {v} _ name := by unfold blame; split <;> simp
  list := Value.wellScoped_list
  literal code := code.1.literals _ (List.mem_singleton.mpr rfl)
  reference code := resolve_scoped code.1 code.2
  vector code e member := ⟨code.1.vector e member, code.2⟩
  application code := ⟨⟨code.1.application.1, code.2⟩, code.1.application.2, code.2⟩
  lambda _ code := wellScoped_closure.mpr code
  fix _ code := ⟨⟨⟨code.1.bound, code.1.literals⟩, code.2⟩, wellScoped_unfolding.mpr code⟩
  select code := ⟨⟨code.1.select.1, code.2⟩, fun branch member => ⟨code.1.select.2 branch member, code.2⟩⟩
  closure value values length :=
    ⟨scopedIn_call (wellScoped_closure.mp value).1 length, (wellScoped_closure.mp value).2.extend _ values⟩
  unfolding value := wellScoped_unfolding.mp value
  primitive mark values := by
    refine .ofExcept (fun v ok => result_scoped values ok) fun fault error name => ?_
    rcases Primitive.result_refuses error with rfl | ⟨rfl, _⟩ <;> simp

end Unfurl
