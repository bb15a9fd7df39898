import Unfurl.Proofs.Eval.Layer

/-! The laws speak of one layer; `Invariant.depth_meets` carries them to every evaluation and every call. -/

namespace Unfurl

variable {α β : Type} {V : α → Prop} {W : β → Prop} {F : Fault → Prop}

/-! ### Runs that keep a property -/

def Outcome.Meets (V : α → Prop) (F : Fault → Prop) : Outcome Fault α → Prop
  | .done a _ => V a
  | .failed fault _ => F fault
  | .exhausted _ => True

namespace Run

/-- Every result has the property `V` and every failure the property `F`. -/
def Meets (V : α → Prop) (F : Fault → Prop) (x : Run α) : Prop := ∀ limit t, (x limit t).Meets V F

theorem Meets.pure {a : α} (holds : V a) : (Run.pure a).Meets V F := fun _ _ => holds

theorem Meets.fail {fault : Fault} (holds : F fault) : (Run.fail fault).Meets V F := fun _ _ => holds

theorem Meets.exhausted : Run.exhausted.Meets V F := fun _ _ => trivial

theorem Meets.count : Run.count.Meets (fun _ => True) F := fun _ _ => trivial

theorem Meets.freshMark : Run.freshMark.Meets (fun _ => True) F := fun _ _ => trivial

theorem Meets.record (call : Call) : (Run.record call).Meets (fun _ => True) F := fun _ _ => trivial

theorem Meets.tick (limited : ∀ n, F (.eval (.stepLimitExceeded n))) :
    Run.tick.Meets (fun _ => True) F := by
  intro limit t
  unfold Run.tick
  cases limit with
  | none => trivial
  | some n =>
    dsimp only
    split
    · exact limited n
    · trivial

theorem Meets.ofExcept {r : Except Fault α} (ok : ∀ a, r = .ok a → V a)
    (error : ∀ e, r = .error e → F e) : (Run.ofExcept r).Meets V F := by
  cases r with
  | ok a => exact .pure (ok a rfl)
  | error e => exact .fail (error e rfl)

theorem Meets.bind {x : Run α} {f : α → Run β} (first : x.Meets V F)
    (rest : ∀ a, V a → (f a).Meets W F) : (x.bind f).Meets W F := by
  intro limit t
  have here := first limit t
  unfold Run.bind
  cases h : x limit t with
  | done a t' =>
    rw [h] at here
    exact rest a here limit t'
  | failed e t' =>
    rw [h] at here
    exact here
  | exhausted t' => trivial

theorem Meets.each {f : α → Run β} {xs : List α} (items : ∀ a ∈ xs, (f a).Meets W F) :
    (Run.each f xs).Meets (fun bs => ∀ b ∈ bs, W b) F := by
  induction xs with
  | nil => exact .pure (by simp)
  | cons a rest ih =>
    refine (items a List.mem_cons_self).bind fun b here => ?_
    refine (ih fun a' member => items a' (List.mem_cons_of_mem _ member)).bind fun bs later => ?_
    refine .pure fun b' member => ?_
    rcases List.mem_cons.mp member with rfl | member
    · exact here
    · exact later b' member

end Run

/-! ### Branches -/

theorem selectFrom_mem {index i : Nat} {value : Value} {branches : List Branch} {body : Expr}
    (found : selectFrom index value branches = some (i, body)) :
    ∃ branch ∈ branches, branch.2 = body := by
  induction branches generalizing index with
  | nil => cases found
  | cons branch rest ih =>
    rw [selectFrom] at found
    split at found
    · cases found
      exact ⟨branch, List.mem_cons_self, rfl⟩
    · obtain ⟨other, member, same⟩ := ih found
      exact ⟨other, List.mem_cons_of_mem _ member, same⟩

theorem selectBranch_meets {value : Value} {branches : List Branch} {C : Expr → Prop}
    (bodies : ∀ branch ∈ branches, C branch.2) (none : F (blame .noMatchingPattern value)) :
    (Run.ofExcept (selectBranch value branches)).Meets (fun found => C found.2) F := by
  unfold selectBranch
  cases h : selectFrom 0 value branches with
  | none => exact .fail none
  | some found =>
    obtain ⟨i, body⟩ := found
    obtain ⟨branch, member, rfl⟩ := selectFrom_mem h
    exact .pure (bodies branch member)

/-! ### Invariants -/

structure Invariant where
  value : Value → Prop
  code : Expr → Environment → Prop
  fault : Fault → Prop
  limited (n : Nat) : fault (.eval (.stepLimitExceeded n))
  arity (expected got : Nat) : fault (.eval (.arityMismatch expected got))
  notCallable {v : Value} : value v → fault (blame .notCallable v)
  noMatch {v : Value} : value v → fault (blame .noMatchingPattern v)
  list {items : List Value} : value (.list items) ↔ ∀ v ∈ items, value v
  literal {v : Value} {env : Environment} : code (.literal v) env → value v
  reference {name : Text} {env : Environment} :
    code (.reference name) env → (resolve env name).Meets value fault
  vector {elements : List Expr} {env : Environment} :
    code (.vector elements) env → ∀ e ∈ elements, code e env
  application {f a : Expr} {env : Environment} :
    code (.application f a) env → code f env ∧ code a env
  lambda {params : List Text} {body : Expr} {env : Environment} (mark : Mark) :
    code (.lambda params body) env → value (.closure mark params body env)
  fix {f : Expr} {env : Environment} (mark : Mark) :
    code (.fix f) env → code f env ∧ value (.unfolding mark f env)
  select {scrutinee : Expr} {branches : List Branch} {env : Environment} :
    code (.select scrutinee branches) env →
      code scrutinee env ∧ ∀ branch ∈ branches, code branch.2 env
  closure {mark : Mark} {params : List Text} {body : Expr} {env : Environment} {args : List Value} :
    value (.closure mark params body env) → (∀ v ∈ args, value v) → args.length = params.length →
      code body (Overlay.extend env (params.zip args))
  unfolding {mark : Mark} {f : Expr} {env : Environment} :
    value (.unfolding mark f env) → code (.fix f) env
  primitive {op : Primitive} {args : List Value} (mark : Mark) : (∀ v ∈ args, value v) →
    (Run.ofExcept (op.result mark args)).Meets value fault

namespace Invariant

variable (I : Invariant)

theorem spread {v : Value} (holds : I.value v) : ∀ u ∈ v.spread, I.value u := by
  cases v with
  | list items => exact I.list.mp holds
  | _ =>
    intro u member
    rw [List.mem_singleton.mp member]
    exact holds

variable {ev : Expr → Environment → Run Value} {ap : Value → List Value → Run Value}

theorem unfurl_meets (below : ∀ e env, I.code e env → (ev e env).Meets I.value I.fault)
    (calls : ∀ fn args, I.value fn → (∀ v ∈ args, I.value v) → (ap fn args).Meets I.value I.fault)
    {env : Environment} {e : Expr} (code : I.code e env) :
    (unfurl ev ap env e).Meets I.value I.fault := by
  cases e with
  | literal v => exact .pure (I.literal code)
  | reference name => exact I.reference code
  | vector elements =>
    have elements := I.vector code
    refine (Run.Meets.each fun e member => below e env (elements e member)).bind fun vs holds => ?_
    exact .pure (I.list.mpr holds)
  | application f a =>
    obtain ⟨codeFn, codeArg⟩ := I.application code
    refine (below f env codeFn).bind fun fn holdsFn => ?_
    refine (below a env codeArg).bind fun arg holdsArg => ?_
    exact calls fn _ holdsFn (I.spread holdsArg)
  | lambda params body =>
    rw [unfurl]
    exact Run.Meets.freshMark.bind fun mark _ => .pure (I.lambda mark code)
  | fix f =>
    refine (below f env (I.fix 0 code).1).bind fun fn holds => ?_
    refine Run.Meets.freshMark.bind fun mark _ => calls fn _ holds ?_
    intro v member
    rw [List.mem_singleton.mp member]
    exact (I.fix mark code).2
  | select scrutinee branches =>
    obtain ⟨codeScrutinee, bodies⟩ := I.select code
    refine (below scrutinee env codeScrutinee).bind fun v holds => ?_
    refine (selectBranch_meets (C := (I.code · env)) bodies (I.noMatch holds)).bind fun found code => ?_
    exact below _ env code

theorem invoke_meets (below : ∀ e env, I.code e env → (ev e env).Meets I.value I.fault)
    (calls : ∀ fn args, I.value fn → (∀ v ∈ args, I.value v) → (ap fn args).Meets I.value I.fault)
    {fn : Value} {args : List Value} (holdsFn : I.value fn) (holds : ∀ v ∈ args, I.value v) :
    (invoke ev ap args fn).Meets I.value I.fault := by
  cases fn with
  | closure mark params body env =>
    rw [invoke]
    split
    · rename_i length
      exact below _ _ (I.closure holdsFn holds length)
    · exact .fail (I.arity _ _)
  | unfolding mark f env =>
    exact (below _ env (I.unfolding holdsFn)).bind fun fn holdsFn => calls fn args holdsFn holds
  | builtin mark name op =>
    rw [invoke, callPrimitive_eq]
    refine (Run.Meets.record _).bind fun _ _ => ?_
    exact Run.Meets.freshMark.bind fun mark _ => I.primitive mark holds
  | _ => exact .fail (I.notCallable holdsFn)

theorem depth_meets (depth : Nat) :
    (∀ e env, I.code e env → (evaluate depth e env).Meets I.value I.fault) ∧
      ∀ fn args, I.value fn → (∀ v ∈ args, I.value v) →
        (apply depth fn args).Meets I.value I.fault := by
  induction depth with
  | zero => exact ⟨fun _ _ _ => .exhausted, fun _ _ _ _ => .exhausted⟩
  | succ depth ih =>
    constructor
    · intro e env code
      rw [evaluate_succ]
      exact (Run.Meets.tick I.limited).bind fun _ _ => I.unfurl_meets ih.1 ih.2 code
    · intro fn args holdsFn holds
      rw [apply_succ]
      exact Run.Meets.count.bind fun _ _ => I.invoke_meets ih.1 ih.2 holdsFn holds

end Invariant

end Unfurl
