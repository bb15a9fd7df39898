import Unfurl.Proofs.Eval.Layer
import Unfurl.Proofs.Eval.Primitive

/-!
`candid` and `candidApply` evaluate and call without regard to quoting, so that a failure over a value that
cannot be quoted still says what it is about.
-/

namespace Unfurl

variable {α β : Type}

/-- A failure as it reaches the caller: over a value that cannot be quoted, it is that this cannot be. -/
def Fault.surfaced : Fault → Fault
  | .eval (.notCallable v) => blame .notCallable v
  | .eval (.noMatchingPattern v) => blame .noMatchingPattern v
  | fault => fault

def Outcome.surfaced : Outcome Fault α → Outcome Fault α
  | .done a t => .done a t
  | .failed fault t => .failed fault.surfaced t
  | .exhausted t => .exhausted t

def Run.surfaced (x : Run α) : Run α := fun limit t => (x limit t).surfaced

/-! ### Candid evaluation -/

def candidNode (ev : Expr → Environment → Run Value) (ap : Value → List Value → Run Value)
    (env : Environment) : Expr → Run Value
  | .select scrutinee branches =>
    (ev scrutinee env).bind fun value =>
      match selectFrom 0 value branches with
      | some found => ev found.2 env
      | none => Run.fail (.eval (.noMatchingPattern value))
  | e => unfurl ev ap env e

def candidCall (ev : Expr → Environment → Run Value) (ap : Value → List Value → Run Value)
    (args : List Value) (fn : Value) : Run Value :=
  if fn.isFunction then invoke ev ap args fn else Run.fail (.eval (.notCallable fn))

mutual

def candid : (depth : Nat) → Expr → Environment → Run Value
  | 0, _, _ => Run.exhausted
  | depth + 1, e, env => Run.tick.bind fun _ => candidNode (candid depth) (candidApply depth) env e

def candidApply : (depth : Nat) → Value → List Value → Run Value
  | 0, _, _ => Run.exhausted
  | depth + 1, fn, args =>
    Run.count.bind fun _ => candidCall (candid depth) (candidApply depth) args fn

end

/-! ### Runs that surface -/

namespace Run

theorem surfaced_bind (x : Run α) (f : α → Run β) :
    (x.bind f).surfaced = x.surfaced.bind fun a => (f a).surfaced := by
  funext limit t
  unfold Run.surfaced Run.bind
  dsimp only
  cases x limit t <;> rfl

theorem surfaced_each (f : α → Run β) (xs : List α) :
    (Run.each f xs).surfaced = Run.each (fun a => (f a).surfaced) xs := by
  induction xs with
  | nil => rfl
  | cons a rest ih =>
    rw [Run.each, Run.each, surfaced_bind]
    congr 1
    funext b
    rw [surfaced_bind, ih]
    rfl

theorem surfaced_tick : Run.tick.surfaced = Run.tick := by
  funext limit t
  unfold Run.surfaced Run.tick
  cases limit with
  | none => rfl
  | some n =>
    dsimp only
    split <;> rfl

end Run

theorem resolve_surfaced (env : Environment) (name : Text) :
    (resolve env name).surfaced = resolve env name := by
  unfold resolve Environment.lookup
  cases Overlay.get? env name <;> rfl

theorem callPrimitive_surfaced (op : Primitive) (args : List Value) :
    (callPrimitive op args).surfaced = callPrimitive op args := by
  have result : ∀ mark, (Run.ofExcept (op.result mark args)).surfaced = Run.ofExcept (op.result mark args) := by
    intro mark
    cases h : op.result mark args with
    | ok v => rfl
    | error fault => rcases Primitive.result_refuses h with rfl | ⟨rfl, _⟩ <;> rfl
  rw [callPrimitive_eq, Run.surfaced_bind]
  congr 1
  funext _
  rw [Run.surfaced_bind]
  congr 1
  funext mark
  exact result mark

/-! ### One layer -/

section Layers

variable (ev : Expr → Environment → Run Value) (ap : Value → List Value → Run Value)

theorem candidNode_surfaced (env : Environment) (e : Expr) :
    (candidNode ev ap env e).surfaced =
      unfurl (fun e env => (ev e env).surfaced) (fun fn args => (ap fn args).surfaced) env e := by
  cases e with
  | literal v => rfl
  | reference name => exact resolve_surfaced env name
  | vector elements =>
    simp only [candidNode, unfurl, Run.surfaced_bind, Run.surfaced_each]
    rfl
  | application f a => simp only [candidNode, unfurl, Run.surfaced_bind]
  | lambda params body => rfl
  | fix f =>
    simp only [candidNode, unfurl, Run.surfaced_bind]
    rfl
  | select scrutinee branches =>
    simp only [candidNode, unfurl, Run.surfaced_bind]
    congr 1
    funext v
    unfold selectBranch
    cases selectFrom 0 v branches <;> rfl

theorem candidCall_surfaced (args : List Value) (fn : Value) :
    (candidCall ev ap args fn).surfaced =
      invoke (fun e env => (ev e env).surfaced) (fun fn args => (ap fn args).surfaced) args fn := by
  cases fn with
  | closure mark params body env =>
    rw [candidCall, Value.isFunction, if_pos rfl, invoke, invoke]
    split <;> rfl
  | unfolding mark f env => exact Run.surfaced_bind _ _
  | builtin mark name op => exact callPrimitive_surfaced op args
  | _ => rfl

end Layers

theorem candid_surfaced (depth : Nat) :
    (∀ e env, (candid depth e env).surfaced = evaluate depth e env) ∧
      ∀ fn args, (candidApply depth fn args).surfaced = apply depth fn args := by
  induction depth with
  | zero => exact ⟨fun _ _ => rfl, fun _ _ => rfl⟩
  | succ depth ih =>
    have below : (fun e env => (candid depth e env).surfaced) = evaluate depth :=
      funext fun e => funext (ih.1 e)
    have calls : (fun fn args => (candidApply depth fn args).surfaced) = apply depth :=
      funext fun fn => funext (ih.2 fn)
    constructor
    · intro e env
      rw [candid, Run.surfaced_bind, Run.surfaced_tick, evaluate_succ]
      simp only [candidNode_surfaced, below, calls]
    · intro fn args
      rw [candidApply, Run.surfaced_bind, apply_succ]
      simp only [candidCall_surfaced, below, calls]
      rfl

end Unfurl
