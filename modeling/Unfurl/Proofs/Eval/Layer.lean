import Unfurl.Eval.Evaluate

/-! What the combinators of `Run` preserve passes through a layer by `Closed.unfurl` and `Closed.invoke`. -/

namespace Unfurl

/-! ### Layers -/

theorem evaluate_succ (depth : Nat) (e : Expr) (env : Environment) :
    evaluate (depth + 1) e env =
      Run.tick.bind fun _ => unfurl (evaluate depth) (apply depth) env e := rfl

theorem apply_succ (depth : Nat) (fn : Value) (args : List Value) :
    apply (depth + 1) fn args =
      Run.count.bind fun _ => invoke (evaluate depth) (apply depth) args fn := rfl

theorem callPrimitive_eq (op : Primitive) (args : List Value) :
    callPrimitive op args = (Run.record (op, args)).bind fun _ =>
      Run.freshMark.bind fun mark => Run.ofExcept (op.result mark args) := rfl

/-! ### Results of runs -/

theorem Run.bind_done {α β : Type} {x : Run α} {f : α → Run β} {limit : Option Nat} {t t' : Tally}
    {b : β} (done : x.bind f limit t = .done b t') :
    ∃ a t₁, x limit t = .done a t₁ ∧ f a limit t₁ = .done b t' := by
  unfold Run.bind at done
  cases h : x limit t with
  | done a t₁ =>
    rw [h] at done
    exact ⟨a, t₁, rfl, done⟩
  | failed e t₁ =>
    rw [h] at done
    cases done
  | exhausted t₁ =>
    rw [h] at done
    cases done

theorem Run.tick_done {limit : Option Nat} {t t' : Tally} {u : Unit}
    (done : Run.tick limit t = .done u t') :
    t' = { t with steps := t.steps + 1 } ∧ ∀ n, limit = some n → t.steps + 1 ≤ n := by
  cases limit with
  | none =>
    cases done
    exact ⟨rfl, fun n h => by cases h⟩
  | some m =>
    simp only [Run.tick] at done
    split at done
    · cases done
    · rename_i within
      cases done
      exact ⟨rfl, fun n h => by cases h; omega⟩

/-! ### Properties that combinators preserve -/

/-- A property of runs that holds of the simple ones and passes from the parts of a bind to the whole. -/
structure Run.Closed (P : (α : Type) → Run α → Prop) : Prop where
  pure {α : Type} (a : α) : P α (Run.pure a)
  fail {α : Type} (fault : Fault) : P α (Run.fail fault)
  freshMark : P Mark Run.freshMark
  record (call : Call) : P Unit (Run.record call)
  bind {α β : Type} {x : Run α} {f : α → Run β} : P α x → (∀ a, P β (f a)) → P β (x.bind f)

namespace Run.Closed

variable {P : (α : Type) → Run α → Prop}

theorem ofExcept {α : Type} (closed : Closed P) (r : Except Fault α) : P α (Run.ofExcept r) := by
  cases r with
  | ok a => exact closed.pure a
  | error e => exact closed.fail e

theorem each {α β : Type} (closed : Closed P) {f : α → Run β} (items : ∀ a, P β (f a))
    (xs : List α) : P (List β) (Run.each f xs) := by
  induction xs with
  | nil => exact closed.pure []
  | cons a rest ih =>
    exact closed.bind (items a) fun _ => closed.bind ih fun _ => closed.pure _

theorem resolve (closed : Closed P) (env : Environment) (name : Text) :
    P Value (Unfurl.resolve env name) := by
  unfold Unfurl.resolve
  split
  · exact closed.pure _
  · exact closed.fail _

theorem callPrimitive (closed : Closed P) (op : Primitive) (args : List Value) :
    P Value (Unfurl.callPrimitive op args) := by
  rw [callPrimitive_eq]
  exact closed.bind (closed.record _) fun _ => closed.bind closed.freshMark fun _ => closed.ofExcept _

variable {ev : Expr → Environment → Run Value} {ap : Value → List Value → Run Value}

theorem unfurl (closed : Closed P) (below : ∀ e env, P Value (ev e env))
    (calls : ∀ fn args, P Value (ap fn args)) (env : Environment) (e : Expr) :
    P Value (Unfurl.unfurl ev ap env e) := by
  cases e with
  | literal value => exact closed.pure value
  | reference name => exact closed.resolve env name
  | vector elements =>
    exact closed.bind (closed.each (fun element => below element env) elements) fun _ => closed.pure _
  | application f a =>
    exact closed.bind (below f env) fun _ => closed.bind (below a env) fun _ => calls _ _
  | lambda params body =>
    rw [Unfurl.unfurl]
    exact closed.bind closed.freshMark fun _ => closed.pure _
  | fix f =>
    exact closed.bind (below f env) fun _ => closed.bind closed.freshMark fun _ => calls _ _
  | select scrutinee branches =>
    exact closed.bind (below scrutinee env) fun _ =>
      closed.bind (closed.ofExcept _) fun _ => below _ env

theorem invoke (closed : Closed P) (below : ∀ e env, P Value (ev e env))
    (calls : ∀ fn args, P Value (ap fn args)) (args : List Value) (fn : Value) :
    P Value (Unfurl.invoke ev ap args fn) := by
  cases fn with
  | closure mark params body env =>
    rw [Unfurl.invoke]
    split
    · exact below _ _
    · exact closed.fail _
  | unfolding mark f env => exact closed.bind (below _ env) fun _ => calls _ _
  | builtin mark name op => exact closed.callPrimitive op args
  | _ => exact closed.fail _

end Run.Closed

end Unfurl
