import Mathlib.Data.List.Forall2
import Unfurl.Proofs.Eval.Layer

/-! `Simulation.depth_related` carries what one layer keeps related to whole runs, with equal counts. -/

namespace Unfurl

variable {α β γ δ : Type} {R : α → β → Prop} {S : γ → δ → Prop} {F : Fault → Fault → Prop}
  {T : Tally → Tally → Prop}

/-! ### Related runs -/

inductive Outcome.Related (R : α → β → Prop) (F : Fault → Fault → Prop) (T : Tally → Tally → Prop) :
    Outcome Fault α → Outcome Fault β → Prop
  | done {a : α} {b : β} {t t' : Tally} : R a b → T t t' → Related R F T (.done a t) (.done b t')
  | failed {e e' : Fault} {t t' : Tally} : F e e' → T t t' → Related R F T (.failed e t) (.failed e' t')
  | exhausted {t t' : Tally} : T t t' → Related R F T (.exhausted t) (.exhausted t')

theorem Outcome.Related.imp {R' : α → β → Prop} {F' : Fault → Fault → Prop} {o : Outcome Fault α}
    {o' : Outcome Fault β} (values : ∀ a b, R a b → R' a b) (faults : ∀ e e', F e e' → F' e e')
    (related : o.Related R F T o') : o.Related R' F' T o' := by
  cases related with
  | done value tallies => exact .done (values _ _ value) tallies
  | failed fault tallies => exact .failed (faults _ _ fault) tallies
  | exhausted tallies => exact .exhausted tallies

inductive ExceptRel (R : α → β → Prop) (F : Fault → Fault → Prop) :
    Except Fault α → Except Fault β → Prop
  | ok {a : α} {b : β} : R a b → ExceptRel R F (.ok a) (.ok b)
  | error {e e' : Fault} : F e e' → ExceptRel R F (.error e) (.error e')

theorem ExceptRel.imp {R' : α → β → Prop} {r : Except Fault α} {s : Except Fault β}
    (weaker : ∀ a b, R a b → R' a b) (related : ExceptRel R F r s) : ExceptRel R' F r s := by
  cases related with
  | ok value => exact .ok (weaker _ _ value)
  | error fault => exact .error fault

namespace Run

/-- From related tallies, under one limit, both runs end alike. -/
def Related (R : α → β → Prop) (F : Fault → Fault → Prop) (T : Tally → Tally → Prop) (x : Run α)
    (y : Run β) : Prop :=
  ∀ limit t t', T t t' → (x limit t).Related R F T (y limit t')

theorem Related.pure {a : α} {b : β} (related : R a b) : Related R F T (Run.pure a) (Run.pure b) :=
  fun _ _ _ tallies => .done related tallies

theorem Related.fail {e e' : Fault} (related : F e e') :
    Related R F T (Run.fail e : Run α) (Run.fail e' : Run β) :=
  fun _ _ _ tallies => .failed related tallies

theorem Related.exhausted : Related R F T (Run.exhausted : Run α) (Run.exhausted : Run β) :=
  fun _ _ _ tallies => .exhausted tallies

theorem Related.ofExcept {r : Except Fault α} {s : Except Fault β} (related : ExceptRel R F r s) :
    Related R F T (Run.ofExcept r) (Run.ofExcept s) := by
  cases related with
  | ok value => exact .pure value
  | error fault => exact .fail fault

theorem Related.bind {x : Run α} {y : Run β} {f : α → Run γ} {g : β → Run δ}
    (first : Related R F T x y) (rest : ∀ a b, R a b → Related S F T (f a) (g b)) :
    Related S F T (x.bind f) (y.bind g) := by
  intro limit t t' tallies
  have here := first limit t t' tallies
  unfold Run.bind
  generalize x limit t = o, y limit t' = o' at here ⊢
  cases here with
  | done related tallies => exact rest _ _ related limit _ _ tallies
  | failed related tallies => exact .failed related tallies
  | exhausted tallies => exact .exhausted tallies

theorem Related.each {f : α → Run γ} {g : β → Run δ} {xs : List α} {ys : List β}
    (items : List.Forall₂ (fun a b => Related S F T (f a) (g b)) xs ys) :
    Related (List.Forall₂ S) F T (Run.each f xs) (Run.each g ys) := by
  induction items with
  | nil => exact .pure .nil
  | cons head _ ih =>
    exact head.bind fun c d related => ih.bind fun cs ds later => .pure (.cons related later)

end Run

/-! ### Tallies in step -/

def CallRel (V : Value → Value → Prop) (c c' : Call) : Prop := c.1 = c'.1 ∧ List.Forall₂ V c.2 c'.2

structure Tally.InStep (V : Value → Value → Prop) (M : Mark → Mark → Prop) (t t' : Tally) : Prop where
  steps : t.steps = t'.steps
  applications : t.applications = t'.applications
  fresh : M t.fresh t'.fresh
  calls : List.Forall₂ (CallRel V) t.calls t'.calls

section Counting

variable {V : Value → Value → Prop} {M : Mark → Mark → Prop}

theorem Run.Related.tick (limited : ∀ n, F (.eval (.stepLimitExceeded n)) (.eval (.stepLimitExceeded n))) :
    Run.Related (fun _ _ => True) F (Tally.InStep V M) Run.tick Run.tick := by
  intro limit t t' inStep
  have ticked : Tally.InStep V M { t with steps := t.steps + 1 } { t' with steps := t'.steps + 1 } :=
    ⟨congrArg (· + 1) inStep.steps, inStep.applications, inStep.fresh, inStep.calls⟩
  unfold Run.tick
  cases limit with
  | none => exact .done trivial ticked
  | some n =>
    dsimp only
    rw [← inStep.steps] at ticked ⊢
    split
    · exact .failed (limited n) ticked
    · exact .done trivial ticked

theorem Run.Related.count :
    Run.Related (fun _ _ => True) F (Tally.InStep V M) Run.count Run.count := by
  intro limit t t' inStep
  exact .done trivial ⟨inStep.steps, congrArg (· + 1) inStep.applications, inStep.fresh, inStep.calls⟩

theorem Run.Related.record {c c' : Call} (related : CallRel V c c') :
    Run.Related (fun _ _ => True) F (Tally.InStep V M) (Run.record c) (Run.record c') := by
  intro limit t t' inStep
  exact .done trivial ⟨inStep.steps, inStep.applications, inStep.fresh, .cons related inStep.calls⟩

theorem Run.Related.freshMark (succ : ∀ m m', M m m' → M (m + 1) (m' + 1)) :
    Run.Related M F (Tally.InStep V M) Run.freshMark Run.freshMark := by
  intro limit t t' inStep
  exact .done inStep.fresh ⟨inStep.steps, inStep.applications, succ _ _ inStep.fresh, inStep.calls⟩

end Counting

/-! ### Simulations -/

/-- The node is a literal or a bound name with this value. -/
inductive Reads (env : Environment) : Expr → Value → Prop
  | literal (v : Value) : Reads env (.literal v) v
  | reference {name : Text} {v : Value} : Overlay.get? env name = some v → Reads env (.reference name) v

/-- How two nodes are related, given what relates values, code and failures. -/
inductive NodeRel (V : Value → Value → Prop) (C : Expr → Environment → Expr → Environment → Prop)
    (F : Fault → Fault → Prop) (M : Mark → Mark → Prop) (env env' : Environment) : Expr → Expr → Prop
  | read {e e' : Expr} {v v' : Value} : Reads env e v → Reads env' e' v' → V v v' →
      NodeRel V C F M env env' e e'
  | missing {name : Text} : Overlay.get? env name = none → Overlay.get? env' name = none →
      F (.eval (.undefinedReference name)) (.eval (.undefinedReference name)) →
      NodeRel V C F M env env' (.reference name) (.reference name)
  | vector {es es' : List Expr} : List.Forall₂ (fun e e' => C e env e' env') es es' →
      NodeRel V C F M env env' (.vector es) (.vector es')
  | application {f a f' a' : Expr} : C f env f' env' → C a env a' env' →
      NodeRel V C F M env env' (.application f a) (.application f' a')
  | lambda {params params' : List Text} {body body' : Expr} :
      (∀ m m', M m m' → V (.closure m params body env) (.closure m' params' body' env')) →
      NodeRel V C F M env env' (.lambda params body) (.lambda params' body')
  | fix {f f' : Expr} : C f env f' env' →
      (∀ m m', M m m' → V (.unfolding m f env) (.unfolding m' f' env')) →
      NodeRel V C F M env env' (.fix f) (.fix f')
  | select {s s' : Expr} {branches branches' : List Branch} : C s env s' env' →
      (∀ v v', V v v' → ExceptRel (fun found found' => C found.2 env found'.2 env') F
        (selectBranch v branches) (selectBranch v' branches')) →
      NodeRel V C F M env env' (.select s branches) (.select s' branches')

/-- How two values are called alike. -/
inductive CalleeRel (V : Value → Value → Prop) (C : Expr → Environment → Expr → Environment → Prop)
    (F : Fault → Fault → Prop) : Value → Value → Prop
  | closure {m m' : Mark} {params params' : List Text} {body body' : Expr} {env env' : Environment} :
      params.length = params'.length →
      (∀ args args', List.Forall₂ V args args' → args.length = params.length →
        C body (Overlay.extend env (params.zip args)) body' (Overlay.extend env' (params'.zip args'))) →
      CalleeRel V C F (.closure m params body env) (.closure m' params' body' env')
  | unfolding {m m' : Mark} {f f' : Expr} {env env' : Environment} : C (.fix f) env (.fix f') env' →
      CalleeRel V C F (.unfolding m f env) (.unfolding m' f' env')
  | builtin {m m' : Mark} {name name' : Text} (op : Primitive) :
      CalleeRel V C F (.builtin m name op) (.builtin m' name' op)
  | other {v v' : Value} : v.isFunction = false → v'.isFunction = false →
      F (blame .notCallable v) (blame .notCallable v') → CalleeRel V C F v v'

structure Simulation where
  value : Value → Value → Prop
  code : Expr → Environment → Expr → Environment → Prop
  fault : Fault → Fault → Prop
  mark : Mark → Mark → Prop
  mark_succ (m m' : Mark) : mark m m' → mark (m + 1) (m' + 1)
  limited (n : Nat) : fault (.eval (.stepLimitExceeded n)) (.eval (.stepLimitExceeded n))
  arity (expected got : Nat) :
    fault (.eval (.arityMismatch expected got)) (.eval (.arityMismatch expected got))
  node {e e' : Expr} {env env' : Environment} :
    code e env e' env' → NodeRel value code fault mark env env' e e'
  callee {fn fn' : Value} : value fn fn' → CalleeRel value code fault fn fn'
  list {items items' : List Value} : List.Forall₂ value items items' →
    value (.list items) (.list items')
  spread {v v' : Value} : value v v' → List.Forall₂ value v.spread v'.spread
  primitive {op : Primitive} {m m' : Mark} {args args' : List Value} : mark m m' →
    List.Forall₂ value args args' → ExceptRel value fault (op.result m args) (op.result m' args')

namespace Simulation

variable (S : Simulation)

abbrev Runs (x y : Run Value) : Prop :=
  Run.Related S.value S.fault (Tally.InStep S.value S.mark) x y

variable {ev ev' : Expr → Environment → Run Value} {ap ap' : Value → List Value → Run Value}

theorem unfurl_read {env : Environment} {e : Expr} {v : Value} (reads : Reads env e v) :
    unfurl ev ap env e = Run.pure v := by
  cases reads with
  | literal => rfl
  | reference found => simp [unfurl, resolve, Environment.lookup, found]

theorem unfurl_missing {env : Environment} {name : Text} (missing : Overlay.get? env name = none) :
    unfurl ev ap env (.reference name) = Run.fail (.eval (.undefinedReference name)) := by
  simp [unfurl, resolve, Environment.lookup, missing]

theorem unfurl_related
    (below : ∀ e env e' env', S.code e env e' env' → S.Runs (ev e env) (ev' e' env'))
    (calls : ∀ fn fn' args args', S.value fn fn' → List.Forall₂ S.value args args' →
      S.Runs (ap fn args) (ap' fn' args'))
    {e e' : Expr} {env env' : Environment} (code : S.code e env e' env') :
    S.Runs (unfurl ev ap env e) (unfurl ev' ap' env' e') := by
  cases S.node code with
  | read reads reads' related =>
    rw [unfurl_read reads, unfurl_read reads']
    exact .pure related
  | missing absent absent' related =>
    rw [unfurl_missing absent, unfurl_missing absent']
    exact .fail related
  | vector elements =>
    refine (Run.Related.each (elements.imp fun e e' code => below e env e' env' code)).bind ?_
    exact fun values values' related => .pure (S.list related)
  | application codeFn codeArg =>
    refine (below _ _ _ _ codeFn).bind fun fn fn' relatedFn => ?_
    refine (below _ _ _ _ codeArg).bind fun arg arg' relatedArg => ?_
    exact calls _ _ _ _ relatedFn (S.spread relatedArg)
  | lambda created =>
    rw [unfurl, unfurl]
    exact (Run.Related.freshMark S.mark_succ).bind fun m m' marks => .pure (created m m' marks)
  | fix codeFn created =>
    refine (below _ _ _ _ codeFn).bind fun fn fn' relatedFn => ?_
    refine (Run.Related.freshMark S.mark_succ).bind fun m m' marks => ?_
    exact calls _ _ _ _ relatedFn (.cons (created m m' marks) .nil)
  | select codeScrutinee branches =>
    refine (below _ _ _ _ codeScrutinee).bind fun v v' related => ?_
    refine (Run.Related.ofExcept (branches v v' related)).bind fun found found' codeBody => ?_
    exact below _ _ _ _ codeBody

theorem invoke_other {v : Value} (data : v.isFunction = false) (args : List Value) :
    invoke ev ap args v = Run.fail (blame .notCallable v) := by
  cases v with
  | closure | builtin | unfolding => cases data
  | _ => rfl

theorem invoke_related
    (below : ∀ e env e' env', S.code e env e' env' → S.Runs (ev e env) (ev' e' env'))
    (calls : ∀ fn fn' args args', S.value fn fn' → List.Forall₂ S.value args args' →
      S.Runs (ap fn args) (ap' fn' args'))
    {fn fn' : Value} {args args' : List Value} (relatedFn : S.value fn fn')
    (related : List.Forall₂ S.value args args') :
    S.Runs (invoke ev ap args fn) (invoke ev' ap' args' fn') := by
  cases S.callee relatedFn with
  | closure arity body =>
    rw [invoke, invoke, ← arity, ← related.length_eq]
    split
    · rename_i length
      exact below _ _ _ _ (body args args' related length)
    · exact .fail (S.arity _ _)
  | unfolding code =>
    exact (below _ _ _ _ code).bind fun fn fn' relatedFn => calls _ _ _ _ relatedFn related
  | builtin op =>
    rw [invoke, invoke, callPrimitive_eq, callPrimitive_eq]
    have called : CallRel S.value (op, args) (op, args') := ⟨rfl, related⟩
    refine (Run.Related.record called).bind fun _ _ _ => ?_
    refine (Run.Related.freshMark S.mark_succ).bind fun m m' marks => ?_
    exact .ofExcept (S.primitive marks related)
  | other data data' fault =>
    rw [invoke_other data, invoke_other data']
    exact .fail fault

theorem depth_related (depth : Nat) :
    (∀ e env e' env', S.code e env e' env' → S.Runs (evaluate depth e env) (evaluate depth e' env')) ∧
      ∀ fn fn' args args', S.value fn fn' → List.Forall₂ S.value args args' →
        S.Runs (apply depth fn args) (apply depth fn' args') := by
  induction depth with
  | zero => exact ⟨fun _ _ _ _ _ => .exhausted, fun _ _ _ _ _ _ => .exhausted⟩
  | succ depth ih =>
    constructor
    · intro e env e' env' code
      rw [evaluate_succ, evaluate_succ]
      exact (Run.Related.tick S.limited).bind fun _ _ _ => S.unfurl_related ih.1 ih.2 code
    · intro fn fn' args args' relatedFn related
      rw [apply_succ, apply_succ]
      exact Run.Related.count.bind fun _ _ _ => S.invoke_related ih.1 ih.2 relatedFn related

end Simulation

end Unfurl
