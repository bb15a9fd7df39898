import Unfurl.Definitions.Starting
import Unfurl.Proofs.Eval.Layer

/-! Without the list of functions made, `note` and `noteCall` are `evaluate` and `apply` (`note_run`). -/

namespace Unfurl

variable {α β : Type}

/-- A run, and the functions made in it. -/
structure Noted (α : Type) where
  run : Run α
  made : Option Nat → Tally → List Value

namespace Noted

def silent (x : Run α) : Noted α := ⟨x, fun _ _ => []⟩

def make (new : Mark → Value) : Noted Value where
  run := Run.freshMark.bind fun mark => Run.pure (new mark)
  made _ t := [new t.fresh]

protected def bind (x : Noted α) (f : α → Noted β) : Noted β where
  run := x.run.bind fun a => (f a).run
  made limit t := x.made limit t ++
    match x.run limit t with
    | .done a t' => (f a).made limit t'
    | _ => []

def each (f : α → Noted β) : List α → Noted (List β)
  | [] => silent (Run.pure [])
  | a :: rest => (f a).bind fun b => (each f rest).bind fun bs => silent (Run.pure (b :: bs))

theorem each_run (f : α → Noted β) (xs : List α) :
    (each f xs).run = Run.each (fun a => (f a).run) xs := by
  induction xs with
  | nil => rfl
  | cons a rest ih =>
    show (f a).run.bind (fun b => (each f rest).run.bind fun bs => Run.pure (b :: bs)) = _
    rw [ih]
    rfl

end Noted

/-! ### One layer -/

def noteNode (ev : Expr → Environment → Noted Value) (ap : Value → List Value → Noted Value)
    (env : Environment) : Expr → Noted Value
  | .vector elements =>
    (Noted.each (fun element => ev element env) elements).bind fun values =>
      .silent (Run.pure (.list values))
  | .application f a => (ev f env).bind fun fn => (ev a env).bind fun arg => ap fn arg.spread
  | .lambda params body => .make fun mark => .closure mark params body env
  | .fix f =>
    (ev f env).bind fun fn => (Noted.make fun mark => .unfolding mark f env).bind fun self => ap fn [self]
  | .select scrutinee branches =>
    (ev scrutinee env).bind fun value =>
      (Noted.silent (Run.ofExcept (selectBranch value branches))).bind fun found => ev found.2 env
  | .literal value => .silent (Run.pure value)
  | .reference name => .silent (resolve env name)

def noteCallee (ev : Expr → Environment → Noted Value) (ap : Value → List Value → Noted Value)
    (args : List Value) : Value → Noted Value
  | .closure _ params body env =>
    if args.length = params.length then ev body (Overlay.extend env (params.zip args))
    else .silent (Run.fail (.eval (.arityMismatch params.length args.length)))
  | .unfolding _ f env => (ev (.fix f) env).bind fun fn => ap fn args
  | .builtin _ _ op => .silent (callPrimitive op args)
  | value => .silent (Run.fail (blame .notCallable value))

section Layer

variable {ev : Expr → Environment → Noted Value} {ap : Value → List Value → Noted Value}

theorem noteNode_run (env : Environment) (e : Expr) :
    (noteNode ev ap env e).run =
      unfurl (fun e env => (ev e env).run) (fun fn args => (ap fn args).run) env e := by
  cases e with
  | vector elements =>
    show (Noted.each _ elements).run.bind _ = _
    rw [Noted.each_run]
    rfl
  | _ => rfl

theorem noteCallee_run (args : List Value) (fn : Value) :
    (noteCallee ev ap args fn).run =
      invoke (fun e env => (ev e env).run) (fun fn args => (ap fn args).run) args fn := by
  cases fn with
  | closure mark params body env =>
    simp only [noteCallee, invoke]
    split <;> rfl
  | _ => rfl

end Layer

/-! ### Evaluations and calls -/

mutual

def note : (depth : Nat) → Expr → Environment → Noted Value
  | 0, _, _ => .silent Run.exhausted
  | depth + 1, e, env => (Noted.silent Run.tick).bind fun _ => noteNode (note depth) (noteCall depth) env e

def noteCall : (depth : Nat) → Value → List Value → Noted Value
  | 0, _, _ => .silent Run.exhausted
  | depth + 1, fn, args =>
    (Noted.silent Run.count).bind fun _ => noteCallee (note depth) (noteCall depth) args fn

end

theorem note_run (depth : Nat) :
    (∀ e env, (note depth e env).run = evaluate depth e env) ∧
      ∀ fn args, (noteCall depth fn args).run = apply depth fn args := by
  induction depth with
  | zero => exact ⟨fun _ _ => rfl, fun _ _ => rfl⟩
  | succ depth ih =>
    have below : (fun e env => (note depth e env).run) = evaluate depth :=
      funext fun e => funext fun env => ih.1 e env
    have calls : (fun fn args => (noteCall depth fn args).run) = apply depth :=
      funext fun fn => funext fun args => ih.2 fn args
    constructor
    · intro e env
      rw [evaluate_succ, ← below, ← calls]
      show Run.tick.bind (fun _ => (noteNode _ _ env e).run) = _
      simp only [noteNode_run]
    · intro fn args
      rw [apply_succ, ← below, ← calls]
      show Run.count.bind (fun _ => (noteCallee _ _ args fn).run) = _
      simp only [noteCallee_run]

/-! ### Loads -/

def madeByLoad (depth : Nat) : List Definition → Environment → Tally → List Value
  | [], _, _ => []
  | (name, e) :: rest, env, t =>
    (note depth e env).made none t ++
      match evaluate depth e env none t with
      | .done value t' => madeByLoad depth rest (Overlay.set env name value) t'
      | _ => []

/-- Primitives as functions, with consecutive marks from `mark` on. -/
def builtinsFrom (mark : Mark) : List Primitive → List Value
  | [] => []
  | op :: rest => .builtin mark op.name op :: builtinsFrom (mark + 1) rest

def madeByBootstrap (depth : Nat) (t : Tally) : List Value :=
  builtinsFrom t.fresh genesisPrimitives ++
    madeByLoad depth genesisDefinitions (genesis t).1 (genesis t).2

/-- The functions that go into a starting environment: one for each primitive, and those that its
definitions make. -/
def Starting.made (depth : Nat) (start : Starting) (t : Tally) : List Value :=
  match start with
  | .empty => []
  | .genesis => builtinsFrom t.fresh genesisPrimitives
  | .bootstrap => madeByBootstrap depth t
  | .prelude =>
    madeByBootstrap depth t ++
      match (Unfurl.bootstrap depth t).outcome with
      | .done env t' => madeByLoad depth Prelude.definitions env t'
      | _ => []

end Unfurl
