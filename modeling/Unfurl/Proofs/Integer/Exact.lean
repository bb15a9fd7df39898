import Mathlib.Algebra.Ring.Int.Defs
import Unfurl.Proofs.Definitions.Loading
import Unfurl.Proofs.Eval.Candid
import Unfurl.Proofs.Eval.Invariant
import Unfurl.Proofs.Integer.Integral
import Unfurl.Proofs.Scope.Starting

namespace Unfurl

/-! ### Candid runs -/

/-- Every result is integral and every failure is an evaluation error. -/
abbrev Run.StaysIntegral (x : Run Value) : Prop :=
  x.Meets Value.Integral fun fault => ∃ error, fault = .eval error

variable {ev : Expr → Environment → Run Value} {ap : Value → List Value → Run Value}

theorem resolve_integral {env : Environment} (values : Environment.Integral env) (name : Text) :
    (resolve env name).StaysIntegral := by
  unfold resolve Environment.lookup
  cases found : Overlay.get? env name with
  | none => exact .fail ⟨_, rfl⟩
  | some v => exact .pure (values _ (Overlay.mem_of_get? found))

theorem callPrimitive_integral {op : Primitive} {args : List Value} (values : ∀ v ∈ args, v.Integral) :
    (callPrimitive op args).StaysIntegral := by
  rw [callPrimitive_eq]
  refine (Run.Meets.record _).bind fun _ _ => Run.Meets.freshMark.bind fun mark _ => ?_
  refine .ofExcept (fun v ok => result_integral values ok) fun fault error => ?_
  exact ⟨_, result_integral_error values error⟩

theorem candidNode_integral
    (below : ∀ e env, e.Integral → Environment.Integral env → (ev e env).StaysIntegral)
    (calls : ∀ fn args, fn.Integral → (∀ v ∈ args, v.Integral) → (ap fn args).StaysIntegral)
    {e : Expr} {env : Environment} (integral : e.Integral) (values : Environment.Integral env) :
    (candidNode ev ap env e).StaysIntegral := by
  cases e with
  | literal v => exact .pure (integral v (List.mem_singleton.mpr rfl))
  | reference name => exact resolve_integral values name
  | vector elements =>
    have elements := integral.vector
    refine (Run.Meets.each fun e member => below e env (elements e member) values).bind fun vs items => ?_
    exact .pure (Value.integral_list.mpr items)
  | application f a =>
    obtain ⟨first, second⟩ := integral.application
    refine (below f env first values).bind fun fn callee => ?_
    refine (below a env second values).bind fun arg argument => ?_
    exact calls fn _ callee argument.spread
  | lambda params body =>
    rw [candidNode, unfurl]
    · exact Run.Meets.freshMark.bind fun mark _ => .pure (integral_closure.mpr ⟨integral, values⟩)
    · simp
  | fix f =>
    refine (below f env integral values).bind fun fn callee => ?_
    refine Run.Meets.freshMark.bind fun mark _ => calls fn _ callee ?_
    exact List.forall_mem_singleton.mpr (integral_unfolding.mpr ⟨integral, values⟩)
  | select scrutinee branches =>
    obtain ⟨first, bodies⟩ := integral.select
    refine (below scrutinee env first values).bind fun v _ => ?_
    cases found : selectFrom 0 v branches with
    | none => exact .fail ⟨_, rfl⟩
    | some pair =>
      obtain ⟨i, body⟩ := pair
      obtain ⟨branch, member, rfl⟩ := selectFrom_mem found
      exact below branch.2 env (bodies branch member) values

theorem candidCall_integral
    (below : ∀ e env, e.Integral → Environment.Integral env → (ev e env).StaysIntegral)
    (calls : ∀ fn args, fn.Integral → (∀ v ∈ args, v.Integral) → (ap fn args).StaysIntegral)
    {fn : Value} {args : List Value} (callee : fn.Integral) (values : ∀ v ∈ args, v.Integral) :
    (candidCall ev ap args fn).StaysIntegral := by
  cases fn with
  | closure mark params body env =>
    obtain ⟨code, captured⟩ := integral_closure.mp callee
    rw [candidCall, Value.isFunction, if_pos rfl, invoke]
    split
    · exact below body _ code (Overlay.forall_extend captured params values)
    · exact .fail ⟨_, rfl⟩
  | unfolding mark f env =>
    obtain ⟨code, captured⟩ := integral_unfolding.mp callee
    exact (below (.fix f) env code captured).bind fun fn callee => calls fn args callee values
  | builtin mark name op => exact callPrimitive_integral values
  | _ => exact .fail ⟨_, rfl⟩

theorem candid_integral (depth : Nat) :
    (∀ e env, e.Integral → Environment.Integral env → (candid depth e env).StaysIntegral) ∧
      ∀ fn args, fn.Integral → (∀ v ∈ args, v.Integral) →
        (candidApply depth fn args).StaysIntegral := by
  induction depth with
  | zero => exact ⟨fun _ _ _ _ => .exhausted, fun _ _ _ _ => .exhausted⟩
  | succ depth ih =>
    constructor
    · intro e env integral values
      rw [candid]
      exact (Run.Meets.tick fun n => ⟨_, rfl⟩).bind fun _ _ => candidNode_integral ih.1 ih.2 integral values
    · intro fn args callee values
      rw [candidApply]
      exact Run.Meets.count.bind fun _ _ => candidCall_integral ih.1 ih.2 callee values

/-! ### Runs as they surface -/

theorem evaluate_integral {e : Expr} {env : Environment} (integral : e.Integral)
    (values : Environment.Integral env) {depth : Nat} {limit : Option Nat} {t t' : Tally} {v : Value}
    (done : evaluate depth e env limit t = .done v t') : v.Integral := by
  have stays := (candid_integral depth).1 e env integral values limit t
  rw [← (candid_surfaced depth).1, Run.surfaced] at done
  cases ends : candid depth e env limit t with
  | done u t₁ =>
    rw [ends] at done stays
    cases done
    exact stays
  | failed | exhausted =>
    rw [ends] at done
    cases done

theorem evaluate_failed_integral {e : Expr} {env : Environment} (integral : e.Integral)
    (values : Environment.Integral env) {depth : Nat} {limit : Option Nat} {t t' : Tally} {fault : Fault}
    (failed : evaluate depth e env limit t = .failed fault t') :
    ∃ error, candid depth e env limit t = .failed (.eval error) t' ∧
      fault = (Fault.eval error).surfaced := by
  have stays := (candid_integral depth).1 e env integral values limit t
  rw [← (candid_surfaced depth).1, Run.surfaced] at failed
  cases ends : candid depth e env limit t with
  | failed cause t₁ =>
    rw [ends] at failed stays
    obtain ⟨error, rfl⟩ := stays
    cases failed
    exact ⟨error, rfl, rfl⟩
  | done | exhausted =>
    rw [ends] at failed
    cases failed

theorem surfaced_ne_overflow (error : EvalError) : (Fault.eval error).surfaced ≠ .overflow := by
  cases error with
  | notCallable v | noMatchingPattern v =>
    rw [Fault.surfaced, blame]
    split <;> simp
  | _ => simp [Fault.surfaced]

/-! ### Starting environments -/

theorem genesis_integral (t : Tally) : Environment.Integral (genesis t).1 := by
  intro pair member
  rcases mem_bindFrom member with old | ⟨m, op, _, builtin⟩
  · cases old
  · rw [builtin]
    exact Value.throughout_of_plain trivial rfl

theorem Evaluated.integral {depth : Nat} {base : Environment} {t t₁ : Tally}
    {done : List (Definition × Value)} (evaluated : Evaluated depth base t done t₁)
    (values : Environment.Integral base) (code : ∀ x ∈ done, x.1.2.Integral) :
    Environment.Integral (Overlay.extend base (bindings done)) := by
  induction evaluated with
  | nil => exact values
  | snoc _ here ih =>
    obtain ⟨before, last⟩ := List.forall_mem_append.mp code
    have integral := evaluate_integral (last _ (List.mem_singleton.mpr rfl)) (ih before) here
    rw [bindings_snoc]
    exact Overlay.forall_set (ih before) _ integral

theorem load_integral {depth : Nat} {defs : List Definition} {base env : Environment} {t t' : Tally}
    (values : Environment.Integral base) (code : ∀ d ∈ defs, d.2.Integral)
    (done : (load depth defs base t).outcome = .done env t') : Environment.Integral env := by
  generalize loaded : load depth defs base t = loading at done
  cases load_iff.mp loaded with
  | done evaluated =>
    cases done
    exact evaluated.integral values fun x member => code _ (List.mem_map_of_mem member)
  | failed => cases done
  | exhausted => cases done

theorem definitions_integral : ∀ d ∈ genesisDefinitions ++ Prelude.definitions, d.2.Integral := by
  have plain : ∀ d ∈ genesisDefinitions ++ Prelude.definitions, ∀ v ∈ d.2.literals,
      v.Exact ∧ v.held.isEmpty = true := by
    decide +kernel
  intro d member v literal
  obtain ⟨exact, empty⟩ := plain d member v literal
  exact Value.throughout_of_plain exact (List.isEmpty_iff.mp empty)

theorem starting_integral {start : Starting} {depth : Nat} {t t' : Tally} {env : Environment}
    (done : (start.load depth t).outcome = .done env t') : Environment.Integral env := by
  obtain ⟨markers, functions⟩ := List.forall_mem_append.mp definitions_integral
  cases start with
  | empty =>
    cases done
    simp [Environment.Integral]
  | genesis =>
    cases done
    exact genesis_integral t
  | bootstrap => exact load_integral (genesis_integral t) markers done
  | prelude =>
    -- The prelude is loaded behind the markers, so both are one load over the primitives.
    have whole : (load depth (genesisDefinitions ++ Prelude.definitions) (genesis t).1 (genesis t).2).outcome
        = .done env t' := by
      rw [load_append]
      exact done
    exact load_integral (genesis_integral t) definitions_integral whole

/-! ### Exactness -/

/-- Evaluation is candid evaluation whose failures surface. The starting environments are integral. In any
integral environment, an integral expression returns an integral value and never overflows. If it fails,
then with an evaluation error, which surfaces as it is unless it is over a value that cannot be quoted. -/
theorem integers_exact :
    (∀ (depth : Nat) (e : Expr) (env : Environment),
      evaluate depth e env = (candid depth e env).surfaced) ∧
    (∀ (start : Starting) (depth : Nat) (t : Tally), 7 ≤ depth →
      ∃ env t', (start.load depth t).outcome = .done env t' ∧ Environment.Integral env) ∧
    ∀ (e : Expr) (env : Environment), e.Integral → Environment.Integral env →
      ∀ (depth : Nat) (limit : Option Nat) (t : Tally),
        (∀ v t', evaluate depth e env limit t = .done v t' → v.Integral) ∧
        ∀ fault t', evaluate depth e env limit t = .failed fault t' → fault ≠ .overflow ∧
          ∃ error, candid depth e env limit t = .failed (.eval error) t' ∧
            fault = (Fault.eval error).surfaced := by
  refine ⟨fun depth e env => ((candid_surfaced depth).1 e env).symm, ?_, ?_⟩
  · intro start depth t enough
    obtain ⟨env, t', done, _⟩ := starting_scoped start enough t
    exact ⟨env, t', done, starting_integral done⟩
  · intro e env integral values depth limit t
    refine ⟨fun v t' done => evaluate_integral integral values done, fun fault t' failed => ?_⟩
    obtain ⟨error, ends, rfl⟩ := evaluate_failed_integral integral values failed
    exact ⟨surfaced_ne_overflow error, error, ends, rfl⟩

/-- A product that is too long to be quoted is called. -/
theorem integers_exact_unwritable :
    let env : Environment := [("*", .builtin 1 "*" .mul)]
    let a : Int := 10 ^ 2200
    let b : Int := 10 ^ 2100
    let e : Expr := .application (.call "*" [.literal (.int a), .literal (.int b)]) (.literal .nil)
    let t : Tally := ⟨7, 2, 2, [(.mul, [.int a, .int b])]⟩
    e.Integral ∧ Environment.Integral env ∧
      evaluate 4 e env none {} = .failed (.numeral .unwritable) t ∧
      Fault.numeral .unwritable ≠ .overflow ∧
      ∃ error, candid 4 e env none {} = .failed (.eval error) t ∧
        Fault.numeral .unwritable = (Fault.eval error).surfaced := by
  intro env a b e t
  have long : (Value.int (a * b)).quotable = false := by decide +kernel
  -- From here on the two factors are any whose product is too long.
  clear_value a b
  have integral : e.Integral := by
    intro v member
    have plain : v.Exact ∧ v.held = [] := by
      simp only [e, Expr.call, Expr.literals, Expr.literalsAll, List.nil_append, List.append_nil,
        List.cons_append, List.mem_cons, List.not_mem_nil, or_false] at member
      rcases member with rfl | rfl | rfl <;> exact ⟨trivial, rfl⟩
    exact Value.throughout_of_plain plain.1 plain.2
  have values : Environment.Integral env :=
    List.forall_mem_singleton.mpr (Value.throughout_of_plain trivial rfl)
  have failed : evaluate 4 e env none {} = .failed (.numeral .unwritable) t := by
    simp [e, env, t, Expr.call, evaluate_succ, apply_succ, unfurl, invoke, callPrimitive_eq, Run.bind, Run.tick,
      Run.count, Run.freshMark, Run.record, Run.pure, Run.fail, Run.ofExcept, Run.each, resolve,
      Environment.lookup, Overlay.get?, Value.spread, Primitive.result, arithmetic, blame, long]
  exact ⟨integral, values, failed, (integers_exact.2.2 e env integral values 4 none {}).2 _ _ failed⟩

end Unfurl
