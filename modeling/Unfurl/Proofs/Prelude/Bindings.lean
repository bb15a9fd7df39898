import Mathlib.Data.List.Nodup
import Unfurl.Proofs.Definitions.Loading
import Unfurl.Proofs.Eval.Course
import Unfurl.Proofs.Scope.Starting

/-!
No name of the prelude is bound twice, so each of its functions finds in the environment that it captured
just what a program finds in the whole one (`prelude_holds`).
-/

namespace Unfurl

def Environment.Binds (env : Environment) (op : Primitive) : Prop :=
  ∃ mark name, Overlay.get? env op.name = some (.builtin mark name op)

variable {depth : Nat} {env env' : Environment} {t t' : Tally}

/-! ### Loads of distinct names -/

theorem Loading.bind_done {first : Loading} {next : Environment → Tally → Loading}
    (done : (first.bind next).outcome = .done env' t') :
    ∃ env t, first.outcome = .done env t ∧ (next env t).outcome = .done env' t' := by
  unfold Loading.bind at done
  cases ends : first.outcome with
  | done env t =>
    rw [ends] at done
    exact ⟨env, t, rfl, done⟩
  | failed e t =>
    rw [ends] at done
    cases done
  | exhausted t =>
    rw [ends] at done
    cases done

theorem load_cons_done {d : Definition} {rest : List Definition}
    (done : (load depth (d :: rest) env t).outcome = .done env' t') :
    ∃ v t₁, evaluate depth d.2 env none t = .done v t₁ ∧
      (load depth rest (Overlay.set env d.1 v) t₁).outcome = .done env' t' := by
  obtain ⟨name, e⟩ := d
  rw [load] at done
  cases ends : evaluate depth e env none t with
  | done v t₁ =>
    rw [ends] at done
    exact ⟨v, t₁, rfl, done⟩
  | failed fault t₁ =>
    rw [ends] at done
    cases fault <;> cases done
  | exhausted t₁ =>
    rw [ends] at done
    cases done

theorem load_get? {defs : List Definition} {x : Text} (absent : x ∉ defs.map Prod.fst)
    (done : (load depth defs env t).outcome = .done env' t') :
    Overlay.get? env' x = Overlay.get? env x := by
  induction defs generalizing env t with
  | nil =>
    cases done
    rfl
  | cons d rest ih =>
    simp only [List.map_cons, List.mem_cons, not_or] at absent
    obtain ⟨v, t₁, _, later⟩ := load_cons_done done
    rw [ih absent.2 later, Overlay.get?_set, if_neg (Ne.symm absent.1)]

/-- What a lambda captures agrees with the whole environment on the names that it reads. -/
theorem load_captures {defs : List Definition} {bound : List Text} (resolved : Resolved bound defs)
    (distinct : (bound ++ defs.map Prod.fst).Nodup)
    (done : (load depth defs env t).outcome = .done env' t') {name : Text} {params : List Text}
    {body : Expr} (member : (name, .lambda params body) ∈ defs) :
    ∃ mark captured, Overlay.get? env' name = some (.closure mark params body captured) ∧
      ∀ x ∈ (Expr.lambda params body).free, Overlay.get? captured x = Overlay.get? env' x := by
  induction defs generalizing bound env t with
  | nil => cases member
  | cons d rest ih =>
    obtain ⟨v, t₁, ends, done⟩ := load_cons_done done
    obtain ⟨reads, _, later⟩ := resolved
    rcases List.mem_cons.mp member with rfl | there
    · obtain ⟨mark, rfl⟩ := evaluate_lambda ends
      have apart := List.nodup_append.mp distinct
      have unset : name ∉ rest.map Prod.fst := (List.nodup_cons.mp apart.2.1).1
      refine ⟨mark, env, ?_, fun x free => ?_⟩
      · rw [load_get? unset done, Overlay.get?_set, if_pos rfl]
      · -- A name that the lambda reads is bound before, so neither it nor a later definition rebinds it.
        have old : ∀ y ∈ name :: rest.map Prod.fst, x ≠ y := apart.2.2 x (reads x free)
        have kept : x ∉ rest.map Prod.fst := fun after => old x (List.mem_cons_of_mem _ after) rfl
        rw [load_get? kept done, Overlay.get?_set, if_neg (old name List.mem_cons_self).symm]
    · have distinct' : ((d.1 :: bound) ++ rest.map Prod.fst).Nodup := List.nodup_middle.mp distinct
      exact ih later distinct' done there

/-! ### The primitives -/

theorem bindFrom_get? {ops : List Primitive} {x : Text} (absent : x ∉ ops.map Primitive.name) (mark : Mark)
    (env : Environment) : Overlay.get? (bindFrom mark ops env) x = Overlay.get? env x := by
  induction ops generalizing mark env with
  | nil => rfl
  | cons op rest ih =>
    simp only [List.map_cons, List.mem_cons, not_or] at absent
    rw [bindFrom, ih absent.2, Overlay.get?_set, if_neg (Ne.symm absent.1)]

theorem bindFrom_binds {ops : List Primitive} (distinct : (ops.map Primitive.name).Nodup) {op : Primitive}
    (member : op ∈ ops) (mark : Mark) (env : Environment) : Environment.Binds (bindFrom mark ops env) op := by
  induction ops generalizing mark env with
  | nil => cases member
  | cons first rest ih =>
    obtain ⟨absent, later⟩ := List.nodup_cons.mp distinct
    rcases List.mem_cons.mp member with rfl | there
    · refine ⟨mark, op.name, ?_⟩
      rw [bindFrom, bindFrom_get? absent, Overlay.get?_set, if_pos rfl]
    · exact ih later there (mark + 1) _

/-! ### The prelude -/

/-- The environment binds the primitives and, over them, the functions of the prelude. -/
structure Environment.HoldsPrelude (env : Environment) : Prop where
  primitive (op : Primitive) : op ∈ genesisPrimitives → Environment.Binds env op
  function {name : Text} {params : List Text} {body : Expr} :
    (name, .lambda params body) ∈ Prelude.definitions →
    ∃ mark captured, Overlay.get? env name = some (.closure mark params body captured) ∧
      ∀ x ∈ (Expr.lambda params body).free, Overlay.get? captured x = Overlay.get? env x

theorem starting_distinct :
    ((genesisNames ++ genesisDefinitions.map Prod.fst) ++ Prelude.definitions.map Prod.fst).Nodup := by
  decide +kernel

theorem prelude_params_distinct :
    ∀ d ∈ Prelude.definitions, ∀ {params : List Text} {body : Expr},
      d.2 = .lambda params body → params.Nodup := by
  simp [Prelude.definitions, Prelude.control, Prelude.items, Prelude.numbers, Prelude.logic,
    Prelude.comparisons, Prelude.combinators, Prelude.forms]

theorem prelude_holds (loaded : (Starting.prelude.load depth t).outcome = .done env t') :
    Environment.HoldsPrelude env := by
  obtain ⟨names, _, apart⟩ := List.nodup_append.mp starting_distinct
  obtain ⟨primitives, _, unmarked⟩ := List.nodup_append.mp names
  obtain ⟨base, t₁, started, done⟩ := Loading.bind_done loaded
  constructor
  · intro op member
    have listed : op.name ∈ genesisNames := List.mem_map_of_mem member
    have unset : op.name ∉ genesisDefinitions.map Prod.fst := fun set => unmarked _ listed _ set rfl
    have kept : op.name ∉ Prelude.definitions.map Prod.fst :=
      fun set => apart _ (List.mem_append_left _ listed) _ set rfl
    obtain ⟨mark, shown, bound⟩ := bindFrom_binds primitives member t.fresh []
    refine ⟨mark, shown, ?_⟩
    rw [load_get? kept done, load_get? unset started]
    exact bound
  · intro name params body member
    exact load_captures prelude_resolved starting_distinct done member

/-- The prelude loads, and what it then binds is known. -/
theorem prelude_loads (enough : 7 ≤ depth) (t : Tally) :
    ∃ env t', (Starting.prelude.load depth t).outcome = .done env t' ∧ Environment.HoldsPrelude env := by
  obtain ⟨env, t', loaded, _⟩ := starting_scoped .prelude enough t
  exact ⟨env, t', loaded, prelude_holds loaded⟩

/-! ### Calls that return -/

/-- What the name is bound to returns this value for these arguments. -/
def Environment.Maps (env : Environment) (name : Text) (args : List Value) (v : Value) : Prop :=
  ∃ fn, Overlay.get? env name = some fn ∧ (Course.apply fn args).Returns v

namespace Environment

variable {name : Text} {args : List Value} {v : Value} {es : List Expr}

theorem Maps.congr (maps : Maps env name args v) (same : Overlay.get? env' name = Overlay.get? env name) :
    Maps env' name args v := by
  obtain ⟨fn, bound, returns⟩ := maps
  exact ⟨fn, same.trans bound, returns⟩

theorem Binds.maps {op : Primitive} (binds : Binds env op) (result : ∀ mark, op.result mark args = .ok v) :
    Maps env op.name args v := by
  obtain ⟨mark, shown, bound⟩ := binds
  refine ⟨_, bound, fun t => ⟨t.recorded (op, args), ?_⟩⟩
  have ends := Course.apply_builtin mark shown op args t
  rw [result] at ends
  exact ends

theorem elements_return (returns : List.Forall₂ (fun e v => (Course.evaluate e env).Returns v) es args) :
    (Course.elements es env).Returns args := by
  induction returns with
  | nil => exact fun t => ⟨t, trivial, 0, rfl⟩
  | @cons e v es args head _ ih =>
    rw [Course.elements_cons]
    have whole : (Course.pure (v :: args)).Returns (v :: args) := fun t => ⟨t, Course.ends_pure.mpr rfl⟩
    exact head.bind (ih.bind whole)

theorem Maps.call (maps : Maps env name args v)
    (returns : List.Forall₂ (fun e v => (Course.evaluate e env).Returns v) es args) :
    (Course.evaluate (.call name es) env).Returns v := by
  obtain ⟨fn, bound, applied⟩ := maps
  have called := (elements_return returns).bind applied
  exact Course.returns_of_becomes fun t => ⟨_, _, called, Course.evaluate_call bound es t⟩

theorem reads_returns {e : Expr} (reads : Reads env e v) : (Course.evaluate e env).Returns v :=
  fun t => ⟨_, Course.evaluate_reads reads t⟩

/-- A call of a function of the prelude is an evaluation of its body where the parameters are bound to the
arguments and the names that it reads are bound as in the whole environment. -/
theorem HoldsPrelude.call (holds : HoldsPrelude env) {params : List Text} {body : Expr}
    (member : (name, .lambda params body) ∈ Prelude.definitions) :
    ∃ fn, Overlay.get? env name = some fn ∧ ∀ args : List Value, args.length = params.length →
      ∃ scope, (∀ t, Course.Becomes (Course.apply fn args) t (Course.evaluate body scope) t.called) ∧
        List.Forall₂ (fun x v => Overlay.get? scope x = some v) params args ∧
        ∀ x ∈ (Expr.lambda params body).free, Overlay.get? scope x = Overlay.get? env x := by
  obtain ⟨mark, captured, bound, reads⟩ := holds.function member
  refine ⟨_, bound, fun args length => ⟨Overlay.extend captured (params.zip args), ?_, ?_, ?_⟩⟩
  · exact Course.apply_closure mark params body captured args length
  · exact Overlay.get?_extend_zip (prelude_params_distinct _ member rfl) length captured
  · intro x free
    rw [Overlay.get?_extend_of_not_mem (Expr.mem_free_lambda.mp free).2, reads x free]

theorem HoldsPrelude.maps (holds : HoldsPrelude env) {params : List Text} {body : Expr}
    (member : (name, .lambda params body) ∈ Prelude.definitions) (length : args.length = params.length)
    (returns : ∀ scope, List.Forall₂ (fun x v => Overlay.get? scope x = some v) params args →
      (∀ x ∈ (Expr.lambda params body).free, Overlay.get? scope x = Overlay.get? env x) →
      (Course.evaluate body scope).Returns v) : Maps env name args v := by
  obtain ⟨fn, bound, call⟩ := holds.call member
  obtain ⟨scope, becomes, given, same⟩ := call args length
  have returned := returns scope given same
  exact ⟨fn, bound, Course.returns_of_becomes fun t => ⟨_, _, returned, becomes t⟩⟩

end Environment

end Unfurl
