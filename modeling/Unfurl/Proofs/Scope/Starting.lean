import Unfurl.Definitions.Starting
import Unfurl.Proofs.Scope.Safety

namespace Unfurl

/-! ### Loads that succeed -/

def Yields (depth : Nat) (e : Expr) (env : Environment) : Prop :=
  ∀ t, ∃ v t', evaluate depth e env none t = .done v t'

theorem yields_literal (depth : Nat) (v : Value) (env : Environment) :
    Yields (depth + 1) (.literal v) env := fun _ => ⟨_, _, rfl⟩

theorem yields_lambda (depth : Nat) (params : List Text) (body : Expr) (env : Environment) :
    Yields (depth + 1) (.lambda params body) env := fun _ => ⟨_, _, rfl⟩

def BindsCons (env : Environment) : Prop :=
  ∃ mark name, Overlay.get? env "cons" = some (.builtin mark name .cons)

theorem yields_cons {depth : Nat} {a b : Expr} {env : Environment} (cons : BindsCons env)
    (first : Yields depth a env) (second : Yields depth b env) :
    Yields (depth + 2) (.call "cons" [a, b]) env := by
  intro t
  obtain ⟨mark, shown, bound⟩ := cons
  obtain ⟨va, t₁, evalA⟩ := first { t with steps := t.steps + 3 }
  obtain ⟨vb, t₂, evalB⟩ := second t₁
  refine ⟨.list [va, vb], ⟨t₂.steps, t₂.applications + 1, t₂.fresh + 1, (.cons, [va, vb]) :: t₂.calls⟩, ?_⟩
  simp [Expr.call, evaluate_succ, unfurl, Run.bind, Run.tick, resolve, Environment.lookup, bound, Run.pure,
    Run.each, evalA, evalB, Value.spread, apply_succ, Run.count, invoke, callPrimitive_eq, Run.record,
    Run.freshMark, Run.ofExcept, Primitive.result]

theorem load_done {depth : Nat} {defs : List Definition} {E : Environment → Prop}
    (yields : ∀ d ∈ defs, ∀ env, E env → Yields depth d.2 env ∧ ∀ v, E (Overlay.set env d.1 v))
    {env : Environment} (start : E env) (t : Tally) :
    ∃ env' t', (load depth defs env t).outcome = .done env' t' := by
  induction defs generalizing env t with
  | nil => exact ⟨env, t, rfl⟩
  | cons d rest ih =>
    obtain ⟨name, e⟩ := d
    obtain ⟨here, kept⟩ := yields (name, e) List.mem_cons_self env start
    obtain ⟨v, t', done⟩ := here t
    obtain ⟨env', t'', later⟩ :=
      ih (fun d member => yields d (List.mem_cons_of_mem _ member)) (kept v) t'
    refine ⟨env', t'', ?_⟩
    rw [load, done]
    exact later

/-! ### Loads in scope -/

/-- Each definition reads only names that are bound before it, and its literals hold no values. -/
def Resolved : List Text → List Definition → Prop
  | _, [] => True
  | bound, (name, e) :: rest =>
    (∀ x ∈ e.free, x ∈ bound) ∧ (∀ v ∈ e.literals, v.isFunction = false ∧ v.held.isEmpty = true) ∧
      Resolved (name :: bound) rest

instance decidableResolved : (bound : List Text) → (defs : List Definition) →
    Decidable (Resolved bound defs)
  | _, [] => isTrue trivial
  | bound, (name, _) :: rest =>
    have := decidableResolved (name :: bound) rest
    inferInstanceAs (Decidable (_ ∧ _ ∧ Resolved (name :: bound) rest))

theorem load_scoped {depth : Nat} {defs : List Definition} {bound : List Text} {env env' : Environment}
    {t t' : Tally} (resolved : Resolved bound defs) (has : ∀ x ∈ bound, Overlay.has env x = true)
    (safe : Environment.WellScoped env) (done : (load depth defs env t).outcome = .done env' t') :
    Environment.WellScoped env' ∧
      ∀ x ∈ bound ++ defs.map Prod.fst, Overlay.has env' x = true := by
  induction defs generalizing bound env t with
  | nil =>
    cases done
    exact ⟨safe, by simpa using has⟩
  | cons d rest ih =>
    obtain ⟨name, e⟩ := d
    obtain ⟨names, literals, later⟩ := resolved
    have inScope : e.ScopedIn env :=
      ⟨fun x free => has x (names x free), fun v member =>
        Value.wellScoped_of_plain (literals v member).1 (List.isEmpty_iff.mp (literals v member).2)⟩
    have value := (scopeSafety.depth_meets depth).1 e env ⟨inScope, safe⟩ none t
    rw [load] at done
    cases h : evaluate depth e env none t with
    | done v t₁ =>
      rw [h] at done value
      have hasNext : ∀ x ∈ name :: bound, Overlay.has (Overlay.set env name v) x = true := by
        intro x member
        rw [Overlay.has_set]
        rcases List.mem_cons.mp member with rfl | old
        · exact Or.inl rfl
        · exact Or.inr (has x old)
      obtain ⟨safe', hasLast⟩ := ih later hasNext (safe.set name value) done
      refine ⟨safe', fun x member => hasLast x ?_⟩
      simp only [List.map_cons, List.mem_append, List.mem_cons] at member ⊢
      rcases member with old | here | new
      · exact Or.inl (Or.inr old)
      · exact Or.inl (Or.inl here)
      · exact Or.inr new
    | failed fault t₁ =>
      rw [h] at done
      cases fault <;> cases done
    | exhausted t₁ =>
      rw [h] at done
      cases done

/-! ### The primitives -/

theorem mem_bindFrom {mark : Mark} {ops : List Primitive} {env : Environment} {pair : Text × Value}
    (member : pair ∈ bindFrom mark ops env) : pair ∈ env ∨ ∃ m, ∃ op ∈ ops, pair.2 = .builtin m op.name op := by
  induction ops generalizing mark env with
  | nil => exact Or.inl member
  | cons op rest ih =>
    rcases ih member with before | ⟨m, op', later, builtin⟩
    · rcases Overlay.mem_set before with rfl | old
      · exact Or.inr ⟨mark, op, List.mem_cons_self, rfl⟩
      · exact Or.inl old
    · exact Or.inr ⟨m, op', List.mem_cons_of_mem _ later, builtin⟩

theorem genesis_wellScoped (t : Tally) : Environment.WellScoped (genesis t).1 := by
  intro pair member
  rcases mem_bindFrom member with old | ⟨m, op, _, builtin⟩
  · cases old
  · rw [builtin]
    exact Value.throughout_of_plain trivial rfl

theorem has_bindFrom {mark : Mark} {ops : List Primitive} {env : Environment} {x : Text}
    (bound : x ∈ ops.map Primitive.name ∨ Overlay.has env x = true) :
    Overlay.has (bindFrom mark ops env) x = true := by
  induction ops generalizing mark env with
  | nil => simpa [bindFrom] using bound
  | cons op rest ih =>
    refine ih ?_
    rw [Overlay.has_set]
    simp only [List.map_cons, List.mem_cons] at bound
    rcases bound with (here | later) | old
    · exact Or.inr (Or.inl here.symm)
    · exact Or.inl later
    · exact Or.inr (Or.inr old)

theorem genesis_bindsCons (t : Tally) : BindsCons (genesis t).1 := by
  refine ⟨t.fresh, "cons", ?_⟩
  simp [genesis, bindPrimitives, genesisPrimitives, bindFrom, Overlay.get?_set, Primitive.name]

/-! ### The starting environments -/

def genesisNames : List Text := genesisPrimitives.map Primitive.name

theorem genesisDefinitions_yield (depth : Nat) :
    ∀ d ∈ genesisDefinitions, ∀ env, BindsCons env →
      Yields (depth + 7) d.2 env ∧ ∀ v, BindsCons (Overlay.set env d.1 v) := by
  intro d member env cons
  have kept : d.1 ≠ "cons" → ∀ v, BindsCons (Overlay.set env d.1 v) := by
    intro other v
    obtain ⟨mark, shown, bound⟩ := cons
    exact ⟨mark, shown, by rw [Overlay.get?_set, if_neg other, bound]⟩
  have literal := fun k v => yields_literal k v env
  simp only [genesisDefinitions, List.mem_cons, List.not_mem_nil, or_false] at member
  rcases member with rfl | rfl | rfl | rfl
  · refine ⟨?_, kept (by decide)⟩
    exact yields_cons cons (literal _ _) (yields_cons cons (literal _ _) (literal (depth + 2) _))
  · refine ⟨?_, kept (by decide)⟩
    refine yields_cons cons (literal _ _) (yields_cons cons (literal _ _) ?_)
    exact yields_cons cons (literal depth _) (literal depth _)
  · exact ⟨literal _ _, kept (by decide)⟩
  · exact ⟨literal _ _, kept (by decide)⟩

theorem prelude_lambdas : ∀ d ∈ Prelude.definitions, ∃ params body, d.2 = .lambda params body := by
  simp [Prelude.definitions, Prelude.control, Prelude.items, Prelude.numbers, Prelude.logic,
    Prelude.comparisons, Prelude.combinators, Prelude.forms]

theorem genesisDefinitions_resolved : Resolved genesisNames genesisDefinitions := by decide

theorem prelude_resolved :
    Resolved (genesisNames ++ genesisDefinitions.map Prod.fst) Prelude.definitions := by
  decide +kernel

theorem bootstrap_scoped (depth : Nat) (t : Tally) :
    ∃ env t', (bootstrap (depth + 7) t).outcome = .done env t' ∧ Environment.WellScoped env ∧
      ∀ x ∈ genesisNames ++ genesisDefinitions.map Prod.fst, Overlay.has env x = true := by
  obtain ⟨env, t', done⟩ :=
    load_done (genesisDefinitions_yield depth) (genesis_bindsCons t) (genesis t).2
  have has : ∀ x ∈ genesisNames, Overlay.has (genesis t).1 x = true :=
    fun x member => has_bindFrom (Or.inl member)
  obtain ⟨safe, bound⟩ := load_scoped genesisDefinitions_resolved has (genesis_wellScoped t) done
  exact ⟨env, t', done, safe, bound⟩

theorem starting_scoped (start : Starting) {depth : Nat} (enough : 7 ≤ depth) (t : Tally) :
    ∃ env t', (start.load depth t).outcome = .done env t' ∧ Environment.WellScoped env := by
  obtain ⟨k, rfl⟩ := Nat.exists_eq_add_of_le' enough
  obtain ⟨env, t₁, done, safe, bound⟩ := bootstrap_scoped k t
  cases start with
  | empty => exact ⟨[], t, rfl, by simp [Environment.WellScoped]⟩
  | genesis => exact ⟨_, _, rfl, genesis_wellScoped t⟩
  | bootstrap => exact ⟨env, t₁, done, safe⟩
  | prelude =>
    have yields : ∀ d ∈ Prelude.definitions, ∀ env, True → Yields (k + 7) d.2 env ∧ ∀ v : Value, True := by
      intro d member env _
      obtain ⟨params, body, lambda⟩ := prelude_lambdas d member
      rw [lambda]
      exact ⟨yields_lambda _ params body env, fun _ => trivial⟩
    obtain ⟨last, t₂, loaded⟩ := load_done yields trivial t₁
    refine ⟨last, t₂, ?_, (load_scoped prelude_resolved bound safe loaded).1⟩
    simp only [Starting.load, Loading.bind, done]
    exact loaded

/-! ### Scope safety -/

/-- The starting environments bind only well-scoped values. In any environment that does, an expression
in scope never meets an undefined name, and its value may be bound there again. -/
theorem scope_safe :
    (∀ (start : Starting) (depth : Nat) (t : Tally), 7 ≤ depth →
      ∃ env t', (start.load depth t).outcome = .done env t' ∧ Environment.WellScoped env) ∧
    ∀ (e : Expr) (env : Environment), Environment.WellScoped env → e.ScopedIn env →
      ∀ (depth : Nat) (limit : Option Nat) (t : Tally),
        (∀ name t', evaluate depth e env limit t ≠ .failed (.eval (.undefinedReference name)) t') ∧
        ∀ v t', evaluate depth e env limit t = .done v t' →
          v.WellScoped ∧ ∀ name, Environment.WellScoped (Overlay.set env name v) := by
  refine ⟨fun start depth t enough => starting_scoped start enough t, ?_⟩
  intro e env safe inScope depth limit t
  have meets := (scopeSafety.depth_meets depth).1 e env ⟨inScope, safe⟩ limit t
  constructor
  · intro name t' failed
    rw [failed] at meets
    exact meets name rfl
  · intro v t' done
    rw [done] at meets
    exact ⟨meets, fun name => safe.set name meets⟩

/-- Recursion through a captured closure, in scope. -/
theorem scope_safe_closure :
    let env : Environment := [("k", .closure 5 ["a"] (.reference "b") [("b", .int 1)])]
    let e : Expr := .application (.fix (.lambda ["self"] (.reference "k"))) (.literal .nil)
    Environment.WellScoped env ∧ e.ScopedIn env ∧
      (∃ t', evaluate 4 e env none {} = .done (.int 1) t') ∧
      (∀ name t', evaluate 4 e env (some 3) {} ≠ .failed (.eval (.undefinedReference name)) t') := by
  intro env e
  have one : (Value.int 1).WellScoped := Value.wellScoped_of_plain rfl rfl
  have safe : Environment.WellScoped env := by
    intro pair member
    obtain rfl := List.mem_singleton.mp member
    refine wellScoped_closure.mpr ⟨⟨by decide, by simp [Expr.literals]⟩, ?_⟩
    intro pair member
    obtain rfl := List.mem_singleton.mp member
    exact one
  have inScope : e.ScopedIn env := by
    refine ⟨by decide, fun v member => ?_⟩
    obtain rfl : v = .nil := by simpa [e, Expr.literals] using member
    exact Value.wellScoped_of_plain rfl rfl
  have done : evaluate 4 e env none {} = .done (.int 1) { steps := 6, applications := 2, fresh := 3 } := by
    simp [e, env, evaluate_succ, apply_succ, unfurl, invoke, Run.bind, Run.tick, Run.count, Run.freshMark,
      Run.pure, resolve, Environment.lookup, Overlay.extend, Overlay.set, Overlay.get?, Value.spread]
  exact ⟨safe, inScope, ⟨_, done⟩, (scope_safe.2 e env safe inScope 4 (some 3) {}).1⟩

def Value.heldOutside : Value → List Value
  | .list items => items
  | .closure _ _ _ env => env.map Prod.snd
  | .unfolding _ _ env => env.map Prod.snd
  | _ => []

/-- Every function that the value reaches without going through the literals of code is scoped. -/
def Value.ScopedOutside (v : Value) : Prop :=
  ∀ u, Relation.ReflTransGen (fun v u => u ∈ v.heldOutside) v u → u.Scoped

/-- A function that is a literal in captured code is called, and the name that it reads is bound nowhere. -/
theorem scope_unsafe_behind_literal :
    let inner : Value := .closure 0 [] (.reference "nope") []
    let env : Environment := [("c", .closure 1 [] (.literal inner) [])]
    let e : Expr := .application (.application (.reference "c") (.vector [])) (.vector [])
    (∀ pair ∈ env, pair.2.ScopedOutside) ∧ (∀ x ∈ e.free, Overlay.has env x = true) ∧ e.literals = [] ∧
      ∃ t', evaluate 4 e env none {} = .failed (.eval (.undefinedReference "nope")) t' := by
  intro inner env e
  refine ⟨fun pair member u reached => ?_, by decide, rfl, _, rfl⟩
  obtain rfl := List.mem_singleton.mp member
  rcases Relation.ReflTransGen.cases_head reached with rfl | ⟨_, held, _⟩
  · exact nofun
  · cases held

end Unfurl
