import Mathlib.Data.Nat.Factorial.Basic
import Mathlib.Data.Nat.Fib.Basic
import Unfurl.Proofs.Prelude.Bindings

/-!
A recursion that goes down by one at each level spends all of its own steps and marks on the way down. What is
left is the ascent: the calls of the function that combines an argument with the result below it.
-/

namespace Unfurl

open Course (Becomes)

/-! ### Functions of an integer `n` that call themselves as `f` -/

def calledOn (fn : Expr) (n : Int) : Expr := .application fn (.vector [.literal (.int n)])

def staged (body : Expr) : Expr := .lambda ["f"] (.lambda ["n"] body)

/-- What `fix` unfurls to over a staged function, with the marks of the closure and of its unfolding. -/
def unfolded (closure unfolding : Mark) (body : Expr) (env : Environment) : Value :=
  .closure closure ["n"] body (Overlay.set env "f" (.unfolding unfolding (staged body) env))

/-- Where the body of a staged function is evaluated for an argument. -/
def levelScope (unfolding : Mark) (body : Expr) (env : Environment) (n : Int) : Environment :=
  Overlay.set (Overlay.set env "f" (.unfolding unfolding (staged body) env)) "n" (.int n)

variable (u : Mark) (body : Expr) (env : Environment) (n : Int)

theorem levelScope_argument : Reads (levelScope u body env n) (.reference "n") (.int n) := by
  refine .reference ?_
  rw [levelScope, Overlay.get?_set, if_pos rfl]

theorem levelScope_self :
    Overlay.get? (levelScope u body env n) "f" = some (.unfolding u (staged body) env) := by
  rw [levelScope, Overlay.get?_set, if_neg (by decide), Overlay.get?_set, if_pos rfl]

theorem levelScope_other {x : Text} (notSelf : x ≠ "f") (notArgument : x ≠ "n") :
    Overlay.get? (levelScope u body env n) x = Overlay.get? env x := by
  rw [levelScope, Overlay.get?_set, if_neg notArgument.symm, Overlay.get?_set, if_neg notSelf.symm]

theorem levelScope_binds {op : Primitive} (binds : Environment.Binds env op) :
    Environment.Binds (levelScope u body env n) op := by
  obtain ⟨mark, shown, bound⟩ := binds
  refine ⟨mark, shown, ?_⟩
  rw [levelScope_other u body env n (by cases op <;> decide) (by cases op <;> decide), bound]

theorem evaluate_fix_staged (t : Tally) :
    (Course.evaluate (.fix (staged body)) env).Ends t
      (.done (unfolded (t.fresh + 2) (t.fresh + 1) body env) ((t.stepped 3).called.marked 3)) := by
  have fn := (Course.evaluate_lambda ["f"] (.lambda ["n"] body) env (t.stepped 1)).becomes fun fn =>
    (Course.lift Run.freshMark).bind fun mark => Course.apply fn [.unfolding mark (staged body) env]
  have mark := (Course.lift_freshMark ((t.stepped 2).marked 1)).becomes fun mark =>
    Course.apply (.closure t.fresh ["f"] (.lambda ["n"] body) env) [.unfolding mark (staged body) env]
  have call := Course.apply_closure t.fresh ["f"] (.lambda ["n"] body) env
    [.unfolding (t.fresh + 1) (staged body) env] rfl ((t.stepped 2).marked 2)
  have start := Course.evaluate_fix (staged body) env t
  exact (((start.trans fn).trans mark).trans call).ends (Course.evaluate_lambda ["n"] body _ _)

theorem apply_unfolded (m : Mark) (t : Tally) :
    Becomes (Course.apply (unfolded m u body env) [.int n]) t
      (Course.evaluate body (levelScope u body env n)) t.called :=
  Course.apply_closure m ["n"] body _ [.int n] rfl t

/-- A call of `f` unfurls the node again and calls what comes of it. -/
theorem apply_self (args : List Value) (t : Tally) :
    Becomes (Course.apply (.unfolding u (staged body) env) args) t
      (Course.apply (unfolded (t.fresh + 2) (t.fresh + 1) body env) args)
      ((t.called.stepped 3).called.marked 3) := by
  have fixed := (evaluate_fix_staged body env t.called).becomes fun fn => Course.apply fn args
  exact (Course.apply_unfolding u (staged body) env args t).trans fixed

theorem evaluate_calledOn (t : Tally) :
    Becomes (Course.evaluate (calledOn (.fix (staged body)) n) env) t
      (Course.apply (unfolded (t.fresh + 2) (t.fresh + 1) body env) [.int n])
      ((t.stepped 6).called.marked 3) := by
  have head := (evaluate_fix_staged body env (t.stepped 1)).becomes fun fn =>
    (Course.evaluate (.vector [.literal (.int n)]) env).bind fun arg => Course.apply fn arg.spread
  have vector := Course.evaluate_vector [.literal (.int n)] env ((t.stepped 4).called.marked 3)
  have operand := vector.bind fun arg =>
    Course.apply (unfolded (t.fresh + 2) (t.fresh + 1) body env) arg.spread
  rw [Course.bind_assoc, Course.elements_one_bind] at operand
  have reads : Reads env (.literal (.int n)) (.int n) := .literal _
  have literal := (Course.evaluate_reads reads ((t.stepped 5).called.marked 3)).becomes fun v =>
    (Course.pure (Value.list [v])).bind fun arg =>
      Course.apply (unfolded (t.fresh + 2) (t.fresh + 1) body env) arg.spread
  exact (((Course.evaluate_application _ _ env t).trans head).trans operand).trans literal

/-! ### The test for the bottom -/

theorem le_result (mark : Mark) (n b : Int) :
    Primitive.le.result mark [.int n, .int b] = .ok (.bool (decide (n ≤ b))) := by
  simp [Primitive.result, Value.isNumber, Value.atMost, Value.extended?, Extended.ofInt, Extended.le]

def guarded (b : Int) (below above : Expr) : Expr :=
  .select (.call "<=" [.reference "n", .literal (.int b)])
    [(.literal (.bool true), below), (.otherwise, above)]

theorem evaluate_guarded {scope : Environment} (le : Environment.Binds scope .le)
    (reads : Reads scope (.reference "n") (.int n)) (b : Int) (below above : Expr) (t : Tally) :
    Becomes (Course.evaluate (guarded b below above) scope) t
      (Course.evaluate (if n ≤ b then below else above) scope)
      ((t.stepped 6).recorded (.le, [.int n, .int b])) := by
  obtain ⟨mark, shown, bound⟩ := le
  have call := Course.evaluate_call_read bound (.cons reads (.cons (.literal (.int b)) .nil)) (t.stepped 1)
  have compared := Course.apply_builtin mark shown .le [.int n, .int b] (t.stepped 6)
  rw [le_result] at compared
  have scrutinee := call.ends compared
  by_cases small : n ≤ b
  · rw [if_pos small]
    refine Course.evaluate_select scrutinee (i := 0) ?_
    simp [selectBranch, selectFrom, Pattern.accepts, small, Value.quickSame_eq, Value.same]
  · rw [if_neg small]
    refine Course.evaluate_select scrutinee (i := 1) ?_
    simp [selectBranch, selectFrom, Pattern.accepts, small, Value.quickSame_eq, Value.same]

theorem apply_guarded {env} (le : Environment.Binds env .le) (b : Int) (below above : Expr) (m : Mark)
    (t : Tally) :
    Becomes (Course.apply (unfolded m u (guarded b below above) env) [.int n]) t
      (Course.evaluate (if n ≤ b then below else above) (levelScope u (guarded b below above) env n))
      ((t.called.stepped 6).recorded (.le, [.int n, .int b])) := by
  have called := apply_unfolded u (guarded b below above) env n m t
  have inside := levelScope_binds u (guarded b below above) env n le
  exact called.trans (evaluate_guarded n inside (levelScope_argument u _ env n) b below above t.called)

def descent (less : Int) : Expr := .call "f" [.call "-" [.reference "n", .literal (.int less)]]

theorem evaluate_descent (sub : Environment.Binds env .sub) (less : Int) (t : Tally) :
    Becomes (Course.evaluate (descent less) (levelScope u body env n)) t
      (Course.apply (unfolded (t.fresh + 3) (t.fresh + 2) body env) [.int (n - less)])
      ((((t.stepped 8).recorded (.sub, [.int n, .int less])).called.stepped 3).called.marked 3) := by
  obtain ⟨mark, shown, bound⟩ := levelScope_binds u body env n sub
  have call := Course.evaluate_call (levelScope_self u body env n)
    [.call "-" [.reference "n", .literal (.int less)]] t
  rw [Course.elements_one_bind] at call
  have argument := Course.evaluate_call_read bound
    (.cons (levelScope_argument u body env n) (.cons (.literal (.int less)) .nil)) (t.stepped 3)
  have difference := argument.ends (Course.apply_builtin mark shown .sub [.int n, .int less] (t.stepped 8))
  have passed := difference.becomes fun v => Course.apply (.unfolding u (staged body) env) [v]
  exact (call.trans passed).trans (apply_self u body env _ _)

/-! ### Recursion on the predecessor -/

/-- The value `c` up to `b`; above, the function `h` of `n` and of the result for `n - 1`. -/
def recursionBody (h : Text) (b : Int) (c : Value) : Expr :=
  guarded b (.literal c) (.call h [.reference "n", descent 1])

def recursion (h : Text) (b : Int) (c : Value) : Expr := .fix (staged (recursionBody h b c))

/-- The calls of `fn` on the way up, `k` of them from `b` on. -/
def ascent (fn : Value) (b : Int) (c : Value) : Nat → Course Value
  | 0 => Course.pure c
  | k + 1 => (ascent fn b c k).bind fun v => Course.apply fn [.int (b + k + 1), v]

variable {h : Text} {b : Int} {c fn : Value}

section Levels

variable (notSelf : h ≠ "f") (notArgument : h ≠ "n") (le : Environment.Binds env .le)
  (sub : Environment.Binds env .sub) (bound : Overlay.get? env h = some fn)

include le in
theorem bottom_becomes (small : n ≤ b) (m : Mark) (t : Tally) :
    ∃ t', t'.steps = t.steps + 7 ∧ t'.fresh = t.fresh + 1 ∧
      Becomes (Course.apply (unfolded m u (recursionBody h b c) env) [.int n]) t (Course.pure c) t' := by
  have called := apply_guarded u n le b (.literal c) (.call h [.reference "n", descent 1]) m t
  rw [if_pos small] at called
  have reads : Reads (levelScope u (recursionBody h b c) env n) (.literal c) c := .literal c
  have literal := Course.evaluate_reads reads ((t.called.stepped 6).recorded (.le, [.int n, .int b]))
  exact ⟨_, rfl, rfl, called.trans literal.becomes_pure⟩

include notSelf notArgument le sub bound in
/-- A level above the bottom becomes the level below it and then a call of the combining function. -/
theorem level_becomes (above : b < n) (m : Mark) (t : Tally) :
    ∃ m' u' t', t'.steps = t.steps + 21 ∧ t'.fresh = t.fresh + 5 ∧
      Becomes (Course.apply (unfolded m u (recursionBody h b c) env) [.int n]) t
        ((Course.apply (unfolded m' u' (recursionBody h b c) env) [.int (n - 1)]).bind fun v =>
          Course.apply fn [.int n, v]) t' := by
  have called := apply_guarded u n le b (.literal c) (.call h [.reference "n", descent 1]) m t
  rw [if_neg (not_le.mpr above)] at called
  let t₁ := (t.called.stepped 6).recorded (.le, [.int n, .int b])
  let scope := levelScope u (recursionBody h b c) env n
  have bound' : Overlay.get? scope h = some fn :=
    (levelScope_other u (recursionBody h b c) env n notSelf notArgument).trans bound
  have call := Course.evaluate_call bound' [.reference "n", descent 1] t₁
  rw [Course.elements_two_bind] at call
  -- The arguments come first, and among them the level below; the call of `fn` is left for later.
  have first := (Course.evaluate_reads (levelScope_argument u (recursionBody h b c) env n)
    (t₁.stepped 3)).becomes fun v =>
      (Course.evaluate (descent 1) scope).bind fun w => Course.apply fn [v, w]
  have below := (evaluate_descent u (recursionBody h b c) env n sub 1 (t₁.stepped 4)).bind fun w =>
    Course.apply fn [.int n, w]
  exact ⟨_, _, _, rfl, rfl, ((called.trans call).trans first).trans below⟩

include notSelf notArgument le sub bound in
/-- All that the recursion does on its own is done before the first call of the combining function. -/
theorem recursion_becomes {k : Nat} (levels : (n - b).toNat = k) (m : Mark) (t : Tally) :
    ∃ t₁, t₁.steps = t.steps + 7 + 21 * k ∧ t₁.fresh = t.fresh + 1 + 5 * k ∧
      Becomes (Course.apply (unfolded m u (recursionBody h b c) env) [.int n]) t (ascent fn b c k) t₁ := by
  induction k generalizing n m u t with
  | zero => exact bottom_becomes u env n le (by omega) m t
  | succ k ih =>
    obtain rfl : n = b + k + 1 := by omega
    obtain ⟨m', u', t', steps, fresh, level⟩ :=
      level_becomes (b := b) (c := c) u env (b + k + 1) notSelf notArgument le sub bound (by omega) m t
    obtain ⟨t₁, steps', fresh', below⟩ := ih u' (b + k + 1 - 1) (by omega) m' t'
    refine ⟨t₁, ?_, ?_, level.trans ?_⟩
    · omega
    · rw [fresh', fresh]
      ring
    · exact below.bind fun v => Course.apply fn [.int (b + k + 1), v]

include notSelf notArgument le sub bound in
theorem calledOn_becomes (n : Int) (t : Tally) :
    ∃ t₁, t₁.steps = t.steps + 13 + 21 * (n - b).toNat ∧ t₁.fresh = t.fresh + 4 + 5 * (n - b).toNat ∧
      Becomes (Course.evaluate (calledOn (recursion h b c) n) env) t (ascent fn b c (n - b).toNat) t₁ := by
  obtain ⟨t₁, steps, fresh, becomes⟩ := recursion_becomes (c := c) (t.fresh + 1) env n notSelf notArgument
    le sub bound rfl (t.fresh + 2) ((t.stepped 6).called.marked 3)
  exact ⟨t₁, steps, fresh, (evaluate_calledOn _ env n t).trans becomes⟩

end Levels

/-! ### The ascent -/

theorem ascent_diverges_iff (k : Nat) (t : Tally) : Diverges (ascent fn b c k).run none t ↔
    ∃ j < k, ∃ v t', (ascent fn b c j).Ends t (.done v t') ∧
      Diverges (Course.apply fn [.int (b + j + 1), v]).run none t' := by
  induction k with
  | zero =>
    rw [ascent, Course.diverges_iff]
    simp [Course.ends_pure]
  | succ k ih =>
    rw [ascent, Course.diverges_bind, ih]
    constructor
    · rintro (⟨j, less, rest⟩ | rest)
      · exact ⟨j, by omega, rest⟩
      · exact ⟨k, by omega, rest⟩
    · rintro ⟨j, less, rest⟩
      by_cases last : j = k
      · subst last
        exact Or.inr rest
      · exact Or.inl ⟨j, by omega, rest⟩

theorem ascent_builtin_steps {m : Mark} {name : Text} {op : Primitive} {k : Nat} {t t' : Tally}
    {v : Value} (ends : (ascent (.builtin m name op) b c k).Ends t (.done v t')) : t'.steps = t.steps := by
  induction k generalizing v t' with
  | zero =>
    cases Course.ends_pure.mp ends
    rfl
  | succ k ih =>
    rcases Course.ends_bind.mp ends with ⟨w, t₁, below, last⟩ | ⟨e, t₁, _, failed⟩
    · have called := Course.apply_builtin m name op [.int (b + k + 1), w] t₁
      have same := called.unique last
      cases result : op.result t₁.fresh [.int (b + k + 1), w] with
      | ok r =>
        rw [result] at same
        obtain ⟨_, rfl⟩ := Outcome.done.inj same
        show t₁.steps = t.steps
        exact ih below
      | error e =>
        rw [result] at same
        cases same
    · cases failed

theorem builtin_not_diverges (m : Mark) (name : Text) (op : Primitive) (args : List Value) (t : Tally) :
    ¬ Diverges (Course.apply (.builtin m name op) args).run none t := by
  rw [Course.diverges_iff]
  intro never
  exact never _ (Course.apply_builtin m name op args t)

theorem ascent_factorial (m : Mark) (name : Text) (k : Nat) :
    (ascent (.builtin m name .mul) 1 (.int 1) k).Returns (.int (k + 1).factorial) := by
  induction k with
  | zero => exact fun t => ⟨t, Course.ends_pure.mpr rfl⟩
  | succ k ih =>
    have product : (1 + k + 1 : Int) * (k + 1).factorial = (k + 2).factorial := by
      rw [Nat.factorial_succ (k + 1)]
      push_cast
      ring
    refine ih.bind fun t => ⟨t.recorded (.mul, [.int (1 + k + 1), .int (k + 1).factorial]), ?_⟩
    rw [← product]
    exact Course.apply_builtin m name .mul [.int (1 + k + 1), .int (k + 1).factorial] t

/-! ### Fibonacci numbers -/

def fibonacciBody : Expr := guarded 1 (.reference "n") (.call "+" [descent 1, descent 2])

def fibonacci : Expr := .fix (staged fibonacciBody)

theorem descent_returns (sub : Environment.Binds env .sub) {less : Int} {v : Value}
    (returns : ∀ m u, (Course.apply (unfolded m u body env) [.int (n - less)]).Returns v) :
    (Course.evaluate (descent less) (levelScope u body env n)).Returns v :=
  Course.returns_of_becomes fun t => ⟨_, _, returns _ _, evaluate_descent u body env n sub less t⟩

section Fibonacci

variable {env} (le : Environment.Binds env .le) (sub : Environment.Binds env .sub)
  (add : Environment.Binds env .add)

include le in
theorem fibonacci_bottom (small : n ≤ 1) (m : Mark) :
    (Course.apply (unfolded m u fibonacciBody env) [.int n]).Returns (.int n) := by
  refine Course.returns_of_becomes fun t => ⟨_, _, ?_, apply_guarded u n le 1 _ _ m t⟩
  rw [if_pos small]
  exact Environment.reads_returns (levelScope_argument u fibonacciBody env n)

include le sub add in
theorem fibonacci_level (above : 1 < n) {x y : Int}
    (first : ∀ m u, (Course.apply (unfolded m u fibonacciBody env) [.int (n - 1)]).Returns (.int x))
    (second : ∀ m u, (Course.apply (unfolded m u fibonacciBody env) [.int (n - 2)]).Returns (.int y))
    (m : Mark) : (Course.apply (unfolded m u fibonacciBody env) [.int n]).Returns (.int (x + y)) := by
  refine Course.returns_of_becomes fun t => ⟨_, _, ?_, apply_guarded u n le 1 _ _ m t⟩
  rw [if_neg (not_le.mpr above)]
  have sum : Environment.Maps (levelScope u fibonacciBody env n) "+" [.int x, .int y] (.int (x + y)) :=
    (levelScope_binds u _ env n add).maps fun mark => rfl
  have left := descent_returns u _ env n sub first
  have right := descent_returns u _ env n sub second
  exact sum.call (.cons left (.cons right .nil))

include le sub add in
theorem fibonacci_returns (n : Nat) (m u : Mark) :
    (Course.apply (unfolded m u fibonacciBody env) [.int n]).Returns (.int n.fib) := by
  induction n using Nat.twoStepInduction generalizing m u with
  | zero => exact fibonacci_bottom u 0 le (by decide) m
  | one => exact fibonacci_bottom u 1 le (by decide) m
  | more k second first =>
    have one : ((k + 1 + 1 : Nat) : Int) - 1 = (k + 1 : Nat) := by omega
    have two : ((k + 1 + 1 : Nat) : Int) - 2 = k := by omega
    have level := fibonacci_level u ((k + 1 + 1 : Nat) : Int) le sub add (by omega)
      (one ▸ first) (two ▸ second) m
    have sum : ((k + 1 + 1).fib : Int) = (k + 1).fib + k.fib := by
      rw [Nat.fib_add_two]
      push_cast
      ring
    rw [sum]
    exact level

end Fibonacci

/-! ### Programs -/

theorem factorial_returns (le : Environment.Binds env .le) (sub : Environment.Binds env .sub)
    (mul : Environment.Binds env .mul) (n : Nat) :
    (Course.evaluate (calledOn (recursion "*" 1 (.int 1)) n) env).Returns (.int n.factorial) := by
  obtain ⟨mark, shown, bound⟩ := mul
  refine Course.returns_of_becomes fun t => ?_
  obtain ⟨t₁, _, _, becomes⟩ :=
    calledOn_becomes (b := 1) (c := .int 1) env (by decide) (by decide) le sub bound n t
  refine ⟨_, t₁, ?_, becomes⟩
  have levels : ((n : Int) - 1).toNat = n - 1 := by omega
  rw [levels]
  cases n with
  | zero => exact ascent_factorial mark shown 0
  | succ k => exact ascent_factorial mark shown k

/-- The recursion on the predecessor ends as the ascent does from a tally that is so much later, and diverges
exactly if one of the calls on the way up does. A primitive on the way up adds no steps. Factorials and
Fibonacci numbers come out for every argument. -/
theorem fix_computes_recursion :
    (∀ (h : Text) (b : Int) (c fn : Value) (env : Environment), h ≠ "f" → h ≠ "n" →
      Environment.Binds env .le → Environment.Binds env .sub → Overlay.get? env h = some fn →
      ∀ (n : Int) (t : Tally),
        let program := Course.evaluate (calledOn (recursion h b c) n) env
        let k := (n - b).toNat
        (∃ t₁, t₁.steps = t.steps + 13 + 21 * k ∧ t₁.fresh = t.fresh + 4 + 5 * k ∧
          (∀ o, program.Ends t o ↔ (ascent fn b c k).Ends t₁ o) ∧
          (Diverges program.run none t ↔ ∃ j < k, ∃ v t₂, (ascent fn b c j).Ends t₁ (.done v t₂) ∧
            Diverges (apply · fn [.int (b + j + 1), v]) none t₂)) ∧
        ∀ m name op, fn = .builtin m name op → ¬ Diverges program.run none t ∧
          ∀ v t', program.Ends t (.done v t') → t'.steps = t.steps + 13 + 21 * k) ∧
    (∀ env : Environment, Environment.Binds env .le → Environment.Binds env .sub →
      Environment.Binds env .mul → ∀ n : Nat,
        (Course.evaluate (calledOn (recursion "*" 1 (.int 1)) n) env).Returns (.int n.factorial)) ∧
    ∀ env : Environment, Environment.Binds env .le → Environment.Binds env .sub →
      Environment.Binds env .add → ∀ n : Nat,
        (Course.evaluate (calledOn fibonacci n) env).Returns (.int n.fib) := by
  refine ⟨?_, fun env le sub mul n => factorial_returns env le sub mul n, ?_⟩
  · intro h b c fn env notSelf notArgument le sub bound n t program k
    obtain ⟨t₁, steps, fresh, becomes⟩ := calledOn_becomes (c := c) env notSelf notArgument le sub bound n t
    have diverges := becomes.diverges.trans (ascent_diverges_iff k t₁)
    refine ⟨⟨t₁, steps, fresh, becomes, diverges⟩, ?_⟩
    rintro m name op rfl
    constructor
    · intro never
      obtain ⟨j, _, v, t₂, _, calls⟩ := diverges.mp never
      exact builtin_not_diverges m name op _ t₂ calls
    · intro v t' ends
      rw [ascent_builtin_steps ((becomes _).mp ends), steps]
  · intro env le sub add n
    refine Course.returns_of_becomes fun t => ⟨_, _, ?_, evaluate_calledOn fibonacciBody env n t⟩
    exact fibonacci_returns le sub add n _ _

/-- Pairs nested to the depth of the argument, a factorial and a Fibonacci number. -/
theorem fix_computes_pairs :
    let env : Environment := [("<=", .builtin 0 "<=" .le), ("-", .builtin 1 "-" .sub),
      ("*", .builtin 2 "*" .mul), ("pair", .builtin 3 "cons" .cons), ("+", .builtin 4 "+" .add)]
    let result : Value := .list [.int 2, .list [.int 1, .nil]]
    (∃ t', (Course.evaluate (calledOn (recursion "pair" 0 .nil) 2) env).Ends {} (.done result t') ∧
      t'.steps = 13 + 21 * 2) ∧
    (Course.evaluate (calledOn (recursion "*" 1 (.int 1)) 5) env).Returns (.int 120) ∧
    (Course.evaluate (calledOn fibonacci 7) env).Returns (.int 13) := by
  intro env result
  have le : Environment.Binds env .le := ⟨0, "<=", rfl⟩
  have sub : Environment.Binds env .sub := ⟨1, "-", rfl⟩
  obtain ⟨recursive, factorials, fibonaccis⟩ := fix_computes_recursion
  obtain ⟨⟨t₁, _, _, ends, _⟩, exact⟩ :=
    recursive "pair" 0 .nil (.builtin 3 "cons" .cons) env (by decide) (by decide) le sub rfl 2 {}
  have first := Course.apply_builtin 3 "cons" .cons [.int 1, .nil] t₁
  have second := Course.apply_builtin 3 "cons" .cons [.int 2, .list [.int 1, .nil]]
    (t₁.recorded (.cons, [.int 1, .nil]))
  have lower : (ascent (.builtin 3 "cons" .cons) 0 .nil 1).Ends t₁ _ :=
    Course.ends_bind.mpr (Or.inl ⟨_, _, Course.ends_pure.mpr rfl, first⟩)
  have upper : (ascent (.builtin 3 "cons" .cons) 0 .nil 2).Ends t₁ _ :=
    Course.ends_bind.mpr (Or.inl ⟨_, _, lower, second⟩)
  have done := (ends _).mpr upper
  obtain ⟨_, counted⟩ := exact 3 "cons" .cons rfl
  have steps := counted _ _ done
  have seventh : Nat.fib 7 = 13 := by decide
  have numbers := fibonaccis env le sub ⟨4, "+", rfl⟩ 7
  rw [seventh] at numbers
  exact ⟨⟨_, done, by simpa using steps⟩, factorials env le sub ⟨2, "*", rfl⟩ 5, numbers⟩

end Unfurl
