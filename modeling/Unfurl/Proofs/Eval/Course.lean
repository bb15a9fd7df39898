import Mathlib.Data.List.Forall2
import Unfurl.Proofs.Eval.Adequacy
import Unfurl.Proofs.Eval.Simulation

/-!
`Becomes x t y t'` says that from `t` the course `x` ends as `y` does from `t'`. An evaluation is followed by
putting such rules one behind the other.
-/

namespace Unfurl

variable {α β γ : Type}

/-- A run for every depth, of which a greater one keeps what has finished. -/
@[ext]
structure Course (α : Type) where
  run : Nat → Run α
  deepens : Deepens run

namespace Course

def lift (run : Run α) : Course α := ⟨fun _ => run, fun _ => .refl _⟩

protected def pure (a : α) : Course α := lift (Run.pure a)

protected def bind (x : Course α) (f : α → Course β) : Course β :=
  ⟨fun depth => (x.run depth).bind fun a => (f a).run depth, x.deepens.bind fun a => (f a).deepens⟩

def evaluate (e : Expr) (env : Environment) : Course Value :=
  ⟨(Unfurl.evaluate · e env), evaluate_deepens e env⟩

def apply (fn : Value) (args : List Value) : Course Value :=
  ⟨(Unfurl.apply · fn args), apply_deepens fn args⟩

def elements (es : List Expr) (env : Environment) : Course (List Value) :=
  ⟨fun depth => Run.each (fun e => Unfurl.evaluate depth e env) es, each_deepens es env⟩

def Ends (x : Course α) (t : Tally) (o : Outcome Fault α) : Prop := Finishes x.run none t o

/-- From every tally the course ends with this result. -/
def Returns (x : Course α) (a : α) : Prop := ∀ t, ∃ t', x.Ends t (.done a t')

def Becomes (x : Course α) (t : Tally) (y : Course α) (t' : Tally) : Prop :=
  ∀ o, x.Ends t o ↔ y.Ends t' o

variable {x y z : Course α} {f : α → Course β} {t t' t'' : Tally} {o o' : Outcome Fault α}

/-! ### Endings -/

theorem Ends.unique (first : x.Ends t o) (second : x.Ends t o') : o' = o :=
  Finishes.unique x.deepens first second

theorem Returns.eq {a b : α} (first : x.Returns a) (second : x.Returns b) : b = a := by
  obtain ⟨t', ends⟩ := first {}
  obtain ⟨t'', ends'⟩ := second {}
  have same := ends.unique ends'
  injection same

theorem diverges_iff : Diverges x.run none t ↔ ∀ o, ¬ x.Ends t o := by
  constructor
  · rintro diverges o ⟨finished, depth, rfl⟩
    exact diverges depth finished
  · intro never depth finished
    exact never _ ⟨finished, depth, rfl⟩

theorem ends_pure {a : α} : (Course.pure a).Ends t o ↔ o = .done a t := by
  constructor
  · rintro ⟨_, depth, rfl⟩
    rfl
  · rintro rfl
    exact ⟨trivial, 0, rfl⟩

theorem ends_bind {o : Outcome Fault β} : (x.bind f).Ends t o ↔
    (∃ a t', x.Ends t (.done a t') ∧ (f a).Ends t' o) ∨
      ∃ e t', x.Ends t (.failed e t') ∧ o = .failed e t' := by
  constructor
  · rintro ⟨finished, depth, ran⟩
    have whole : (x.run depth).bind (fun a => (f a).run depth) none t = o := ran
    unfold Run.bind at whole
    cases first : x.run depth none t with
    | done a t' =>
      rw [first] at whole
      exact Or.inl ⟨a, t', ⟨trivial, depth, first⟩, finished, depth, whole⟩
    | failed e t' =>
      rw [first] at whole
      exact Or.inr ⟨e, t', ⟨trivial, depth, first⟩, whole.symm⟩
    | exhausted t' =>
      rw [first] at whole
      subst whole
      exact finished.elim
  · rintro (⟨a, t', ⟨_, depth, first⟩, finished, depth', second⟩ | ⟨e, t', ⟨_, depth, first⟩, rfl⟩)
    · -- Both parts are run at the greater of their depths.
      have first' : x.run (max depth depth') none t = .done a t' :=
        (x.deepens.of_le (Nat.le_max_left _ _) (first ▸ trivial)).trans first
      have second' : (f a).run (max depth depth') none t' = o :=
        ((f a).deepens.of_le (Nat.le_max_right _ _) (second ▸ finished)).trans second
      refine ⟨finished, max depth depth', ?_⟩
      simp only [Course.bind, Run.bind, first', second']
    · refine ⟨trivial, depth, ?_⟩
      simp only [Course.bind, Run.bind, first]

theorem diverges_bind : Diverges (x.bind f).run none t ↔
    Diverges x.run none t ∨ ∃ a t', x.Ends t (.done a t') ∧ Diverges (f a).run none t' := by
  simp only [diverges_iff, ends_bind]
  constructor
  · intro never
    by_cases first : ∃ a t', x.Ends t (.done a t')
    · obtain ⟨a, t', ends⟩ := first
      exact Or.inr ⟨a, t', ends, fun o ends' => never o (Or.inl ⟨a, t', ends, ends'⟩)⟩
    · refine Or.inl fun o ends => ?_
      cases o with
      | done a t' => exact first ⟨a, t', ends⟩
      | failed e t' => exact never _ (Or.inr ⟨e, t', ends, rfl⟩)
      | exhausted t' => exact ends.1
  · rintro (never | ⟨a, t', ends, never⟩) o (⟨a', t'', ends', rest⟩ | ⟨e, t'', ends', rfl⟩)
    · exact never _ ends'
    · exact never _ ends'
    · cases ends.unique ends'
      exact never o rest
    · cases ends.unique ends'

theorem Returns.bind {a : α} {b : β} (first : x.Returns a) (second : (f a).Returns b) :
    (x.bind f).Returns b := by
  intro t
  obtain ⟨t', ends⟩ := first t
  obtain ⟨t'', ends'⟩ := second t'
  exact ⟨t'', ends_bind.mpr (Or.inl ⟨a, t', ends, ends'⟩)⟩

/-! ### Courses one behind the other -/

theorem bind_assoc (x : Course α) (f : α → Course β) (g : β → Course γ) :
    (x.bind f).bind g = x.bind fun a => (f a).bind g := by
  ext1
  funext depth limit t
  simp only [Course.bind, Run.bind]
  cases x.run depth limit t <;> rfl

theorem elements_cons (e : Expr) (es : List Expr) (env : Environment) :
    elements (e :: es) env =
      (evaluate e env).bind fun v => (elements es env).bind fun vs => Course.pure (v :: vs) := rfl

/-! ### Becoming -/

theorem Becomes.refl (x : Course α) (t : Tally) : Becomes x t x t := fun _ => Iff.rfl

theorem Becomes.trans (first : Becomes x t y t') (second : Becomes y t' z t'') : Becomes x t z t'' :=
  fun o => (first o).trans (second o)

theorem Becomes.ends (becomes : Becomes x t y t') (ends : y.Ends t' o) : x.Ends t o :=
  (becomes o).mpr ends

theorem Becomes.diverges (becomes : Becomes x t y t') : Diverges x.run none t ↔ Diverges y.run none t' := by
  rw [diverges_iff, diverges_iff]
  exact forall_congr' fun o => not_congr (becomes o)

/-- What ends alike goes on alike. -/
theorem Becomes.bind (becomes : Becomes x t y t') (f : α → Course β) :
    Becomes (x.bind f) t (y.bind f) t' := by
  intro o
  rw [ends_bind, ends_bind]
  simp only [becomes _]

theorem Ends.becomes_pure {a : α} (ends : x.Ends t (.done a t')) : Becomes x t (Course.pure a) t' := by
  intro o
  rw [ends_pure]
  exact ⟨fun second => ends.unique second, fun same => same ▸ ends⟩

/-- A course that has a result becomes what follows. -/
theorem Ends.becomes {a : α} (ends : x.Ends t (.done a t')) (f : α → Course β) :
    Becomes (x.bind f) t (f a) t' :=
  ends.becomes_pure.bind f

theorem becomes_of_succ (step : ∀ depth, x.run (depth + 1) none t = y.run depth none t') :
    Becomes x t y t' := by
  intro o
  constructor
  · rintro ⟨finished, depth, rfl⟩
    refine ⟨finished, depth, ?_⟩
    rw [← step, x.deepens depth none t finished]
  · rintro ⟨finished, depth, rfl⟩
    exact ⟨finished, depth + 1, step depth⟩

theorem returns_of_becomes {a : α} (becomes : ∀ t, ∃ y t', Course.Returns y a ∧ Becomes x t y t') :
    x.Returns a := by
  intro t
  obtain ⟨y, t', returns, step⟩ := becomes t
  obtain ⟨t'', ends⟩ := returns t'
  exact ⟨t'', step.ends ends⟩

end Course

namespace Tally

def stepped (n : Nat) (t : Tally) : Tally := { t with steps := t.steps + n }

def called (t : Tally) : Tally := { t with applications := t.applications + 1 }

def marked (n : Nat) (t : Tally) : Tally := { t with fresh := t.fresh + n }

def recorded (call : Call) (t : Tally) : Tally :=
  { t with applications := t.applications + 1, fresh := t.fresh + 1, calls := call :: t.calls }

end Tally

theorem apply_closure_mismatch {params : List Text} {args : List Value}
    (differ : args.length ≠ params.length) (depth : Nat) (mark : Mark) (body : Expr) (env : Environment)
    (limit : Option Nat) (t : Tally) :
    apply (depth + 1) (.closure mark params body env) args limit t =
      .failed (.eval (.arityMismatch params.length args.length)) t.called := by
  rw [apply_succ, invoke, if_neg differ]
  rfl

theorem apply_closure_match {params : List Text} {args : List Value}
    (length : args.length = params.length) (depth : Nat) (mark : Mark) (body : Expr) (env : Environment)
    (limit : Option Nat) (t : Tally) :
    apply (depth + 1) (.closure mark params body env) args limit t =
      evaluate depth body (Overlay.extend env (params.zip args)) limit t.called := by
  rw [apply_succ, invoke, if_pos length]
  rfl

namespace Course

variable {env : Environment} {e : Expr} {es : List Expr} {v : Value} {vs args : List Value} {t t' : Tally}

/-! ### Nodes -/

theorem evaluate_reads (reads : Reads env e v) (t : Tally) :
    (evaluate e env).Ends t (.done v (t.stepped 1)) := by
  refine ⟨trivial, 1, ?_⟩
  show Unfurl.evaluate 1 e env none t = _
  rw [evaluate_succ]
  cases reads with
  | literal => rfl
  | reference found =>
    simp [Run.bind, Run.tick, unfurl, resolve, Environment.lookup, found, Run.pure, Tally.stepped]

theorem evaluate_lambda (params : List Text) (body : Expr) (env : Environment) (t : Tally) :
    (evaluate (.lambda params body) env).Ends t
      (.done (.closure t.fresh params body env) ((t.stepped 1).marked 1)) :=
  ⟨trivial, 1, rfl⟩

theorem evaluate_application (fn arg : Expr) (env : Environment) (t : Tally) :
    Becomes (evaluate (.application fn arg) env) t
      ((evaluate fn env).bind fun fn => (evaluate arg env).bind fun arg => apply fn arg.spread)
      (t.stepped 1) :=
  becomes_of_succ fun _ => rfl

theorem evaluate_vector (es : List Expr) (env : Environment) (t : Tally) :
    Becomes (evaluate (.vector es) env) t ((elements es env).bind fun vs => Course.pure (.list vs))
      (t.stepped 1) :=
  becomes_of_succ fun _ => rfl

theorem evaluate_fix (f : Expr) (env : Environment) (t : Tally) :
    Becomes (evaluate (.fix f) env) t
      ((evaluate f env).bind fun fn => (lift Run.freshMark).bind fun mark => apply fn [.unfolding mark f env])
      (t.stepped 1) :=
  becomes_of_succ fun _ => rfl

theorem lift_freshMark (t : Tally) : (lift Run.freshMark).Ends t (.done t.fresh (t.marked 1)) :=
  ⟨trivial, 0, rfl⟩

theorem evaluate_select {s body : Expr} {branches : List Branch} {i : Nat}
    (scrutinee : (evaluate s env).Ends (t.stepped 1) (.done v t'))
    (selected : selectBranch v branches = .ok (i, body)) :
    Becomes (evaluate (.select s branches) env) t (evaluate body env) t' := by
  have node : Becomes (evaluate (.select s branches) env) t
      ((evaluate s env).bind fun v =>
        (lift (Run.ofExcept (selectBranch v branches))).bind fun found => evaluate found.2 env)
      (t.stepped 1) :=
    becomes_of_succ fun _ => rfl
  have chosen := scrutinee.becomes fun v =>
    (lift (Run.ofExcept (selectBranch v branches))).bind fun found => evaluate found.2 env
  rw [selected] at chosen
  exact node.trans chosen

/-! ### Calls -/

theorem apply_closure (m : Mark) (params : List Text) (body : Expr) (env : Environment) (args : List Value)
    (length : args.length = params.length) (t : Tally) :
    Becomes (apply (.closure m params body env) args) t
      (evaluate body (Overlay.extend env (params.zip args))) t.called :=
  becomes_of_succ fun depth => apply_closure_match length depth m body env none t

theorem apply_unfolding (m : Mark) (f : Expr) (env : Environment) (args : List Value) (t : Tally) :
    Becomes (apply (.unfolding m f env) args) t ((evaluate (.fix f) env).bind fun fn => apply fn args)
      t.called :=
  becomes_of_succ fun _ => rfl

theorem apply_builtin (m : Mark) (name : Text) (op : Primitive) (args : List Value) (t : Tally) :
    (apply (.builtin m name op) args).Ends t (.ofExcept (t.recorded (op, args)) (op.result t.fresh args)) := by
  refine ⟨Outcome.ofExcept_finished _ _, 1, ?_⟩
  exact Run.callPrimitive_none op args t.called

theorem elements_read (reads : List.Forall₂ (Reads env) es vs) (t : Tally) :
    (elements es env).Ends t (.done vs (t.stepped es.length)) := by
  induction reads generalizing t with
  | nil => exact ⟨trivial, 0, rfl⟩
  | @cons e v es vs head _ ih =>
    rw [elements_cons]
    have first := (evaluate_reads head t).becomes fun v =>
      (elements es env).bind fun vs => Course.pure (v :: vs)
    have rest := (ih (t.stepped 1)).becomes fun vs => Course.pure (v :: vs)
    have whole := first.trans rest
    refine whole.ends (ends_pure.mpr ?_)
    simp only [Tally.stepped, List.length_cons]
    congr 2
    omega

theorem elements_one_bind (e : Expr) (env : Environment) (k : List Value → Course α) :
    (elements [e] env).bind k = (evaluate e env).bind fun v => k [v] := by
  rw [elements_cons, bind_assoc]
  rfl

theorem elements_two_bind (e e' : Expr) (env : Environment) (k : List Value → Course α) :
    (elements [e, e'] env).bind k =
      (evaluate e env).bind fun v => (evaluate e' env).bind fun w => k [v, w] := by
  rw [elements_cons, bind_assoc]
  congr 1
  funext v
  rw [bind_assoc, elements_one_bind]
  rfl

/-- A call of a bound name becomes the call of what it is bound to, once the arguments have their values. -/
theorem evaluate_call {name : Text} {fn : Value} (bound : Overlay.get? env name = some fn)
    (es : List Expr) (t : Tally) :
    Becomes (evaluate (.call name es) env) t ((elements es env).bind fun vs => apply fn vs)
      (t.stepped 3) := by
  have head := (evaluate_reads (.reference bound) (t.stepped 1)).becomes fun fn =>
    (evaluate (.vector es) env).bind fun arg => apply fn arg.spread
  have operand := (evaluate_vector es env (t.stepped 2)).bind fun arg => apply fn arg.spread
  rw [bind_assoc] at operand
  exact ((evaluate_application _ _ env t).trans head).trans operand

theorem evaluate_call_read {name : Text} {fn : Value} (bound : Overlay.get? env name = some fn)
    (reads : List.Forall₂ (Reads env) es vs) (t : Tally) :
    Becomes (evaluate (.call name es) env) t (apply fn vs) (t.stepped (3 + es.length)) := by
  have arguments := (elements_read reads (t.stepped 3)).becomes fun vs => apply fn vs
  have steps : (t.stepped 3).stepped es.length = t.stepped (3 + es.length) := by
    simp only [Tally.stepped]
    congr 1
    omega
  rw [steps] at arguments
  exact (evaluate_call bound es t).trans arguments

end Course

end Unfurl
