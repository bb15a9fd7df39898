import Unfurl.Proofs.Eval.Limit
import Unfurl.Proofs.Overlay

/-!
Each step pays for two calls in advance: the node itself makes at most one, and an unfolding, whose call goes
on without a step of its own, has evaluated its node first.
-/

namespace Unfurl

variable {α β : Type} {n base : Nat}

/-! ### Calls paid in advance -/

/-- The calls beyond `base` are paid for by the steps, two for each, with `k` still to spend. -/
def Tally.Covers (n base k : Nat) (t : Tally) : Prop :=
  t.steps ≤ n ∧ t.applications + k ≤ base + 2 * t.steps

def Outcome.Within (n base k : Nat) : Outcome Fault α → Prop
  | .done _ t => t.Covers n base k
  | .failed _ t => t.steps ≤ n + 1 ∧ t.applications ≤ base + 2 * n
  | .exhausted t => t.steps ≤ n + 1 ∧ t.applications ≤ base + 2 * n

namespace Run

/-- With `k` calls to spend the run leaves `k'`, or ends within the bounds. -/
def Pays (n base k k' : Nat) (x : Run α) : Prop :=
  ∀ t, t.Covers n base k → (x (some n) t).Within n base k'

theorem Pays.pure (a : α) (k : Nat) : (Run.pure a).Pays n base k k := fun _ covers => covers

theorem Pays.freshMark (k : Nat) : Run.freshMark.Pays n base k k := fun _ covers => covers

theorem Pays.record (call : Call) (k : Nat) : (Run.record call).Pays n base k k :=
  fun _ covers => covers

theorem Pays.exhausted (k k' : Nat) : (Run.exhausted : Run α).Pays n base k k' := by
  rintro t ⟨steps, calls⟩
  exact ⟨by omega, by omega⟩

theorem Pays.fail (fault : Fault) (k k' : Nat) : (Run.fail fault : Run α).Pays n base k k' := by
  rintro t ⟨steps, calls⟩
  exact ⟨by omega, by omega⟩

theorem Pays.count (k : Nat) : Run.count.Pays n base (k + 1) k := by
  rintro t ⟨steps, calls⟩
  refine ⟨steps, ?_⟩
  show t.applications + 1 + k ≤ base + 2 * t.steps
  omega

theorem Pays.tick (k : Nat) : Run.tick.Pays n base k (k + 2) := by
  rintro t ⟨steps, calls⟩
  by_cases within : t.steps + 1 ≤ n
  · rw [tick_within within]
    refine ⟨within, ?_⟩
    show t.applications + (k + 2) ≤ base + 2 * (t.steps + 1)
    omega
  · rw [tick_beyond (Nat.lt_of_not_le within)]
    refine ⟨?_, ?_⟩
    · show t.steps + 1 ≤ n + 1
      omega
    · show t.applications ≤ base + 2 * n
      omega

/-- What is left may be less than was promised. -/
theorem Pays.less {x : Run α} {k k' j : Nat} (pays : x.Pays n base k k') (le : j ≤ k') :
    x.Pays n base k j := by
  intro t covers
  have ends := pays t covers
  cases h : x (some n) t with
  | done a t' =>
    rw [h] at ends
    obtain ⟨steps, calls⟩ := ends
    exact ⟨steps, by omega⟩
  | failed e t' =>
    rw [h] at ends
    exact ends
  | exhausted t' =>
    rw [h] at ends
    exact ends

theorem Pays.bind {x : Run α} {f : α → Run β} {k k' k'' : Nat} (first : x.Pays n base k k')
    (rest : ∀ a, (f a).Pays n base k' k'') : (x.bind f).Pays n base k k'' := by
  intro t covers
  have ends := first t covers
  unfold Run.bind
  cases h : x (some n) t with
  | done a t' =>
    rw [h] at ends
    exact rest a t' ends
  | failed e t' =>
    rw [h] at ends
    exact ends
  | exhausted t' =>
    rw [h] at ends
    exact ends

theorem Pays.ofExcept (r : Except Fault α) (k : Nat) : (Run.ofExcept r).Pays n base k k := by
  cases r with
  | ok a => exact .pure a k
  | error e => exact .fail e k k

theorem Pays.each {f : α → Run β} {k : Nat} (items : ∀ a, (f a).Pays n base k k) (xs : List α) :
    (Run.each f xs).Pays n base k k := by
  induction xs with
  | nil => exact .pure [] k
  | cons a rest ih => exact (items a).bind fun _ => ih.bind fun _ => .pure _ k

end Run

theorem resolve_pays (env : Environment) (name : Text) (k : Nat) :
    (resolve env name).Pays n base k k := by
  unfold resolve
  split
  · exact .pure _ k
  · exact .fail _ k k

theorem callPrimitive_pays (op : Primitive) (args : List Value) (k : Nat) :
    (callPrimitive op args).Pays n base k k := by
  rw [callPrimitive_eq]
  exact (Run.Pays.record _ k).bind fun _ => (Run.Pays.freshMark k).bind fun _ => .ofExcept _ k

section Layer

variable {ev : Expr → Environment → Run Value} {ap : Value → List Value → Run Value}

/-- A node has been given two calls to spend and leaves one of them. -/
theorem unfurl_pays (below : ∀ k e env, (ev e env).Pays n base k (k + 1))
    (calls : ∀ k fn args, (ap fn args).Pays n base (k + 1) k) (k : Nat) (env : Environment) (e : Expr) :
    (unfurl ev ap env e).Pays n base (k + 2) (k + 1) := by
  cases e with
  | literal value => exact (Run.Pays.pure value _).less (by omega)
  | reference name => exact (resolve_pays env name _).less (by omega)
  | vector elements =>
    have each := Run.Pays.each (fun e => (below (k + 2) e env).less (j := k + 2) (by omega)) elements
    exact each.bind fun _ => (Run.Pays.pure _ _).less (by omega)
  | application f a =>
    refine (below (k + 2) f env).bind fun fn => (below (k + 3) a env).bind fun arg => ?_
    exact (calls (k + 3) fn arg.spread).less (by omega)
  | lambda params body =>
    rw [unfurl]
    exact (Run.Pays.freshMark _).bind fun _ => (Run.Pays.pure _ _).less (by omega)
  | fix f =>
    refine (below (k + 2) f env).bind fun fn => (Run.Pays.freshMark _).bind fun mark => ?_
    exact (calls (k + 2) fn _).less (by omega)
  | select scrutinee branches =>
    refine (below (k + 2) scrutinee env).bind fun v => (Run.Pays.ofExcept _ _).bind fun found => ?_
    exact (below (k + 3) found.2 env).less (by omega)

/-- The node of an unfolding leaves the call that the unfolding makes after it. -/
theorem invoke_pays (below : ∀ k e env, (ev e env).Pays n base k (k + 1))
    (calls : ∀ k fn args, (ap fn args).Pays n base (k + 1) k) (k : Nat) (args : List Value)
    (fn : Value) : (invoke ev ap args fn).Pays n base k k := by
  cases fn with
  | closure mark params body env =>
    rw [invoke]
    split
    · exact (below k _ _).less (by omega)
    · exact .fail _ k k
  | unfolding mark f env => exact (below k _ env).bind fun fn => calls k fn args
  | builtin mark name op => exact callPrimitive_pays op args k
  | _ => exact .fail _ k k

end Layer

theorem depth_pays (n base depth : Nat) :
    (∀ k e env, (evaluate depth e env).Pays n base k (k + 1)) ∧
      ∀ k fn args, (apply depth fn args).Pays n base (k + 1) k := by
  induction depth with
  | zero => exact ⟨fun k _ _ => .exhausted k _, fun k _ _ => .exhausted _ k⟩
  | succ depth ih =>
    constructor
    · intro k e env
      rw [evaluate_succ]
      exact (Run.Pays.tick k).bind fun _ => unfurl_pays ih.1 ih.2 k env e
    · intro k fn args
      rw [apply_succ]
      exact (Run.Pays.count k).bind fun _ => invoke_pays ih.1 ih.2 k args fn

theorem Outcome.Within.bounds {k : Nat} {o : Outcome Fault α} (within : o.Within n base k) :
    o.tally.steps ≤ n + 1 ∧ o.tally.applications ≤ base + 2 * n := by
  cases o with
  | done a t =>
    obtain ⟨steps, calls⟩ := within
    show t.steps ≤ n + 1 ∧ t.applications ≤ base + 2 * n
    omega
  | failed e t => exact within
  | exhausted t => exact within

/-! ### An unfolding that returns itself -/

def selfReturning : Expr := .lambda ["self"] (.reference "self")

/-- Its node unfurls, where the depth is enough, to an unfolding of the same node. -/
theorem selfReturning_unfolds (depth : Nat) (env : Environment) (t : Tally) :
    (∃ t', evaluate depth (.fix selfReturning) env none t = .exhausted t') ∨
      ∃ m t', evaluate depth (.fix selfReturning) env none t =
        .done (.unfolding m selfReturning env) t' := by
  match depth with
  | 0 => exact Or.inl ⟨_, rfl⟩
  | 1 => exact Or.inl ⟨_, rfl⟩
  | 2 => exact Or.inl ⟨_, rfl⟩
  | depth + 3 =>
    refine Or.inr ⟨t.fresh + 1, ⟨t.steps + 3, t.applications + 1, t.fresh + 2, t.calls⟩, ?_⟩
    simp [selfReturning, evaluate_succ, apply_succ, unfurl, invoke, Run.bind, Run.tick, Run.count,
      Run.freshMark, Run.pure, resolve, Environment.lookup, Overlay.extend, Overlay.get?_set]

theorem selfReturning_diverges (m : Mark) (env : Environment) (args : List Value) (t : Tally) :
    Diverges (apply · (.unfolding m selfReturning env) args) none t := by
  intro depth
  induction depth generalizing m t with
  | zero => exact id
  | succ depth ih =>
    simp only [apply_succ, invoke, Run.bind, Run.count]
    obtain ⟨t', ends⟩ | ⟨m', t', ends⟩ :=
      selfReturning_unfolds depth env { t with applications := t.applications + 1 }
    · rw [ends]
      exact id
    · rw [ends]
      exact ih m' t'

theorem selfReturning_call_diverges (v : Value) (env : Environment) (t : Tally) :
    Diverges (evaluate · (.application (.fix selfReturning) (.literal v)) env) none t := by
  intro depth
  cases depth with
  | zero => exact id
  | succ depth =>
    simp only [evaluate_succ, unfurl, Run.bind, Run.tick]
    obtain ⟨t', ends⟩ | ⟨m, t', ends⟩ :=
      selfReturning_unfolds depth env { t with steps := t.steps + 1 }
    · rw [ends]
      exact id
    · rw [ends]
      cases depth with
      | zero => exact id
      | succ depth =>
        simp only [evaluate_succ, unfurl, Run.bind, Run.tick, Run.pure]
        exact selfReturning_diverges m env v.spread _ (depth + 1)

/-! ### Bounds -/

theorem evaluate_limited {depth : Nat} (enough : 2 * n + 1 ≤ depth) (e : Expr) (env : Environment)
    {t : Tally} (zero : t.steps = 0) : (evaluate depth e env (some n) t).Finished :=
  (limited_settles n depth).1 n enough e env t (by omega) (by omega)

/-- Under the limit `n` every evaluation ends, after at most `n + 1` steps and `2 * n` calls, and never
nests deeper than `2 * n + 1` levels. An unfolding that returns an unfolding of itself, which does not end
without a limit, is stopped as well. -/
theorem limited_bounds (n : Nat) (t : Tally) :
    (∀ e env, ∃ o, o.Finished ∧ o.tally.steps ≤ n + 1 ∧ o.tally.applications ≤ 2 * n ∧
      ∀ depth, 2 * n + 1 ≤ depth →
        evaluate depth e env (some n) { t with steps := 0, applications := 0 } = o) ∧
    ∀ v env, Diverges (evaluate · (.application (.fix selfReturning) (.literal v)) env) none t ∧
      ∀ depth, 2 * n + 1 ≤ depth →
        (evaluate depth (.application (.fix selfReturning) (.literal v)) env (some n)
          { t with steps := 0 }).Stopped n := by
  constructor
  · intro e env
    have ends := evaluate_limited (Nat.le_refl (2 * n + 1)) e env
      (t := { t with steps := 0, applications := 0 }) rfl
    have start : Tally.Covers n 0 0 { t with steps := 0, applications := 0 } :=
      ⟨Nat.zero_le n, Nat.le_refl 0⟩
    have bounds := ((depth_pays n 0 (2 * n + 1)).1 0 e env _ start).bounds
    refine ⟨_, ends, bounds.1, by simpa using bounds.2, fun depth enough => ?_⟩
    exact (evaluate_deepens e env).of_le enough ends
  · intro v env
    refine ⟨selfReturning_call_diverges v env t, fun depth enough => ?_⟩
    have exact := fun depth => (depth_exact depth).1 (.application (.fix selfReturning) (.literal v)) env
    -- A limit that is not reached changes nothing, but then the run would end without it too.
    obtain ⟨_, ⟨_, same⟩ | ⟨_, stopped⟩⟩ := exact depth n { t with steps := 0 } (Nat.zero_le n)
    · have ends := evaluate_limited enough (.application (.fix selfReturning) (.literal v)) env
        (t := { t with steps := 0 }) rfl
      rw [same] at ends
      exact (selfReturning_call_diverges v env _ depth ends).elim
    · exact stopped

end Unfurl
