import Unfurl.Proofs.Eval.Depth

namespace Unfurl

variable {α β : Type}

/-- The run was stopped at the first step beyond the limit `n`. -/
def Outcome.Stopped (n : Nat) (o : Outcome Fault α) : Prop :=
  ∃ t, t.steps = n + 1 ∧ o = .failed (.eval (.stepLimitExceeded n)) t

/-- What the limit `n` makes of a run that ends in `o` without one. -/
def Outcome.CutTo (n : Nat) (o limited : Outcome Fault α) : Prop :=
  (o.tally.steps ≤ n ∧ limited = o) ∨ (n < o.tally.steps ∧ limited.Stopped n)

/-! ### The limit acts at one step only -/

namespace Run

/-- Steps are never taken back, and a limit that is not yet passed only cuts the run. -/
def Exact (x : Run α) : Prop :=
  ∀ n t, t.steps ≤ n → t.steps ≤ (x none t).tally.steps ∧ (x none t).CutTo n (x (some n) t)

theorem Exact.of_steps {x : Run α} (same : ∀ limit t, x limit t = x none t)
    (steps : ∀ t, (x none t).tally.steps = t.steps) : x.Exact := by
  intro n t le
  rw [Outcome.CutTo, same (some n), steps]
  exact ⟨Nat.le_refl _, Or.inl ⟨le, rfl⟩⟩

theorem Exact.exhausted : (Run.exhausted : Run α).Exact := .of_steps (fun _ _ => rfl) fun _ => rfl

theorem Exact.count : Run.count.Exact := .of_steps (fun _ _ => rfl) fun _ => rfl

theorem tick_within {n : Nat} {t : Tally} (within : t.steps + 1 ≤ n) :
    Run.tick (some n) t = .done () { t with steps := t.steps + 1 } := by
  simp only [Run.tick]
  rw [if_neg (by omega)]

theorem tick_beyond {n : Nat} {t : Tally} (beyond : n < t.steps + 1) :
    Run.tick (some n) t = .failed (.eval (.stepLimitExceeded n)) { t with steps := t.steps + 1 } := by
  simp only [Run.tick]
  rw [if_pos (by omega)]

theorem Exact.tick : Run.tick.Exact := by
  intro n t le
  refine ⟨Nat.le_succ _, ?_⟩
  by_cases within : t.steps + 1 ≤ n
  · exact Or.inl ⟨within, tick_within within⟩
  · have beyond : n < t.steps + 1 := Nat.lt_of_not_le within
    refine Or.inr ⟨beyond, { t with steps := t.steps + 1 }, ?_, tick_beyond beyond⟩
    show t.steps + 1 = n + 1
    omega

theorem Exact.bind {x : Run α} {f : α → Run β} (first : x.Exact) (rest : ∀ a, (f a).Exact) :
    (x.bind f).Exact := by
  intro n t le
  obtain ⟨grown, cut⟩ := first n t le
  unfold Run.bind
  cases h : x none t with
  | done a t' =>
    rw [h] at grown cut
    simp only [Outcome.tally] at grown
    have later := (rest a t'.steps t' (Nat.le_refl _)).1
    refine ⟨Nat.le_trans grown later, ?_⟩
    rcases cut with ⟨within, same⟩ | ⟨beyond, t'', steps, stopped⟩
    · rw [same]
      exact (rest a n t' within).2
    · rw [stopped]
      exact Or.inr ⟨Nat.lt_of_lt_of_le beyond later, t'', steps, rfl⟩
  | failed e t' =>
    rw [h] at grown cut
    refine ⟨grown, ?_⟩
    rcases cut with ⟨within, same⟩ | ⟨beyond, t'', steps, stopped⟩
    · exact Or.inl ⟨within, by rw [same]⟩
    · exact Or.inr ⟨beyond, t'', steps, by rw [stopped]⟩
  | exhausted t' =>
    rw [h] at grown cut
    refine ⟨grown, ?_⟩
    rcases cut with ⟨within, same⟩ | ⟨beyond, t'', steps, stopped⟩
    · exact Or.inl ⟨within, by rw [same]⟩
    · exact Or.inr ⟨beyond, t'', steps, by rw [stopped]⟩

theorem exact_closed : Closed fun _ x => x.Exact where
  pure _ := .of_steps (fun _ _ => rfl) fun _ => rfl
  fail _ := .of_steps (fun _ _ => rfl) fun _ => rfl
  freshMark := .of_steps (fun _ _ => rfl) fun _ => rfl
  record _ := .of_steps (fun _ _ => rfl) fun _ => rfl
  bind := .bind

end Run

theorem depth_exact (depth : Nat) :
    (∀ e env, (evaluate depth e env).Exact) ∧ ∀ fn args, (apply depth fn args).Exact := by
  induction depth with
  | zero => exact ⟨fun _ _ => .exhausted, fun _ _ => .exhausted⟩
  | succ depth ih =>
    constructor
    · intro e env
      rw [evaluate_succ]
      exact Run.Exact.tick.bind fun _ => Run.exact_closed.unfurl ih.1 ih.2 env e
    · intro fn args
      rw [apply_succ]
      exact Run.Exact.count.bind fun _ => Run.exact_closed.invoke ih.1 ih.2 args fn

/-- A result under a limit keeps within it. -/
theorem Run.Exact.done_steps {x : Run α} (exact : x.Exact) {n : Nat} {t t' : Tally} {a : α}
    (le : t.steps ≤ n) (done : x (some n) t = .done a t') : t.steps ≤ t'.steps ∧ t'.steps ≤ n := by
  obtain ⟨grown, ⟨within, same⟩ | ⟨_, _, _, stopped⟩⟩ := exact n t le
  · rw [← same, done] at grown within
    exact ⟨grown, within⟩
  · rw [done] at stopped
    cases stopped

/-! ### Limited runs need bounded depth -/

namespace Run

/-- With at most `r` steps left of the limit `n`, the run has depth enough. -/
def Settles (n r : Nat) (x : Run α) : Prop :=
  ∀ t, t.steps ≤ n → n ≤ t.steps + r → (x (some n) t).Finished

theorem Settles.bind {n r : Nat} {x : Run α} {f : α → Run β} (exact : x.Exact)
    (first : x.Settles n r) (rest : ∀ a, (f a).Settles n r) : (x.bind f).Settles n r := by
  intro t le left
  have ends := first t le left
  unfold Run.bind
  cases h : x (some n) t with
  | done a t' =>
    obtain ⟨grown, within⟩ := exact.done_steps le h
    exact rest a t' within (by omega)
  | failed e t' => trivial
  | exhausted t' =>
    rw [h] at ends
    exact ends.elim

theorem settles_closed (n r : Nat) : Closed fun _ x => x.Exact ∧ x.Settles n r where
  pure a := ⟨exact_closed.pure a, fun _ _ _ => trivial⟩
  fail fault := ⟨exact_closed.fail fault, fun _ _ _ => trivial⟩
  freshMark := ⟨exact_closed.freshMark, fun _ _ _ => trivial⟩
  record call := ⟨exact_closed.record call, fun _ _ _ => trivial⟩
  bind first rest := ⟨first.1.bind fun a => (rest a).1, .bind first.1 first.2 fun a => (rest a).2⟩

/-- A tick uses up one of the steps that are left, or stops the run. -/
theorem Settles.tick_bind {n r : Nat} {f : Unit → Run α} (rest : ∀ k < r, (f ()).Settles n k) :
    (Run.tick.bind f).Settles n r := by
  intro t le left
  by_cases within : t.steps + 1 ≤ n
  · simp only [Run.bind, tick_within within]
    have enough : n ≤ t.steps + 1 + (r - 1) := by omega
    exact rest (r - 1) (by omega) _ within enough
  · simp only [Run.bind, tick_beyond (Nat.lt_of_not_le within)]
    trivial

end Run

/-- An evaluation with a result has taken a step. -/
theorem evaluate_done_lt {depth n : Nat} {e : Expr} {env : Environment} {t t' : Tally} {v : Value}
    (done : evaluate depth e env (some n) t = .done v t') : t.steps < t'.steps := by
  cases depth with
  | zero => cases done
  | succ depth =>
    rw [evaluate_succ] at done
    obtain ⟨_, t₁, ticked, done⟩ := Run.bind_done done
    obtain ⟨rfl, within⟩ := Run.tick_done ticked
    have below := depth_exact depth
    exact ((Run.exact_closed.unfurl below.1 below.2 env e).done_steps (within n rfl) done).1

theorem invoke_settles {depth n r : Nat}
    (below : ∀ e env, (evaluate depth e env).Settles n r)
    (calls : ∀ k < r, ∀ fn args, (apply depth fn args).Settles n k) (args : List Value) (fn : Value) :
    (invoke (evaluate depth) (apply depth) args fn).Settles n r := by
  cases fn with
  | closure mark params body env =>
    rw [invoke]
    split
    · exact below _ _
    · exact fun _ _ _ => trivial
  | unfolding mark f env =>
    -- The call goes on at this depth's own level, but the node has used up a step.
    intro t le left
    have ends := below (.fix f) env t le left
    simp only [invoke, Run.bind]
    cases h : evaluate depth (.fix f) env (some n) t with
    | done fn t' =>
      have used := evaluate_done_lt h
      obtain ⟨_, within⟩ := ((depth_exact depth).1 (.fix f) env).done_steps le h
      exact calls (r - 1) (by omega) fn args t' within (by omega)
    | failed e t' => trivial
    | exhausted t' =>
      rw [h] at ends
      exact ends.elim
  | builtin mark name op => exact ((Run.settles_closed n r).callPrimitive op args).2
  | _ => exact fun _ _ _ => trivial

/-- With `r` steps left, evaluation nests at most `2 * r + 1` levels and a call at most one more. -/
theorem limited_settles (n depth : Nat) :
    (∀ r, 2 * r + 1 ≤ depth → ∀ e env, (evaluate depth e env).Settles n r) ∧
      ∀ r, 2 * r + 2 ≤ depth → ∀ fn args, (apply depth fn args).Settles n r := by
  induction depth with
  | zero => exact ⟨fun r enough => by omega, fun r enough => by omega⟩
  | succ depth ih =>
    have exact := depth_exact depth
    constructor
    · intro r enough e env
      rw [evaluate_succ]
      refine Run.Settles.tick_bind fun k lt => ?_
      have below : ∀ e env, (evaluate depth e env).Settles n k := ih.1 k (by omega)
      have calls : ∀ fn args, (apply depth fn args).Settles n k := ih.2 k (by omega)
      exact ((Run.settles_closed n k).unfurl (fun e env => ⟨exact.1 e env, below e env⟩)
        (fun fn args => ⟨exact.2 fn args, calls fn args⟩) env e).2
    · intro r enough fn args
      rw [apply_succ]
      refine Run.Settles.bind .count (fun _ _ _ => trivial) fun _ => ?_
      exact invoke_settles (ih.1 r (by omega)) (fun k lt => ih.2 k (by omega)) args fn

/-! ### The threshold -/

/-- Every limit on the run from `start` has one finished outcome. It is that of the run without a limit
if that ends within the limit, and otherwise the run is stopped at the first step beyond. -/
def LimitExact (run : Nat → Run α) (start : Tally) : Prop :=
  ∀ n, ∃ limited, (∀ o, Finishes run (some n) start o ↔ o = limited) ∧
    (∀ o, Finishes run none start o →
      (o.tally.steps ≤ n → limited = o) ∧ (n < o.tally.steps → limited.Stopped n)) ∧
    (Diverges run none start → limited.Stopped n)

theorem limitExact_of_settles {run : Nat → Run α} {start : Tally} (deepens : Deepens run)
    (exact : ∀ depth, (run depth).Exact)
    (settles : ∀ n, ∃ depth, (run depth).Settles n n) (zero : start.steps = 0) :
    LimitExact run start := by
  intro n
  obtain ⟨depth, settled⟩ := settles n
  have finished := settled start (by omega) (by omega)
  have only := finishes_iff deepens rfl finished
  refine ⟨run depth (some n) start, only, ?_, ?_⟩
  · rintro o ⟨ends, depth', rfl⟩
    obtain ⟨_, ⟨within, same⟩ | ⟨beyond, stopped⟩⟩ := exact depth' n start (by omega)
    · have equal := (only _).mp ⟨ends, depth', same⟩
      exact ⟨fun _ => equal.symm, fun beyond => by omega⟩
    · have ended : (run depth' (some n) start).Finished := by
        obtain ⟨_, _, stopped⟩ := stopped
        rw [stopped]
        trivial
      have equal := (only _).mp ⟨ended, depth', rfl⟩
      exact ⟨fun within => by omega, fun _ => equal ▸ stopped⟩
  · intro diverges
    obtain ⟨_, ⟨_, same⟩ | ⟨_, stopped⟩⟩ := exact depth n start (by omega)
    · exact (diverges depth (same ▸ finished)).elim
    · exact stopped

/-- A step limit, counted from zero, is exact for every evaluation and for every call. -/
theorem limit_exact (t : Tally) :
    (∀ e env, LimitExact (evaluate · e env) { t with steps := 0 }) ∧
      ∀ fn args, LimitExact (apply · fn args) { t with steps := 0 } := by
  constructor
  · intro e env
    exact limitExact_of_settles (evaluate_deepens e env) (fun depth => (depth_exact depth).1 e env)
      (fun n => ⟨2 * n + 1, (limited_settles n _).1 n (Nat.le_refl _) e env⟩) rfl
  · intro fn args
    exact limitExact_of_settles (apply_deepens fn args) (fun depth => (depth_exact depth).2 fn args)
      (fun n => ⟨2 * n + 2, (limited_settles n _).2 n (Nat.le_refl _) fn args⟩) rfl

end Unfurl
