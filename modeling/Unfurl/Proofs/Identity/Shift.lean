import Unfurl.Proofs.Eval.Simulation
import Unfurl.Proofs.Identity.Rename

/-! Started from another mark, on renamed code and values, a run takes the same steps to the renamed outcome. -/

namespace Unfurl

variable {α β : Type} {ρ : Mark → Mark}

/-! ### Failures -/

def EvalError.rename (ρ : Mark → Mark) : EvalError → EvalError
  | .undefinedReference name => .undefinedReference name
  | .arityMismatch expected got => .arityMismatch expected got
  | .notCallable v => .notCallable (v.rename ρ)
  | .noMatchingPattern v => .noMatchingPattern (v.rename ρ)
  | .refused op => .refused op
  | .stepLimitExceeded limit => .stepLimitExceeded limit

def Fault.rename (ρ : Mark → Mark) : Fault → Fault
  | .eval e => .eval (e.rename ρ)
  | .numeral e => .numeral e
  | .overflow => .overflow

theorem EvalError.rename_cancel {σ : Mark → Mark} (back : ∀ m, σ (ρ m) = m) (e : EvalError) :
    (e.rename ρ).rename σ = e := by
  cases e with
  | notCallable v | noMatchingPattern v =>
    simp only [EvalError.rename, Value.rename_cancel fun _ _ m _ => back m]
  | _ => rfl

theorem Fault.rename_cancel {σ : Mark → Mark} (back : ∀ m, σ (ρ m) = m) (fault : Fault) :
    (fault.rename ρ).rename σ = fault := by
  cases fault with
  | eval e => rw [Fault.rename, Fault.rename, EvalError.rename_cancel back]
  | _ => rfl

theorem blame_rename {cause : Value → EvalError} (commutes : ∀ v, (cause v).rename ρ = cause (v.rename ρ))
    (v : Value) : blame cause (v.rename ρ) = (blame cause v).rename ρ := by
  simp only [blame, Value.quotable_rename]
  split
  · rw [Fault.rename, commutes]
  · rfl

theorem Primitive.result_fault {op : Primitive} {mark : Mark} {args : List Value} {fault : Fault}
    (error : op.result mark args = .error fault) : fault.rename ρ = fault := by
  rcases Primitive.result_refuses error with rfl | ⟨rfl, _⟩ <;> rfl

/-! ### The simulation -/

theorem forall₂_rename {vs vs' : List Value} :
    List.Forall₂ (fun v v' => v' = v.rename ρ) vs vs' ↔ vs' = Value.renameAll ρ vs := by
  constructor
  · intro related
    induction related with
    | nil => rfl
    | cons head _ ih => rw [head, ih, Value.renameAll]
  · rintro rfl
    induction vs with
    | nil => exact .nil
    | cons v rest ih => exact .cons rfl ih

section Renaming

variable {c d : Mark}

abbrev RenamedCode (ρ : Mark → Mark) (e : Expr) (env : Environment) (e' : Expr) (env' : Environment) : Prop :=
  e' = e.rename ρ ∧ env' = Value.renameEnv ρ env

theorem selectBranch_renamed (injective : Function.Injective ρ) (env : Environment) (v : Value)
    (branches : List Branch) :
    ExceptRel (fun found found' => RenamedCode ρ found.2 env found'.2 (Value.renameEnv ρ env))
      (fun fault fault' => fault' = fault.rename ρ) (selectBranch v branches)
      (selectBranch (v.rename ρ) (Expr.renameBranches ρ branches)) := by
  unfold selectBranch
  rw [selectFrom_rename injective]
  cases selectFrom 0 v branches with
  | none => exact .error (blame_rename (fun _ => rfl) v)
  | some found => exact .ok ⟨rfl, rfl⟩

theorem node_renamed (injective : Function.Injective ρ) (aligned : ∀ k, ρ (c + k) = d + k) (e : Expr)
    (env : Environment) :
    NodeRel (fun v v' => v' = v.rename ρ) (RenamedCode ρ) (fun fault fault' => fault' = fault.rename ρ)
      (fun m m' => ∃ k, m = c + k ∧ m' = d + k) env (Value.renameEnv ρ env) e (e.rename ρ) := by
  have marks : ∀ {m m'}, (∃ k, m = c + k ∧ m' = d + k) → m' = ρ m := by
    rintro _ _ ⟨k, rfl, rfl⟩
    exact (aligned k).symm
  cases e with
  | literal v => exact .read (.literal v) (.literal _) rfl
  | reference name =>
    have renamed := get?_renameEnv (ρ := ρ) env name
    cases found : Overlay.get? env name with
    | none =>
      rw [found] at renamed
      exact .missing found renamed rfl
    | some v =>
      rw [found] at renamed
      exact .read (.reference found) (.reference renamed) rfl
  | vector elements =>
    rw [Expr.rename, Expr.renameAll_eq]
    refine .vector (List.forall₂_map_right_iff.mpr ?_)
    exact List.forall₂_same.mpr fun e _ => ⟨rfl, rfl⟩
  | application f a => exact .application ⟨rfl, rfl⟩ ⟨rfl, rfl⟩
  | lambda params body => exact .lambda fun m m' related => by rw [marks related, Value.rename]
  | fix f => exact .fix ⟨rfl, rfl⟩ fun m m' related => by rw [marks related, Value.rename]
  | select scrutinee branches =>
    refine .select ⟨rfl, rfl⟩ ?_
    rintro v _ rfl
    exact selectBranch_renamed injective env v branches

theorem callee_renamed (fn : Value) :
    CalleeRel (fun v v' => v' = v.rename ρ) (RenamedCode ρ) (fun fault fault' => fault' = fault.rename ρ) fn
      (fn.rename ρ) := by
  cases fn with
  | closure m params body env =>
    refine .closure rfl fun args args' related _ => ⟨rfl, ?_⟩
    rw [forall₂_rename.mp related, extend_renameEnv]
  | unfolding m f env => exact .unfolding ⟨rfl, rfl⟩
  | builtin m name op => exact .builtin op
  | _ => exact .other rfl rfl (blame_rename (fun _ => rfl) _)

/-- Both sides run in step when the marks from `c` on are renamed to those from `d` on. -/
def markRenaming (injective : Function.Injective ρ) (aligned : ∀ k, ρ (c + k) = d + k) : Simulation where
  value v v' := v' = v.rename ρ
  code := RenamedCode ρ
  fault fault fault' := fault' = fault.rename ρ
  mark m m' := ∃ k, m = c + k ∧ m' = d + k
  mark_succ := by
    rintro _ _ ⟨k, rfl, rfl⟩
    exact ⟨k + 1, rfl, rfl⟩
  limited _ := rfl
  arity _ _ := rfl
  node := by
    rintro e _ env _ ⟨rfl, rfl⟩
    exact node_renamed injective aligned e env
  callee := by
    rintro fn _ rfl
    exact callee_renamed fn
  list related := by rw [forall₂_rename.mp related, Value.rename]
  spread := by
    rintro v _ rfl
    exact forall₂_rename.mpr (Value.spread_rename v)
  primitive := by
    rintro op _ _ args args' ⟨k, rfl, rfl⟩ related
    rw [forall₂_rename.mp related, ← aligned k, Primitive.result_rename injective]
    cases h : op.result (c + k) args with
    | ok v => exact .ok rfl
    | error fault => exact .error (Primitive.result_fault h).symm

end Renaming

/-! ### What was counted before a run -/

/-- The tallies agree in the next mark, and their steps differ as much as those of `t` and `t'`. -/
structure Tally.Level (steps steps' : Nat) (t t' : Tally) : Prop where
  fresh : t.fresh = t'.fresh
  steps : t.steps + steps' = t'.steps + steps

def Run.Framed (limit : Option Nat) (steps steps' : Nat) (x : Run α) : Prop :=
  ∀ t t', Tally.Level steps steps' t t' →
    (x limit t).Related Eq Eq (Tally.Level steps steps') (x limit t')

section Framed

variable {limit : Option Nat} {steps steps' : Nat}

theorem Run.framed_closed : Run.Closed fun _ x => x.Framed limit steps steps' where
  pure _ _ _ level := .done rfl level
  fail _ _ _ level := .failed rfl level
  freshMark _ _ level := .done level.fresh ⟨congrArg (· + 1) level.fresh, level.steps⟩
  record _ _ _ level := .done rfl ⟨level.fresh, level.steps⟩
  bind {α β x f} first rest := by
    intro t t' level
    have ends := first t t' level
    unfold Run.bind
    generalize x limit t = o, x limit t' = o' at ends ⊢
    cases ends with
    | done same level =>
      cases same
      exact rest _ _ _ level
    | failed same level => exact .failed same level
    | exhausted level => exact .exhausted level

theorem Run.Framed.tick (aligned : limit = none ∨ steps = steps') :
    Run.tick.Framed limit steps steps' := by
  intro t t' level
  have ticked : Tally.Level steps steps' { t with steps := t.steps + 1 } { t' with steps := t'.steps + 1 } := by
    refine ⟨level.fresh, ?_⟩
    have same := level.steps
    show t.steps + 1 + steps' = t'.steps + 1 + steps
    omega
  rcases aligned with rfl | rfl
  · exact .done rfl ticked
  · have same : t.steps = t'.steps := Nat.add_right_cancel level.steps
    cases limit with
    | none => exact .done rfl ticked
    | some n =>
      simp only [Run.tick]
      rw [← same] at ticked ⊢
      split
      · exact .failed rfl ticked
      · exact .done rfl ticked

theorem depth_framed (aligned : limit = none ∨ steps = steps') (depth : Nat) :
    (∀ e env, (evaluate depth e env).Framed limit steps steps') ∧
      ∀ fn args, (apply depth fn args).Framed limit steps steps' := by
  induction depth with
  | zero => exact ⟨fun _ _ _ _ level => .exhausted level, fun _ _ _ _ level => .exhausted level⟩
  | succ depth ih =>
    constructor
    · intro e env
      rw [evaluate_succ]
      exact Run.framed_closed.bind (.tick aligned) fun _ => Run.framed_closed.unfurl ih.1 ih.2 env e
    · intro fn args
      rw [apply_succ]
      have counts : Run.count.Framed limit steps steps' :=
        fun _ _ level => .done rfl ⟨level.fresh, level.steps⟩
      exact Run.framed_closed.bind counts fun _ => Run.framed_closed.invoke ih.1 ih.2 args fn

end Framed

/-! ### Both together -/

/-- The outcome of a run that started with the tally `t` and that of its renamed twin, which started with
`t'`: both took the same steps and the same number of marks. -/
def Outcome.Twins (ρ : Mark → Mark) (t t' : Tally) (o o' : Outcome Fault Value) : Prop :=
  o.Related (fun v v' => v' = v.rename ρ) (fun fault fault' => fault' = fault.rename ρ)
    (fun u u' => (∃ k, u.fresh = t.fresh + k ∧ u'.fresh = t'.fresh + k) ∧
      u.steps + t'.steps = u'.steps + t.steps) o'

section Twins

variable {limit : Option Nat} {t t' : Tally}

theorem twins_of_runs {x y : Run Value} (injective : Function.Injective ρ)
    (aligned : ∀ k, ρ (t.fresh + k) = t'.fresh + k)
    (runs : (markRenaming injective aligned).Runs x y) (framed : y.Framed limit t.steps t'.steps) :
    (x limit t).Twins ρ t t' (y limit t') := by
  -- The twin of `t` shares its counts; it differs from `t'` only in what a run does not look at.
  let twin : Tally := { t with
    fresh := t'.fresh
    calls := t.calls.map fun call => (call.1, Value.renameAll ρ call.2) }
  have inStep : Tally.InStep (fun v v' => v' = v.rename ρ)
      (fun m m' => ∃ k, m = t.fresh + k ∧ m' = t'.fresh + k) t twin := by
    refine ⟨rfl, rfl, ⟨0, rfl, rfl⟩, List.forall₂_map_right_iff.mpr ?_⟩
    exact List.forall₂_same.mpr fun call _ => ⟨rfl, forall₂_rename.mpr rfl⟩
  have first := runs limit t twin inStep
  have second := framed twin t' ⟨rfl, Nat.add_comm _ _⟩
  generalize x limit t = o, y limit twin = o', y limit t' = o'' at first second
  cases first with
  | done value inStep =>
    cases second with
    | done same level =>
      cases same
      exact .done value ⟨level.fresh ▸ inStep.fresh, by rw [inStep.steps, level.steps]⟩
  | failed fault inStep =>
    cases second with
    | failed same level =>
      cases same
      exact .failed fault ⟨level.fresh ▸ inStep.fresh, by rw [inStep.steps, level.steps]⟩
  | exhausted inStep =>
    cases second with
    | exhausted level => exact .exhausted ⟨level.fresh ▸ inStep.fresh, by rw [inStep.steps, level.steps]⟩

theorem evaluate_twins (injective : Function.Injective ρ) (aligned : ∀ k, ρ (t.fresh + k) = t'.fresh + k)
    (counts : limit = none ∨ t.steps = t'.steps) (depth : Nat) (e : Expr) (env : Environment) :
    (evaluate depth e env limit t).Twins ρ t t'
      (evaluate depth (e.rename ρ) (Value.renameEnv ρ env) limit t') :=
  twins_of_runs injective aligned
    (((markRenaming injective aligned).depth_related depth).1 e env _ _ ⟨rfl, rfl⟩)
    ((depth_framed counts depth).1 _ _)

theorem apply_twins (injective : Function.Injective ρ) (aligned : ∀ k, ρ (t.fresh + k) = t'.fresh + k)
    (counts : limit = none ∨ t.steps = t'.steps) (depth : Nat) (fn : Value) (args : List Value) :
    (apply depth fn args limit t).Twins ρ t t'
      (apply depth (fn.rename ρ) (Value.renameAll ρ args) limit t') :=
  twins_of_runs injective aligned
    (((markRenaming injective aligned).depth_related depth).2 fn _ args _ rfl (forall₂_rename.mpr rfl))
    ((depth_framed counts depth).2 _ _)

end Twins

/-! ### Renamings built up -/

/-- The renaming that continues `ρ`, which is used below `c`, with the marks from `d` on. -/
def splice (c d : Nat) (ρ : Mark → Mark) (m : Nat) : Nat := if m < c then ρ m else d + (m - c)

/-- Below `c` the renaming stays below `d` and can be undone. -/
structure Embeds (c d : Nat) (ρ ρ' : Mark → Mark) : Prop where
  below : ∀ m < c, ρ m < d
  back : ∀ m < c, ρ' (ρ m) = m

theorem splice_below {c d m : Nat} (below : m < c) : splice c d ρ m = ρ m := if_pos below

theorem splice_aligned (c d : Nat) (ρ : Mark → Mark) (k : Nat) : splice c d ρ (c + k) = d + k := by
  rw [splice, if_neg (by omega), Nat.add_sub_cancel_left]

namespace Embeds

variable {c d : Nat} {ρ' : Mark → Mark}

theorem splice_back (embeds : Embeds c d ρ ρ') (m : Nat) : splice d c ρ' (splice c d ρ m) = m := by
  rcases Nat.lt_or_ge m c with below | above
  · rw [splice_below below, splice_below (embeds.below m below), embeds.back m below]
  · obtain ⟨k, rfl⟩ := Nat.exists_eq_add_of_le above
    rw [splice_aligned, splice_aligned]

theorem injective (embeds : Embeds c d ρ ρ') : Function.Injective (splice c d ρ) :=
  Function.LeftInverse.injective embeds.splice_back

theorem grow (embeds : Embeds c d ρ ρ') (k : Nat) :
    Embeds (c + k) (d + k) (splice c d ρ) (splice d c ρ') := by
  refine ⟨fun m below => ?_, fun m _ => embeds.splice_back m⟩
  rcases Nat.lt_or_ge m c with old | new
  · rw [splice_below old]
    exact Nat.lt_of_lt_of_le (embeds.below m old) (Nat.le_add_right d k)
  · obtain ⟨i, rfl⟩ := Nat.exists_eq_add_of_le new
    rw [splice_aligned]
    exact Nat.add_lt_add_left (Nat.lt_of_add_lt_add_left below) d

theorem later (embeds : Embeds c d ρ ρ') {d' : Nat} (le : d ≤ d') : Embeds c d' ρ ρ' :=
  ⟨fun m below => Nat.lt_of_lt_of_le (embeds.below m below) le, embeds.back⟩

theorem refl {c d : Nat} (le : c ≤ d) : Embeds c d id id :=
  ⟨fun _ below => Nat.lt_of_lt_of_le below le, fun _ _ => rfl⟩

end Embeds

end Unfurl
