import Unfurl.Proofs.Eval.Layer

namespace Unfurl

variable {α β : Type}

/-- The run has ended, and not for want of depth. -/
def Outcome.Finished {ε α : Type} : Outcome ε α → Prop
  | .done _ _ => True
  | .failed _ _ => True
  | .exhausted _ => False

/-- With some depth the run ends in this outcome. -/
def Finishes (run : Nat → Run α) (limit : Option Nat) (t : Tally) (o : Outcome Fault α) : Prop :=
  o.Finished ∧ ∃ depth, run depth limit t = o

def Diverges (run : Nat → Run α) (limit : Option Nat) (t : Tally) : Prop :=
  ∀ depth, ¬ (run depth limit t).Finished

/-! ### Outcomes that are kept -/

namespace Run

/-- Where `x` finishes, `y` has the same outcome. -/
def KeptBy (x y : Run α) : Prop := ∀ limit t, (x limit t).Finished → y limit t = x limit t

theorem KeptBy.refl (x : Run α) : x.KeptBy x := fun _ _ _ => rfl

theorem KeptBy.exhausted (x : Run α) : Run.exhausted.KeptBy x := by
  intro limit t finished
  exact finished.elim

theorem KeptBy.bind {x y : Run α} {f g : α → Run β} (first : x.KeptBy y)
    (rest : ∀ a, (f a).KeptBy (g a)) : (x.bind f).KeptBy (y.bind g) := by
  intro limit t finished
  have same := first limit t
  unfold Run.bind at finished ⊢
  cases h : x limit t with
  | done a t' =>
    rw [h] at same finished
    rw [same trivial]
    exact rest a limit t' finished
  | failed e t' =>
    rw [h] at same
    rw [same trivial]
  | exhausted t' =>
    rw [h] at finished
    exact finished.elim

theorem KeptBy.each {f g : α → Run β} (items : ∀ a, (f a).KeptBy (g a)) (xs : List α) :
    (Run.each f xs).KeptBy (Run.each g xs) := by
  induction xs with
  | nil => exact .refl _
  | cons a rest ih => exact (items a).bind fun _ => ih.bind fun _ => .refl _

variable {ev ev' : Expr → Environment → Run Value} {ap ap' : Value → List Value → Run Value}

theorem KeptBy.unfurl (below : ∀ e env, (ev e env).KeptBy (ev' e env))
    (calls : ∀ fn args, (ap fn args).KeptBy (ap' fn args)) (env : Environment) (e : Expr) :
    (unfurl ev ap env e).KeptBy (unfurl ev' ap' env e) := by
  cases e with
  | literal value => exact .refl _
  | reference name => exact .refl _
  | lambda params body => exact .refl _
  | vector elements =>
    exact (KeptBy.each (fun element => below element env) elements).bind fun _ => .refl _
  | application f a => exact (below f env).bind fun _ => (below a env).bind fun _ => calls _ _
  | fix f => exact (below f env).bind fun _ => (KeptBy.refl _).bind fun _ => calls _ _
  | select scrutinee branches =>
    exact (below scrutinee env).bind fun _ => (KeptBy.refl _).bind fun _ => below _ env

theorem KeptBy.invoke (below : ∀ e env, (ev e env).KeptBy (ev' e env))
    (calls : ∀ fn args, (ap fn args).KeptBy (ap' fn args)) (args : List Value) (fn : Value) :
    (invoke ev ap args fn).KeptBy (invoke ev' ap' args fn) := by
  cases fn with
  | closure mark params body env =>
    rw [Unfurl.invoke, Unfurl.invoke]
    split
    · exact below _ _
    · exact .refl _
  | unfolding mark f env => exact (below _ env).bind fun _ => calls _ _
  | _ => exact .refl _

end Run

/-! ### Depth -/

theorem depth_kept (depth : Nat) :
    (∀ e env, (evaluate depth e env).KeptBy (evaluate (depth + 1) e env)) ∧
      ∀ fn args, (apply depth fn args).KeptBy (apply (depth + 1) fn args) := by
  induction depth with
  | zero => exact ⟨fun _ _ => .exhausted _, fun _ _ => .exhausted _⟩
  | succ depth ih =>
    constructor
    · intro e env
      rw [evaluate_succ, evaluate_succ]
      exact (Run.KeptBy.refl _).bind fun _ => .unfurl ih.1 ih.2 env e
    · intro fn args
      rw [apply_succ, apply_succ]
      exact (Run.KeptBy.refl _).bind fun _ => .invoke ih.1 ih.2 args fn

def Deepens (run : Nat → Run α) : Prop := ∀ depth, (run depth).KeptBy (run (depth + 1))

theorem evaluate_deepens (e : Expr) (env : Environment) : Deepens (evaluate · e env) :=
  fun depth => (depth_kept depth).1 e env

theorem apply_deepens (fn : Value) (args : List Value) : Deepens (apply · fn args) :=
  fun depth => (depth_kept depth).2 fn args

theorem Deepens.of_le {run : Nat → Run α} (deepens : Deepens run) {depth deeper : Nat}
    (le : depth ≤ deeper) {limit : Option Nat} {t : Tally} (finished : (run depth limit t).Finished) :
    run deeper limit t = run depth limit t := by
  induction le with
  | refl => rfl
  | @step deeper _ ih => rw [deepens deeper limit t (ih ▸ finished), ih]

theorem Finishes.unique {run : Nat → Run α} (deepens : Deepens run) {limit : Option Nat} {t : Tally}
    {o o' : Outcome Fault α} (first : Finishes run limit t o) (second : Finishes run limit t o') :
    o' = o := by
  obtain ⟨finished, depth, rfl⟩ := first
  obtain ⟨finished', depth', rfl⟩ := second
  rcases Nat.le_total depth depth' with le | le
  · exact deepens.of_le le finished
  · exact (deepens.of_le le finished').symm

/-- The finished outcome at one depth is the only one at any. -/
theorem finishes_iff {run : Nat → Run α} (deepens : Deepens run) {depth : Nat} {limit : Option Nat}
    {t : Tally} {o : Outcome Fault α} (ends : run depth limit t = o) (finished : o.Finished)
    (o' : Outcome Fault α) : Finishes run limit t o' ↔ o' = o := by
  constructor
  · exact fun second => Finishes.unique deepens ⟨finished, depth, ends⟩ second
  · rintro rfl
    exact ⟨finished, depth, ends⟩

end Unfurl
