import Unfurl.Proofs.Eval.Course
import Unfurl.Proofs.Identity.Shift

namespace Unfurl

/-- The outcomes are renamings of each other that leave the marks below `b` alone, whatever was counted. -/
def Outcome.Alike (b : Mark) (o o' : Outcome Fault Value) : Prop :=
  ∃ ρ ρ' : Mark → Mark, (∀ m < b, ρ m = m ∧ ρ' m = m) ∧
    o.Related (fun v v' => v' = v.rename ρ ∧ v = v'.rename ρ')
      (fun e e' => e' = e.rename ρ ∧ e = e'.rename ρ') (fun _ _ => True) o'

namespace Course

/-- Both courses diverge, or both end and do so alike up to the marks that are new to them. -/
def SameOutcome (t : Tally) (x y : Course Value) : Prop :=
  (Diverges x.run none t ↔ Diverges y.run none t) ∧
    ∀ o o', x.Ends t o → y.Ends t o' → o.Alike t.fresh o'

/-- The next marks are equally far from `c` and from `d`. -/
def Aligned (c d : Mark) (t t' : Tally) : Prop := ∃ k, t.fresh = c + k ∧ t'.fresh = d + k

/-- The second outcome is the first one renamed, and their next marks are aligned. -/
def Renamed (ρ : Mark → Mark) (c d : Mark) (o o' : Outcome Fault Value) : Prop :=
  o.Related (fun v v' => v' = v.rename ρ) (fun e e' => e' = e.rename ρ) (Aligned c d) o'

/-- Each course ends as the other does, up to the renaming. -/
structure Twins (ρ : Mark → Mark) (c d : Mark) (x : Course Value) (t : Tally) (y : Course Value)
    (t' : Tally) : Prop where
  forth : ∀ o, x.Ends t o → ∃ o', y.Ends t' o' ∧ Renamed ρ c d o o'
  back : ∀ o', y.Ends t' o' → ∃ o, x.Ends t o ∧ Renamed ρ c d o o'

variable {ρ ρ' : Mark → Mark} {c d : Mark} {x y z : Course Value} {t t' t₁ : Tally}

theorem Renamed.finished_iff {o o' : Outcome Fault Value} (renamed : Renamed ρ c d o o') :
    o.Finished ↔ o'.Finished := by
  cases renamed <;> exact Iff.rfl

theorem Twins.of_runs (runs : ∀ depth, Renamed ρ c d (x.run depth none t) (y.run depth none t')) :
    Twins ρ c d x t y t' := by
  constructor
  · rintro _ ⟨finished, depth, rfl⟩
    exact ⟨_, ⟨(runs depth).finished_iff.mp finished, depth, rfl⟩, runs depth⟩
  · rintro _ ⟨finished, depth, rfl⟩
    exact ⟨_, ⟨(runs depth).finished_iff.mpr finished, depth, rfl⟩, runs depth⟩

theorem Twins.bind {f g : Value → Course Value} (first : Twins ρ c d x t y t')
    (rest : ∀ v u u', Aligned c d u u' → Twins ρ c d (f v) u (g (v.rename ρ)) u') :
    Twins ρ c d (x.bind f) t (y.bind g) t' := by
  constructor
  · intro o ends
    rcases ends_bind.mp ends with ⟨v, u, begins, goesOn⟩ | ⟨e, u, fails, rfl⟩
    · obtain ⟨_, begins', renamed⟩ := first.forth _ begins
      cases renamed with
      | done value aligned =>
        subst value
        obtain ⟨o', goesOn', renamed⟩ := (rest v u _ aligned).forth o goesOn
        exact ⟨o', ends_bind.mpr (Or.inl ⟨_, _, begins', goesOn'⟩), renamed⟩
    · obtain ⟨_, fails', renamed⟩ := first.forth _ fails
      cases renamed with
      | failed fault aligned =>
        exact ⟨_, ends_bind.mpr (Or.inr ⟨_, _, fails', rfl⟩), .failed fault aligned⟩
  · intro o' ends
    rcases ends_bind.mp ends with ⟨v', u', begins, goesOn⟩ | ⟨e', u', fails, rfl⟩
    · obtain ⟨_, begins', renamed⟩ := first.back _ begins
      cases renamed with
      | @done v _ u _ value aligned =>
        subst value
        obtain ⟨o, goesOn', renamed⟩ := (rest v u _ aligned).back o' goesOn
        exact ⟨o, ends_bind.mpr (Or.inl ⟨_, _, begins', goesOn'⟩), renamed⟩
    · obtain ⟨_, fails', renamed⟩ := first.back _ fails
      cases renamed with
      | failed fault aligned =>
        exact ⟨_, ends_bind.mpr (Or.inr ⟨_, _, fails', rfl⟩), .failed fault aligned⟩

theorem Twins.of_becomes {x' y' : Course Value} {u u' : Tally} (left : Becomes x t x' u)
    (right : Becomes y t' y' u') (twins : Twins ρ c d x' u y' u') : Twins ρ c d x t y t' := by
  constructor
  · intro o ends
    obtain ⟨o', ends', renamed⟩ := twins.forth o ((left o).mp ends)
    exact ⟨o', right.ends ends', renamed⟩
  · intro o' ends
    obtain ⟨o, ends', renamed⟩ := twins.back o' ((right o').mp ends)
    exact ⟨o, left.ends ends', renamed⟩

/-! ### Calls -/

theorem Aligned.trans {u u' : Tally} (first : Aligned c d t t') (second : Aligned t.fresh t'.fresh u u') :
    Aligned c d u u' := by
  obtain ⟨i, fresh, fresh'⟩ := first
  obtain ⟨k, next, next'⟩ := second
  exact ⟨i + k, by rw [next, fresh, Nat.add_assoc], by rw [next', fresh', Nat.add_assoc]⟩

theorem Renamed.of_twins {o o' : Outcome Fault Value} (start : Aligned c d t t') (twins : o.Twins ρ t t' o') :
    Renamed ρ c d o o' := by
  cases twins with
  | done value tallies => exact .done value (start.trans tallies.1)
  | failed fault tallies => exact .failed fault (start.trans tallies.1)
  | exhausted tallies => exact .exhausted (start.trans tallies.1)

theorem Twins.call (injective : Function.Injective ρ) (aligned : ∀ k, ρ (c + k) = d + k)
    (start : Aligned c d t t') (fn : Value) (args : List Value) :
    Twins ρ c d (apply fn args) t (apply (fn.rename ρ) (Value.renameAll ρ args)) t' := by
  have aligned' : ∀ k, ρ (t.fresh + k) = t'.fresh + k := by
    intro k
    obtain ⟨i, fresh, fresh'⟩ := start
    rw [fresh, fresh', Nat.add_assoc, Nat.add_assoc]
    exact aligned (i + k)
  exact .of_runs fun depth => .of_twins start (apply_twins injective aligned' (Or.inl rfl) depth fn args)

theorem Twins.call_self {fn : Value} {args : List Value} (injective : Function.Injective ρ)
    (aligned : ∀ k, ρ (c + k) = d + k) (start : Aligned c d t t') (callee : fn.rename ρ = fn)
    (given : Value.renameAll ρ args = args) : Twins ρ c d (apply fn args) t (apply fn args) t' := by
  have twins := Twins.call injective aligned start fn args
  rwa [callee, given] at twins

def chain (fn : Value) (x : Course Value) : Course Value := x.bind fun v => apply fn [v]

theorem Twins.chain (injective : Function.Injective ρ) (aligned : ∀ k, ρ (c + k) = d + k)
    (first : Twins ρ c d x t y t') (fn : Value) :
    Twins ρ c d (chain fn x) t (chain (fn.rename ρ) y) t' :=
  first.bind fun v _ _ start => .call injective aligned start fn [v]

/-! ### The same outcome -/

theorem Twins.sameOutcome (twins : Twins ρ c d x t y t) (back : ∀ m, ρ' (ρ m) = m)
    (fixed : ∀ m < t.fresh, ρ m = m ∧ ρ' m = m) : SameOutcome t x y := by
  constructor
  · rw [diverges_iff, diverges_iff]
    constructor
    · intro never o' ends
      obtain ⟨o, ends', _⟩ := twins.back o' ends
      exact never o ends'
    · intro never o ends
      obtain ⟨o', ends', _⟩ := twins.forth o ends
      exact never o' ends'
  · intro o o' ends ends'
    obtain ⟨o'', ends'', renamed⟩ := twins.forth o ends
    obtain rfl := ends''.unique ends'
    refine ⟨ρ, ρ', fixed, ?_⟩
    cases renamed with
    | done value _ => exact .done ⟨value, by rw [value, Value.rename_cancel fun _ _ m _ => back m]⟩ trivial
    | failed fault _ => exact .failed ⟨fault, by rw [fault, Fault.rename_cancel back]⟩ trivial
    | exhausted _ => exact ends.1.elim

theorem SameOutcome.symm (same : SameOutcome t x y) : SameOutcome t y x := by
  refine ⟨same.1.symm, fun o o' ends ends' => ?_⟩
  obtain ⟨ρ, ρ', fixed, related⟩ := same.2 o' o ends' ends
  refine ⟨ρ', ρ, fun m below => (fixed m below).symm, ?_⟩
  cases related with
  | done value _ => exact .done value.symm trivial
  | failed fault _ => exact .failed fault.symm trivial
  | exhausted _ => exact .exhausted trivial

/-- A course has the outcome of what it becomes, if that is its own twin however the new marks are renamed. -/
theorem sameOutcome_of_becomes (becomes : Becomes x t y t₁) (later : t.fresh ≤ t₁.fresh)
    (twins : ∀ ρ, Function.Injective ρ → (∀ k, ρ (t.fresh + k) = t₁.fresh + k) → (∀ m < t.fresh, ρ m = m) →
      Twins ρ t.fresh t₁.fresh y t y t₁) : SameOutcome t x y := by
  have embeds : Embeds t.fresh t₁.fresh id id := .refl later
  have fixed : ∀ m < t.fresh, splice t.fresh t₁.fresh id m = m ∧ splice t₁.fresh t.fresh id m = m :=
    fun m below => ⟨splice_below below, splice_below (Nat.lt_of_lt_of_le below later)⟩
  have own := twins _ embeds.injective (splice_aligned _ _ _) fun m below => (fixed m below).1
  exact ((own.of_becomes (.refl _ _) becomes).sameOutcome embeds.splice_back fixed).symm

end Course

end Unfurl
