import Unfurl.Proofs.Eval.Limit
import Unfurl.Proofs.Identity.Shift
import Unfurl.Proofs.Identity.Stage
import Unfurl.Session

/-! A request asks for one run, an evaluation or a call, or is turned down before any (`work`). -/

namespace Unfurl

variable {depth : Nat} {s : Session} {r : Request}

def Request.marked : Request → List Value
  | .eval e => e.marked
  | .evalText text =>
    match Expr.read text with
    | .ok e => e.marked
    | .error _ => []
  | .define _ e => e.marked
  | .call fn args => fn.marked ++ Value.markedAll args

def Request.defined : Request → Reply → Option (Definition × Value)
  | .define name e, ⟨.ok v, _⟩ => some ((name, e), v)
  | _, _ => none

theorem Request.defined_error (r : Request) (e : SessionError) (steps : Nat) :
    r.defined ⟨.error e, steps⟩ = none := by
  cases r <;> rfl

theorem Request.defined_some {reply : Reply} {d : Definition} {v : Value}
    (defined : r.defined reply = some (d, v)) : r = .define d.1 d.2 ∧ reply.result = .ok v := by
  unfold Request.defined at defined
  split at defined
  · cases defined
    exact ⟨rfl, rfl⟩
  · cases defined

theorem Outcome.result_ok {α : Type} {o : Outcome Fault α} {a : α} (ok : o.result = .ok a) :
    o = .done a o.tally := by
  cases o with
  | done b t =>
    cases ok
    rfl
  | _ => cases ok

namespace Session

/-! ### What a request does -/

/-- The run that a request asks for, or why there is none. -/
def work (depth : Nat) (s : Session) : Request → Except SessionError (Run Value)
  | .eval e => .ok (evaluate depth e s.env)
  | .evalText text =>
    match Expr.read text with
    | .ok e => .ok (evaluate depth e s.env)
    | .error e => .error (.document e)
  | .define _ e => .ok (evaluate depth e s.env)
  | .call fn args =>
    match s.callee fn with
    | .ok f => .ok (apply depth f args)
    | .error e => .error (.fault (.eval e))

def attempt (depth : Nat) (s : Session) (r : Request) : Reply × Tally :=
  match s.work depth r, stepLimit s.maxSteps with
  | .error e, _ => (⟨.error e, 0⟩, s.tally)
  | _, .error e => (⟨.error e, 0⟩, s.tally)
  | .ok run, .ok limit =>
    let outcome := run limit { s.tally with steps := 0 }
    (⟨outcome.result, outcome.tally.steps⟩, outcome.tally)

def bind (env : Environment) : Option (Definition × Value) → Environment
  | some (d, v) => Overlay.set env d.1 v
  | none => env

theorem answer_eq (depth : Nat) (s : Session) (r : Request) :
    s.answer depth r =
      ((s.attempt depth r).1,
        { s with
          env := bind s.env (r.defined (s.attempt depth r).1)
          tally := (s.attempt depth r).2 }) := by
  cases r with
  | eval e =>
    simp only [answer, attempt, work, perform]
    cases stepLimit s.maxSteps <;> rfl
  | evalText text =>
    simp only [answer, attempt, work, perform]
    cases Expr.read text with
    | error e => rfl
    | ok e => cases stepLimit s.maxSteps <;> rfl
  | define name e =>
    simp only [answer, attempt, work, perform]
    cases stepLimit s.maxSteps with
    | error e => rfl
    | ok limit =>
      dsimp only
      cases evaluate depth e s.env limit { s.tally with steps := 0 } <;> rfl
  | call fn args =>
    simp only [answer, attempt, work, perform]
    cases s.callee fn with
    | error e => rfl
    | ok f => cases stepLimit s.maxSteps <;> rfl

/-- The run of a request is an evaluation or a call, of code and values that the request mentions or the
environment binds. -/
theorem work_cases {run : Run Value} (ok : s.work depth r = .ok run) :
    (∃ e, run = evaluate depth e s.env ∧ ∀ u ∈ e.marked, u ∈ r.marked) ∨
      ∃ f args, run = apply depth f args ∧ (∀ u ∈ f.marked, u ∈ r.marked ∨ u ∈ Value.markedEnv s.env) ∧
        ∀ u ∈ Value.markedAll args, u ∈ r.marked := by
  cases r with
  | eval e | define name e =>
    cases ok
    exact Or.inl ⟨e, rfl, fun _ => id⟩
  | evalText text =>
    simp only [work] at ok
    split at ok
    · rename_i e read
      cases ok
      exact Or.inl ⟨e, rfl, by simp [Request.marked, read]⟩
    · cases ok
  | call fn args =>
    simp only [work] at ok
    split at ok
    · rename_i f found
      cases ok
      refine Or.inr ⟨f, args, rfl, fun u member => ?_, fun u => List.mem_append_right _⟩
      unfold callee Environment.lookup at found
      split at found
      · split at found
        · rename_i bound
          cases found
          exact Or.inr (mem_marked_get? bound member)
        · cases found
      · cases found
        exact Or.inl (List.mem_append_left _ member)
    · cases ok

/-- A session whose marks, and those of the request, are all below the next one. -/
structure Fits (s : Session) (r : Request) : Prop where
  env : EachMark (· < s.tally.fresh) (Value.markedEnv s.env)
  request : EachMark (· < s.tally.fresh) r.marked

theorem work_below (fits : s.Fits r) {run : Run Value} (ok : s.work depth r = .ok run) {t : Tally}
    (fresh : t.fresh = s.tally.fresh) (limit : Option Nat) :
    t.fresh ≤ (run limit t).tally.fresh ∧
      ∀ v t', run limit t = .done v t' → EachMark (· < t'.fresh) v.marked := by
  obtain ⟨bound, mentioned⟩ := fits
  rw [← fresh] at bound mentioned
  rcases work_cases ok with ⟨e, rfl, code⟩ | ⟨f, args, rfl, callee, given⟩
  · exact evaluate_below depth (fun u member => mentioned u (code u member)) bound limit
  · refine apply_below depth (fun u member => ?_) (fun u member => mentioned u (given u member)) limit
    rcases callee u member with here | there
    · exact mentioned u here
    · exact bound u there

/-- A request is turned down, or its run is made under the step limit with steps counted from zero. -/
theorem attempt_cases (depth : Nat) (s : Session) (r : Request) :
    (∃ e, s.attempt depth r = (⟨.error e, 0⟩, s.tally)) ∨
      ∃ run limit o, s.work depth r = .ok run ∧ stepLimit s.maxSteps = .ok limit ∧
        run limit { s.tally with steps := 0 } = o ∧
        s.attempt depth r = (⟨o.result, o.tally.steps⟩, o.tally) := by
  unfold attempt
  split
  · exact Or.inl ⟨_, rfl⟩
  · exact Or.inl ⟨_, rfl⟩
  · rename_i run limit work set
    exact Or.inr ⟨run, limit, _, work, set, rfl, rfl⟩

/-- After a request the marks of the session are again below the next one. -/
theorem answer_below (depth : Nat) (fits : s.Fits r) :
    s.tally.fresh ≤ (s.answer depth r).2.tally.fresh ∧
      EachMark (· < (s.answer depth r).2.tally.fresh) (Value.markedEnv (s.answer depth r).2.env) := by
  rw [answer_eq]
  rcases attempt_cases depth s r with ⟨e, same⟩ | ⟨run, limit, o, work, _, ends, same⟩
  · rw [same, Request.defined_error]
    exact ⟨Nat.le_refl _, fits.env⟩
  · rw [same]
    obtain ⟨later, value⟩ := work_below fits work (t := { s.tally with steps := 0 }) rfl limit
    rw [ends] at later value
    have env := fits.env.imp fun m below => Nat.lt_of_lt_of_le below later
    refine ⟨later, ?_⟩
    cases defined : r.defined ⟨o.result, o.tally.steps⟩ with
    | none => exact env
    | some pair =>
      obtain ⟨d, v⟩ := pair
      have done := Outcome.result_ok (Request.defined_some defined).2
      intro u member
      rcases mem_marked_set member with here | before
      · exact value v o.tally done u here
      · exact env u before

end Session

/-! ### Replies up to marks -/

def SessionError.rename (ρ : Mark → Mark) : SessionError → SessionError
  | .document e => .document e
  | .fault e => .fault (e.rename ρ)
  | .limitNotPositive => .limitNotPositive
  | .exhausted => .exhausted

def renameResult (ρ : Mark → Mark) : Except SessionError Value → Except SessionError Value
  | .ok v => .ok (v.rename ρ)
  | .error e => .error (e.rename ρ)

section Results

variable {ρ σ : Mark → Mark}

theorem renameResult_id (result : Except SessionError Value) : renameResult id result = result := by
  cases result with
  | ok v => simp only [renameResult, Value.rename_id]
  | error e =>
    cases e with
    | fault fault =>
      cases fault with
      | eval e => cases e <;> simp only [renameResult, SessionError.rename, Fault.rename, EvalError.rename,
          Value.rename_id]
      | _ => rfl
    | _ => rfl

theorem renameResult_cancel (back : ∀ m, σ (ρ m) = m) (result : Except SessionError Value) :
    renameResult σ (renameResult ρ result) = result := by
  cases result with
  | ok v => simp only [renameResult, Value.rename_cancel fun _ _ m _ => back m]
  | error e =>
    cases e with
    | fault fault => simp only [renameResult, SessionError.rename, Fault.rename_cancel back]
    | _ => rfl

end Results

/-- Equal steps, and results that are renamings of each other which leave the marks below `b` alone. -/
def Reply.Alike (b : Mark) (reply reply' : Reply) : Prop :=
  reply.steps = reply'.steps ∧ ∃ ρ ρ' : Mark → Mark, (∀ m < b, ρ m = m ∧ ρ' m = m) ∧
    reply'.result = renameResult ρ reply.result ∧ reply.result = renameResult ρ' reply'.result

namespace Reply.Alike

variable {b : Mark} {reply reply' : Reply}

theorem refl (b : Mark) (reply : Reply) : reply.Alike b reply := by
  have same := (renameResult_id reply.result).symm
  exact ⟨rfl, id, id, fun _ _ => ⟨rfl, rfl⟩, same, same⟩

theorem symm (alike : reply.Alike b reply') : reply'.Alike b reply := by
  obtain ⟨steps, ρ, ρ', fixed, there, back⟩ := alike
  exact ⟨steps.symm, ρ', ρ, fun m below => (fixed m below).symm, back, there⟩

theorem of_twins {ρ ρ' : Mark → Mark} {t t' : Tally} {o o' : Outcome Fault Value} (back : ∀ m, ρ' (ρ m) = m)
    (fixed : ∀ m < b, ρ m = m ∧ ρ' m = m) (twins : o.Twins ρ t t' o') (steps : t.steps = t'.steps) :
    Alike b ⟨o.result, o.tally.steps⟩ ⟨o'.result, o'.tally.steps⟩ := by
  have same : o.tally.steps = o'.tally.steps ∧ o'.result = renameResult ρ o.result := by
    cases twins with
    | done value tallies =>
      rw [value]
      exact ⟨Nat.add_right_cancel (steps ▸ tallies.2), rfl⟩
    | failed fault tallies =>
      rw [fault]
      exact ⟨Nat.add_right_cancel (steps ▸ tallies.2), rfl⟩
    | exhausted tallies => exact ⟨Nat.add_right_cancel (steps ▸ tallies.2), rfl⟩
  refine ⟨same.1, ρ, ρ', fixed, same.2, ?_⟩
  rw [same.2, renameResult_cancel back]

end Reply.Alike

namespace Session

/-- Where the request mentions no mark that is renamed, its run is its own twin. -/
theorem work_twins {ρ : Mark → Mark} {t t' : Tally} {limit : Option Nat} {run : Run Value}
    (injective : Function.Injective ρ) (aligned : ∀ k, ρ (t.fresh + k) = t'.fresh + k)
    (counts : limit = none ∨ t.steps = t'.steps)
    (env : EachMark (fun m => ρ m = m) (Value.markedEnv s.env))
    (request : EachMark (fun m => ρ m = m) r.marked) (ok : s.work depth r = .ok run) :
    (run limit t).Twins ρ t t' (run limit t') := by
  rcases work_cases ok with ⟨e, rfl, code⟩ | ⟨f, args, rfl, callee, given⟩
  · have twins := evaluate_twins injective aligned counts depth e s.env
    rwa [Expr.rename_eq_self fun u member => request u (code u member),
      Value.renameEnv_eq_self env] at twins
  · have twins := apply_twins injective aligned counts depth f args
    rwa [Value.rename_eq_self fun u member => (callee u member).elim (request u) (env u),
      Value.renameAll_eq_self fun u member => request u (given u member)] at twins

theorem work_tally (s : Session) (t : Tally) (r : Request) :
    work depth { s with tally := t } r = s.work depth r := by
  cases r <;> rfl

theorem answer_alike_of_le (fits : s.Fits r) {t : Tally} (le : s.tally.fresh ≤ t.fresh) :
    (s.answer depth r).1.Alike s.tally.fresh (({ s with tally := t } : Session).answer depth r).1 := by
  have embeds : Embeds s.tally.fresh t.fresh id id := .refl le
  let ρ := splice s.tally.fresh t.fresh id
  let ρ' := splice t.fresh s.tally.fresh id
  have fixed : ∀ m < s.tally.fresh, ρ m = m ∧ ρ' m = m := fun m below =>
    ⟨splice_below below, splice_below (Nat.lt_of_lt_of_le below le)⟩
  simp only [answer_eq, attempt, work_tally]
  cases work : s.work depth r with
  | error e => exact .refl _ _
  | ok run =>
    cases stepLimit s.maxSteps with
    | error e => exact .refl _ _
    | ok limit =>
      have twins : (run limit { s.tally with steps := 0 }).Twins ρ { s.tally with steps := 0 }
          { t with steps := 0 } (run limit { t with steps := 0 }) := by
        refine work_twins embeds.injective (splice_aligned _ _ _) (Or.inr rfl) ?_ ?_ work
        · exact fits.env.imp fun m below => (fixed m below).1
        · exact fits.request.imp fun m below => (fixed m below).1
      exact .of_twins embeds.splice_back fixed twins rfl

/-- The reply to a request is that of a fresh session with the same environment, in which neither the steps
nor the functions of earlier requests count. -/
theorem answer_alike {t : Tally} (fits : s.Fits r) (fresh : Fits { s with tally := t } r) :
    (s.answer depth r).1.Alike (min s.tally.fresh t.fresh)
      (({ s with tally := t } : Session).answer depth r).1 := by
  rcases Nat.le_total s.tally.fresh t.fresh with le | le
  · rw [Nat.min_eq_left le]
    exact answer_alike_of_le fits le
  · rw [Nat.min_eq_right le]
    exact (answer_alike_of_le fresh le).symm

end Session

end Unfurl
