import Unfurl.Proofs.Eval.Depth
import Unfurl.Proofs.Eval.Judgement

/-!
Every run is derived by induction on the depth (`depth_yields`), and every derivation is run by induction on
the derivation (`Unfurls.attains`).
-/

namespace Unfurl

variable {α β : Type}

def Outcome.ofExcept (t : Tally) : Except Fault α → Outcome Fault α
  | .ok a => .done a t
  | .error e => .failed e t

theorem Outcome.ofExcept_finished (t : Tally) (r : Except Fault α) : (ofExcept t r).Finished := by
  cases r <;> trivial

theorem Outcome.ofExcept_inj {t t' : Tally} {r r' : Except Fault α}
    (same : ofExcept t r = ofExcept t' r') : r = r' ∧ t = t' := by
  cases r <;> cases r' <;> cases same <;> exact ⟨rfl, rfl⟩

theorem Outcome.Finished.eq_ofExcept {o : Outcome Fault α} (finished : o.Finished) :
    ∃ r, o = ofExcept o.tally r := by
  cases o with
  | done a t => exact ⟨.ok a, rfl⟩
  | failed e t => exact ⟨.error e, rfl⟩
  | exhausted t => exact finished.elim

/-! ### Branches -/

theorem selectFrom_none {index : Nat} {v : Value} {branches : List Branch}
    (none : selectFrom index v branches = none) : ∀ branch ∈ branches, branch.1.accepts v = false := by
  induction branches generalizing index with
  | nil => simp
  | cons branch rest ih =>
    rw [selectFrom] at none
    split at none
    · cases none
    · rename_i refused
      intro other member
      rcases List.mem_cons.mp member with rfl | later
      · exact Bool.eq_false_iff.mpr refused
      · exact ih none other later

theorem selectFrom_some {index i : Nat} {v : Value} {branches : List Branch} {body : Expr}
    (found : selectFrom index v branches = some (i, body)) :
    ∃ before p after, branches = before ++ (p, body) :: after ∧
      (∀ branch ∈ before, branch.1.accepts v = false) ∧ p.accepts v = true := by
  induction branches generalizing index with
  | nil => cases found
  | cons branch rest ih =>
    obtain ⟨p, own⟩ := branch
    rw [selectFrom] at found
    split at found
    · rename_i accepted
      cases found
      exact ⟨[], p, rest, rfl, by simp, accepted⟩
    · rename_i refused
      obtain ⟨before, q, after, rfl, earlier, accepted⟩ := ih found
      refine ⟨(p, own) :: before, q, after, rfl, ?_, accepted⟩
      intro other member
      rcases List.mem_cons.mp member with rfl | later
      · exact Bool.eq_false_iff.mpr refused
      · exact earlier other later

theorem selectFrom_refused {index : Nat} {v : Value} {before rest : List Branch}
    (refused : ∀ branch ∈ before, branch.1.accepts v = false) :
    selectFrom index v (before ++ rest) = selectFrom (index + before.length) v rest := by
  induction before generalizing index with
  | nil => rfl
  | cons branch before ih =>
    obtain ⟨here, later⟩ := List.forall_mem_cons.mp refused
    rw [List.cons_append, selectFrom, if_neg (by simp [here]), ih later, List.length_cons]
    congr 1
    omega

theorem selectBranch_refused {v : Value} {branches : List Branch}
    (refused : ∀ branch ∈ branches, branch.1.accepts v = false) :
    selectBranch v branches = .error (blame .noMatchingPattern v) := by
  have none : selectFrom 0 v (branches ++ []) = none := selectFrom_refused refused
  rw [List.append_nil] at none
  rw [selectBranch, none]

theorem selectBranch_accepted {v : Value} {p : Pattern} {body : Expr} {before after : List Branch}
    (refused : ∀ branch ∈ before, branch.1.accepts v = false) (accepted : p.accepts v = true) :
    selectBranch v (before ++ (p, body) :: after) = .ok (before.length, body) := by
  rw [selectBranch, selectFrom_refused refused, selectFrom, if_pos accepted, Nat.zero_add]

/-! ### Every run is derived -/

namespace Run

/-- However the run ends without a limit, from the mark `m`, its ending has the property. -/
def Yields (x : Run α) (m : Mark) (P : Except Fault α → List Call → Mark → Prop) : Prop :=
  ∀ t r t', t.fresh = m → x none t = .ofExcept t' r →
    ∃ calls, t'.calls = calls.reverse ++ t.calls ∧ P r calls t'.fresh

variable {P : Except Fault α → List Call → Mark → Prop} {Q : Except Fault β → List Call → Mark → Prop}
  {m : Mark}

theorem Yields.pure {a : α} (holds : P (.ok a) [] m) : (Run.pure a).Yields m P := by
  intro t r t' fresh ends
  obtain ⟨rfl, rfl⟩ := Outcome.ofExcept_inj (r := .ok a) ends
  exact ⟨[], rfl, fresh ▸ holds⟩

theorem Yields.fail {e : Fault} (holds : P (.error e) [] m) : (Run.fail e).Yields m P := by
  intro t r t' fresh ends
  obtain ⟨rfl, rfl⟩ := Outcome.ofExcept_inj (r := .error e) ends
  exact ⟨[], rfl, fresh ▸ holds⟩

theorem Yields.exhausted : Run.exhausted.Yields m P := by
  intro t r t' _ ends
  cases r <;> cases ends

theorem Yields.bind {x : Run α} {f : α → Run β} (first : x.Yields m P)
    (failing : ∀ e c m', P (.error e) c m' → Q (.error e) c m')
    (rest : ∀ a c₁ m₁, P (.ok a) c₁ m₁ → (f a).Yields m₁ fun r c₂ m₂ => Q r (c₁ ++ c₂) m₂) :
    (x.bind f).Yields m Q := by
  intro t r t' fresh ends
  unfold Run.bind at ends
  cases h : x none t with
  | done a t₁ =>
    rw [h] at ends
    obtain ⟨c₁, made, holds⟩ := first t (.ok a) t₁ fresh h
    obtain ⟨c₂, later, whole⟩ := rest a c₁ t₁.fresh holds t₁ r t' rfl ends
    exact ⟨c₁ ++ c₂, by rw [later, made, List.reverse_append, List.append_assoc], whole⟩
  | failed e t₁ =>
    rw [h] at ends
    obtain ⟨rfl, rfl⟩ := Outcome.ofExcept_inj (r := .error e) ends
    obtain ⟨c, made, holds⟩ := first t (.error e) t₁ fresh h
    exact ⟨c, made, failing e c _ holds⟩
  | exhausted t₁ =>
    rw [h] at ends
    cases r <;> cases ends

theorem Yields.freshMark_bind {f : Mark → Run β} (rest : (f m).Yields (m + 1) Q) :
    (Run.freshMark.bind f).Yields m Q := by
  intro t r t' fresh ends
  exact rest { t with fresh := t.fresh + 1 } r t' (congrArg (· + 1) fresh) (fresh ▸ ends)

theorem Yields.tick_bind {f : Unit → Run β} (rest : (f ()).Yields m Q) :
    (Run.tick.bind f).Yields m Q :=
  fun t r t' fresh ends => rest { t with steps := t.steps + 1 } r t' fresh ends

theorem Yields.count_bind {f : Unit → Run β} (rest : (f ()).Yields m Q) :
    (Run.count.bind f).Yields m Q :=
  fun t r t' fresh ends => rest { t with applications := t.applications + 1 } r t' fresh ends

theorem callPrimitive_none (op : Primitive) (args : List Value) (t : Tally) :
    callPrimitive op args none t =
      .ofExcept { t with fresh := t.fresh + 1, calls := (op, args) :: t.calls }
        (op.result t.fresh args) := by
  simp only [callPrimitive_eq, Run.bind, Run.record, Run.freshMark]
  cases op.result t.fresh args <;> rfl

end Run

theorem callPrimitive_yields (name : Text) (op : Primitive) (args : List Value) (k m : Mark) :
    (callPrimitive op args).Yields m (Calls (.builtin k name op) args m) := by
  intro t r t' fresh ends
  rw [Run.callPrimitive_none] at ends
  obtain ⟨rfl, rfl⟩ := Outcome.ofExcept_inj ends
  subst fresh
  exact ⟨[(op, args)], rfl, .builtin⟩

section Sound

variable {ev : Expr → Environment → Run Value} {ap : Value → List Value → Run Value}

theorem each_yields (below : ∀ e env m, (ev e env).Yields m (Unfurls env e m)) (env : Environment)
    (es : List Expr) (m : Mark) :
    (Run.each (fun e => ev e env) es).Yields m (UnfurlsAll env es m) := by
  induction es generalizing m with
  | nil => exact .pure .nil
  | cons e es ih =>
    refine (below e env m).bind (fun _ _ _ failed => .first failed) fun v c₁ m₁ unfurled => ?_
    refine (ih m₁).bind (fun _ _ _ failed => .later unfurled failed) fun vs c₂ m₂ later => ?_
    refine .pure ?_
    rw [List.append_nil]
    exact .cons unfurled later

theorem unfurl_yields (below : ∀ e env m, (ev e env).Yields m (Unfurls env e m))
    (calls : ∀ fn args m, (ap fn args).Yields m (Calls fn args m)) (env : Environment) (e : Expr)
    (m : Mark) : (unfurl ev ap env e).Yields m (Unfurls env e m) := by
  cases e with
  | literal v => exact .pure .literal
  | reference name =>
    simp only [unfurl, resolve, Environment.lookup]
    cases found : Overlay.get? env name with
    | some v => exact .pure (.bound found)
    | none => exact .fail (.unbound found)
  | vector es =>
    refine (each_yields below env es m).bind (fun _ _ _ failed => .vectorFails failed) ?_
    intro vs c₁ m₁ unfurled
    refine .pure ?_
    rw [List.append_nil]
    exact .vector unfurled
  | application f a =>
    refine (below f env m).bind (fun _ _ _ failed => .applicationFn failed) fun fn c₁ m₁ head => ?_
    refine (below a env m₁).bind (fun _ _ _ failed => .applicationArg head failed) ?_
    intro arg c₂ m₂ operand t r t' fresh ends
    obtain ⟨c₃, made, called⟩ := calls fn arg.spread m₂ t r t' fresh ends
    exact ⟨c₃, made, .application head operand called⟩
  | lambda params body =>
    rw [unfurl]
    exact .freshMark_bind (.pure Unfurls.lambda)
  | fix f =>
    refine (below f env m).bind (fun _ _ _ failed => .fixFn failed) fun fn c₁ m₁ head => ?_
    refine .freshMark_bind ?_
    intro t r t' fresh ends
    obtain ⟨c₂, made, called⟩ := calls fn [.unfolding m₁ f env] (m₁ + 1) t r t' fresh ends
    exact ⟨c₂, made, .fix head called⟩
  | select s branches =>
    refine (below s env m).bind (fun _ _ _ failed => .selectScrutinee failed) fun v c₁ m₁ scrutinee => ?_
    unfold selectBranch
    cases found : selectFrom 0 v branches with
    | none =>
      refine .fail ?_
      rw [List.append_nil]
      exact .selectNone scrutinee (selectFrom_none found)
    | some choice =>
      obtain ⟨i, body⟩ := choice
      obtain ⟨before, p, after, rfl, refused, accepted⟩ := selectFrom_some found
      intro t r t' fresh ends
      obtain ⟨c₂, made, unfurled⟩ := below body env m₁ t r t' fresh ends
      exact ⟨c₂, made, .select scrutinee refused accepted unfurled⟩

theorem invoke_yields (below : ∀ e env m, (ev e env).Yields m (Unfurls env e m))
    (calls : ∀ fn args m, (ap fn args).Yields m (Calls fn args m)) (fn : Value) (args : List Value)
    (m : Mark) : (invoke ev ap args fn).Yields m (Calls fn args m) := by
  cases fn with
  | closure k params body env =>
    rw [invoke]
    split
    · rename_i length
      intro t r t' fresh ends
      obtain ⟨c, made, unfurled⟩ := below body _ m t r t' fresh ends
      exact ⟨c, made, .closure length unfurled⟩
    · rename_i length
      exact .fail (.arity length)
  | unfolding k f env =>
    refine (below (.fix f) env m).bind (fun _ _ _ failed => .unfoldingNode failed) fun fn c₁ m₁ node => ?_
    intro t r t' fresh ends
    obtain ⟨c₂, made, called⟩ := calls fn args m₁ t r t' fresh ends
    exact ⟨c₂, made, .unfolding node called⟩
  | builtin k name op => exact callPrimitive_yields name op args k m
  | _ => exact .fail (.data rfl)

end Sound

theorem depth_yields (depth : Nat) :
    (∀ e env m, (evaluate depth e env).Yields m (Unfurls env e m)) ∧
      ∀ fn args m, (apply depth fn args).Yields m (Calls fn args m) := by
  induction depth with
  | zero => exact ⟨fun _ _ _ => .exhausted, fun _ _ _ => .exhausted⟩
  | succ depth ih =>
    constructor
    · intro e env m
      rw [evaluate_succ]
      exact .tick_bind (unfurl_yields ih.1 ih.2 env e m)
    · intro fn args m
      rw [apply_succ]
      exact .count_bind (invoke_yields ih.1 ih.2 fn args m)

/-! ### Every derivation is run -/

/-- At some depth the run ends in `r` from every tally with the mark `m`, if there is no limit. -/
def Attains (run : Nat → Run α) (m : Mark) (r : Except Fault α) (calls : List Call) (m' : Mark) : Prop :=
  ∃ depth, ∀ t, t.fresh = m → ∃ t', run depth none t = .ofExcept t' r ∧ t'.fresh = m' ∧
    t'.calls = calls.reverse ++ t.calls

namespace Attains

variable {m m₁ m₂ m' : Mark} {c c₁ c₂ : List Call}

theorem pure (a : α) (m : Mark) : Attains (fun _ => Run.pure a) m (.ok a) [] m :=
  ⟨0, fun t fresh => ⟨t, rfl, fresh, rfl⟩⟩

theorem fail (e : Fault) (m : Mark) : Attains (fun _ => (Run.fail e : Run α)) m (.error e) [] m :=
  ⟨0, fun t fresh => ⟨t, rfl, fresh, rfl⟩⟩

/-- Two runs one after the other, at the greater of their depths. -/
theorem bind {x : Nat → Run α} {f : Nat → α → Run β} {a : α} {r : Except Fault β} (deepens : Deepens x)
    (deepensRest : Deepens (f · a)) (first : Attains x m (.ok a) c₁ m₁)
    (rest : Attains (f · a) m₁ r c₂ m₂) :
    Attains (fun depth => (x depth).bind (f depth)) m r (c₁ ++ c₂) m₂ := by
  obtain ⟨depth, ends⟩ := first
  obtain ⟨depth', ends'⟩ := rest
  refine ⟨max depth depth', fun t fresh => ?_⟩
  obtain ⟨t₁, ran, marked, made⟩ := ends t fresh
  obtain ⟨t₂, ran', marked', made'⟩ := ends' t₁ marked
  have finished : (x depth none t).Finished := ran ▸ Outcome.ofExcept_finished t₁ (.ok a)
  have finished' : (f depth' a none t₁).Finished := by
    have ended := Outcome.ofExcept_finished t₂ r
    rwa [← ran'] at ended
  refine ⟨t₂, ?_, marked', by rw [made', made, List.reverse_append, List.append_assoc]⟩
  have here : x (max depth depth') none t = .done a t₁ :=
    (deepens.of_le (Nat.le_max_left _ _) finished).trans ran
  have there : f (max depth depth') a none t₁ = .ofExcept t₂ r :=
    (deepensRest.of_le (Nat.le_max_right _ _) finished').trans ran'
  simp only [Run.bind, here, there]

theorem bind_error {x : Nat → Run α} {e : Fault} (first : Attains x m (.error e) c m')
    (f : Nat → α → Run β) : Attains (fun depth => (x depth).bind (f depth)) m (.error e) c m' := by
  obtain ⟨depth, ends⟩ := first
  refine ⟨depth, fun t fresh => ?_⟩
  obtain ⟨t', ran, marked, made⟩ := ends t fresh
  refine ⟨t', ?_, marked, made⟩
  simp only [Run.bind, ran, Outcome.ofExcept]

theorem bind_fail {x : Nat → Run α} {f : Nat → α → Run β} {a : α} {e : Fault}
    (first : Attains x m (.ok a) c m') (failing : ∀ depth, f depth a = Run.fail e) :
    Attains (fun depth => (x depth).bind (f depth)) m (.error e) c m' := by
  obtain ⟨depth, ends⟩ := first
  refine ⟨depth, fun t fresh => ?_⟩
  obtain ⟨t', ran, marked, made⟩ := ends t fresh
  refine ⟨t', ?_, marked, made⟩
  simp only [Run.bind, ran, Outcome.ofExcept, failing, Run.fail]

theorem map {x : Nat → Run α} {a : α} (g : α → β) (first : Attains x m (.ok a) c m') :
    Attains (fun depth => (x depth).bind fun a => Run.pure (g a)) m (.ok (g a)) c m' := by
  obtain ⟨depth, ends⟩ := first
  refine ⟨depth, fun t fresh => ?_⟩
  obtain ⟨t', ran, marked, made⟩ := ends t fresh
  refine ⟨t', ?_, marked, made⟩
  simp only [Run.bind, ran, Outcome.ofExcept, Run.pure]

theorem freshMark_bind {f : Nat → Mark → Run β} {r : Except Fault β}
    (rest : Attains (f · m) (m + 1) r c m') :
    Attains (fun depth => Run.freshMark.bind (f depth)) m r c m' := by
  obtain ⟨depth, ends⟩ := rest
  refine ⟨depth, fun t fresh => ?_⟩
  subst fresh
  exact ends { t with fresh := t.fresh + 1 } rfl

theorem evaluate {e : Expr} {env : Environment} {r : Except Fault Value}
    (layer : Attains (fun depth => unfurl (Unfurl.evaluate depth) (Unfurl.apply depth) env e) m r c m') :
    Attains (Unfurl.evaluate · e env) m r c m' := by
  obtain ⟨depth, ends⟩ := layer
  refine ⟨depth + 1, fun t fresh => ?_⟩
  show ∃ t', Unfurl.evaluate (depth + 1) e env none t = _ ∧ _
  rw [evaluate_succ]
  exact ends { t with steps := t.steps + 1 } fresh

theorem apply {fn : Value} {args : List Value} {r : Except Fault Value}
    (layer : Attains (fun depth => invoke (Unfurl.evaluate depth) (Unfurl.apply depth) args fn) m r c m') :
    Attains (Unfurl.apply · fn args) m r c m' := by
  obtain ⟨depth, ends⟩ := layer
  refine ⟨depth + 1, fun t fresh => ?_⟩
  show ∃ t', Unfurl.apply (depth + 1) fn args none t = _ ∧ _
  rw [apply_succ]
  exact ends { t with applications := t.applications + 1 } fresh

theorem builtin (op : Primitive) (args : List Value) (m : Mark) :
    Attains (fun _ => callPrimitive op args) m (op.result m args) [(op, args)] (m + 1) := by
  refine ⟨0, fun t fresh => ?_⟩
  subst fresh
  exact ⟨_, Run.callPrimitive_none op args t, rfl, rfl⟩

end Attains

theorem Deepens.bind {x : Nat → Run α} {f : Nat → α → Run β} (first : Deepens x)
    (rest : ∀ a, Deepens (f · a)) : Deepens fun depth => (x depth).bind (f depth) :=
  fun depth => (first depth).bind fun a => rest a depth

theorem each_deepens (es : List Expr) (env : Environment) :
    Deepens fun depth => Run.each (fun e => evaluate depth e env) es :=
  fun depth => .each (fun e => evaluate_deepens e env depth) es

mutual

theorem Unfurls.attains {env : Environment} {e : Expr} {m m' : Mark} {r : Except Fault Value}
    {c : List Call} (derived : Unfurls env e m r c m') : Attains (evaluate · e env) m r c m' := by
  apply Attains.evaluate
  match derived with
  | .literal => exact .pure _ _
  | .bound found =>
    simp only [unfurl, resolve, Environment.lookup, found]
    exact .pure _ _
  | .unbound missing =>
    simp only [unfurl, resolve, Environment.lookup, missing]
    exact .fail _ _
  | .vector all => exact all.attains.map Value.list
  | .vectorFails all => exact all.attains.bind_error _
  | .application head operand called =>
    refine .bind (evaluate_deepens _ _) (.bind (evaluate_deepens _ _) fun _ => apply_deepens _ _)
      head.attains ?_
    exact .bind (evaluate_deepens _ _) (apply_deepens _ _) operand.attains called.attains
  | .applicationFn head => exact head.attains.bind_error _
  | .applicationArg head operand =>
    exact .bind (evaluate_deepens _ _) (.bind (evaluate_deepens _ _) fun _ => apply_deepens _ _)
      head.attains (operand.attains.bind_error _)
  | .lambda =>
    refine Attains.freshMark_bind (f := fun _ mark => Run.pure (Value.closure mark _ _ env)) ?_
    exact .pure _ _
  | .fix head called =>
    exact .bind (evaluate_deepens _ _) (.bind (fun _ => .refl _) fun _ => apply_deepens _ _)
      head.attains (.freshMark_bind called.attains)
  | .fixFn head => exact head.attains.bind_error _
  | .select scrutinee refused accepted unfurled =>
    refine .bind (evaluate_deepens _ _) (.bind (fun _ => .refl _) fun _ => evaluate_deepens _ _)
      scrutinee.attains ?_
    rw [selectBranch_accepted refused accepted]
    exact unfurled.attains
  | .selectNone scrutinee refused =>
    refine scrutinee.attains.bind_fail fun depth => ?_
    rw [selectBranch_refused refused]
    rfl
  | .selectScrutinee scrutinee => exact scrutinee.attains.bind_error _

theorem UnfurlsAll.attains {env : Environment} {es : List Expr} {m m' : Mark}
    {r : Except Fault (List Value)} {c : List Call} (derived : UnfurlsAll env es m r c m') :
    Attains (fun depth => Run.each (fun e => evaluate depth e env) es) m r c m' := by
  match derived with
  | .nil => exact .pure _ _
  | .cons unfurled later =>
    exact .bind (evaluate_deepens _ _) (.bind (each_deepens _ _) fun _ _ => .refl _) unfurled.attains
      (later.attains.map (_ :: ·))
  | .first failed => exact failed.attains.bind_error _
  | .later unfurled failed =>
    exact .bind (evaluate_deepens _ _) (.bind (each_deepens _ _) fun _ _ => .refl _) unfurled.attains
      (failed.attains.bind_error _)

theorem Calls.attains {fn : Value} {args : List Value} {m m' : Mark} {r : Except Fault Value}
    {c : List Call} (derived : Calls fn args m r c m') : Attains (apply · fn args) m r c m' := by
  apply Attains.apply
  match derived with
  | .closure length unfurled =>
    simp only [invoke, if_pos length]
    exact unfurled.attains
  | .arity length =>
    simp only [invoke, if_neg length]
    exact .fail _ _
  | .unfolding node called =>
    exact .bind (evaluate_deepens _ _) (apply_deepens _ _) node.attains called.attains
  | .unfoldingNode node => exact node.attains.bind_error _
  | .builtin => exact .builtin _ _ _
  | .data plain =>
    cases fn with
    | closure | builtin | unfolding => cases plain
    | _ => exact .fail _ _

end

/-! ### The judgement and the runs -/

/-- Without a limit the run from `t` ends in `r`, having made these calls and used the marks below `m`. -/
def Concludes (run : Nat → Run α) (t : Tally) (r : Except Fault α) (calls : List Call) (m : Mark) : Prop :=
  ∃ t', t'.fresh = m ∧ t'.calls = calls.reverse ++ t.calls ∧ Finishes run none t (.ofExcept t' r)

/-- The judgement derives what the run from `t` ends in: that, nothing else, and nothing if it diverges. -/
structure Describes (J : Mark → Except Fault α → List Call → Mark → Prop) (run : Nat → Run α)
    (t : Tally) : Prop where
  concludes (r : Except Fault α) (calls : List Call) (m : Mark) :
    Concludes run t r calls m ↔ J t.fresh r calls m
  unique {r r' : Except Fault α} {calls calls' : List Call} {m m' : Mark} :
    J t.fresh r calls m → J t.fresh r' calls' m' → r' = r ∧ calls' = calls ∧ m' = m
  diverges : Diverges run none t ↔ ∀ r calls m, ¬ J t.fresh r calls m

theorem describes_of_attains {J : Mark → Except Fault α → List Call → Mark → Prop} {run : Nat → Run α}
    (deepens : Deepens run) (sound : ∀ depth m, (run depth).Yields m (J m))
    (complete : ∀ m r calls m', J m r calls m' → Attains run m r calls m') (t : Tally) :
    Describes J run t := by
  have concluded : ∀ r calls m, J t.fresh r calls m → Concludes run t r calls m := by
    intro r calls m derived
    obtain ⟨depth, ends⟩ := complete _ _ _ _ derived
    obtain ⟨t', ran, marked, made⟩ := ends t rfl
    exact ⟨t', marked, made, Outcome.ofExcept_finished t' r, depth, ran⟩
  refine ⟨fun r calls m => ⟨?_, concluded r calls m⟩, ?_, ?_⟩
  · rintro ⟨t', rfl, made, _, depth, ran⟩
    obtain ⟨calls', made', derived⟩ := sound depth t.fresh t r t' rfl ran
    have same : calls' = calls :=
      List.reverse_inj.mp (List.append_cancel_right (made'.symm.trans made))
    exact same ▸ derived
  · intro r r' calls calls' m m' derived derived'
    obtain ⟨t₁, rfl, made, ends⟩ := concluded _ _ _ derived
    obtain ⟨t₂, rfl, made', ends'⟩ := concluded _ _ _ derived'
    obtain ⟨rfl, rfl⟩ := Outcome.ofExcept_inj (Finishes.unique deepens ends ends')
    exact ⟨rfl, List.reverse_inj.mp (List.append_cancel_right (made'.symm.trans made)), rfl⟩
  · constructor
    · intro diverges r calls m derived
      obtain ⟨t', _, _, finished, depth, ran⟩ := concluded _ _ _ derived
      exact diverges depth (ran ▸ finished)
    · intro nothing depth finished
      obtain ⟨r, ran⟩ := finished.eq_ofExcept
      obtain ⟨calls, _, derived⟩ := sound depth t.fresh t r _ rfl ran
      exact nothing r calls _ derived

/-- The judgement describes every evaluation and every call, from whatever tally it starts. -/
theorem judgement_exact (t : Tally) :
    (∀ e env, Describes (Unfurls env e) (evaluate · e env) t) ∧
      ∀ fn args, Describes (Calls fn args) (apply · fn args) t := by
  constructor
  · intro e env
    exact describes_of_attains (evaluate_deepens e env) (fun depth => (depth_yields depth).1 e env)
      (fun _ _ _ _ derived => derived.attains) t
  · intro fn args
    exact describes_of_attains (apply_deepens fn args) (fun depth => (depth_yields depth).2 fn args)
      (fun _ _ _ _ derived => derived.attains) t

end Unfurl
