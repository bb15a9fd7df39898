import Mathlib.Data.List.Nodup
import Unfurl.Proofs.Eval.Invariant
import Unfurl.Proofs.Identity.Making
import Unfurl.Proofs.Identity.Marked

/-! In a sound stage no two functions bear one mark and all marks are below the next. -/

namespace Unfurl

variable {α β : Type}

/-! ### Stages -/

structure Stage where
  made : List Value
  fresh : Mark

namespace Stage

structure Sound (s : Stage) : Prop where
  functions : ∀ f ∈ s.made, f.isFunction = true
  below : ∀ f ∈ s.made, ∀ m, f.mark? = some m → m < s.fresh
  distinct : (s.made.map Value.mark?).Nodup

structure Before (s s' : Stage) : Prop where
  made : s.made <+: s'.made
  fresh : s.fresh ≤ s'.fresh

theorem Before.refl (s : Stage) : s.Before s := ⟨List.prefix_rfl, Nat.le_refl _⟩

theorem Before.trans {a b c : Stage} (first : a.Before b) (second : b.Before c) : a.Before c :=
  ⟨first.made.trans second.made, Nat.le_trans first.fresh second.fresh⟩

variable {s : Stage}

theorem Sound.nothing (fresh : Mark) : Sound ⟨[], fresh⟩ := ⟨by simp, by simp, by simp⟩

theorem Sound.skip (sound : s.Sound) : Sound ⟨s.made, s.fresh + 1⟩ :=
  ⟨sound.functions, fun f member m mark => Nat.lt_succ_of_lt (sound.below f member m mark), sound.distinct⟩

theorem Sound.make (sound : s.Sound) {f : Value} (function : f.isFunction = true)
    (mark : f.mark? = some s.fresh) : Sound ⟨s.made ++ [f], s.fresh + 1⟩ := by
  have new : ∀ g ∈ s.made, g.mark? ≠ some s.fresh := by
    intro g member same
    exact Nat.lt_irrefl _ (sound.below g member _ same)
  refine ⟨fun g member => ?_, fun g member m marked => ?_, ?_⟩
  · rcases List.mem_append.mp member with old | here
    · exact sound.functions g old
    · rwa [List.mem_singleton.mp here]
  · rcases List.mem_append.mp member with old | here
    · exact Nat.lt_succ_of_lt (sound.below g old m marked)
    · rw [List.mem_singleton.mp here, mark] at marked
      cases marked
      exact Nat.lt_succ_self _
  · rw [List.map_append, List.map_singleton, mark]
    refine List.nodup_append.mpr ⟨sound.distinct, List.nodup_singleton _, ?_⟩
    intro a inMade b here
    obtain ⟨g, member, rfl⟩ := List.mem_map.mp inMade
    rw [List.mem_singleton.mp here]
    exact new g member

/-- Where a marked value comes from: it was there before the run, was made in it, or is a NaN of the run. -/
def Accounts (old : Value → Prop) (s : Stage) (u : Value) : Prop :=
  old u ∨ u ∈ s.made ∨ ∃ m, m < s.fresh ∧ u = .float (.nan m)

def Covers (old : Value → Prop) (s : Stage) (us : List Value) : Prop := ∀ u ∈ us, s.Accounts old u

variable {old : Value → Prop} {s' : Stage}

theorem Accounts.later (before : s.Before s') {u : Value} (accounts : s.Accounts old u) :
    s'.Accounts old u := by
  rcases accounts with known | made | ⟨m, below, nan⟩
  · exact Or.inl known
  · exact Or.inr (Or.inl (before.made.subset made))
  · exact Or.inr (Or.inr ⟨m, Nat.lt_of_lt_of_le below before.fresh, nan⟩)

theorem Covers.later (before : s.Before s') {us : List Value} (covers : s.Covers old us) :
    s'.Covers old us := fun u member => (covers u member).later before

theorem Covers.of_subset {us vs : List Value} (covers : s.Covers old us) (subset : ∀ v ∈ vs, v ∈ us) :
    s.Covers old vs := fun v member => covers v (subset v member)

theorem covers_nil : s.Covers old [] := fun _ member => nomatch member

theorem covers_append {us vs : List Value} :
    s.Covers old (us ++ vs) ↔ s.Covers old us ∧ s.Covers old vs := List.forall_mem_append

theorem covers_markedAll {vs : List Value} :
    s.Covers old (Value.markedAll vs) ↔ ∀ v ∈ vs, s.Covers old v.marked := by
  rw [Value.markedAll_eq]
  exact List.forall_mem_flatMap

end Stage

/-! ### Runs from stage to stage -/

namespace Noted

variable {old : Value → Prop} {s : Stage} {V : Stage → α → Prop} {W : Stage → β → Prop}

/-- The stage `s'` is sound and comes after `s`; `V` holds there of the result, and a failure mentions
nothing that is not accounted for. -/
structure Reaches (old : Value → Prop) (V : Stage → α → Prop) (s s' : Stage) (o : Outcome Fault α) :
    Prop where
  sound : s'.Sound
  later : s.Before s'
  meets : o.Meets (V s') fun fault => s'.Covers old (Value.markedAll fault.values)

/-- From every sound stage after `s` the run reaches a sound stage. -/
def Keeps (old : Value → Prop) (s : Stage) (V : Stage → α → Prop) (x : Noted α) : Prop :=
  ∀ limit t made, s.Before ⟨made, t.fresh⟩ → Stage.Sound ⟨made, t.fresh⟩ →
    Reaches old V ⟨made, t.fresh⟩ ⟨made ++ x.made limit t, (x.run limit t).tally.fresh⟩ (x.run limit t)

theorem Keeps.silent {x : Run α} (fresh : ∀ limit t, (x limit t).tally.fresh = t.fresh)
    (meets : ∀ s', s.Before s' → x.Meets (V s') fun fault => s'.Covers old (Value.markedAll fault.values)) :
    (Noted.silent x).Keeps old s V := by
  intro limit t made before sound
  show Reaches old V _ ⟨made ++ [], (x limit t).tally.fresh⟩ (x limit t)
  rw [List.append_nil, fresh]
  exact ⟨sound, .refl _, meets _ before limit t⟩

theorem Keeps.pure {a : α} (holds : ∀ s', s.Before s' → V s' a) :
    (Noted.silent (Run.pure a)).Keeps old s V :=
  .silent (fun _ _ => rfl) fun s' before => .pure (holds s' before)

theorem Keeps.fail {fault : Fault} (covers : s.Covers old (Value.markedAll fault.values)) :
    (Noted.silent (Run.fail fault)).Keeps old s V :=
  .silent (fun _ _ => rfl) fun _ before => .fail (covers.later before)

theorem Keeps.exhausted : (Noted.silent (Run.exhausted : Run α)).Keeps old s V :=
  .silent (fun _ _ => rfl) fun _ _ => .exhausted

theorem Keeps.tick : (Noted.silent Run.tick).Keeps old s fun _ _ => True := by
  refine .silent (fun limit t => ?_) fun s' _ => .tick fun n => Stage.covers_nil
  cases limit with
  | none => rfl
  | some n =>
    simp only [Run.tick]
    split <;> rfl

theorem Keeps.count : (Noted.silent Run.count).Keeps old s fun _ _ => True :=
  .silent (fun _ _ => rfl) fun _ _ => .count

theorem Keeps.make {V : Stage → Value → Prop} {new : Mark → Value}
    (function : ∀ m, (new m).isFunction = true) (mark : ∀ m, (new m).mark? = some m)
    (holds : ∀ s' m, s.Before s' → new m ∈ s'.made → V s' (new m)) : (Noted.make new).Keeps old s V := by
  intro limit t made before sound
  have later : Stage.Before ⟨made, t.fresh⟩ ⟨made ++ [new t.fresh], t.fresh + 1⟩ :=
    ⟨List.prefix_append _ _, Nat.le_succ _⟩
  refine ⟨sound.make (function _) (mark _), later, ?_⟩
  exact holds _ t.fresh (before.trans later) (List.mem_append_right _ (List.mem_singleton.mpr rfl))

theorem Keeps.bind {x : Noted α} {f : α → Noted β} (first : x.Keeps old s V)
    (rest : ∀ s' a, s.Before s' → V s' a → (f a).Keeps old s' W) : (x.bind f).Keeps old s W := by
  intro limit t made before sound
  have ends := first limit t made before sound
  simp only [Noted.bind, Run.bind]
  cases h : x.run limit t with
  | done a t' =>
    rw [h] at ends
    have last := rest _ a (before.trans ends.later) ends.meets limit t' _ (.refl _) ends.sound
    rw [List.append_assoc] at last
    exact ⟨last.sound, ends.later.trans last.later, last.meets⟩
  | failed e t' =>
    rw [h] at ends
    rw [List.append_nil]
    exact ⟨ends.sound, ends.later, ends.meets⟩
  | exhausted t' =>
    rw [h] at ends
    rw [List.append_nil]
    exact ⟨ends.sound, ends.later, trivial⟩

theorem Keeps.each {f : α → Noted β} {xs : List α}
    (later : ∀ s s' b, s.Before s' → W s b → W s' b)
    (items : ∀ a ∈ xs, ∀ s', s.Before s' → (f a).Keeps old s' W) :
    (Noted.each f xs).Keeps old s fun s' bs => ∀ b ∈ bs, W s' b := by
  induction xs generalizing s with
  | nil => exact .pure (by simp)
  | cons a rest ih =>
    refine (items a List.mem_cons_self s (.refl s)).bind fun s₁ b before here => ?_
    have others := ih (s := s₁) fun a' member s₂ next =>
      items a' (List.mem_cons_of_mem _ member) s₂ (before.trans next)
    refine others.bind fun s₂ bs next holds => .pure fun s₃ last => ?_
    refine List.forall_mem_cons.mpr ⟨later _ _ _ (next.trans last) here, fun b' member => ?_⟩
    exact later _ _ _ last (holds b' member)

end Noted

/-! ### One layer -/

def Stage.Knows (old : Value → Prop) (s : Stage) (v : Value) : Prop := s.Covers old v.marked

section Layer

variable {old : Value → Prop} {s : Stage}

theorem resolve_keeps {env : Environment} (covers : s.Covers old (Value.markedEnv env)) (name : Text) :
    (Noted.silent (resolve env name)).Keeps old s (Stage.Knows old) := by
  unfold resolve Environment.lookup
  cases found : Overlay.get? env name with
  | none => exact .fail Stage.covers_nil
  | some v => exact .pure fun s' before => (covers.of_subset fun u => mem_marked_get? found).later before

theorem blame_covers {cause : Value → EvalError} {v : Value}
    (causes : (Fault.eval (cause v)).values = [v]) (covers : s.Covers old v.marked) :
    s.Covers old (Value.markedAll (blame cause v).values) := by
  refine Stage.covers_markedAll.mpr fun u member => ?_
  rwa [blame_values causes u member]

theorem select_keeps {branches : List Branch} {v : Value}
    (bodies : s.Covers old (Expr.markedBranches branches)) (covers : s.Covers old v.marked) :
    (Noted.silent (Run.ofExcept (selectBranch v branches))).Keeps old s
      fun s' found => s'.Covers old found.2.marked := by
  unfold selectBranch
  cases h : selectFrom 0 v branches with
  | none => exact .fail (blame_covers rfl covers)
  | some found =>
    obtain ⟨i, body⟩ := found
    obtain ⟨branch, member, rfl⟩ := selectFrom_mem h
    refine .pure fun s' before => (bodies.of_subset fun u inside => ?_).later before
    rw [Expr.markedBranches_eq, List.mem_flatMap]
    exact ⟨branch, member, List.mem_append_right _ inside⟩

/-- The mark of a call goes to the NaN that it may return. -/
theorem callPrimitive_keeps (op : Primitive) {args : List Value}
    (covers : s.Covers old (Value.markedAll args)) :
    (Noted.silent (callPrimitive op args)).Keeps old s (Stage.Knows old) := by
  intro limit t made before sound
  have later : Stage.Before ⟨made, t.fresh⟩ ⟨made, t.fresh + 1⟩ := ⟨List.prefix_rfl, Nat.le_succ _⟩
  show Noted.Reaches old _ _ ⟨made ++ [], (callPrimitive op args limit t).tally.fresh⟩ _
  rw [List.append_nil, callPrimitive_eq]
  simp only [Noted.silent, Run.bind, Run.record, Run.freshMark]
  cases h : op.result t.fresh args with
  | ok v =>
    refine ⟨sound.skip, later, fun u member => ?_⟩
    rcases Primitive.result_marked h member with rfl | given
    · exact Or.inr (Or.inr ⟨t.fresh, Nat.lt_succ_self _, rfl⟩)
    · exact (covers u given).later (before.trans later)
  | error fault =>
    refine ⟨sound.skip, later, fun u member => ?_⟩
    rcases Primitive.result_refuses h with rfl | ⟨rfl, _⟩ <;> cases member

variable {ev : Expr → Environment → Noted Value} {ap : Value → List Value → Noted Value}

theorem noteNode_keeps
    (below : ∀ s e env, s.Covers old e.marked → s.Covers old (Value.markedEnv env) →
      (ev e env).Keeps old s (Stage.Knows old))
    (calls : ∀ s fn args, s.Knows old fn → s.Covers old (Value.markedAll args) →
      (ap fn args).Keeps old s (Stage.Knows old))
    {e : Expr} {env : Environment} (code : s.Covers old e.marked)
    (covers : s.Covers old (Value.markedEnv env)) :
    (noteNode ev ap env e).Keeps old s (Stage.Knows old) := by
  cases e with
  | literal v => exact .pure fun s' before => code.later before
  | reference name => exact resolve_keeps covers name
  | vector elements =>
    rw [Expr.marked, Expr.markedAll_eq] at code
    have each : ∀ e ∈ elements, ∀ s', s.Before s' → (ev e env).Keeps old s' (Stage.Knows old) := by
      intro e member s' before
      refine below s' e env ((code.of_subset fun u inside => ?_).later before) (covers.later before)
      exact List.mem_flatMap.mpr ⟨e, member, inside⟩
    refine (Noted.Keeps.each (fun _ _ _ before knows => knows.later before) each).bind ?_
    intro s' values before knows
    exact .pure fun s'' next => (Stage.covers_markedAll.mpr knows).later next
  | application f a =>
    obtain ⟨codeFn, codeArg⟩ := Stage.covers_append.mp code
    refine (below s f env codeFn covers).bind fun s₁ fn first knowsFn => ?_
    refine (below s₁ a env (codeArg.later first) (covers.later first)).bind fun s₂ arg second knowsArg => ?_
    refine calls s₂ fn arg.spread (knowsFn.later second) ?_
    rwa [markedAll_spread]
  | lambda params body =>
    refine .make (fun _ => rfl) (fun _ => rfl) fun s' m before made => ?_
    refine List.forall_mem_cons.mpr ⟨Or.inr (Or.inl made), ?_⟩
    exact Stage.covers_append.mpr ⟨code.later before, covers.later before⟩
  | fix f =>
    refine (below s f env code covers).bind fun s₁ fn first knowsFn => ?_
    -- The unfolding is made after its function, and the call gets both at the stage after that.
    have unfolding : (Noted.make fun mark => Value.unfolding mark f env).Keeps old s₁ (Stage.Knows old) := by
      refine .make (fun _ => rfl) (fun _ => rfl) fun s' m before made => ?_
      refine List.forall_mem_cons.mpr ⟨Or.inr (Or.inl made), ?_⟩
      exact Stage.covers_append.mpr
        ⟨code.later (first.trans before), covers.later (first.trans before)⟩
    refine unfolding.bind fun s₂ self second knowsSelf => calls s₂ fn _ (knowsFn.later second) ?_
    exact Stage.covers_markedAll.mpr (List.forall_mem_singleton.mpr knowsSelf)
  | select scrutinee branches =>
    obtain ⟨codeScrutinee, bodies⟩ := Stage.covers_append.mp code
    refine (below s scrutinee env codeScrutinee covers).bind fun s₁ v first knows => ?_
    refine (select_keeps (bodies.later first) knows).bind fun s₂ found second body => ?_
    exact below s₂ found.2 env body (covers.later (first.trans second))

theorem noteCallee_keeps
    (below : ∀ s e env, s.Covers old e.marked → s.Covers old (Value.markedEnv env) →
      (ev e env).Keeps old s (Stage.Knows old))
    (calls : ∀ s fn args, s.Knows old fn → s.Covers old (Value.markedAll args) →
      (ap fn args).Keeps old s (Stage.Knows old))
    {fn : Value} {args : List Value} (knows : s.Knows old fn)
    (covers : s.Covers old (Value.markedAll args)) :
    (noteCallee ev ap args fn).Keeps old s (Stage.Knows old) := by
  cases fn with
  | closure mark params body env =>
    obtain ⟨code, captured⟩ := Stage.covers_append.mp (List.forall_mem_cons.mp knows).2
    rw [noteCallee]
    split
    · refine below s body _ code fun u member => ?_
      rcases mem_marked_extend member with argument | bound
      · exact covers u argument
      · exact captured u bound
    · exact .fail Stage.covers_nil
  | unfolding mark f env =>
    obtain ⟨code, captured⟩ := Stage.covers_append.mp (List.forall_mem_cons.mp knows).2
    refine (below s (.fix f) env code captured).bind fun s₁ fn first knowsFn => ?_
    exact calls s₁ fn args knowsFn (covers.later first)
  | builtin mark name op => exact callPrimitive_keeps op covers
  | _ => exact .fail (blame_covers rfl knows)

end Layer

/-! ### Evaluations and calls -/

theorem note_keeps (old : Value → Prop) (depth : Nat) :
    (∀ s e env, s.Covers old e.marked → s.Covers old (Value.markedEnv env) →
      (note depth e env).Keeps old s (Stage.Knows old)) ∧
    ∀ s fn args, s.Knows old fn → s.Covers old (Value.markedAll args) →
      (noteCall depth fn args).Keeps old s (Stage.Knows old) := by
  induction depth with
  | zero => exact ⟨fun _ _ _ _ _ => .exhausted, fun _ _ _ _ _ => .exhausted⟩
  | succ depth ih =>
    constructor
    · intro s e env code covers
      refine Noted.Keeps.tick.bind fun s' _ before _ => ?_
      exact noteNode_keeps ih.1 ih.2 (code.later before) (covers.later before)
    · intro s fn args knows covers
      refine Noted.Keeps.count.bind fun s' _ before _ => ?_
      exact noteCallee_keeps ih.1 ih.2 (Stage.Covers.later before knows) (covers.later before)

/-! ### Marks below the next -/

/-- From marks below the next one a run leads to marks below what is then the next one. -/
theorem Noted.Keeps.below {x : Noted Value} {t : Tally}
    (keeps : x.Keeps (fun u => ∀ m, u.mark? = some m → m < t.fresh) ⟨[], t.fresh⟩
      (Stage.Knows fun u => ∀ m, u.mark? = some m → m < t.fresh)) (limit : Option Nat) :
    t.fresh ≤ (x.run limit t).tally.fresh ∧ ∀ v t', x.run limit t = .done v t' →
      EachMark (· < t'.fresh) v.marked := by
  have ends := keeps limit t [] (.refl _) (.nothing _)
  refine ⟨ends.later.fresh, fun v t' done u member m mark => ?_⟩
  rw [done] at ends
  rcases ends.meets u member with old | made | ⟨k, below, rfl⟩
  · exact Nat.lt_of_lt_of_le (old m mark) ends.later.fresh
  · exact ends.sound.below u made m mark
  · cases mark
    exact below

section Below

variable (depth : Nat) {t : Tally}

theorem covers_below {us : List Value} (below : EachMark (· < t.fresh) us) :
    Stage.Covers (fun u => ∀ m, u.mark? = some m → m < t.fresh) ⟨[], t.fresh⟩ us :=
  fun u member => Or.inl (below u member)

theorem evaluate_below {e : Expr} {env : Environment} (code : EachMark (· < t.fresh) e.marked)
    (bound : EachMark (· < t.fresh) (Value.markedEnv env)) (limit : Option Nat) :
    t.fresh ≤ (evaluate depth e env limit t).tally.fresh ∧
      ∀ v t', evaluate depth e env limit t = .done v t' → EachMark (· < t'.fresh) v.marked := by
  have below := ((note_keeps _ depth).1 _ e env (covers_below code) (covers_below bound)).below limit
  rwa [(note_run depth).1] at below

theorem apply_below {fn : Value} {args : List Value} (callee : EachMark (· < t.fresh) fn.marked)
    (given : EachMark (· < t.fresh) (Value.markedAll args)) (limit : Option Nat) :
    t.fresh ≤ (apply depth fn args limit t).tally.fresh ∧
      ∀ v t', apply depth fn args limit t = .done v t' → EachMark (· < t'.fresh) v.marked := by
  have below := ((note_keeps _ depth).2 _ fn args (covers_below callee) (covers_below given)).below limit
  rwa [(note_run depth).2] at below

end Below

end Unfurl
