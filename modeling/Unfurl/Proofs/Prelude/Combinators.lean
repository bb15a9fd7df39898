import Unfurl.Proofs.Identity.Outcome
import Unfurl.Proofs.Prelude.Bindings

namespace Unfurl

open Course (Becomes Twins SameOutcome)

variable {env scope : Environment} {f g k a x : Value} {t : Tally}

/-- Called on one value, the function goes on with the course of that value and takes no mark before. -/
def Computes (fn : Value) (next : Value → Course Value) : Prop :=
  ∀ x t, ∃ t', t'.fresh = t.fresh ∧ Becomes (Course.apply fn [x]) t (next x) t'

/-- From every tally the course ends with a function that computes this, and takes one mark. -/
def Makes (x : Course Value) (next : Value → Course Value) : Prop :=
  ∀ t, ∃ fn t', t'.fresh = t.fresh + 1 ∧ x.Ends t (.done fn t') ∧ Computes fn next

theorem Makes.becomes {make : Course Value} {next : Value → Course Value} (makes : Makes make next)
    (x : Value) (t : Tally) :
    ∃ t', t'.fresh = t.fresh + 1 ∧ Becomes (make.bind fun fn => Course.apply fn [x]) t (next x) t' := by
  obtain ⟨fn, t₁, fresh, ends, computes⟩ := makes t
  obtain ⟨t₂, fresh', becomes⟩ := computes x t₁
  exact ⟨t₂, fresh'.trans fresh, (ends.becomes fun fn => Course.apply fn [x]).trans becomes⟩

/-! ### What closures of one parameter compute -/

theorem scope_parameter (scope : Environment) (p : Text) (x : Value) :
    Reads (Overlay.extend scope ([p].zip [x])) (.reference p) x := by
  have given := Overlay.get?_extend_zip (List.nodup_singleton p) (rfl : [x].length = [p].length) scope
  exact .reference (List.forall₂_cons.mp given).1

theorem scope_captured {p y : Text} {v : Value} (other : y ≠ p) (bound : Overlay.get? scope y = some v)
    (x : Value) : Overlay.get? (Overlay.extend scope ([p].zip [x])) y = some v :=
  (Overlay.get?_extend_of_not_mem (by simpa using other) scope [x]).trans bound

theorem composed_computes (first : Overlay.get? scope "f" = some f) (second : Overlay.get? scope "g" = some g)
    (m : Mark) : Computes (.closure m ["x"] (.call "f" [.call "g" [.reference "x"]]) scope)
      fun x => Course.chain f (Course.apply g [x]) := by
  intro x t
  have call := Course.apply_closure m ["x"] (.call "f" [.call "g" [.reference "x"]]) scope [x] rfl t
  have outer := Course.evaluate_call (scope_captured (p := "x") (by decide) first x)
    [.call "g" [.reference "x"]] t.called
  rw [Course.elements_one_bind] at outer
  have inner := (Course.evaluate_call_read (scope_captured (p := "x") (by decide) second x)
    (.cons (scope_parameter scope "x" x) .nil) (t.called.stepped 3)).bind fun v => Course.apply f [v]
  refine ⟨_, ?_, (call.trans outer).trans inner⟩
  rfl

theorem partial_computes {p : Text} (notFunction : "f" ≠ p) (notGiven : "a" ≠ p)
    (first : Overlay.get? scope "f" = some f) (second : Overlay.get? scope "a" = some a) (m : Mark) :
    Computes (.closure m [p] (.call "f" [.reference "a", .reference p]) scope)
      fun x => Course.apply f [a, x] := by
  intro x t
  have call := Course.apply_closure m [p] (.call "f" [.reference "a", .reference p]) scope [x] rfl t
  have passed := Course.evaluate_call_read (scope_captured notFunction first x)
    (.cons (.reference (scope_captured notGiven second x)) (.cons (scope_parameter scope p x) .nil)) t.called
  refine ⟨_, ?_, call.trans passed⟩
  rfl

/-! ### What the combinators make -/

namespace Environment.HoldsPrelude

variable (holds : HoldsPrelude env)
include holds

/-- A function of the prelude whose body is a lambda makes a closure over its arguments. -/
theorem makes_closure {name : Text} {params inner : List Text} {body : Expr}
    (member : (name, .lambda params (.lambda inner body)) ∈ Prelude.definitions) :
    ∃ fn, Overlay.get? env name = some fn ∧ ∀ args : List Value, args.length = params.length →
      ∃ scope, List.Forall₂ (fun x v => Overlay.get? scope x = some v) params args ∧
        ∀ t : Tally, ∃ t', t'.fresh = t.fresh + 1 ∧
          (Course.apply fn args).Ends t (.done (.closure t.fresh inner body scope) t') := by
  obtain ⟨fn, bound, call⟩ := holds.call member
  refine ⟨fn, bound, fun args length => ?_⟩
  obtain ⟨scope, becomes, given, _⟩ := call args length
  exact ⟨scope, given, fun t => ⟨_, rfl, (becomes t).ends (Course.evaluate_lambda inner body scope t.called)⟩⟩

theorem compose_makes : ∃ compose, Overlay.get? env "compose" = some compose ∧
    ∀ f g, Makes (Course.apply compose [f, g]) fun x => Course.chain f (Course.apply g [x]) := by
  have member : ((↑"compose", .lambda ["f", "g"]
      (.lambda ["x"] (.call "f" [.call "g" [.reference "x"]]))) : Definition) ∈ Prelude.definitions := by
    simp [Prelude.definitions, Prelude.combinators]
  obtain ⟨compose, bound, call⟩ := holds.makes_closure member
  refine ⟨compose, bound, fun f g t => ?_⟩
  obtain ⟨scope, given, made⟩ := call [f, g] rfl
  obtain ⟨t', fresh, ends⟩ := made t
  obtain ⟨first, rest⟩ := List.forall₂_cons.mp given
  obtain ⟨second, _⟩ := List.forall₂_cons.mp rest
  exact ⟨_, t', fresh, ends, composed_computes first second _⟩

theorem partial_makes : ∃ fn, Overlay.get? env "partial" = some fn ∧
    ∀ f a, Makes (Course.apply fn [f, a]) fun x => Course.apply f [a, x] := by
  have member : ((↑"partial", .lambda ["f", "a"]
      (.lambda ["x"] (.call "f" [.reference "a", .reference "x"]))) : Definition) ∈ Prelude.definitions := by
    simp [Prelude.definitions, Prelude.combinators]
  obtain ⟨fn, bound, call⟩ := holds.makes_closure member
  refine ⟨fn, bound, fun f a t => ?_⟩
  obtain ⟨scope, given, made⟩ := call [f, a] rfl
  obtain ⟨t', fresh, ends⟩ := made t
  obtain ⟨first, rest⟩ := List.forall₂_cons.mp given
  obtain ⟨second, _⟩ := List.forall₂_cons.mp rest
  exact ⟨_, t', fresh, ends, partial_computes (by decide) (by decide) first second _⟩

theorem curry_makes : ∃ curry, Overlay.get? env "curry" = some curry ∧
    ∀ (f : Value) (t : Tally), ∃ fn t', t'.fresh = t.fresh + 1 ∧
      (Course.apply curry [f]).Ends t (.done fn t') ∧
      ∀ a, Makes (Course.apply fn [a]) fun x => Course.apply f [a, x] := by
  have member : ((↑"curry", .lambda ["f"] (.lambda ["a"]
      (.lambda ["b"] (.call "f" [.reference "a", .reference "b"])))) : Definition) ∈ Prelude.definitions := by
    simp [Prelude.definitions, Prelude.combinators]
  obtain ⟨curry, bound, call⟩ := holds.makes_closure member
  refine ⟨curry, bound, fun f t => ?_⟩
  obtain ⟨scope, given, made⟩ := call [f] rfl
  obtain ⟨t', fresh, ends⟩ := made t
  obtain ⟨first, _⟩ := List.forall₂_cons.mp given
  refine ⟨_, t', fresh, ends, fun a u => ?_⟩
  have called := Course.apply_closure t.fresh ["a"]
    (.lambda ["b"] (.call "f" [.reference "a", .reference "b"])) scope [a] rfl u
  have second : Overlay.get? (Overlay.extend scope (List.zip ["a"] [a])) "a" = some a := by
    cases scope_parameter scope "a" a with
    | reference found => exact found
  exact ⟨_, _, rfl, called.ends (Course.evaluate_lambda ["b"] _ _ _),
    partial_computes (by decide) (by decide) (scope_captured (by decide) first a) second _⟩

/-- A function of the prelude that calls its first argument on the others. -/
theorem passes_on (name : Text) (params : List Text)
    (member : (name, .lambda ("f" :: params) (.call "f" (params.map .reference))) ∈ Prelude.definitions) :
    ∃ fn, Overlay.get? env name = some fn ∧ ∀ (f : Value) (args : List Value) (t : Tally),
      args.length = params.length →
        ∃ t', t'.fresh = t.fresh ∧ Becomes (Course.apply fn (f :: args)) t (Course.apply f args) t' := by
  obtain ⟨fn, bound, call⟩ := holds.call member
  refine ⟨fn, bound, fun f args t length => ?_⟩
  obtain ⟨scope, becomes, given, _⟩ := call (f :: args) (congrArg (· + 1) length)
  obtain ⟨callee, rest⟩ := List.forall₂_cons.mp given
  have reads : List.Forall₂ (Reads scope) (params.map .reference) args :=
    List.forall₂_map_left_iff.mpr (rest.imp fun _ _ found => .reference found)
  refine ⟨_, ?_, (becomes t).trans (Course.evaluate_call_read callee reads t.called)⟩
  rfl

end Environment.HoldsPrelude

/-! ### Outcomes -/

section Below

variable {ρ : Mark → Mark} {t' : Tally} {fn : Value} {args : List Value}

theorem apply_twins_below (injective : Function.Injective ρ) (aligned : ∀ k, ρ (t.fresh + k) = t'.fresh + k)
    (fixed : ∀ m < t.fresh, ρ m = m) (callee : EachMark (· < t.fresh) fn.marked)
    (given : ∀ v ∈ args, EachMark (· < t.fresh) v.marked) :
    Twins ρ t.fresh t'.fresh (Course.apply fn args) t (Course.apply fn args) t' := by
  refine .call_self injective aligned ⟨0, rfl, rfl⟩ (Value.rename_eq_self (callee.imp fixed)) ?_
  rw [Value.renameAll_eq]
  refine (List.map_congr_left fun v member => ?_).trans (List.map_id' args)
  exact Value.rename_eq_self ((given v member).imp fixed)

/-- What becomes a call of values that are already there has its outcome. -/
theorem sameOutcome_apply {x : Course Value} (becomes : Becomes x t (Course.apply fn args) t')
    (later : t.fresh ≤ t'.fresh) (callee : EachMark (· < t.fresh) fn.marked)
    (given : ∀ v ∈ args, EachMark (· < t.fresh) v.marked) : SameOutcome t x (Course.apply fn args) :=
  Course.sameOutcome_of_becomes becomes later fun _ injective aligned fixed =>
    apply_twins_below injective aligned fixed callee given

theorem sameOutcome_chain {x : Course Value}
    (becomes : Becomes x t (Course.chain f (Course.apply fn args)) t') (later : t.fresh ≤ t'.fresh)
    (next : EachMark (· < t.fresh) f.marked) (callee : EachMark (· < t.fresh) fn.marked)
    (given : ∀ v ∈ args, EachMark (· < t.fresh) v.marked) :
    SameOutcome t x (Course.chain f (Course.apply fn args)) := by
  refine Course.sameOutcome_of_becomes becomes later fun ρ injective aligned fixed => ?_
  have whole := (apply_twins_below injective aligned fixed callee given).chain injective aligned f
  rwa [Value.rename_eq_self (next.imp fixed)] at whole

end Below

theorem apply_level {t t' : Tally} (level : Course.Aligned 0 0 t t') (fn : Value) (args : List Value) :
    Twins id 0 0 (Course.apply fn args) t (Course.apply fn args) t' :=
  .call_self Function.injective_id (fun _ => rfl) level (Value.rename_id fn) (Value.renameAll_id args)

/-- A call of what was composed may stand for the two calls one after the other. Both sides take the same
marks; only the steps between the calls differ. -/
theorem chain_composed {c : Value} {t t' : Tally}
    (computes : Computes c fun v => Course.chain f (Course.apply g [v])) (level : Course.Aligned 0 0 t t') (fn : Value)
    (args : List Value) :
    Twins id 0 0 (Course.chain c (Course.apply fn args)) t
      (Course.chain f (Course.chain g (Course.apply fn args))) t' := by
  unfold Course.chain
  rw [Course.bind_assoc]
  refine (apply_level level fn args).bind fun v u u' level => ?_
  obtain ⟨u₁, fresh, becomes⟩ := computes v u
  obtain ⟨i, next, next'⟩ := level
  have called := apply_level ⟨i, fresh.trans next, next'⟩ g [v]
  have chained := called.chain Function.injective_id (fun _ => rfl) f
  rw [Value.rename_id] at chained ⊢
  exact chained.of_becomes becomes (.refl _ _)

/-- Composed either way, three functions run one after the other, after as many new marks. -/
theorem compose_assoc {compose : Value}
    (makes : ∀ f g, Makes (Course.apply compose [f, g]) fun x => Course.chain f (Course.apply g [x]))
    (f g k x : Value) (t : Tally) :
    SameOutcome t
      ((Course.apply compose [f, g]).bind fun c => (Course.apply compose [c, k]).bind fun d =>
        Course.apply d [x])
      ((Course.apply compose [g, k]).bind fun c => (Course.apply compose [f, c]).bind fun d =>
        Course.apply d [x]) := by
  obtain ⟨c, t₁, fresh₁, ends, computes⟩ := makes f g t
  obtain ⟨t₂, fresh₂, left⟩ := (makes c k).becomes x t₁
  have left' := (ends.becomes fun c =>
    (Course.apply compose [c, k]).bind fun d => Course.apply d [x]).trans left
  obtain ⟨c', u₁, fresh₁', ends', computes'⟩ := makes g k t
  obtain ⟨u₂, fresh₂', right⟩ := (makes f c').becomes x u₁
  obtain ⟨u₃, fresh₃', inner⟩ := computes' x u₂
  have right' := ((ends'.becomes fun c =>
    (Course.apply compose [f, c]).bind fun d => Course.apply d [x]).trans right).trans
      (inner.bind fun v => Course.apply f [v])
  have level : Course.Aligned 0 0 t₂ u₃ := by
    refine ⟨t.fresh + 2, ?_, ?_⟩
    · rw [fresh₂, fresh₁, Nat.zero_add]
    · rw [fresh₃', fresh₂', fresh₁', Nat.zero_add]
  have twins := (chain_composed computes level k [x]).of_becomes left' right'
  have back : ∀ m : Mark, id (id m) = m := fun _ => rfl
  exact twins.sameOutcome back fun _ _ => ⟨rfl, rfl⟩

/-- For all values that are already there, the combinators of the prelude obey their equations, and composing
is associative. -/
theorem combinator_equations {depth : Nat} (enough : 7 ≤ depth) (t₀ : Tally) :
    ∃ env t₁ compose partially curry reduce map, (Starting.prelude.load depth t₀).outcome = .done env t₁ ∧
      (Overlay.get? env "compose" = some compose ∧ Overlay.get? env "partial" = some partially ∧
        Overlay.get? env "curry" = some curry ∧ Overlay.get? env "reduce" = some reduce ∧
        Overlay.get? env "map" = some map) ∧
      ∀ (f g k a x : Value) (t : Tally), (∀ v ∈ [f, g, k, a, x], EachMark (· < t.fresh) v.marked) →
        SameOutcome t ((Course.apply compose [f, g]).bind fun c => Course.apply c [x])
          ((Course.apply g [x]).bind fun v => Course.apply f [v]) ∧
        SameOutcome t ((Course.apply partially [f, a]).bind fun c => Course.apply c [x])
          (Course.apply f [a, x]) ∧
        SameOutcome t
          ((Course.apply curry [f]).bind fun c => (Course.apply c [a]).bind fun d => Course.apply d [x])
          (Course.apply f [a, x]) ∧
        SameOutcome t (Course.apply reduce [f, a, x]) (Course.apply f [a, x]) ∧
        SameOutcome t (Course.apply map [f, x]) (Course.apply f [x]) ∧
        SameOutcome t
          ((Course.apply compose [f, g]).bind fun c => (Course.apply compose [c, k]).bind fun d =>
            Course.apply d [x])
          ((Course.apply compose [g, k]).bind fun c => (Course.apply compose [f, c]).bind fun d =>
            Course.apply d [x]) := by
  obtain ⟨env, t₁, loaded, holds⟩ := prelude_loads enough t₀
  obtain ⟨compose, boundCompose, composes⟩ := holds.compose_makes
  obtain ⟨partially, boundPartial, partials⟩ := holds.partial_makes
  obtain ⟨curry, boundCurry, curries⟩ := holds.curry_makes
  obtain ⟨reduce, boundReduce, reduces⟩ :=
    holds.passes_on "reduce" ["acc", "x"] (by simp [Prelude.definitions, Prelude.items])
  obtain ⟨map, boundMap, maps⟩ :=
    holds.passes_on "map" ["x"] (by simp [Prelude.definitions, Prelude.items])
  refine ⟨env, t₁, compose, partially, curry, reduce, map, loaded,
    ⟨boundCompose, boundPartial, boundCurry, boundReduce, boundMap⟩, fun f g k a x t below => ?_⟩
  simp only [List.forall_mem_cons] at below
  obtain ⟨belowF, belowG, _, belowA, belowX, _⟩ := below
  have pair : ∀ v ∈ [a, x], EachMark (· < t.fresh) v.marked := by simp [belowA, belowX]
  have single : ∀ v ∈ [x], EachMark (· < t.fresh) v.marked := by simp [belowX]
  refine ⟨?_, ?_, ?_, ?_, ?_, compose_assoc composes f g k x t⟩
  · obtain ⟨t', fresh, becomes⟩ := (composes f g).becomes x t
    exact sameOutcome_chain becomes (fresh ▸ Nat.le_succ _) belowF belowG single
  · obtain ⟨t', fresh, becomes⟩ := (partials f a).becomes x t
    exact sameOutcome_apply becomes (fresh ▸ Nat.le_succ _) belowF pair
  · obtain ⟨c, u, fresh, ends, makes⟩ := curries f t
    obtain ⟨t', fresh', becomes⟩ := (makes a).becomes x u
    have later : t.fresh ≤ t'.fresh := by
      rw [fresh', fresh]
      exact Nat.le_add_right t.fresh 2
    have first := ends.becomes fun c => (Course.apply c [a]).bind fun d => Course.apply d [x]
    exact sameOutcome_apply (first.trans becomes) later belowF pair
  · obtain ⟨t', fresh, becomes⟩ := reduces f [a, x] t rfl
    exact sameOutcome_apply becomes (Nat.le_of_eq fresh.symm) belowF pair
  · obtain ⟨t', fresh, becomes⟩ := maps f [x] t rfl
    exact sameOutcome_apply becomes (Nat.le_of_eq fresh.symm) belowF single

/-- The rest of a list is a list, and is passed on whole. -/
theorem combinator_equations_list :
    let f : Value := .builtin 0 "id" .identity
    let g : Value := .builtin 1 "cdr" .cdr
    let x : Value := .list [.int 1, .list [.int 2]]
    let t : Tally := { fresh := 2 }
    (∀ v ∈ [f, g, f, .nil, x], EachMark (· < t.fresh) v.marked) ∧
      ∃ env t₁ compose, (Starting.prelude.load 7 {}).outcome = .done env t₁ ∧
        Overlay.get? env "compose" = some compose ∧
        ∃ t', ((Course.apply compose [f, g]).bind fun c => Course.apply c [x]).Ends t
          (.done (.list [.list [.int 2]]) t') := by
  intro f g x t
  have below : ∀ v ∈ [f, g, f, .nil, x], EachMark (· < t.fresh) v.marked := by decide
  obtain ⟨env, t₁, compose, _, _, _, _, loaded, ⟨bound, _⟩, laws⟩ :=
    combinator_equations (Nat.le_refl 7) {}
  obtain ⟨same, alike⟩ := (laws f g f .nil x t below).1
  refine ⟨below, env, t₁, compose, loaded, bound, ?_⟩
  have rest := Course.apply_builtin 1 "cdr" .cdr [x] t
  have whole := Course.apply_builtin 0 "id" .identity [.list [.list [.int 2]]] (t.recorded (.cdr, [x]))
  have right : ((Course.apply g [x]).bind fun v => Course.apply f [v]).Ends t _ :=
    Course.ends_bind.mpr (Or.inl ⟨_, _, rest, whole⟩)
  have converges : ¬ ∀ o, ¬ ((Course.apply compose [f, g]).bind fun c => Course.apply c [x]).Ends t o := by
    rw [← Course.diverges_iff, same, Course.diverges_iff]
    exact fun never => never _ right
  obtain ⟨o, left⟩ := not_forall_not.mp converges
  obtain ⟨_, _, _, related⟩ := alike o _ left right
  cases related with
  | done value _ =>
    obtain rfl := value.2
    exact ⟨_, left⟩

end Unfurl
