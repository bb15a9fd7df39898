import Mathlib.Data.List.Forall2
import Unfurl.Proofs.Eval.Primitive
import Unfurl.Proofs.Eval.Simulation

/-! Neither equality nor a pattern nor a primitive can tell values apart that differ only inside functions. -/

namespace Unfurl

/-! ### Layers of values -/

def Value.atomic : Value → Bool
  | .list _ => false
  | v => !v.isFunction

mutual

/-- No closure and no unfolding is the value or stands in its lists. -/
def Value.codeFree : Value → Bool
  | .list items => Value.allCodeFree items
  | .closure .. => false
  | .unfolding .. => false
  | _ => true

def Value.allCodeFree : List Value → Bool
  | [] => true
  | v :: rest => Value.codeFree v && Value.allCodeFree rest

end

/-- The values agree in their outermost layer and `V` relates their items. -/
inductive LayerRel (V : Value → Value → Prop) : Value → Value → Prop
  | plain {v : Value} : v.atomic = true → LayerRel V v v
  | list {items items' : List Value} : List.Forall₂ V items items' →
      LayerRel V (.list items) (.list items')
  | closure (m : Mark) (params : List Text) {body body' : Expr} {env env' : Environment} :
      LayerRel V (.closure m params body env) (.closure m params body' env')
  | builtin (m : Mark) (name : Text) (op : Primitive) : LayerRel V (.builtin m name op) (.builtin m name op)
  | unfolding (m : Mark) {f f' : Expr} {env env' : Environment} :
      LayerRel V (.unfolding m f env) (.unfolding m f' env')

theorem LayerRel.change {V W : Value → Value → Prop} {a b : Value} (flat : ∀ items, a ≠ .list items)
    (related : LayerRel V a b) : LayerRel W a b := by
  cases related with
  | plain atom => exact .plain atom
  | list => exact absurd rfl (flat _)
  | closure m params => exact .closure m params
  | builtin m name op => exact .builtin m name op
  | unfolding m => exact .unfolding m

theorem LayerRel.refl {V : Value → Value → Prop} (same : ∀ v, V v v) (v : Value) : LayerRel V v v := by
  cases v with
  | list items => exact .list (List.forall₂_same.mpr fun v _ => same v)
  | closure m params body env => exact .closure m params
  | builtin m name op => exact .builtin m name op
  | unfolding m fn env => exact .unfolding m
  | _ => exact .plain rfl

structure Layered (V : Value → Value → Prop) : Prop where
  layer {a b : Value} : V a b → LayerRel V a b
  list {items items' : List Value} : List.Forall₂ V items items' → V (.list items) (.list items')
  refl (v : Value) : V v v

namespace Layered

variable {V P : Value → Value → Prop}

mutual

/-- What follows from one layer, given that it holds of the items, holds of all related values. -/
theorem induct (layered : Layered V)
    (step : ∀ {a b}, V a b → LayerRel (fun x y => V x y ∧ P x y) a b → P a b) (a : Value) {b : Value}
    (related : V a b) : P a b := by
  refine step related ?_
  cases a with
  | list items =>
    cases layered.layer related with
    | plain atom => cases atom
    | list inside => exact .list (inductItems layered step items inside)
  | _ => exact (layered.layer related).change (by simp)

theorem inductItems (layered : Layered V)
    (step : ∀ {a b}, V a b → LayerRel (fun x y => V x y ∧ P x y) a b → P a b) (items : List Value)
    {items' : List Value} (related : List.Forall₂ V items items') :
    List.Forall₂ (fun x y => V x y ∧ P x y) items items' := by
  cases related with
  | nil => exact .nil
  | cons head tail => exact .cons ⟨head, induct layered step _ head⟩ (inductItems layered step _ tail)

end

/-! ### Equality and display -/

theorem same_plain_left {strict : Bool} {a b : Value} (atom : a.atomic = true) (other : b.atomic = false) :
    a.same strict b = false := by
  cases a with
  | list | closure | builtin | unfolding => cases atom
  | _ => cases b <;> first | rfl | cases other

theorem same_plain_right {strict : Bool} {a b : Value} (other : a.atomic = false) (atom : b.atomic = true) :
    a.same strict b = false := by
  cases b with
  | list | closure | builtin | unfolding => cases atom
  | _ => cases a <;> first | rfl | cases other

theorem sameItems_congr {strict : Bool} {xs xs' ys ys' : List Value}
    (left : List.Forall₂ (fun x x' => ∀ y y', V y y' → x.same strict y = x'.same strict y') xs xs')
    (right : List.Forall₂ V ys ys') :
    Value.sameItems strict xs ys = Value.sameItems strict xs' ys' := by
  induction left generalizing ys ys' with
  | nil => cases right <;> rfl
  | cons head _ ih =>
    cases right with
    | nil => rfl
    | cons first rest => rw [Value.sameItems, Value.sameItems, head _ _ first, ih rest]

/-- Related values are equal to related values alike. -/
theorem same_congr (layered : Layered V) (strict : Bool) {a a' b b' : Value} (left : V a a')
    (right : V b b') : a.same strict b = a'.same strict b' := by
  suffices both : ∀ y y', V y y' → a.same strict y = a'.same strict y' from both b b' right
  refine layered.induct (P := fun x x' => ∀ y y', V y y' → x.same strict y = x'.same strict y') ?_ a left
  intro a a' _ outer y y' inner
  cases outer with
  | plain atom =>
    cases layered.layer inner with
    | plain => rfl
    | _ => exact (same_plain_left atom rfl).trans (same_plain_left atom rfl).symm
  | list items =>
    cases layered.layer inner with
    | plain atom => exact (same_plain_right rfl atom).trans (same_plain_right rfl atom).symm
    | list items' => exact sameItems_congr (items.imp fun _ _ both => both.2) items'
    | _ => rfl
  | _ =>
    cases layered.layer inner with
    | plain atom => exact (same_plain_right rfl atom).trans (same_plain_right rfl atom).symm
    | _ => rfl

/-! ### Values without code -/

theorem items_eq_of_codeFree {xs ys : List Value}
    (items : List.Forall₂ (fun x y => x.codeFree = true → y = x) xs ys)
    (free : Value.allCodeFree xs = true) : ys = xs := by
  induction items with
  | nil => rfl
  | cons head _ ih =>
    rw [Value.allCodeFree, Bool.and_eq_true] at free
    rw [head free.1, ih free.2]

/-- Nothing but functions that hold code is left open by the relation. -/
theorem eq_of_codeFree (layered : Layered V) {a a' : Value} (related : V a a')
    (free : a.codeFree = true) : a' = a := by
  refine layered.induct (P := fun x x' => x.codeFree = true → x' = x) ?_ a related free
  intro a a' _ outer free
  cases outer with
  | plain | builtin => rfl
  | list items =>
    rw [Value.codeFree] at free
    rw [items_eq_of_codeFree (items.imp fun _ _ both => both.2) free]
  | closure | unfolding => cases free

/-! ### Primitives -/

variable {F : Fault → Fault → Prop}

theorem exceptRel_refl (layered : Layered V) (same : ∀ fault, F fault fault) (r : Except Fault Value) :
    ExceptRel V F r r := by
  cases r with
  | ok v => exact .ok (layered.refl v)
  | error fault => exact .error (same fault)

theorem exceptRel_error (same : ∀ fault, F fault fault) {fault : Fault} {r r' : Except Fault Value}
    (error : r = .error fault) (error' : r' = .error fault) : ExceptRel V F r r' := by
  rw [error, error']
  exact .error (same fault)

section Arithmetic

variable {op : Primitive} {exact : Int → Int → Int} {rounded : Binary64 → Binary64 → Binary64}

theorem arithmetic_other {a b : Value} (other : a.atomic = false ∨ b.atomic = false) :
    arithmetic op exact rounded [a, b] = .error (.eval (.refused op)) := by
  unfold arithmetic
  split
  case h_5 => rfl
  all_goals
    rename_i shape
    cases shape
    rcases other with other | other <;> cases other

theorem arithmetic_related (layered : Layered V) (same : ∀ fault, F fault fault) {a a' b b' : Value}
    (left : V a a') (right : V b b') :
    ExceptRel V F (arithmetic op exact rounded [a, b]) (arithmetic op exact rounded [a', b']) := by
  cases layered.layer left with
  | plain =>
    cases layered.layer right with
    | plain => exact layered.exceptRel_refl same _
    | _ => exact exceptRel_error same (arithmetic_other (Or.inr rfl)) (arithmetic_other (Or.inr rfl))
  | _ => exact exceptRel_error same (arithmetic_other (Or.inl rfl)) (arithmetic_other (Or.inl rfl))

end Arithmetic

theorem isNumber_congr (layered : Layered V) {a a' : Value} (related : V a a') :
    a.isNumber = a'.isNumber := by
  cases layered.layer related <;> rfl

theorem atMost_congr (layered : Layered V) {a a' b b' : Value} (left : V a a') (right : V b b') :
    a.atMost b = a'.atMost b' := by
  have view : ∀ {x x' : Value}, V x x' → x.extended? = x'.extended? := by
    intro x x' related
    cases layered.layer related <;> rfl
  rw [Value.atMost, Value.atMost, view left, view right]

theorem spread_related (layered : Layered V) {v v' : Value} (related : V v v') :
    List.Forall₂ V v.spread v'.spread := by
  have here : List.Forall₂ V [v] [v'] := .cons related .nil
  cases layered.layer related with
  | list items => exact items
  | plain atom => cases v <;> first | exact here | cases atom
  | _ => exact here

theorem car_related (layered : Layered V) (same : ∀ fault, F fault fault) {m : Mark} {a a' : Value}
    (related : V a a') : ExceptRel V F (Primitive.car.result m [a]) (Primitive.car.result m [a']) := by
  cases layered.layer related with
  | plain => exact layered.exceptRel_refl same _
  | list items =>
    cases items with
    | nil => exact .error (same _)
    | cons head _ => exact .ok head
  | _ => exact .error (same _)

theorem cdr_related (layered : Layered V) (same : ∀ fault, F fault fault) {m : Mark} {a a' : Value}
    (related : V a a') : ExceptRel V F (Primitive.cdr.result m [a]) (Primitive.cdr.result m [a']) := by
  cases layered.layer related with
  | plain => exact layered.exceptRel_refl same _
  | list items =>
    cases items with
    | nil => exact .error (same _)
    | cons _ rest => exact .ok (layered.list rest)
  | _ => exact .error (same _)

theorem cond_related (layered : Layered V) (same : ∀ fault, F fault fault) {m : Mark}
    {a a' b b' c c' : Value} (test : V a a') (first : V b b') (second : V c c') :
    ExceptRel V F (Primitive.cond.result m [a, b, c]) (Primitive.cond.result m [a', b', c']) := by
  cases layered.layer test with
  | plain =>
    cases a with
    | bool flag =>
      cases flag with
      | true => exact .ok first
      | false => exact .ok second
    | _ => exact .error (same _)
  | _ => exact .error (same _)

theorem le_related (layered : Layered V) (same : ∀ fault, F fault fault) {m : Mark}
    {a a' b b' : Value} (left : V a a') (right : V b b') :
    ExceptRel V F (Primitive.le.result m [a, b]) (Primitive.le.result m [a', b']) := by
  simp only [Primitive.result]
  rw [layered.isNumber_congr left, layered.isNumber_congr right, layered.atMost_congr left right]
  exact layered.exceptRel_refl same _

/-- A primitive takes related arguments to related results and fails alike. -/
theorem result_related (layered : Layered V) (same : ∀ fault, F fault fault) {op : Primitive} {m : Mark}
    {args args' : List Value} (related : List.Forall₂ V args args') :
    ExceptRel V F (op.result m args) (op.result m args') := by
  by_cases length : args.length = op.arity
  · cases op with
    | car =>
      match related with
      | .cons first .nil => exact layered.car_related same first
    | cdr =>
      match related with
      | .cons first .nil => exact layered.cdr_related same first
    | identity =>
      match related with
      | .cons first .nil => exact .ok first
    | cond =>
      match related with
      | .cons test (.cons first (.cons second .nil)) => exact layered.cond_related same test first second
    | cons =>
      match related with
      | .cons first (.cons second .nil) => exact .ok (layered.list (.cons first (.cons second .nil)))
    | eq =>
      match related with
      | .cons first (.cons second .nil) =>
        simp only [Primitive.result, Value.quickSame_eq]
        rw [layered.same_congr true first second]
        exact .ok (layered.refl _)
    | le =>
      match related with
      | .cons first (.cons second .nil) => exact layered.le_related same first second
    | add | sub | mul =>
      match related with
      | .cons first (.cons second .nil) => exact layered.arithmetic_related same first second
  · have length' : args'.length ≠ op.arity := related.length_eq ▸ length
    exact exceptRel_error same (Primitive.result_arity length) (Primitive.result_arity length')

/-! ### Patterns -/

theorem accepts_congr (layered : Layered V) (p : Pattern) {v v' : Value} (related : V v v') :
    p.accepts v = p.accepts v' := by
  cases p with
  | literal expected =>
    rw [Pattern.accepts, Pattern.accepts, Value.quickSame_eq, Value.quickSame_eq]
    exact layered.same_congr false related (layered.refl expected)
  | _ => rfl

theorem selectFrom_congr (layered : Layered V) {v v' : Value} (related : V v v') (index : Nat)
    (branches : List Branch) : selectFrom index v branches = selectFrom index v' branches := by
  induction branches generalizing index with
  | nil => rfl
  | cons branch rest ih =>
    obtain ⟨p, body⟩ := branch
    rw [selectFrom, selectFrom, layered.accepts_congr p related, ih]

end Layered

end Unfurl
