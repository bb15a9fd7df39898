import Unfurl.Proofs.Eval.Congruence
import Unfurl.Proofs.Overlay
import Unfurl.Proofs.Scope.Names

/-!
A link says which code stands for which, in which environments, and on which names these then have to agree.
A lawful link is a simulation, so linked code runs in step.
-/

namespace Unfurl

/-- Code in an environment, the code that stands for it in another, and the names they share. -/
abbrev Link := Expr → Environment → Expr → Environment → (Text → Prop) → Prop

/-- Code also stands for itself, where its free names are shared. -/
def Link.OrSame (L : Link) : Link := fun e env e' env' names =>
  (e' = e ∧ ∀ x ∈ e.free, names x) ∨ L e env e' env' names

inductive Value.Linked (L : Link) : Value → Value → Prop
  | same (v : Value) : Linked L v v
  | list {items items' : List Value} : List.Forall₂ (Linked L) items items' →
      Linked L (.list items) (.list items')
  | closure (m : Mark) (params : List Text) {body body' : Expr} {env env' : Environment}
      {names : Text → Prop} : L.OrSame (.lambda params body) env (.lambda params body') env' names →
      (∀ x, names x → Option.Rel (Linked L) (Overlay.get? env x) (Overlay.get? env' x)) →
      Linked L (.closure m params body env) (.closure m params body' env')
  | unfolding (m : Mark) {fn fn' : Expr} {env env' : Environment} {names : Text → Prop} :
      L.OrSame (.fix fn) env (.fix fn') env' names →
      (∀ x, names x → Option.Rel (Linked L) (Overlay.get? env x) (Overlay.get? env' x)) →
      Linked L (.unfolding m fn env) (.unfolding m fn' env')

/-- The environments bind each of the names to linked values, or neither binds it. -/
def Environment.Linked (L : Link) (names : Text → Prop) (env env' : List (Text × Value)) : Prop :=
  ∀ x, names x → Option.Rel (Value.Linked L) (Overlay.get? env x) (Overlay.get? env' x)

inductive Fault.Linked (L : Link) : Fault → Fault → Prop
  | same (fault : Fault) : Linked L fault fault
  | notCallable {v v' : Value} : v.Linked L v' →
      Linked L (.eval (.notCallable v)) (.eval (.notCallable v'))
  | noMatchingPattern {v v' : Value} : v.Linked L v' →
      Linked L (.eval (.noMatchingPattern v)) (.eval (.noMatchingPattern v'))

/-! ### Linked values -/

variable {L : Link}

theorem Value.all_congr {f : Value → Bool} {xs ys : List Value}
    (items : List.Forall₂ (fun x y => f x = f y) xs ys) : xs.all f = ys.all f := by
  induction items with
  | nil => rfl
  | cons head _ ih => rw [List.all_cons, List.all_cons, head, ih]

theorem Value.allQuotable_eq (items : List Value) :
    Value.allQuotable items = items.all Value.quotable := by
  induction items with
  | nil => rfl
  | cons v rest ih => rw [Value.allQuotable, List.all_cons, ih]

theorem Value.linked_layered (L : Link) : Layered (Value.Linked L) where
  layer := by
    intro a b linked
    cases linked with
    | same => exact LayerRel.refl .same a
    | list items => exact .list items
    | closure m params => exact .closure m params
    | unfolding m => exact .unfolding m
  list := .list
  refl := .same

theorem Environment.Linked.refl (names : Text → Prop) (env : List (Text × Value)) :
    Environment.Linked L names env env := by
  intro x _
  cases Overlay.get? env x with
  | none => exact .none
  | some v => exact .some (.same v)

theorem Environment.Linked.extend {names : Text → Prop} {env env' : List (Text × Value)}
    (linked : Environment.Linked L names env env') {params : List Text} {args args' : List Value}
    (arguments : List.Forall₂ (Value.Linked L) args args') (length : args.length = params.length) :
    Environment.Linked L (fun x => x ∈ params ∨ names x) (Overlay.extend env (params.zip args))
      (Overlay.extend env' (params.zip args')) := by
  intro x shared
  refine Overlay.rel_get?_extend arguments length fun absent => ?_
  exact linked x (shared.resolve_left absent)

/-! ### Lawful links -/

/-- The nodes are of one kind and `D` relates their parts. A `select` is judged by what it selects. -/
inductive Expr.Parallel (D : Expr → Expr → Prop) (names : Text → Prop) : Expr → Expr → Prop
  | literal (v : Value) : Parallel D names (.literal v) (.literal v)
  | reference {name : Text} : names name → Parallel D names (.reference name) (.reference name)
  | application {f a f' a' : Expr} : D f f' → D a a' →
      Parallel D names (.application f a) (.application f' a')
  | vector {elements elements' : List Expr} : List.Forall₂ D elements elements' →
      Parallel D names (.vector elements) (.vector elements')
  | lambda (params : List Text) (body body' : Expr) :
      Parallel D names (.lambda params body) (.lambda params body')
  | fix {f f' : Expr} : D f f' → Parallel D names (.fix f) (.fix f')
  | select {s s' : Expr} {branches branches' : List Branch} : D s s' →
      (∀ v, Option.Rel (fun found found' => D found.2 found'.2) (selectFrom 0 v branches)
        (selectFrom 0 v branches')) →
      Parallel D names (.select s branches) (.select s' branches')

def BranchRel (D : Expr → Expr → Prop) (b b' : Branch) : Prop := b.1 = b'.1 ∧ D b.2 b'.2

theorem selectFrom_parallel {D : Expr → Expr → Prop} {branches branches' : List Branch}
    (bodies : List.Forall₂ (BranchRel D) branches branches') (index : Nat)
    (v : Value) :
    Option.Rel (fun found found' => D found.2 found'.2) (selectFrom index v branches)
      (selectFrom index v branches') := by
  induction bodies generalizing index with
  | nil => exact .none
  | @cons b b' _ _ head _ ih =>
    obtain ⟨p, body⟩ := b
    obtain ⟨p', body'⟩ := b'
    obtain ⟨rfl, inside⟩ : p = p' ∧ D body body' := head
    rw [selectFrom, selectFrom]
    split
    · exact .some inside
    · exact ih (index + 1)

theorem Expr.Parallel.branches {D : Expr → Expr → Prop} {names : Text → Prop} {s s' : Expr}
    {branches branches' : List Branch} (scrutinee : D s s')
    (bodies : List.Forall₂ (BranchRel D) branches branches') :
    Expr.Parallel D names (.select s branches) (.select s' branches') :=
  .select scrutinee fun v => selectFrom_parallel bodies 0 v

/-- Linked code can be quoted alike, does the same next, and is still linked where a call enters it. -/
structure Link.Lawful (L : Link) : Prop where
  quotable {e e' : Expr} {env env' : Environment} {names : Text → Prop} :
    L e env e' env' names → e.quotable = e'.quotable
  node {e e' : Expr} {env env' : Environment} {names : Text → Prop} : L e env e' env' names →
    (∃ v, Reads env e v ∧ Reads env' e' v) ∨
      Expr.Parallel (fun f f' => L.OrSame f env f' env' names) names e e'
  body {params : List Text} {body body' : Expr} {env env' : Environment} {names : Text → Prop}
    {args args' : List Value} : L (.lambda params body) env (.lambda params body') env' names →
    args.length = params.length → args'.length = params.length →
    L.OrSame body (Overlay.extend env (params.zip args)) body' (Overlay.extend env' (params.zip args'))
      (fun x => x ∈ params ∨ names x)

def Link.Code (L : Link) (e : Expr) (env : Environment) (e' : Expr) (env' : Environment) : Prop :=
  ∃ names, L.OrSame e env e' env' names ∧ Environment.Linked L names env env'

theorem Expr.Parallel.same {names : Text → Prop} {e : Expr} {env env' : Environment}
    (free : ∀ x ∈ e.free, names x) :
    Expr.Parallel (fun f f' => L.OrSame f env f' env' names) names e e := by
  have part : ∀ f : Expr, (∀ x ∈ f.free, x ∈ e.free) → L.OrSame f env f env' names :=
    fun f inside => Or.inl ⟨rfl, fun x member => free x (inside x member)⟩
  cases e with
  | literal v => exact .literal v
  | reference name => exact .reference (free name (by simp [Expr.free]))
  | application f a =>
    exact .application (part f (by simp +contextual [Expr.free]))
      (part a (by simp +contextual [Expr.free]))
  | vector elements =>
    refine .vector (List.forall₂_same.mpr fun f member => part f fun x inside => ?_)
    exact Expr.mem_freeAll.mpr ⟨f, member, inside⟩
  | lambda params body => exact .lambda params body body
  | fix f => exact .fix (part f (by simp [Expr.free]))
  | select s branches =>
    refine .branches (part s (by simp +contextual [Expr.free])) ?_
    refine List.forall₂_same.mpr fun branch member => ⟨rfl, part _ fun x inside => ?_⟩
    exact List.mem_append_right _ (Expr.mem_freeBranches.mpr ⟨branch, member, inside⟩)

namespace Link.Lawful

theorem orSame_quotable (lawful : L.Lawful) {e e' : Expr} {env env' : Environment}
    {names : Text → Prop} (linked : L.OrSame e env e' env' names) : e.quotable = e'.quotable := by
  rcases linked with ⟨rfl, _⟩ | linked
  · rfl
  · exact lawful.quotable linked

theorem quotable_congr (lawful : L.Lawful) {v v' : Value} (linked : v.Linked L v') :
    v.quotable = v'.quotable := by
  refine (Value.linked_layered L).induct (P := fun v v' => v.quotable = v'.quotable) ?_ v linked
  intro v v' linked outer
  cases linked with
  | same => rfl
  | closure m params code _ =>
    have written := lawful.orSame_quotable code
    rwa [Expr.quotable, Expr.quotable] at written
  | unfolding m code _ =>
    have written := lawful.orSame_quotable code
    rwa [Expr.quotable, Expr.quotable] at written
  | list =>
    cases outer with
    | plain atom => cases atom
    | list items =>
      rw [Value.quotable, Value.quotable, Value.allQuotable_eq, Value.allQuotable_eq]
      exact Value.all_congr (items.imp fun _ _ both => both.2)

theorem blame_linked (lawful : L.Lawful) {v v' : Value} (linked : v.Linked L v')
    {cause : Value → EvalError} (about : Fault.Linked L (.eval (cause v)) (.eval (cause v'))) :
    Fault.Linked L (blame cause v) (blame cause v') := by
  rw [blame, blame, ← lawful.quotable_congr linked]
  split
  · exact about
  · exact .same _

theorem selectBranch_linked (lawful : L.Lawful) {R : Nat × Expr → Nat × Expr → Prop} {v v' : Value}
    (linked : v.Linked L v') {branches branches' : List Branch}
    (selected : Option.Rel R (selectFrom 0 v branches) (selectFrom 0 v branches')) :
    ExceptRel R (Fault.Linked L) (selectBranch v branches) (selectBranch v' branches') := by
  unfold selectBranch
  rw [← (Value.linked_layered L).selectFrom_congr linked]
  generalize selectFrom 0 v branches = found, selectFrom 0 v branches' = found' at selected
  cases selected with
  | some inside => exact .ok inside
  | none => exact .error (lawful.blame_linked linked (.noMatchingPattern linked))

theorem node_parallel (lawful : L.Lawful) {e e' : Expr} {env env' : Environment} {names : Text → Prop}
    (whole : L.OrSame e env e' env' names) (shared : Environment.Linked L names env env')
    (parallel : Expr.Parallel (fun f f' => L.OrSame f env f' env' names) names e e') :
    NodeRel (Value.Linked L) L.Code (Fault.Linked L) Eq env env' e e' := by
  have part : ∀ {f f' : Expr}, L.OrSame f env f' env' names → L.Code f env f' env' :=
    fun code => ⟨names, code, shared⟩
  cases parallel with
  | literal v => exact .read (.literal v) (.literal v) (.same v)
  | @reference name member =>
    have found := shared name member
    generalize here : Overlay.get? env name = entry, here' : Overlay.get? env' name = entry' at found
    cases found with
    | some linked => exact .read (.reference here) (.reference here') linked
    | none => exact .missing here here' (.same _)
  | application f a => exact .application (part f) (part a)
  | vector elements => exact .vector (elements.imp fun _ _ => part)
  | lambda params body body' =>
    refine .lambda fun m m' marks => ?_
    obtain rfl := marks
    exact .closure m params whole shared
  | fix f =>
    refine .fix (part f) fun m m' marks => ?_
    obtain rfl := marks
    exact .unfolding m whole shared
  | select s selected =>
    refine .select (part s) fun v v' linked => ?_
    exact (lawful.selectBranch_linked linked (selected v)).imp fun _ _ => part

theorem node_linked (lawful : L.Lawful) {e e' : Expr} {env env' : Environment}
    (code : L.Code e env e' env') :
    NodeRel (Value.Linked L) L.Code (Fault.Linked L) Eq env env' e e' := by
  obtain ⟨names, whole, shared⟩ := code
  rcases whole with ⟨rfl, free⟩ | linked
  · exact lawful.node_parallel (Or.inl ⟨rfl, free⟩) shared (.same free)
  · rcases lawful.node linked with ⟨v, reads, reads'⟩ | parallel
    · exact .read reads reads' (.same v)
    · exact lawful.node_parallel (Or.inr linked) shared parallel

theorem body_linked (lawful : L.Lawful) {params : List Text} {body body' : Expr}
    {env env' : Environment} {names : Text → Prop}
    (code : L.OrSame (.lambda params body) env (.lambda params body') env' names)
    (shared : Environment.Linked L names env env') {args args' : List Value}
    (arguments : List.Forall₂ (Value.Linked L) args args') (length : args.length = params.length) :
    L.Code body (Overlay.extend env (params.zip args)) body' (Overlay.extend env' (params.zip args')) := by
  refine ⟨fun x => x ∈ params ∨ names x, ?_, shared.extend arguments length⟩
  rcases code with ⟨same, free⟩ | linked
  · cases same
    refine Or.inl ⟨rfl, fun x member => ?_⟩
    by_cases bound : x ∈ params
    · exact Or.inl bound
    · exact Or.inr (free x (Expr.mem_free_lambda.mpr ⟨member, bound⟩))
  · exact lawful.body linked length (arguments.length_eq ▸ length)

theorem callee_linked (lawful : L.Lawful) {fn fn' : Value} (linked : fn.Linked L fn') :
    CalleeRel (Value.Linked L) L.Code (Fault.Linked L) fn fn' := by
  cases linked with
  | closure m params code shared =>
    exact .closure rfl fun args args' arguments => lawful.body_linked code shared arguments
  | unfolding m code shared => exact .unfolding ⟨_, code, shared⟩
  | list items =>
    have linked : Value.Linked L (.list _) (.list _) := .list items
    exact .other rfl rfl (lawful.blame_linked linked (.notCallable linked))
  | same =>
    cases fn with
    | closure m params body env =>
      have code : L.OrSame (.lambda params body) env (.lambda params body) env (fun _ => True) :=
        Or.inl ⟨rfl, fun _ _ => trivial⟩
      exact .closure rfl fun args args' arguments => lawful.body_linked code (.refl _ env) arguments
    | unfolding m f env => exact .unfolding ⟨fun _ => True, Or.inl ⟨rfl, fun _ _ => trivial⟩, .refl _ env⟩
    | builtin m name op => exact .builtin op
    | _ => exact .other rfl rfl (.same _)

def simulation (lawful : L.Lawful) : Simulation where
  value := Value.Linked L
  code := L.Code
  fault := Fault.Linked L
  mark := Eq
  mark_succ := fun _ _ same => congrArg (· + 1) same
  limited := fun _ => .same _
  arity := fun _ _ => .same _
  node := lawful.node_linked
  callee := lawful.callee_linked
  list := .list
  spread := (Value.linked_layered L).spread_related
  primitive := by
    intro op m m' args args' marks arguments
    obtain rfl := marks
    exact (Value.linked_layered L).result_related .same arguments

/-- Linked code, run from one tally to any depth under any limit, ends alike. -/
theorem evaluate_linked (lawful : L.Lawful) {e e' : Expr} {env env' : Environment}
    (code : L.Code e env e' env') (depth : Nat) (limit : Option Nat) (t : Tally) :
    (evaluate depth e env limit t).Related (Value.Linked L) (Fault.Linked L)
      (Tally.InStep (Value.Linked L) Eq) (evaluate depth e' env' limit t) := by
  have inStep : Tally.InStep (Value.Linked L) Eq t t := by
    refine ⟨rfl, rfl, rfl, List.forall₂_same.mpr fun call _ => ⟨rfl, ?_⟩⟩
    exact List.forall₂_same.mpr fun v _ => .same v
  exact (lawful.simulation.depth_related depth).1 e env e' env' code limit t t inStep

end Link.Lawful

end Unfurl
