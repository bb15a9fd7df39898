import Unfurl.Proofs.Scope.Link
import Unfurl.Proofs.Select.Reachable

namespace Unfurl

namespace Expr

mutual

/-- The expression without its unreachable branches. -/
def prune : Expr → Expr
  | .literal value => .literal value
  | .reference name => .reference name
  | .application f a => .application (prune f) (prune a)
  | .vector elements => .vector (pruneAll elements)
  | .lambda params body => .lambda params (prune body)
  | .fix f => .fix (prune f)
  | .select scrutinee branches => .select (prune scrutinee) (pruneBranches [] branches)

def pruneAll : List Expr → List Expr
  | [] => []
  | e :: rest => prune e :: pruneAll rest

def pruneBranches (earlier : List Pattern) : List (Pattern × Expr) → List (Pattern × Expr)
  | [] => []
  | (p, body) :: rest =>
    let later := pruneBranches (earlier ++ [p]) rest
    if earlier.any (·.covers p) then later else (p, prune body) :: later

end

/-! ### What is left -/

theorem pruneBranches_eq (before branches : List Branch) :
    pruneBranches (before.map Prod.fst) branches =
      ((branches.zipIdx before.length).filter fun b => Reachable (before ++ branches) b.2).map
        fun b => (b.1.1, b.1.2.prune) := by
  induction branches generalizing before with
  | nil => rfl
  | cons branch rest ih =>
    obtain ⟨p, body⟩ := branch
    have later := ih (before ++ [(p, body)])
    rw [List.map_append, List.map_singleton, List.length_append, List.length_singleton, List.append_assoc,
      List.singleton_append] at later
    have here : Reachable (before ++ (p, body) :: rest) before.length ↔
        (before.map Prod.fst).any (·.covers p) = false := by
      simp [Reachable]
    rw [pruneBranches, List.zipIdx_cons, List.filter_cons, later]
    by_cases covered : (before.map Prod.fst).any (·.covers p) = true
    · have gone : ¬ Reachable (before ++ (p, body) :: rest) before.length := by
        rw [here, covered]
        exact Bool.noConfusion
      rw [if_pos covered, if_neg (by simpa using gone)]
    · have kept := here.mpr (Bool.eq_false_iff.mpr covered)
      rw [if_neg covered, if_pos (by simpa using kept), List.map_cons]

theorem prune_select (scrutinee : Expr) (branches : List Branch) :
    (Expr.select scrutinee branches).prune =
      .select scrutinee.prune ((branches.zipIdx.filter fun b => Reachable branches b.2).map
        fun b => (b.1.1, b.1.2.prune)) := by
  rw [prune]
  exact congrArg _ (pruneBranches_eq [] branches)

theorem pruneAll_related {D : Expr → Expr → Prop} {elements : List Expr}
    (inside : ∀ e ∈ elements, D e e.prune) : List.Forall₂ D elements (pruneAll elements) := by
  induction elements with
  | nil => exact .nil
  | cons e rest ih =>
    obtain ⟨here, later⟩ := List.forall_mem_cons.mp inside
    exact .cons here (ih later)

/-- A value that the patterns in front refuse selects the same body as before. -/
theorem selectFrom_pruneBranches {D : Expr → Expr → Prop} {earlier : List Pattern}
    {branches : List Branch} {v : Value} (refused : ∀ q ∈ earlier, q.accepts v = false)
    (inside : ∀ branch ∈ branches, D branch.2 branch.2.prune) (index index' : Nat) :
    Option.Rel (fun found found' => D found.2 found'.2) (selectFrom index v branches)
      (selectFrom index' v (pruneBranches earlier branches)) := by
  induction branches generalizing earlier index index' with
  | nil => exact .none
  | cons branch rest ih =>
    obtain ⟨p, body⟩ := branch
    obtain ⟨here, others⟩ := List.forall_mem_cons.mp inside
    rw [selectFrom, pruneBranches]
    by_cases accepted : p.accepts v = true
    · -- A pattern in front that covered this one would have accepted the value before.
      have kept : ¬ earlier.any (·.covers p) = true := by
        rw [List.any_eq_true]
        rintro ⟨q, member, covers⟩
        have taken := Pattern.accepts_of_covers covers accepted
        rw [refused q member] at taken
        cases taken
      rw [if_pos accepted, if_neg kept, selectFrom, if_pos accepted]
      exact .some here
    · have refused' : ∀ q ∈ earlier ++ [p], q.accepts v = false := by
        rw [List.forall_mem_append, List.forall_mem_singleton]
        exact ⟨refused, Bool.eq_false_iff.mpr accepted⟩
      rw [if_neg accepted]
      split
      · exact ih refused' others _ _
      · rw [selectFrom, if_neg accepted]
        exact ih refused' others _ _

mutual

theorem quotable_prune : (e : Expr) → e.quotable = true → e.prune.quotable = true
  | .literal _, writable => writable
  | .reference _, writable => writable
  | .application f a, writable => by
    rw [quotable, Bool.and_eq_true] at writable
    rw [prune, quotable, quotable_prune f writable.1, quotable_prune a writable.2]
    rfl
  | .vector elements, writable => by
    rw [quotable] at writable
    rw [prune, quotable]
    exact allQuotable_prune elements writable
  | .lambda _ body, writable => by
    rw [quotable] at writable
    rw [prune, quotable]
    exact quotable_prune body writable
  | .fix f, writable => by
    rw [quotable] at writable
    rw [prune, quotable]
    exact quotable_prune f writable
  | .select s branches, writable => by
    rw [quotable, Bool.and_eq_true] at writable
    rw [prune, quotable, quotable_prune s writable.1, branchesQuotable_prune [] branches writable.2]
    rfl

theorem allQuotable_prune : (elements : List Expr) → allQuotable elements = true →
    allQuotable (pruneAll elements) = true
  | [], _ => rfl
  | e :: rest, writable => by
    rw [allQuotable, Bool.and_eq_true] at writable
    rw [pruneAll, allQuotable, quotable_prune e writable.1, allQuotable_prune rest writable.2]
    rfl

theorem branchesQuotable_prune : (earlier : List Pattern) → (branches : List Branch) →
    branchesQuotable branches = true → branchesQuotable (pruneBranches earlier branches) = true
  | _, [], _ => rfl
  | earlier, (p, body) :: rest, writable => by
    rw [branchesQuotable, Bool.and_eq_true, Bool.and_eq_true] at writable
    obtain ⟨⟨pattern, inside⟩, others⟩ := writable
    have later := branchesQuotable_prune (earlier ++ [p]) rest others
    rw [pruneBranches]
    split
    · exact later
    · rw [branchesQuotable, pattern, quotable_prune body inside, later]
      rfl

end

end Expr

/-! ### Code and what is left of it -/

/-- Code stands next to its pruned form, in environments that share every name. -/
def Link.pruning : Link := fun e _ e' _ names =>
  e' = e.prune ∧ e.quotable = true ∧ ∀ x, names x

theorem Expr.quotable_element {elements : List Expr} (writable : Expr.allQuotable elements = true) :
    ∀ e ∈ elements, e.quotable = true := by
  induction elements with
  | nil => simp
  | cons e rest ih =>
    rw [Expr.allQuotable, Bool.and_eq_true] at writable
    exact List.forall_mem_cons.mpr ⟨writable.1, ih writable.2⟩

theorem Expr.quotable_branch {branches : List Branch} (writable : Expr.branchesQuotable branches = true) :
    ∀ branch ∈ branches, branch.2.quotable = true := by
  induction branches with
  | nil => simp
  | cons branch rest ih =>
    obtain ⟨p, body⟩ := branch
    rw [Expr.branchesQuotable, Bool.and_eq_true, Bool.and_eq_true] at writable
    exact List.forall_mem_cons.mpr ⟨writable.1.2, ih writable.2⟩

theorem Link.pruning_parallel {e : Expr} {env env' : Environment} {names : Text → Prop}
    (writable : e.quotable = true) (shared : ∀ x, names x) :
    Expr.Parallel (fun f f' => Link.pruning.OrSame f env f' env' names) names e e.prune := by
  have part : ∀ f : Expr, f.quotable = true → Link.pruning.OrSame f env f.prune env' names :=
    fun f inside => Or.inr ⟨rfl, inside, shared⟩
  cases e with
  | literal v => exact .literal v
  | reference name => exact .reference (shared name)
  | application f a =>
    rw [Expr.quotable, Bool.and_eq_true] at writable
    exact .application (part f writable.1) (part a writable.2)
  | vector elements =>
    rw [Expr.quotable] at writable
    have inside := Expr.quotable_element writable
    exact .vector (Expr.pruneAll_related fun f member => part f (inside f member))
  | lambda params body => exact .lambda params body body.prune
  | fix f =>
    rw [Expr.quotable] at writable
    exact .fix (part f writable)
  | select s branches =>
    rw [Expr.quotable, Bool.and_eq_true] at writable
    have inside := Expr.quotable_branch writable.2
    have bodies : ∀ branch ∈ branches, Link.pruning.OrSame branch.2 env branch.2.prune env' names :=
      fun branch member => part _ (inside branch member)
    refine .select (part s writable.1) fun v => ?_
    exact Expr.selectFrom_pruneBranches (D := fun f f' => Link.pruning.OrSame f env f' env' names)
      (by simp) bodies 0 0

theorem Link.pruning_lawful : Link.pruning.Lawful where
  quotable := by
    rintro e e' env env' names ⟨rfl, writable, _⟩
    rw [writable, Expr.quotable_prune e writable]
  node := by
    rintro e e' env env' names ⟨rfl, writable, shared⟩
    exact Or.inr (pruning_parallel writable shared)
  body := by
    rintro params body body' env env' names args args' ⟨same, writable, shared⟩ _ _
    rw [Expr.prune] at same
    obtain ⟨_, rfl⟩ := Expr.lambda.inj same
    rw [Expr.quotable] at writable
    exact Or.inr ⟨rfl, writable, fun x => Or.inr (shared x)⟩

/-- The values agree up to branches that functions lost, and are the same if no function holds code. -/
def Value.Pruned (v v' : Value) : Prop := v.Linked Link.pruning v' ∧ (v.codeFree = true → v' = v)

theorem prune_agrees {e : Expr} (writable : e.quotable = true) (env : Environment) (depth : Nat)
    (limit : Option Nat) (t : Tally) :
    (evaluate depth e env limit t).Related Value.Pruned (Fault.Linked Link.pruning)
      (Tally.InStep (Value.Linked Link.pruning) Eq) (evaluate depth e.prune env limit t) := by
  have code : Link.pruning.Code e env e.prune env :=
    ⟨fun _ => True, Or.inr ⟨rfl, writable, fun _ => trivial⟩, .refl _ env⟩
  refine (Link.pruning_lawful.evaluate_linked code depth limit t).imp ?_ fun _ _ fault => fault
  exact fun v v' linked => ⟨linked, (Value.linked_layered _).eq_of_codeFree linked⟩

/-! ### Exactness -/

/-- Some value selects a branch exactly if it is reachable, and some value selects none exactly if every
pattern is a literal. Pruning keeps the reachable branches and no others, and the pruned expression ends
alike, after the same steps. -/
theorem branches_exact :
    (∀ (branches : List Branch) (j : Nat),
      (∃ v body, selectBranch v branches = .ok (j, body)) ↔ Reachable branches j) ∧
    (∀ branches : List Branch, (∃ v, selectBranch v branches = .error (.eval (.noMatchingPattern v))) ↔
      ∀ branch ∈ branches, branch.1.isLiteral = true) ∧
    (∀ (scrutinee : Expr) (branches : List Branch), (Expr.select scrutinee branches).prune =
      .select scrutinee.prune ((branches.zipIdx.filter fun b => Reachable branches b.2).map
        fun b => (b.1.1, b.1.2.prune))) ∧
    ∀ (e : Expr), e.quotable = true →
      ∀ (env : Environment) (depth : Nat) (limit : Option Nat) (t : Tally),
        (evaluate depth e env limit t).Related Value.Pruned (Fault.Linked Link.pruning)
          (Tally.InStep (Value.Linked Link.pruning) Eq) (evaluate depth e.prune env limit t) := by
  refine ⟨?_, unmatched_iff_literals, Expr.prune_select, ?_⟩
  · exact fun branches j => (reachable_iff_selected branches j).symm
  · exact fun e writable env depth limit t => prune_agrees writable env depth limit t

/-- A float equals the integer before it, and nothing passes a branch that takes anything. -/
theorem branches_exact_shadowed :
    let one : Binary64 := .finite false (2 ^ 52) (-52) (by decide)
    let branches : List Branch := [(.literal (.int 1), .reference "x"), (.literal (.float one), .literal .nil),
      (.otherwise, .literal (.text "other")), (.reference "y", .reference "z")]
    let e : Expr := .application (.lambda ["x"] (.select (.reference "x") branches)) (.literal (.float one))
    e.quotable = true ∧
      ¬ (∃ v body, selectBranch v branches = .ok (1, body)) ∧
      (∃ v body, selectBranch v branches = .ok (2, body)) ∧
      e.prune = .application (.lambda ["x"] (.select (.reference "x")
        [(.literal (.int 1), .reference "x"), (.otherwise, .literal (.text "other"))]))
        (.literal (.float one)) ∧
      evaluate 4 e [] none {} = .done (.float one) { steps := 6, applications := 1, fresh := 2 } ∧
      (evaluate 4 e [] none {}).Related Value.Pruned (Fault.Linked Link.pruning)
        (Tally.InStep (Value.Linked Link.pruning) Eq) (evaluate 4 e.prune [] none {}) := by
  intro one branches e
  have writable : e.quotable = true := by decide +kernel
  refine ⟨writable, ?_, ?_, ?_, ?_, branches_exact.2.2.2 e writable [] 4 none {}⟩
  · rw [branches_exact.1]
    decide +kernel
  · rw [branches_exact.1]
    decide +kernel
  · rfl
  · rfl

end Unfurl
