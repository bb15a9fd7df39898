import Unfurl.Proofs.Scope.Link

namespace Unfurl

namespace Expr

mutual

/-- The expression with a literal for every free reference to the name. -/
def subst (x : Text) (v : Value) : Expr → Expr
  | .literal value => .literal value
  | .reference name => if name = x then .literal v else .reference name
  | .application f a => .application (subst x v f) (subst x v a)
  | .vector elements => .vector (substAll x v elements)
  | .lambda params body => .lambda params (if x ∈ params then body else subst x v body)
  | .fix f => .fix (subst x v f)
  | .select scrutinee branches => .select (subst x v scrutinee) (substBranches x v branches)

def substAll (x : Text) (v : Value) : List Expr → List Expr
  | [] => []
  | e :: rest => subst x v e :: substAll x v rest

def substBranches (x : Text) (v : Value) : List (Pattern × Expr) → List (Pattern × Expr)
  | [] => []
  | (p, body) :: rest => (p, subst x v body) :: substBranches x v rest

end

variable {x : Text} {v : Value}

theorem substAll_related {D : Expr → Expr → Prop} (inside : ∀ e, D e (e.subst x v))
    (elements : List Expr) : List.Forall₂ D elements (substAll x v elements) := by
  induction elements with
  | nil => exact .nil
  | cons e rest ih => exact .cons (inside e) ih

theorem substBranches_related {D : Expr → Expr → Prop} (inside : ∀ e, D e (e.subst x v))
    (branches : List Branch) :
    List.Forall₂ (BranchRel D) branches (substBranches x v branches) := by
  induction branches with
  | nil => exact .nil
  | cons branch rest ih => exact .cons ⟨rfl, inside branch.2⟩ ih

mutual

theorem quotable_subst (writable : v.quotable = true) :
    (e : Expr) → e.quotable = (e.subst x v).quotable
  | .literal _ => rfl
  | .reference name => by
    rw [subst]
    split
    · rw [quotable, quotable, writable]
    · rfl
  | .application f a => by
    rw [subst, quotable, quotable, quotable_subst writable f, quotable_subst writable a]
  | .vector elements => by
    rw [subst, quotable, quotable, allQuotable_subst writable elements]
  | .lambda params body => by
    rw [subst, quotable, quotable]
    split
    · rfl
    · exact quotable_subst writable body
  | .fix f => by
    rw [subst, quotable, quotable, quotable_subst writable f]
  | .select s branches => by
    rw [subst, quotable, quotable, quotable_subst writable s, branchesQuotable_subst writable branches]

theorem allQuotable_subst (writable : v.quotable = true) :
    (elements : List Expr) → allQuotable elements = allQuotable (substAll x v elements)
  | [] => rfl
  | e :: rest => by
    rw [substAll, allQuotable, allQuotable, quotable_subst writable e, allQuotable_subst writable rest]

theorem branchesQuotable_subst (writable : v.quotable = true) :
    (branches : List Branch) → branchesQuotable branches = branchesQuotable (substBranches x v branches)
  | [] => rfl
  | (p, body) :: rest => by
    rw [substBranches, branchesQuotable, branchesQuotable, quotable_subst writable body,
      branchesQuotable_subst writable rest]

end

end Expr

/-! ### Code and its substitution -/

/-- Code stands next to its substitution where the name is bound to the value. The environments share
every other name. -/
def Link.substitution (x : Text) (v : Value) : Link := fun e env e' _ names =>
  e' = e.subst x v ∧ Overlay.get? env x = some v ∧ ∀ y, y ≠ x → names y

variable {x : Text} {v : Value}

theorem Link.substitution_node {e e' : Expr} {env env' : Environment} {names : Text → Prop}
    (linked : Link.substitution x v e env e' env' names) :
    (∃ u, Reads env e u ∧ Reads env' e' u) ∨
      Expr.Parallel (fun f f' => (Link.substitution x v).OrSame f env f' env' names) names e e' := by
  obtain ⟨rfl, found, others⟩ := linked
  have inside : ∀ f : Expr, (Link.substitution x v).OrSame f env (f.subst x v) env' names :=
    fun f => Or.inr ⟨rfl, found, others⟩
  cases e with
  | reference name =>
    rw [Expr.subst]
    split
    · rename_i here
      exact Or.inl ⟨v, .reference (here ▸ found), .literal v⟩
    · rename_i other
      exact Or.inr (.reference (others name other))
  | literal u => exact Or.inr (.literal u)
  | application f a => exact Or.inr (.application (inside f) (inside a))
  | vector elements => exact Or.inr (.vector (Expr.substAll_related inside elements))
  | lambda params body => exact Or.inr (.lambda params body _)
  | fix f => exact Or.inr (.fix (inside f))
  | select s branches =>
    exact Or.inr (.branches (inside s) (Expr.substBranches_related inside branches))

theorem Link.substitution_body {params : List Text} {body body' : Expr} {env env' : Environment}
    {names : Text → Prop} {args args' : List Value}
    (linked : Link.substitution x v (.lambda params body) env (.lambda params body') env' names) :
    (Link.substitution x v).OrSame body (Overlay.extend env (params.zip args)) body'
      (Overlay.extend env' (params.zip args')) (fun y => y ∈ params ∨ names y) := by
  obtain ⟨same, found, others⟩ := linked
  rw [Expr.subst] at same
  obtain ⟨_, rfl⟩ := Expr.lambda.inj same
  by_cases bound : x ∈ params
  · -- The parameter shadows the name, so the body was left as it is.
    rw [if_pos bound]
    refine Or.inl ⟨rfl, fun y _ => ?_⟩
    by_cases here : y = x
    · exact Or.inl (here ▸ bound)
    · exact Or.inr (others y here)
  · rw [if_neg bound]
    refine Or.inr ⟨rfl, ?_, fun y other => Or.inr (others y other)⟩
    rw [Overlay.get?_extend_of_not_mem bound, found]

theorem Link.substitution_lawful (writable : v.quotable = true) : (Link.substitution x v).Lawful where
  quotable := by
    rintro e e' env env' names ⟨rfl, _, _⟩
    exact Expr.quotable_subst writable e
  node := substitution_node
  body := fun linked _ _ => substitution_body linked

/-! ### The two semantics -/

/-- The values correspond under the substitution, and are the same if no function in them holds code. -/
def Value.Substituted (x : Text) (v u u' : Value) : Prop :=
  u.Linked (Link.substitution x v) u' ∧ (u.codeFree = true → u' = u)

def Fault.codeFree : Fault → Bool
  | .eval (.notCallable u) => u.codeFree
  | .eval (.noMatchingPattern u) => u.codeFree
  | _ => true

/-- The same failure about corresponding values, in the same words unless these show a function body. -/
def Fault.Substituted (x : Text) (v : Value) (fault fault' : Fault) : Prop :=
  fault.Linked (Link.substitution x v) fault' ∧ (fault.codeFree = true → fault'.message = fault.message)

theorem Value.substituted_of_linked {u u' : Value} (linked : u.Linked (Link.substitution x v) u') :
    Value.Substituted x v u u' :=
  ⟨linked, (Value.linked_layered _).eq_of_codeFree linked⟩

theorem Fault.substituted_of_linked {fault fault' : Fault}
    (linked : fault.Linked (Link.substitution x v) fault') : Fault.Substituted x v fault fault' := by
  refine ⟨linked, fun free => ?_⟩
  cases linked with
  | same => rfl
  | notCallable inside => rw [(Value.linked_layered _).eq_of_codeFree inside free]
  | noMatchingPattern inside => rw [(Value.linked_layered _).eq_of_codeFree inside free]

theorem substitution_code (e : Expr) (x : Text) (v : Value) (env : Environment) :
    (Link.substitution x v).Code e (Overlay.set env x v) (e.subst x v) env := by
  refine ⟨(· ≠ x), Or.inr ⟨rfl, ?_, fun _ other => other⟩, fun y other => ?_⟩
  · rw [Overlay.get?_set, if_pos rfl]
  · rw [Overlay.get?_set, if_neg (Ne.symm other)]
    exact Environment.Linked.refl (fun _ => True) env y trivial

/-- Binding the name and substituting for it end alike, at every depth and under every limit. -/
theorem substitution_agrees (e : Expr) (x : Text) (v : Value) (writable : v.quotable = true)
    (env : Environment) (depth : Nat) (limit : Option Nat) (t : Tally) :
    (evaluate depth e (Overlay.set env x v) limit t).Related (Value.Substituted x v)
      (Fault.Substituted x v) (Tally.InStep (Value.Linked (Link.substitution x v)) Eq)
      (evaluate depth (e.subst x v) env limit t) := by
  have linked := (Link.substitution_lawful writable).evaluate_linked (substitution_code e x v env)
    depth limit t
  refine linked.imp ?_ ?_
  · exact fun _ _ value => Value.substituted_of_linked value
  · exact fun _ _ fault => Fault.substituted_of_linked fault

/-- The inner lambda binds the name again, so only the reference outside it is replaced. -/
theorem substitution_agrees_shadowed :
    let inner : Expr := .application (.lambda ["x"] (.reference "x")) (.reference "y")
    let e : Expr := .application (.lambda ["y"] (.vector [.reference "x", inner])) (.literal (.int 1))
    let env : Environment := [("y", .nil)]
    (Value.int 7).quotable = true ∧
      e.subst "x" (.int 7) =
        .application (.lambda ["y"] (.vector [.literal (.int 7), inner])) (.literal (.int 1)) ∧
      evaluate 6 e (Overlay.set env "x" (.int 7)) none {} =
        .done (.list [.int 7, .int 1]) { steps := 9, applications := 2, fresh := 3 } ∧
      (evaluate 6 e (Overlay.set env "x" (.int 7)) none {}).Related (Value.Substituted "x" (.int 7))
        (Fault.Substituted "x" (.int 7))
        (Tally.InStep (Value.Linked (Link.substitution "x" (.int 7))) Eq)
        (evaluate 6 (e.subst "x" (.int 7)) env none {}) := by
  intro inner e env
  have short : 7 < Numeral.bound :=
    Nat.lt_of_lt_of_le (by decide) (Nat.pow_le_pow_right (by decide) (by decide : 1 ≤ 4300))
  have writable : (Value.int 7).quotable = true := by
    simpa [Value.quotable, Json.writableInt] using short
  refine ⟨writable, ?_, ?_, substitution_agrees e "x" (.int 7) writable env 6 none {}⟩
  · simp [e, inner, Expr.subst, Expr.substAll]
  · simp [e, inner, env, evaluate_succ, apply_succ, unfurl, invoke, Run.bind, Run.tick, Run.count,
      Run.freshMark, Run.pure, Run.each, resolve, Environment.lookup, Overlay.extend, Overlay.set,
      Overlay.get?, Value.spread]

end Unfurl
