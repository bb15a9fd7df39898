import Unfurl.Proofs.Scope.Link

namespace Unfurl

def Link.none : Link := fun _ _ _ _ _ => False

/-- Equal up to captured environments, which are alike on the free names of the captured code. -/
abbrev Value.Alike : Value → Value → Prop := Value.Linked Link.none

theorem Link.none_orSame {e e' : Expr} {env env' : Environment} {names : Text → Prop} :
    Link.none.OrSame e env e' env' names ↔ e' = e ∧ ∀ x ∈ e.free, names x := by
  simp [Link.OrSame, Link.none]

theorem Link.none_lawful : Link.none.Lawful := ⟨False.elim, False.elim, False.elim⟩

/-! ### Alike values -/

namespace Value

theorem alike_closure {m : Mark} {params : List Text} {body : Expr} {env : Environment} {v : Value} :
    (Value.closure m params body env).Alike v ↔ ∃ env', v = .closure m params body env' ∧
      ∀ x ∈ (Expr.lambda params body).free,
        Option.Rel Value.Alike (Overlay.get? env x) (Overlay.get? env' x) := by
  constructor
  · intro alike
    cases alike with
    | same => exact ⟨env, rfl, fun x _ => Environment.Linked.refl (fun _ => True) env x trivial⟩
    | @closure _ _ _ _ _ env' names code shared =>
      obtain ⟨same, free⟩ := Link.none_orSame.mp code
      cases same
      exact ⟨env', rfl, fun x member => shared x (free x member)⟩
  · rintro ⟨env', rfl, shared⟩
    exact .closure m params (Link.none_orSame.mpr ⟨rfl, fun _ member => member⟩) shared

theorem alike_unfolding {m : Mark} {fn : Expr} {env : Environment} {v : Value} :
    (Value.unfolding m fn env).Alike v ↔ ∃ env', v = .unfolding m fn env' ∧
      ∀ x ∈ (Expr.fix fn).free,
        Option.Rel Value.Alike (Overlay.get? env x) (Overlay.get? env' x) := by
  constructor
  · intro alike
    cases alike with
    | same => exact ⟨env, rfl, fun x _ => Environment.Linked.refl (fun _ => True) env x trivial⟩
    | @unfolding _ _ _ _ env' names code shared =>
      obtain ⟨same, free⟩ := Link.none_orSame.mp code
      cases same
      exact ⟨env', rfl, fun x member => shared x (free x member)⟩
  · rintro ⟨env', rfl, shared⟩
    exact .unfolding m (Link.none_orSame.mpr ⟨rfl, fun _ member => member⟩) shared

theorem quotedItems_congr {xs ys : List Value}
    (items : List.Forall₂ (fun x y => x.quoted = y.quoted) xs ys) : quotedItems xs = quotedItems ys := by
  induction items with
  | nil => rfl
  | cons head _ ih => rw [quotedItems, quotedItems, head, ih]

/-- A message shows no captured environment, so alike values cannot be told apart by it. -/
theorem quoted_alike {v v' : Value} (alike : v.Alike v') : v.quoted = v'.quoted := by
  refine (linked_layered Link.none).induct (P := fun v v' => v.quoted = v'.quoted) ?_ v alike
  intro v v' alike outer
  cases outer with
  | plain | builtin => rfl
  | list items =>
    have shown := quotedItems_congr (items.imp fun _ _ both => both.2)
    exact congrArg (fun shown : List Text => "GList(" ++ bracketed shown ++ ")") shown
  | closure m params =>
    obtain ⟨env', same, _⟩ := alike_closure.mp alike
    cases same
    rfl
  | unfolding m =>
    obtain ⟨env', same, _⟩ := alike_unfolding.mp alike
    cases same
    rfl

end Value

/-- The same error about alike values, in the same words. -/
def Fault.Alike (fault fault' : Fault) : Prop :=
  fault.Linked Link.none fault' ∧ fault.message = fault'.message

theorem Fault.alike_of_linked {fault fault' : Fault} (linked : fault.Linked Link.none fault') :
    fault.Alike fault' := by
  refine ⟨linked, ?_⟩
  cases linked with
  | same => rfl
  | notCallable alike => exact congrArg (("Not a function: " : Text) ++ ·) (Value.quoted_alike alike)
  | noMatchingPattern alike =>
    exact congrArg (("No matching pattern for value: " : Text) ++ ·) (Value.quoted_alike alike)

/-! ### Environments that agree on the free names -/

theorem Environment.linked_of_agree {e : Expr} {env₁ env₂ : Environment}
    (agree : ∀ x ∈ e.free, Overlay.get? env₁ x = Overlay.get? env₂ x) :
    Environment.Linked Link.none (· ∈ e.free) env₁ env₂ := by
  intro x member
  have here := Environment.Linked.refl (L := Link.none) (· ∈ e.free) env₁ x member
  rwa [agree x member] at here ⊢

/-- Names that are not free in the expression have no bearing on how its evaluation ends. -/
theorem lexical_scoping (e : Expr) (env₁ env₂ : Environment)
    (agree : ∀ x ∈ e.free, Overlay.get? env₁ x = Overlay.get? env₂ x) (depth : Nat)
    (limit : Option Nat) (t : Tally) :
    (evaluate depth e env₁ limit t).Related Value.Alike Fault.Alike (Tally.InStep Value.Alike Eq)
      (evaluate depth e env₂ limit t) := by
  have code : Link.none.Code e env₁ e env₂ :=
    ⟨(· ∈ e.free), Or.inl ⟨rfl, fun _ member => member⟩, Environment.linked_of_agree agree⟩
  refine (Link.none_lawful.evaluate_linked code depth limit t).imp (fun _ _ alike => alike) ?_
  exact fun _ _ linked => Fault.alike_of_linked linked

/-- The pattern `x` does not bind the `x` that the selected lambda captures. -/
theorem lexical_scoping_capture :
    let body : Expr := .vector [.reference "x", .reference "n"]
    let e : Expr := .select (.reference "n") [(.reference "x", .lambda ["n"] body)]
    let env₁ : Environment := [("n", .int 1), ("x", .int 2)]
    let env₂ : Environment := [("m", .nil), ("x", .int 2), ("n", .int 1)]
    (∀ x ∈ e.free, Overlay.get? env₁ x = Overlay.get? env₂ x) ∧
      evaluate 3 e env₁ none {} = .done (.closure 1 ["n"] body env₁) { steps := 3, fresh := 2 } ∧
      (evaluate 3 e env₁ none {}).Related Value.Alike Fault.Alike (Tally.InStep Value.Alike Eq)
        (evaluate 3 e env₂ none {}) := by
  intro body e env₁ env₂
  have agree : ∀ x ∈ e.free, Overlay.get? env₁ x = Overlay.get? env₂ x := by
    intro x member
    have either : x = "n" ∨ x = "x" := by
      simp [e, body, Expr.free, Expr.freeAll, Expr.freeBranches] at member
      tauto
    rcases either with rfl | rfl <;> rfl
  exact ⟨agree, rfl, lexical_scoping e env₁ env₂ agree 3 none {}⟩

end Unfurl
