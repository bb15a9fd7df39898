import Mathlib.Data.Fintype.EquivFin
import Mathlib.Data.Fintype.List
import Unfurl.Proofs.Eval.Adequacy
import Unfurl.Proofs.Term.Equality

/-! A literal selects its own branch; where anything is accepted, a text that no literal before it equals does. -/

namespace Unfurl

def Pattern.isLiteral : Pattern → Bool
  | .literal _ => true
  | _ => false

/-- Whatever the second pattern accepts, the first accepts. -/
def Pattern.covers : Pattern → Pattern → Bool
  | .literal u, .literal w => w.same false u
  | .literal _, _ => false
  | _, _ => true

theorem Pattern.accepts_of_covers {p q : Pattern} {v : Value} (covers : q.covers p = true)
    (accepted : p.accepts v = true) : q.accepts v = true := by
  cases q with
  | reference | otherwise => rfl
  | literal u =>
    cases p with
    | reference | otherwise => cases covers
    | literal w =>
      rw [accepts, Value.quickSame_eq] at accepted ⊢
      exact Value.same_trans accepted covers

theorem Pattern.isLiteral_of_uncovered {p q : Pattern} (uncovered : q.covers p = false) :
    q.isLiteral = true := by
  cases q with
  | literal => rfl
  | reference | otherwise => cases uncovered

/-! ### Values for a branch -/

def Pattern.text? : Pattern → Option Text
  | .literal (.text s) => some s
  | _ => none

theorem exists_text_apart (patterns : List Pattern) (literals : ∀ q ∈ patterns, q.isLiteral = true) :
    ∃ s : Text, ∀ q ∈ patterns, q.accepts (.text s) = false := by
  obtain ⟨s, fresh⟩ := Infinite.exists_notMem_finset (patterns.filterMap Pattern.text?).toFinset
  refine ⟨s, fun q member => ?_⟩
  cases q with
  | reference | otherwise => cases literals _ member
  | literal u =>
    rw [Pattern.accepts, Value.quickSame_eq]
    cases u with
    | text s' =>
      have written : s' ∈ patterns.filterMap Pattern.text? := List.mem_filterMap.mpr ⟨_, member, rfl⟩
      have other : s ≠ s' := by
        rintro rfl
        exact fresh (List.mem_toFinset.mpr written)
      simpa [Value.same] using other
    | _ => rfl

theorem Pattern.exists_accepted {p : Pattern} {earlier : List Pattern}
    (uncovered : ∀ q ∈ earlier, q.covers p = false) :
    ∃ v, p.accepts v = true ∧ ∀ q ∈ earlier, q.accepts v = false := by
  cases p with
  | literal w =>
    refine ⟨w, ?_, fun q member => ?_⟩
    · rw [accepts, Value.quickSame_eq]
      exact Value.same_refl false w
    · have apart := uncovered q member
      cases q with
      | reference | otherwise => cases apart
      | literal u =>
        rw [accepts, Value.quickSame_eq]
        exact apart
  | reference | otherwise =>
    have literals : ∀ q ∈ earlier, q.isLiteral = true :=
      fun q member => isLiteral_of_uncovered (uncovered q member)
    obtain ⟨s, apart⟩ := exists_text_apart earlier literals
    exact ⟨.text s, rfl, apart⟩

/-! ### Reachable branches -/

/-- There is a branch at this index, and no pattern before its own covers it. -/
def Reachable (branches : List Branch) (j : Nat) : Prop :=
  ∃ branch, branches[j]? = some branch ∧ ∀ earlier ∈ branches.take j, earlier.1.covers branch.1 = false

instance (branches : List Branch) (j : Nat) : Decidable (Reachable branches j) :=
  match place : branches[j]? with
  | none => isFalse (by simp [Reachable, place])
  | some branch =>
    decidable_of_iff (∀ earlier ∈ branches.take j, earlier.1.covers branch.1 = false)
      (by simp [Reachable, place])

theorem selectBranch_ok {v : Value} {branches : List Branch} {j : Nat} {body : Expr}
    (selected : selectBranch v branches = .ok (j, body)) :
    ∃ p, branches[j]? = some (p, body) ∧ p.accepts v = true ∧
      ∀ earlier ∈ branches.take j, earlier.1.accepts v = false := by
  unfold selectBranch at selected
  cases found : selectFrom 0 v branches with
  | none =>
    rw [found] at selected
    cases selected
  | some pair =>
    rw [found] at selected
    cases selected
    obtain ⟨before, p, after, rfl, refused, accepted⟩ := selectFrom_some found
    have here : selectBranch v (before ++ (p, body) :: after) = .ok (before.length, body) :=
      selectBranch_accepted refused accepted
    rw [selectBranch, found] at here
    cases here
    exact ⟨p, by simp, accepted, by simpa using refused⟩

theorem reachable_iff_selected (branches : List Branch) (j : Nat) :
    Reachable branches j ↔ ∃ v body, selectBranch v branches = .ok (j, body) := by
  constructor
  · rintro ⟨⟨p, body⟩, place, uncovered⟩
    have patterns : ∀ q ∈ (branches.take j).map Prod.fst, q.covers p = false := by
      rw [List.forall_mem_map]
      exact uncovered
    obtain ⟨v, accepted, refused⟩ := Pattern.exists_accepted patterns
    have before : ∀ earlier ∈ branches.take j, earlier.1.accepts v = false :=
      fun earlier member => refused _ (List.mem_map_of_mem member)
    obtain ⟨bound, here⟩ := List.getElem?_eq_some_iff.mp place
    have split : branches = branches.take j ++ (p, body) :: branches.drop (j + 1) := by
      rw [← here, List.getElem_cons_drop, List.take_append_drop]
    refine ⟨v, body, ?_⟩
    rw [split, selectBranch_accepted before accepted, List.length_take_of_le (Nat.le_of_lt bound)]
  · rintro ⟨v, body, selected⟩
    obtain ⟨p, place, accepted, refused⟩ := selectBranch_ok selected
    refine ⟨(p, body), place, fun earlier member => ?_⟩
    rw [Bool.eq_false_iff]
    intro covers
    have taken := Pattern.accepts_of_covers covers accepted
    rw [refused earlier member] at taken
    cases taken

theorem Pattern.isLiteral_of_refuses {p : Pattern} {v : Value} (refused : p.accepts v = false) :
    p.isLiteral = true := by
  cases p with
  | literal => rfl
  | reference | otherwise => cases refused

theorem unmatched_iff_literals (branches : List Branch) :
    (∃ v, selectBranch v branches = .error (.eval (.noMatchingPattern v))) ↔
      ∀ branch ∈ branches, branch.1.isLiteral = true := by
  constructor
  · rintro ⟨v, failed⟩ branch member
    unfold selectBranch at failed
    cases found : selectFrom 0 v branches with
    | none => exact Pattern.isLiteral_of_refuses (selectFrom_none found branch member)
    | some pair =>
      rw [found] at failed
      cases failed
  · intro literals
    obtain ⟨s, apart⟩ := exists_text_apart (branches.map Prod.fst) (List.forall_mem_map.mpr literals)
    exact ⟨.text s, selectBranch_refused (List.forall_mem_map.mp apart)⟩

end Unfurl
