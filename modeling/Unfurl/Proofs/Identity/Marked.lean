import Unfurl.Eval.Evaluate
import Unfurl.Proofs.Eval.Primitive
import Unfurl.Proofs.Overlay

/-! Functions and NaNs carry the mark of their creation; `marked` lists all that can be reached from a value. -/

namespace Unfurl

def Value.mark? : Value → Option Mark
  | .float (.nan m) => some m
  | .closure m _ _ _ => some m
  | .builtin m _ _ => some m
  | .unfolding m _ _ => some m
  | _ => none

mutual

def Value.marked : Value → List Value
  | .float (.nan m) => [.float (.nan m)]
  | .list items => Value.markedAll items
  | .closure m params body env => .closure m params body env :: (Expr.marked body ++ Value.markedEnv env)
  | .builtin m name op => [.builtin m name op]
  | .unfolding m fn env => .unfolding m fn env :: (Expr.marked fn ++ Value.markedEnv env)
  | _ => []

def Value.markedAll : List Value → List Value
  | [] => []
  | v :: rest => Value.marked v ++ Value.markedAll rest

def Value.markedEnv : List (Text × Value) → List Value
  | [] => []
  | (_, v) :: rest => Value.marked v ++ Value.markedEnv rest

def Expr.marked : Expr → List Value
  | .literal value => Value.marked value
  | .reference _ => []
  | .application f a => Expr.marked f ++ Expr.marked a
  | .vector elements => Expr.markedAll elements
  | .lambda _ body => Expr.marked body
  | .fix f => Expr.marked f
  | .select scrutinee branches => Expr.marked scrutinee ++ Expr.markedBranches branches

def Expr.markedAll : List Expr → List Value
  | [] => []
  | e :: rest => Expr.marked e ++ Expr.markedAll rest

def Expr.markedBranches : List (Pattern × Expr) → List Value
  | [] => []
  | (p, e) :: rest => Pattern.marked p ++ (Expr.marked e ++ Expr.markedBranches rest)

def Pattern.marked : Pattern → List Value
  | .literal value => Value.marked value
  | .reference _ => []
  | .otherwise => []

end

theorem Value.markedAll_eq (vs : List Value) : Value.markedAll vs = vs.flatMap Value.marked := by
  induction vs with
  | nil => rfl
  | cons v rest ih => simp [Value.markedAll, ih]

theorem Value.markedEnv_eq (env : Environment) :
    Value.markedEnv env = env.flatMap fun pair => pair.2.marked := by
  induction env with
  | nil => rfl
  | cons pair rest ih => simp [Value.markedEnv, ih]

theorem Expr.markedAll_eq (es : List Expr) : Expr.markedAll es = es.flatMap Expr.marked := by
  induction es with
  | nil => rfl
  | cons e rest ih => simp [Expr.markedAll, ih]

theorem Expr.markedBranches_eq (branches : List Branch) :
    Expr.markedBranches branches = branches.flatMap fun b => b.1.marked ++ b.2.marked := by
  induction branches with
  | nil => rfl
  | cons b rest ih => simp [Expr.markedBranches, ih]

def Fault.values : Fault → List Value
  | .eval (.notCallable v) => [v]
  | .eval (.noMatchingPattern v) => [v]
  | _ => []

theorem blame_values {cause : Value → EvalError} {v : Value} (causes : (Fault.eval (cause v)).values = [v]) :
    ∀ u ∈ (blame cause v).values, u = v := by
  unfold blame
  split
  · simp [causes]
  · simp [Fault.values]

/-! ### Marks -/

/-- The property holds of every mark among these values. -/
def EachMark (P : Mark → Prop) (us : List Value) : Prop := ∀ u ∈ us, ∀ m, u.mark? = some m → P m

instance (P : Mark → Prop) [DecidablePred P] (us : List Value) : Decidable (EachMark P us) :=
  inferInstanceAs (Decidable (∀ u ∈ us, ∀ m ∈ u.mark?, P m))

theorem eachMark_append {P : Mark → Prop} {us vs : List Value} :
    EachMark P (us ++ vs) ↔ EachMark P us ∧ EachMark P vs := List.forall_mem_append

theorem EachMark.imp {P Q : Mark → Prop} {us : List Value} (all : EachMark P us) (weaker : ∀ m, P m → Q m) :
    EachMark Q us := fun u member m mark => weaker m (all u member m mark)

theorem eachMark_cons {P : Mark → Prop} {u : Value} {us : List Value} {m : Mark} (mark : u.mark? = some m) :
    EachMark P (u :: us) ↔ P m ∧ EachMark P us := by
  simp [EachMark, mark]

/-! ### Environments -/

theorem mem_marked_set {env : Environment} {name : Text} {v u : Value}
    (member : u ∈ Value.markedEnv (Overlay.set env name v)) : u ∈ v.marked ∨ u ∈ Value.markedEnv env := by
  rw [Value.markedEnv_eq, List.mem_flatMap] at member ⊢
  obtain ⟨pair, bound, inside⟩ := member
  rcases Overlay.mem_set bound with rfl | old
  · exact Or.inl inside
  · exact Or.inr ⟨pair, old, inside⟩

theorem mem_marked_extend {env : Environment} {names : List Text} {args : List Value} {u : Value}
    (member : u ∈ Value.markedEnv (Overlay.extend env (names.zip args))) :
    u ∈ Value.markedAll args ∨ u ∈ Value.markedEnv env := by
  rw [Value.markedEnv_eq, List.mem_flatMap] at member
  rw [Value.markedAll_eq, Value.markedEnv_eq, List.mem_flatMap, List.mem_flatMap]
  obtain ⟨pair, bound, inside⟩ := member
  rcases Overlay.mem_extend bound with new | old
  · exact Or.inl ⟨pair.2, (List.of_mem_zip new).2, inside⟩
  · exact Or.inr ⟨pair, old, inside⟩

theorem mem_marked_get? {env : Environment} {name : Text} {v u : Value}
    (found : Overlay.get? env name = some v) (member : u ∈ v.marked) : u ∈ Value.markedEnv env := by
  rw [Value.markedEnv_eq, List.mem_flatMap]
  exact ⟨(name, v), Overlay.mem_of_get? found, member⟩

theorem markedAll_spread (v : Value) : Value.markedAll v.spread = v.marked := by
  cases v with
  | list items => rfl
  | _ => exact List.append_nil _

/-! ### Primitives -/

namespace Binary64

theorem ofParts_isNumber (s : Bool) (m : Nat) (q : Int) : (ofParts s m q).isNumber = true := by
  unfold ofParts
  split <;> rfl

theorem ofDyadic_isNumber (s : Bool) (n q : Int) : (ofDyadic s n q).isNumber = true := by
  unfold ofDyadic ofRatio
  split
  · rfl
  · split
    · rfl
    · dsimp only
      split <;> exact ofParts_isNumber _ _ _

theorem add_nan {mark k : Mark} {x y : Binary64} (nan : add mark x y = .nan k) : k = mark := by
  unfold add at nan
  split at nan
  · have number := congrArg isNumber nan
    dsimp only at number
    rw [ofDyadic_isNumber] at number
    cases number
  · split at nan
    · cases nan
    · cases nan
      rfl
  all_goals cases nan
  rfl

theorem mul_nan {mark k : Mark} {x y : Binary64} (nan : mul mark x y = .nan k) : k = mark := by
  unfold mul at nan
  split at nan
  · split at nan
    · cases nan
    · have number := congrArg isNumber nan
      rw [ofDyadic_isNumber] at number
      cases number
  · cases nan
  · split at nan <;> cases nan
    rfl
  · split at nan <;> cases nan
    rfl
  · cases nan
    rfl

end Binary64

namespace Primitive

variable {op : Primitive} {mark k : Mark} {args : List Value}

theorem arithmetic_nan {exact : Int → Int → Int} {rounded : Binary64 → Binary64 → Binary64}
    (marks : ∀ {x y k}, rounded x y = .nan k → k = mark)
    (ok : arithmetic op exact rounded args = .ok (.float (.nan k))) : k = mark := by
  unfold arithmetic at ok
  split at ok
  · cases ok
  · exact marks (Value.float.inj (Except.ok.inj ok))
  · rename_i a y
    cases h : toFloat a with
    | ok x =>
      rw [h] at ok
      exact marks (Value.float.inj (Except.ok.inj ok))
    | error e =>
      rw [h] at ok
      cases ok
  · rename_i x b
    cases h : toFloat b with
    | ok y =>
      rw [h] at ok
      exact marks (Value.float.inj (Except.ok.inj ok))
    | error e =>
      rw [h] at ok
      cases ok
  · cases ok

theorem result_nan (ok : op.result mark args = .ok (.float (.nan k))) :
    k = mark ∨ .float (.nan k) ∈ args ∨ ∃ items, .list items ∈ args ∧ .float (.nan k) ∈ items := by
  unfold Primitive.result at ok
  split at ok
  · cases ok
  · cases ok
    exact Or.inr (Or.inr ⟨_, List.mem_cons_self, List.mem_cons_self⟩)
  · cases ok
  · cases ok
    exact Or.inr (Or.inl List.mem_cons_self)
  · cases ok
  · rename_i flag a b
    have chosen := Except.ok.inj ok
    split at chosen
    · exact Or.inr (Or.inl (by simp [chosen]))
    · exact Or.inr (Or.inl (by simp [chosen]))
  · exact Or.inl (arithmetic_nan Binary64.add_nan ok)
  · exact Or.inl (arithmetic_nan Binary64.add_nan ok)
  · exact Or.inl (arithmetic_nan Binary64.mul_nan ok)
  · split at ok <;> cases ok
  · cases ok

theorem result_marked {v u : Value} (ok : op.result mark args = .ok v) (member : u ∈ v.marked) :
    u = .float (.nan mark) ∨ u ∈ Value.markedAll args := by
  rw [Value.markedAll_eq, List.mem_flatMap]
  cases result_built ok with
  | argument given => exact Or.inr ⟨v, given, member⟩
  | @item items _ given inside =>
    refine Or.inr ⟨.list items, given, ?_⟩
    rw [Value.marked, Value.markedAll_eq, List.mem_flatMap]
    exact ⟨v, inside, member⟩
  | @rest items first given =>
    refine Or.inr ⟨.list (first :: items), given, ?_⟩
    rw [Value.marked] at member ⊢
    exact List.mem_append_right _ member
  | all =>
    rw [Value.marked, Value.markedAll_eq, List.mem_flatMap] at member
    exact Or.inr member
  | bool | int => cases member
  | float y given =>
    cases y with
    | nan k =>
      obtain rfl := List.mem_singleton.mp member
      rcases result_nan ok with rfl | argument | ⟨items, argument, inside⟩
      · exact Or.inl rfl
      · exact Or.inr ⟨_, argument, List.mem_singleton.mpr rfl⟩
      · refine Or.inr ⟨_, argument, ?_⟩
        rw [Value.marked, Value.markedAll_eq, List.mem_flatMap]
        exact ⟨_, inside, List.mem_singleton.mpr rfl⟩
    | infinite | finite => cases member

end Primitive

end Unfurl
