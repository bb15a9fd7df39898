import Unfurl.Proofs.Identity.Marked

/-! An injective renaming of marks cannot be noticed from within the language (`result_rename`). -/

namespace Unfurl

variable {ρ σ τ : Mark → Mark}

def Binary64.rename (ρ : Mark → Mark) : Binary64 → Binary64
  | .nan m => .nan (ρ m)
  | .infinite s => .infinite s
  | .finite s m q canonical => .finite s m q canonical

mutual

def Value.rename (ρ : Mark → Mark) : Value → Value
  | .nil => .nil
  | .bool b => .bool b
  | .int n => .int n
  | .float x => .float (x.rename ρ)
  | .text s => .text s
  | .symbol name => .symbol name
  | .list items => .list (Value.renameAll ρ items)
  | .closure m params body env => .closure (ρ m) params (Expr.rename ρ body) (Value.renameEnv ρ env)
  | .builtin m name op => .builtin (ρ m) name op
  | .unfolding m fn env => .unfolding (ρ m) (Expr.rename ρ fn) (Value.renameEnv ρ env)

def Value.renameAll (ρ : Mark → Mark) : List Value → List Value
  | [] => []
  | v :: rest => Value.rename ρ v :: Value.renameAll ρ rest

def Value.renameEnv (ρ : Mark → Mark) : List (Text × Value) → List (Text × Value)
  | [] => []
  | (name, v) :: rest => (name, Value.rename ρ v) :: Value.renameEnv ρ rest

def Expr.rename (ρ : Mark → Mark) : Expr → Expr
  | .literal value => .literal (Value.rename ρ value)
  | .reference name => .reference name
  | .application f a => .application (Expr.rename ρ f) (Expr.rename ρ a)
  | .vector elements => .vector (Expr.renameAll ρ elements)
  | .lambda params body => .lambda params (Expr.rename ρ body)
  | .fix f => .fix (Expr.rename ρ f)
  | .select scrutinee branches => .select (Expr.rename ρ scrutinee) (Expr.renameBranches ρ branches)

def Expr.renameAll (ρ : Mark → Mark) : List Expr → List Expr
  | [] => []
  | e :: rest => Expr.rename ρ e :: Expr.renameAll ρ rest

def Expr.renameBranches (ρ : Mark → Mark) : List (Pattern × Expr) → List (Pattern × Expr)
  | [] => []
  | (p, e) :: rest => (Pattern.rename ρ p, Expr.rename ρ e) :: Expr.renameBranches ρ rest

def Pattern.rename (ρ : Mark → Mark) : Pattern → Pattern
  | .literal value => .literal (Value.rename ρ value)
  | .reference name => .reference name
  | .otherwise => .otherwise

end

theorem Value.renameAll_eq (vs : List Value) : Value.renameAll ρ vs = vs.map (Value.rename ρ) := by
  induction vs with
  | nil => rfl
  | cons v rest ih => simp [Value.renameAll, ih]

theorem Expr.renameAll_eq (es : List Expr) : Expr.renameAll ρ es = es.map (Expr.rename ρ) := by
  induction es with
  | nil => rfl
  | cons e rest ih => simp [Expr.renameAll, ih]

/-! ### Renamings that agree -/

mutual

/-- One renaming after another is a third if they do the same to every mark that occurs. -/
theorem Value.rename_rename : (v : Value) → EachMark (fun m => σ (ρ m) = τ m) v.marked →
    (v.rename ρ).rename σ = v.rename τ
  | .nil, _ | .bool _, _ | .int _, _ | .text _, _ | .symbol _, _ => rfl
  | .float (.nan m), agree => by
    simp only [Value.rename, Binary64.rename, ((eachMark_cons rfl).mp agree).1]
  | .float (.infinite _), _ | .float (.finite ..), _ => rfl
  | .list items, agree => by simp only [Value.rename, Value.renameAll_renameAll items agree]
  | .closure m params body env, agree => by
    obtain ⟨here, inside⟩ := (eachMark_cons rfl).mp agree
    obtain ⟨code, captured⟩ := eachMark_append.mp inside
    simp only [Value.rename, here, Expr.rename_rename body code, Value.renameEnv_renameEnv env captured]
  | .builtin m name op, agree => by simp only [Value.rename, ((eachMark_cons rfl).mp agree).1]
  | .unfolding m fn env, agree => by
    obtain ⟨here, inside⟩ := (eachMark_cons rfl).mp agree
    obtain ⟨code, captured⟩ := eachMark_append.mp inside
    simp only [Value.rename, here, Expr.rename_rename fn code, Value.renameEnv_renameEnv env captured]

theorem Value.renameAll_renameAll : (vs : List Value) →
    EachMark (fun m => σ (ρ m) = τ m) (Value.markedAll vs) →
    Value.renameAll σ (Value.renameAll ρ vs) = Value.renameAll τ vs
  | [], _ => rfl
  | v :: rest, agree => by
    obtain ⟨here, later⟩ := eachMark_append.mp agree
    simp only [Value.renameAll, Value.rename_rename v here, Value.renameAll_renameAll rest later]

theorem Value.renameEnv_renameEnv : (env : List (Text × Value)) →
    EachMark (fun m => σ (ρ m) = τ m) (Value.markedEnv env) →
    Value.renameEnv σ (Value.renameEnv ρ env) = Value.renameEnv τ env
  | [], _ => rfl
  | (name, v) :: rest, agree => by
    obtain ⟨here, later⟩ := eachMark_append.mp agree
    simp only [Value.renameEnv, Value.rename_rename v here, Value.renameEnv_renameEnv rest later]

theorem Expr.rename_rename : (e : Expr) → EachMark (fun m => σ (ρ m) = τ m) e.marked →
    (e.rename ρ).rename σ = e.rename τ
  | .literal v, agree => by simp only [Expr.rename, Value.rename_rename v agree]
  | .reference _, _ => rfl
  | .application f a, agree => by
    obtain ⟨fn, arg⟩ := eachMark_append.mp agree
    simp only [Expr.rename, Expr.rename_rename f fn, Expr.rename_rename a arg]
  | .vector elements, agree => by simp only [Expr.rename, Expr.renameAll_renameAll elements agree]
  | .lambda _ body, agree => by simp only [Expr.rename, Expr.rename_rename body agree]
  | .fix f, agree => by simp only [Expr.rename, Expr.rename_rename f agree]
  | .select s branches, agree => by
    obtain ⟨scrutinee, bodies⟩ := eachMark_append.mp agree
    simp only [Expr.rename, Expr.rename_rename s scrutinee,
      Expr.renameBranches_renameBranches branches bodies]

theorem Expr.renameAll_renameAll : (es : List Expr) →
    EachMark (fun m => σ (ρ m) = τ m) (Expr.markedAll es) →
    Expr.renameAll σ (Expr.renameAll ρ es) = Expr.renameAll τ es
  | [], _ => rfl
  | e :: rest, agree => by
    obtain ⟨here, later⟩ := eachMark_append.mp agree
    simp only [Expr.renameAll, Expr.rename_rename e here, Expr.renameAll_renameAll rest later]

theorem Expr.renameBranches_renameBranches : (branches : List (Pattern × Expr)) →
    EachMark (fun m => σ (ρ m) = τ m) (Expr.markedBranches branches) →
    Expr.renameBranches σ (Expr.renameBranches ρ branches) = Expr.renameBranches τ branches
  | [], _ => rfl
  | (p, e) :: rest, agree => by
    obtain ⟨pattern, others⟩ := eachMark_append.mp agree
    obtain ⟨body, later⟩ := eachMark_append.mp others
    simp only [Expr.renameBranches, Pattern.rename_rename p pattern, Expr.rename_rename e body,
      Expr.renameBranches_renameBranches rest later]

theorem Pattern.rename_rename : (p : Pattern) → EachMark (fun m => σ (ρ m) = τ m) p.marked →
    (p.rename ρ).rename σ = p.rename τ
  | .literal v, agree => by simp only [Pattern.rename, Value.rename_rename v agree]
  | .reference _, _ | .otherwise, _ => rfl

end

mutual

theorem Value.rename_id : (v : Value) → v.rename id = v
  | .nil | .bool _ | .int _ | .text _ | .symbol _ | .builtin .. => rfl
  | .float (.nan _) | .float (.infinite _) | .float (.finite ..) => rfl
  | .list items => by simp only [Value.rename, Value.renameAll_id items]
  | .closure m params body env => by
    simp only [Value.rename, id, Expr.rename_id body, Value.renameEnv_id env]
  | .unfolding m fn env => by simp only [Value.rename, id, Expr.rename_id fn, Value.renameEnv_id env]

theorem Value.renameAll_id : (vs : List Value) → Value.renameAll id vs = vs
  | [] => rfl
  | v :: rest => by simp only [Value.renameAll, Value.rename_id v, Value.renameAll_id rest]

theorem Value.renameEnv_id : (env : List (Text × Value)) → Value.renameEnv id env = env
  | [] => rfl
  | (name, v) :: rest => by simp only [Value.renameEnv, Value.rename_id v, Value.renameEnv_id rest]

theorem Expr.rename_id : (e : Expr) → e.rename id = e
  | .literal v => by simp only [Expr.rename, Value.rename_id v]
  | .reference _ => rfl
  | .application f a => by simp only [Expr.rename, Expr.rename_id f, Expr.rename_id a]
  | .vector elements => by simp only [Expr.rename, Expr.renameAll_id elements]
  | .lambda _ body => by simp only [Expr.rename, Expr.rename_id body]
  | .fix f => by simp only [Expr.rename, Expr.rename_id f]
  | .select s branches => by simp only [Expr.rename, Expr.rename_id s, Expr.renameBranches_id branches]

theorem Expr.renameAll_id : (es : List Expr) → Expr.renameAll id es = es
  | [] => rfl
  | e :: rest => by simp only [Expr.renameAll, Expr.rename_id e, Expr.renameAll_id rest]

theorem Expr.renameBranches_id : (branches : List (Pattern × Expr)) → Expr.renameBranches id branches = branches
  | [] => rfl
  | (p, e) :: rest => by
    simp only [Expr.renameBranches, Pattern.rename_id p, Expr.rename_id e, Expr.renameBranches_id rest]

theorem Pattern.rename_id : (p : Pattern) → p.rename id = p
  | .literal v => by simp only [Pattern.rename, Value.rename_id v]
  | .reference _ | .otherwise => rfl

end

theorem Value.rename_eq_self {v : Value} (fixed : EachMark (fun m => ρ m = m) v.marked) : v.rename ρ = v := by
  have both := Value.rename_rename (ρ := id) (σ := ρ) (τ := id) v fixed
  rwa [Value.rename_id] at both

theorem Value.renameAll_eq_self {vs : List Value} (fixed : EachMark (fun m => ρ m = m) (Value.markedAll vs)) :
    Value.renameAll ρ vs = vs := by
  have both := Value.renameAll_renameAll (ρ := id) (σ := ρ) (τ := id) vs fixed
  rwa [Value.renameAll_id] at both

theorem Value.renameEnv_eq_self {env : Environment}
    (fixed : EachMark (fun m => ρ m = m) (Value.markedEnv env)) : Value.renameEnv ρ env = env := by
  have both := Value.renameEnv_renameEnv (ρ := id) (σ := ρ) (τ := id) env fixed
  rwa [Value.renameEnv_id] at both

theorem Value.renameEnv_congr {env : Environment} (agree : EachMark (fun m => ρ m = σ m) (Value.markedEnv env)) :
    Value.renameEnv ρ env = Value.renameEnv σ env := by
  have both := Value.renameEnv_renameEnv (ρ := id) (σ := ρ) (τ := σ) env agree
  rwa [Value.renameEnv_id] at both

theorem Expr.rename_eq_self {e : Expr} (fixed : EachMark (fun m => ρ m = m) e.marked) : e.rename ρ = e := by
  have both := Expr.rename_rename (ρ := id) (σ := ρ) (τ := id) e fixed
  rwa [Expr.rename_id] at both

theorem Value.rename_cancel {v : Value} (back : EachMark (fun m => σ (ρ m) = m) v.marked) :
    (v.rename ρ).rename σ = v := (Value.rename_rename (τ := id) v back).trans (Value.rename_id v)

/-! ### Environments -/

theorem get?_renameEnv (env : Environment) (name : Text) :
    Overlay.get? (Value.renameEnv ρ env) name = (Overlay.get? env name).map (Value.rename ρ) := by
  induction env with
  | nil => rfl
  | cons pair rest ih =>
    simp only [Value.renameEnv, Overlay.get?]
    split
    · rfl
    · exact ih

theorem set_renameEnv (env : Environment) (name : Text) (v : Value) :
    Overlay.set (Value.renameEnv ρ env) name (v.rename ρ) = Value.renameEnv ρ (Overlay.set env name v) := by
  induction env with
  | nil => rfl
  | cons pair rest ih =>
    simp only [Value.renameEnv, Overlay.set]
    split
    · rfl
    · rw [ih, Value.renameEnv]

theorem extend_renameEnv (env : Environment) (names : List Text) (args : List Value) :
    Overlay.extend (Value.renameEnv ρ env) (names.zip (Value.renameAll ρ args)) =
      Value.renameEnv ρ (Overlay.extend env (names.zip args)) := by
  induction names generalizing env args with
  | nil => rfl
  | cons name rest ih =>
    cases args with
    | nil => rfl
    | cons v others =>
      simp only [Value.renameAll, List.zip_cons_cons, Overlay.extend_cons, set_renameEnv, ih]

/-! ### What a renaming leaves as it is -/

theorem Binary64.extended?_rename (x : Binary64) : (x.rename ρ).extended? = x.extended? := by
  cases x <;> rfl

theorem Binary64.isInt_rename (x : Binary64) (n : Int) : (x.rename ρ).isInt n = x.isInt n := by
  simp only [Binary64.isInt, Binary64.extended?_rename]

theorem Value.isNumber_rename (v : Value) : (v.rename ρ).isNumber = v.isNumber := by cases v <;> rfl

theorem Value.extended?_rename (v : Value) : (v.rename ρ).extended? = v.extended? := by
  cases v with
  | float x => exact Binary64.extended?_rename x
  | _ => rfl

theorem Value.atMost_rename (a b : Value) : (a.rename ρ).atMost (b.rename ρ) = a.atMost b := by
  simp only [Value.atMost, Value.extended?_rename]

theorem Value.spread_rename (v : Value) : (v.rename ρ).spread = Value.renameAll ρ v.spread := by
  cases v <;> rfl

mutual

theorem Value.quotable_rename : (v : Value) → (v.rename ρ).quotable = v.quotable
  | .nil | .bool _ | .int _ | .float _ | .text _ | .symbol _ | .builtin .. => rfl
  | .list items => by simp only [Value.rename, Value.quotable, Value.allQuotable_rename items]
  | .closure _ _ body _ => by simp only [Value.rename, Value.quotable, Expr.quotable_rename body]
  | .unfolding _ fn _ => by simp only [Value.rename, Value.quotable, Expr.quotable_rename fn]

theorem Value.allQuotable_rename : (vs : List Value) →
    Value.allQuotable (Value.renameAll ρ vs) = Value.allQuotable vs
  | [] => rfl
  | v :: rest => by
    simp only [Value.renameAll, Value.allQuotable, Value.quotable_rename v, Value.allQuotable_rename rest]

theorem Expr.quotable_rename : (e : Expr) → (e.rename ρ).quotable = e.quotable
  | .literal v => by simp only [Expr.rename, Expr.quotable, Value.quotable_rename v]
  | .reference _ => rfl
  | .application f a => by
    simp only [Expr.rename, Expr.quotable, Expr.quotable_rename f, Expr.quotable_rename a]
  | .vector elements => by simp only [Expr.rename, Expr.quotable, Expr.allQuotable_rename elements]
  | .lambda _ body => by simp only [Expr.rename, Expr.quotable, Expr.quotable_rename body]
  | .fix f => by simp only [Expr.rename, Expr.quotable, Expr.quotable_rename f]
  | .select s branches => by
    simp only [Expr.rename, Expr.quotable, Expr.quotable_rename s, Expr.branchesQuotable_rename branches]

theorem Expr.allQuotable_rename : (es : List Expr) →
    Expr.allQuotable (Expr.renameAll ρ es) = Expr.allQuotable es
  | [] => rfl
  | e :: rest => by
    simp only [Expr.renameAll, Expr.allQuotable, Expr.quotable_rename e, Expr.allQuotable_rename rest]

theorem Expr.branchesQuotable_rename : (branches : List (Pattern × Expr)) →
    Expr.branchesQuotable (Expr.renameBranches ρ branches) = Expr.branchesQuotable branches
  | [] => rfl
  | (p, e) :: rest => by
    simp only [Expr.renameBranches, Expr.branchesQuotable, Pattern.quotable_rename p, Expr.quotable_rename e,
      Expr.branchesQuotable_rename rest]

theorem Pattern.quotable_rename : (p : Pattern) → (p.rename ρ).quotable = p.quotable
  | .literal v => by simp only [Pattern.rename, Pattern.quotable, Value.quotable_rename v]
  | .reference _ | .otherwise => rfl

end

/-! ### Equality -/

theorem Binary64.same_rename (injective : Function.Injective ρ) (x y : Binary64) :
    (x.rename ρ).same (y.rename ρ) = x.same y := by
  cases x <;> cases y <;> simp [Binary64.rename, Binary64.same, Binary64.extended?, injective.eq_iff]

mutual

theorem Value.same_rename (injective : Function.Injective ρ) (strict : Bool) : (a b : Value) →
    (a.rename ρ).same strict (b.rename ρ) = a.same strict b
  | .list xs, b => by
    cases b with
    | list ys => simp only [Value.rename, Value.same, Value.sameItems_rename injective strict xs ys]
    | _ => rfl
  | .float x, b => by
    cases b with
    | float y => simp only [Value.rename, Value.same, Binary64.same_rename injective x y]
    | int n => simp only [Value.rename, Value.same, Binary64.isInt_rename]
    | _ => rfl
  | .int n, b => by
    cases b with
    | float y => simp only [Value.rename, Value.same, Binary64.isInt_rename]
    | _ => rfl
  | .closure m _ _ _, b => by cases b <;> simp [Value.rename, Value.same, injective.eq_iff]
  | .builtin m _ _, b => by cases b <;> simp [Value.rename, Value.same, injective.eq_iff]
  | .unfolding m _ _, b => by cases b <;> simp [Value.rename, Value.same, injective.eq_iff]
  | .nil, b | .bool _, b | .text _, b | .symbol _, b => by cases b <;> rfl

theorem Value.sameItems_rename (injective : Function.Injective ρ) (strict : Bool) : (xs ys : List Value) →
    Value.sameItems strict (Value.renameAll ρ xs) (Value.renameAll ρ ys) = Value.sameItems strict xs ys
  | [], [] => rfl
  | [], _ :: _ => rfl
  | _ :: _, [] => rfl
  | x :: xs, y :: ys => by
    simp only [Value.renameAll, Value.sameItems, Value.same_rename injective strict x y,
      Value.sameItems_rename injective strict xs ys]

end

theorem Pattern.accepts_rename (injective : Function.Injective ρ) (p : Pattern) (v : Value) :
    (p.rename ρ).accepts (v.rename ρ) = p.accepts v := by
  cases p with
  | literal expected => simp [Pattern.rename, Pattern.accepts, Value.same_rename injective]
  | _ => rfl

theorem selectFrom_rename (injective : Function.Injective ρ) (index : Nat) (v : Value) (branches : List Branch) :
    selectFrom index (v.rename ρ) (Expr.renameBranches ρ branches) =
      (selectFrom index v branches).map fun found => (found.1, found.2.rename ρ) := by
  induction branches generalizing index with
  | nil => rfl
  | cons branch rest ih =>
    simp only [Expr.renameBranches, selectFrom, Pattern.accepts_rename injective]
    split
    · rfl
    · exact ih (index + 1)

/-! ### Primitives -/

namespace Binary64

theorem rename_of_isNumber {x : Binary64} (number : x.isNumber = true) : x.rename ρ = x := by
  cases x with
  | nan m => cases number
  | _ => rfl

theorem neg_rename (x : Binary64) : (x.rename ρ).neg = x.neg.rename ρ := by cases x <;> rfl

theorem add_rename (mark : Mark) (x y : Binary64) :
    add (ρ mark) (x.rename ρ) (y.rename ρ) = (add mark x y).rename ρ := by
  cases x with
  | nan m => cases y <;> rfl
  | infinite s =>
    cases y with
    | infinite t =>
      simp only [Binary64.rename, add]
      split <;> rfl
    | _ => rfl
  | finite s m p h =>
    cases y with
    | finite t n q h' => exact (rename_of_isNumber (ofDyadic_isNumber _ _ _)).symm
    | _ => rfl

theorem sub_rename (mark : Mark) (x y : Binary64) :
    sub (ρ mark) (x.rename ρ) (y.rename ρ) = (sub mark x y).rename ρ := by
  rw [sub, neg_rename]
  exact add_rename mark x y.neg

theorem mul_rename (mark : Mark) (x y : Binary64) :
    mul (ρ mark) (x.rename ρ) (y.rename ρ) = (mul mark x y).rename ρ := by
  cases x with
  | nan m => cases y <;> rfl
  | infinite s =>
    cases y with
    | finite t n q h =>
      simp only [Binary64.rename, mul]
      split <;> rfl
    | _ => rfl
  | finite s m p h =>
    cases y with
    | nan k => rfl
    | infinite t =>
      simp only [Binary64.rename, mul]
      split <;> rfl
    | finite t n q h' =>
      simp only [Binary64.rename, mul]
      split
      · rfl
      · exact (rename_of_isNumber (ofDyadic_isNumber _ _ _)).symm

end Binary64

namespace Primitive

theorem toFloat_isNumber {n : Int} {x : Binary64} (ok : toFloat n = .ok x) : x.isNumber = true := by
  unfold toFloat at ok
  dsimp only at ok
  split at ok
  · cases ok
  · cases ok
    exact Binary64.ofDyadic_isNumber _ _ _

theorem arithmetic_rename {op : Primitive} {exact : Int → Int → Int}
    {rounded rounded' : Binary64 → Binary64 → Binary64}
    (commutes : ∀ x y, rounded' (x.rename ρ) (y.rename ρ) = (rounded x y).rename ρ) (a b : Value) :
    arithmetic op exact rounded' [a.rename ρ, b.rename ρ] =
      (arithmetic op exact rounded [a, b]).map (Value.rename ρ) := by
  cases a with
  | int n =>
    cases b with
    | float y =>
      simp only [Value.rename, arithmetic]
      cases h : toFloat n with
      | error e => rfl
      | ok x =>
        have same := commutes x y
        rw [Binary64.rename_of_isNumber (toFloat_isNumber h)] at same
        exact congrArg (fun z => Except.ok (Value.float z)) same
    | _ => rfl
  | float x =>
    cases b with
    | float y => exact congrArg (fun z => Except.ok (Value.float z)) (commutes x y)
    | int n =>
      simp only [Value.rename, arithmetic]
      cases h : toFloat n with
      | error e => rfl
      | ok y =>
        have same := commutes x y
        rw [Binary64.rename_of_isNumber (toFloat_isNumber h)] at same
        exact congrArg (fun z => Except.ok (Value.float z)) same
    | _ => rfl
  | _ => cases b <;> rfl

/-- A primitive does the same with renamed arguments, and its NaN gets the renamed mark. -/
theorem result_rename (injective : Function.Injective ρ) (op : Primitive) (mark : Mark) (args : List Value) :
    op.result (ρ mark) (Value.renameAll ρ args) = (op.result mark args).map (Value.rename ρ) := by
  have length : (Value.renameAll ρ args).length = args.length := by simp [Value.renameAll_eq]
  -- With any other number of arguments both sides are refused.
  have other : args.length ≠ op.arity →
      op.result (ρ mark) (Value.renameAll ρ args) = (op.result mark args).map (Value.rename ρ) := by
    intro wrong
    rw [result_arity wrong, result_arity (length ▸ wrong)]
    rfl
  cases op with
  | cons =>
    match args with
    | [_, _] => rfl
    | [] | [_] | _ :: _ :: _ :: _ => exact other (by simp [arity])
  | car =>
    match args with
    | [a] =>
      cases a with
      | list items => cases items <;> rfl
      | _ => rfl
    | [] | _ :: _ :: _ => exact other (by simp [arity])
  | cdr =>
    match args with
    | [a] =>
      cases a with
      | list items => cases items <;> rfl
      | _ => rfl
    | [] | _ :: _ :: _ => exact other (by simp [arity])
  | identity =>
    match args with
    | [_] => rfl
    | [] | _ :: _ :: _ => exact other (by simp [arity])
  | eq =>
    match args with
    | [a, b] =>
      simp only [Value.renameAll, Primitive.result, Value.quickSame_eq, Value.same_rename injective]
      rfl
    | [] | [_] | _ :: _ :: _ :: _ => exact other (by simp [arity])
  | cond =>
    match args with
    | [a, _, _] =>
      cases a with
      | bool flag => cases flag <;> rfl
      | _ => rfl
    | [] | [_] | [_, _] | _ :: _ :: _ :: _ :: _ => exact other (by simp [arity])
  | add =>
    match args with
    | [a, b] => exact arithmetic_rename (Binary64.add_rename mark) a b
    | [] | [_] | _ :: _ :: _ :: _ => exact other (by simp [arity])
  | sub =>
    match args with
    | [a, b] => exact arithmetic_rename (Binary64.sub_rename mark) a b
    | [] | [_] | _ :: _ :: _ :: _ => exact other (by simp [arity])
  | mul =>
    match args with
    | [a, b] => exact arithmetic_rename (Binary64.mul_rename mark) a b
    | [] | [_] | _ :: _ :: _ :: _ => exact other (by simp [arity])
  | le =>
    match args with
    | [a, b] =>
      simp only [Value.renameAll, Primitive.result, Value.isNumber_rename, Value.atMost_rename]
      split <;> rfl
    | [] | [_] | _ :: _ :: _ :: _ => exact other (by simp [arity])

end Primitive

end Unfurl
