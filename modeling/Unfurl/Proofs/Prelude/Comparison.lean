import Unfurl.Proofs.Prelude.Bindings
import Unfurl.Proofs.Term.Equality

/-! A NaN has no place in the order: `<=` refuses it on either side, and `<` and `>`, which negate it, both hold. -/

namespace Unfurl

namespace Value

def isNaN : Value → Bool
  | .float (.nan _) => true
  | _ => false

def Ordered (a : Value) : Prop := a.isNumber = true ∧ a.isNaN = false

instance (a : Value) : Decidable a.Ordered := inferInstanceAs (Decidable (_ ∧ _))

/-- The place of a number among the rationals and the two infinities. -/
def place? : Value → Option (WithBot (WithTop ℚ))
  | .int n => some ((n : ℚ) : WithTop ℚ)
  | .float (.finite s m q _) => some ((Binary64.signed s m * 2 ^ q : ℚ) : WithTop ℚ)
  | .float (.infinite true) => some ⊥
  | .float (.infinite false) => some (⊤ : WithTop ℚ)
  | _ => none

theorem place?_eq (a : Value) : a.place? = a.extended?.map Extended.point := by
  cases a with
  | int n => simp [place?, extended?, Extended.ofInt, Extended.point]
  | float x =>
    cases x with
    | nan m => rfl
    | infinite s => cases s <;> rfl
    | finite s m q h => rfl
  | _ => rfl

variable {a b : Value} {p q : WithBot (WithTop ℚ)}

theorem atMost_iff (left : a.place? = some p) (right : b.place? = some q) : a.atMost b = true ↔ p ≤ q := by
  rw [place?_eq, Option.map_eq_some_iff] at left right
  obtain ⟨x, hx, rfl⟩ := left
  obtain ⟨y, hy, rfl⟩ := right
  simp only [atMost, hx, hy]
  exact Extended.le_iff x y

theorem Ordered.place (ordered : a.Ordered) : ∃ p, a.place? = some p := by
  obtain ⟨number, proper⟩ := ordered
  cases a with
  | int n => exact ⟨_, rfl⟩
  | float x =>
    cases x with
    | nan m => cases proper
    | infinite s => cases s <;> exact ⟨_, rfl⟩
    | finite s m q h => exact ⟨_, rfl⟩
  | _ => cases number

theorem aspect_of_place (left : a.place? = some p) : a.aspect false = .number false p := by
  cases a with
  | int n =>
    obtain rfl := Option.some.inj left
    simp [aspect, Extended.ofInt, Extended.point]
  | float x =>
    rw [place?_eq, Option.map_eq_some_iff] at left
    obtain ⟨e, he, rfl⟩ := left
    have extended : x.extended? = some e := he
    simp [aspect, Binary64.aspect, extended]
  | _ => cases left

theorem same_loose_iff (left : a.place? = some p) (right : b.place? = some q) :
    a.same false b = true ↔ p = q := by
  rw [same_iff, aspect_of_place left, aspect_of_place right]
  simp

end Value

variable {env : Environment} {a b c : Value}

namespace Environment

theorem Maps.call_two {name : Text} {v : Value} {e e' : Expr} (maps : Maps env name [a, b] v)
    (first : Reads env e a) (second : Reads env e' b) :
    (Course.evaluate (.call name [e, e']) env).Returns v :=
  maps.call (.cons (reads_returns first) (.cons (reads_returns second) .nil))

namespace HoldsPrelude

variable (holds : HoldsPrelude env)
include holds

/-! ### What the comparisons return -/

theorem maps_le (left : a.isNumber = true) (right : b.isNumber = true) :
    Maps env "<=" [a, b] (.bool (a.atMost b)) := by
  refine (holds.primitive .le (by decide)).maps fun mark => ?_
  simp [Primitive.result, left, right]

theorem maps_identical (a b : Value) : Maps env "eq?" [a, b] (.bool (a.same true b)) := by
  refine (holds.primitive .eq (by decide)).maps fun mark => ?_
  rw [Primitive.result, Value.quickSame_eq]

theorem maps_not (truth : Bool) : Maps env "not" [.bool truth] (.bool !truth) := by
  have member : ((↑"not", .lambda ["x"] (.call "cond" [.reference "x", .literal (.bool false),
      .literal (.bool true)])) : Definition) ∈ Prelude.definitions := by
    simp [Prelude.definitions, Prelude.logic]
  refine holds.maps member rfl fun scope given same => ?_
  obtain ⟨x, _⟩ := List.forall₂_cons.mp given
  have choose : Maps scope "cond" [.bool truth, .bool false, .bool true] (.bool !truth) := by
    refine ((holds.primitive .cond (by decide)).maps fun mark => ?_).congr (same "cond" (by decide))
    cases truth <;> rfl
  refine choose.call (.cons (reads_returns (.reference x)) ?_)
  exact .cons (reads_returns (.literal _)) (.cons (reads_returns (.literal _)) .nil)

theorem maps_comparison {name : Text} (body : Expr) {v : Value}
    (member : (name, .lambda ["a", "b"] body) ∈ Prelude.definitions)
    (returns : ∀ scope, Reads scope (.reference "a") a → Reads scope (.reference "b") b →
      (∀ x ∈ (Expr.lambda ["a", "b"] body).free, Overlay.get? scope x = Overlay.get? env x) →
      (Course.evaluate body scope).Returns v) : Maps env name [a, b] v := by
  refine holds.maps member rfl fun scope given same => ?_
  obtain ⟨first, rest⟩ := List.forall₂_cons.mp given
  obtain ⟨second, _⟩ := List.forall₂_cons.mp rest
  exact returns scope (.reference first) (.reference second) same

theorem maps_ge (left : a.isNumber = true) (right : b.isNumber = true) :
    Maps env ">=" [a, b] (.bool (b.atMost a)) := by
  refine holds.maps_comparison (.call "<=" [.reference "b", .reference "a"])
    (by simp [Prelude.definitions, Prelude.comparisons]) fun scope x y same => ?_
  exact ((holds.maps_le right left).congr (same "<=" (by decide))).call_two y x

theorem maps_equal (a b : Value) : Maps env "=" [a, b] (.bool (a.same true b)) := by
  refine holds.maps_comparison (.call "eq?" [.reference "a", .reference "b"])
    (by simp [Prelude.definitions, Prelude.comparisons]) fun scope x y same => ?_
  exact ((holds.maps_identical a b).congr (same "eq?" (by decide))).call_two x y

theorem maps_gt (left : a.isNumber = true) (right : b.isNumber = true) :
    Maps env ">" [a, b] (.bool (!a.atMost b)) := by
  refine holds.maps_comparison (.call "not" [.call "<=" [.reference "a", .reference "b"]])
    (by simp [Prelude.definitions, Prelude.comparisons]) fun scope x y same => ?_
  have le := ((holds.maps_le left right).congr (same "<=" (by decide))).call_two x y
  exact ((holds.maps_not _).congr (same "not" (by decide))).call (.cons le .nil)

theorem maps_lt (left : a.isNumber = true) (right : b.isNumber = true) :
    Maps env "<" [a, b] (.bool (!b.atMost a)) := by
  refine holds.maps_comparison (.call "not" [.call "<=" [.reference "b", .reference "a"]])
    (by simp [Prelude.definitions, Prelude.comparisons]) fun scope x y same => ?_
  have le := ((holds.maps_le right left).congr (same "<=" (by decide))).call_two y x
  exact ((holds.maps_not _).congr (same "not" (by decide))).call (.cons le .nil)

end HoldsPrelude

end Environment

/-! ### Answers -/

/-- A call of the name on the two values evaluates to this truth value. -/
def Answers (env : Environment) (name : Text) (a b : Value) (truth : Bool) : Prop :=
  (Course.evaluate (.call name [.literal a, .literal b]) env).Returns (.bool truth)

theorem Answers.unique {name : Text} {r s : Bool} (first : Answers env name a b r)
    (second : Answers env name a b s) : s = r := by
  have same := Course.Returns.eq first second
  injection same

theorem Environment.Maps.answers {name : Text} {truth : Bool}
    (maps : Environment.Maps env name [a, b] (.bool truth)) : Answers env name a b truth :=
  maps.call_two (.literal a) (.literal b)

/-- What each comparison answers on two numbers. -/
structure Compared (env : Environment) (a b : Value) : Prop where
  le : Answers env "<=" a b (a.atMost b)
  lt : Answers env "<" a b (!b.atMost a)
  gt : Answers env ">" a b (!a.atMost b)
  ge : Answers env ">=" a b (b.atMost a)
  equal : Answers env "=" a b (a.same true b)

theorem Environment.HoldsPrelude.compared (holds : Environment.HoldsPrelude env) (left : a.isNumber = true)
    (right : b.isNumber = true) : Compared env a b where
  le := (holds.maps_le left right).answers
  lt := (holds.maps_lt left right).answers
  gt := (holds.maps_gt left right).answers
  ge := (holds.maps_ge left right).answers
  equal := (holds.maps_equal a b).answers

/-! ### The order of the numbers that have a place -/

namespace Value

theorem atMost_total (left : a.Ordered) (right : b.Ordered) : a.atMost b = true ∨ b.atMost a = true := by
  obtain ⟨p, hp⟩ := left.place
  obtain ⟨q, hq⟩ := right.place
  rw [atMost_iff hp hq, atMost_iff hq hp]
  exact le_total p q

theorem atMost_trans (left : a.Ordered) (middle : b.Ordered) (right : c.Ordered)
    (first : a.atMost b = true) (second : b.atMost c = true) : a.atMost c = true := by
  obtain ⟨p, hp⟩ := left.place
  obtain ⟨q, hq⟩ := middle.place
  obtain ⟨r, hr⟩ := right.place
  rw [atMost_iff hp hq] at first
  rw [atMost_iff hq hr] at second
  rw [atMost_iff hp hr]
  exact first.trans second

theorem same_loose_eq (left : a.Ordered) (right : b.Ordered) :
    a.same false b = (a.atMost b && b.atMost a) := by
  obtain ⟨p, hp⟩ := left.place
  obtain ⟨q, hq⟩ := right.place
  rw [Bool.eq_iff_iff, Bool.and_eq_true, same_loose_iff hp hq, atMost_iff hp hq, atMost_iff hq hp]
  exact le_antisymm_iff

end Value

theorem Environment.HoldsPrelude.answers_trans (holds : Environment.HoldsPrelude env) {name : Text}
    (listed : name ∈ (["<", "<="] : List Text)) (left : a.Ordered) (middle : b.Ordered) (right : c.Ordered)
    (first : Answers env name a b true) (second : Answers env name b c true) : Answers env name a c true := by
  have ab := holds.compared left.1 middle.1
  have bc := holds.compared middle.1 right.1
  have ac := holds.compared left.1 right.1
  simp only [List.mem_cons, List.not_mem_nil, or_false] at listed
  rcases listed with rfl | rfl
  · have below : b.atMost a = false := by simpa using ab.lt.unique first
    have above : c.atMost b = false := by simpa using bc.lt.unique second
    have le : a.atMost b = true := (Value.atMost_total left middle).resolve_right (by simp [below])
    have strict : c.atMost a = false := by
      rw [Bool.eq_false_iff]
      intro reached
      have through := Value.atMost_trans right left middle reached le
      rw [above] at through
      cases through
    simpa [strict] using ac.lt
  · have below : true = a.atMost b := ab.le.unique first
    have above : true = b.atMost c := bc.le.unique second
    have whole := Value.atMost_trans left middle right below.symm above.symm
    simpa [whole] using ac.le

theorem one_of_total {le ge : Bool} (total : le = true ∨ ge = true) :
    [!ge, le && ge, !le].count true = 1 := by
  revert le ge
  decide

theorem or_same_of_total {le ge : Bool} (total : le = true ∨ ge = true) :
    le = true ↔ (!ge) = true ∨ (le && ge) = true := by
  revert le ge
  decide

/-- On numbers other than NaN the comparisons are a total order, up to loose equality, and it is the order
of the places of the numbers. -/
theorem comparisons_total_order {depth : Nat} (enough : 7 ≤ depth) (t : Tally) :
    ∃ env t', (Starting.prelude.load depth t).outcome = .done env t' ∧
      (∀ a b : Value, a.Ordered → b.Ordered → ∃ le lt gt ge equal : Bool,
        (Answers env "<=" a b le ∧ Answers env "<" a b lt ∧ Answers env ">" a b gt ∧
          Answers env ">=" a b ge ∧ Answers env "<=" b a ge ∧ Answers env "=" a b equal) ∧
        [lt, a.same false b, gt].count true = 1 ∧
        (le = true ↔ lt = true ∨ a.same false b = true) ∧ ge = !lt ∧
        equal = a.same true b ∧ (equal = true → le = true ∧ ge = true) ∧
        ∃ p q, a.place? = some p ∧ b.place? = some q ∧ (le = true ↔ p ≤ q) ∧ (lt = true ↔ p < q)) ∧
      ∀ name ∈ (["<", "<="] : List Text), ∀ a b c : Value, a.Ordered → b.Ordered → c.Ordered →
        Answers env name a b true → Answers env name b c true → Answers env name a c true := by
  obtain ⟨env, t', loaded, holds⟩ := prelude_loads enough t
  refine ⟨env, t', loaded, ?_, fun name listed a b c left middle right first second =>
    holds.answers_trans listed left middle right first second⟩
  intro a b left right
  have compared := holds.compared left.1 right.1
  have swapped := holds.compared right.1 left.1
  refine ⟨_, _, _, _, _,
    ⟨compared.le, compared.lt, compared.gt, compared.ge, swapped.le, compared.equal⟩, ?_⟩
  have total := Value.atMost_total left right
  have loose := Value.same_loose_eq left right
  have finer := Value.same_loose a b
  rw [loose] at finer ⊢
  obtain ⟨p, hp⟩ := left.place
  obtain ⟨q, hq⟩ := right.place
  have strict : (!b.atMost a) = true ↔ p < q := by
    rw [Bool.not_eq_true', Bool.eq_false_iff, ne_eq, Value.atMost_iff hq hp, not_le]
  refine ⟨one_of_total total, or_same_of_total total, (Bool.not_not _).symm, rfl, ?_, p, q, hp, hq,
    Value.atMost_iff hp hq, strict⟩
  intro equal
  exact Bool.and_eq_true_iff.mp (finer equal)

/-- The integer `2 ^ 53`, the float that it equals, and the next integer, which is no float. -/
theorem comparisons_total_order_beyond_precision :
    let a : Value := .int (2 ^ 53)
    let b : Value := .float (.finite false (2 ^ 52) 1 (by decide))
    let c : Value := .int (2 ^ 53 + 1)
    (a.Ordered ∧ b.Ordered ∧ c.Ordered) ∧
      ∃ env t', (Starting.prelude.load 7 {}).outcome = .done env t' ∧
        Answers env "<" a b false ∧ Answers env "<" b c true ∧ Answers env "<=" a c true := by
  intro a b c
  have ordered : a.Ordered ∧ b.Ordered ∧ c.Ordered := by decide
  obtain ⟨env, t', loaded, order, trans⟩ := comparisons_total_order (Nat.le_refl 7) {}
  refine ⟨ordered, env, t', loaded, ?_⟩
  obtain ⟨le, lt, _, _, _, ⟨answersLe, answersLt, _⟩, _, _, _, _, _, p, q, hp, hq, leIff, ltIff⟩ :=
    order a b ordered.1 ordered.2.1
  obtain ⟨le', lt', _, _, _, ⟨answersLe', answersLt', _⟩, _, _, _, _, _, q', r, hq', hr, leIff', ltIff'⟩ :=
    order b c ordered.2.1 ordered.2.2
  cases hp
  cases hq
  cases hq'
  cases hr
  have equal : ((2 ^ 53 : ℤ) : ℚ) = (Binary64.signed false (2 ^ 52) : ℤ) * 2 ^ (1 : ℤ) := by
    norm_num [Binary64.signed]
  have less : ((Binary64.signed false (2 ^ 52) : ℤ) * 2 ^ (1 : ℤ) : ℚ) < ((2 ^ 53 + 1 : ℤ) : ℚ) := by
    norm_num [Binary64.signed]
  have weak : le = true := leIff.mpr (WithBot.coe_le_coe.mpr (WithTop.coe_le_coe.mpr equal.le))
  have above : lt' = true := ltIff'.mpr (WithBot.coe_lt_coe.mpr (WithTop.coe_lt_coe.mpr less))
  have weak' : le' = true := leIff'.mpr (WithBot.coe_le_coe.mpr (WithTop.coe_le_coe.mpr less.le))
  have level : lt = false := by
    rw [Bool.eq_false_iff]
    intro strict
    exact equal.not_lt (WithTop.coe_lt_coe.mp (WithBot.coe_lt_coe.mp (ltIff.mp strict)))
  subst weak above weak' level
  have whole := trans "<=" (by simp) a b c ordered.1 ordered.2.1 ordered.2.2 answersLe answersLe'
  exact ⟨answersLt, answersLt', whole⟩

/-! ### Numbers that have no place -/

namespace Value

theorem extended?_of_isNaN (absent : a.isNaN = true) : a.extended? = none := by
  cases a with
  | float x =>
    cases x with
    | nan m => rfl
    | _ => cases absent
  | _ => cases absent

theorem atMost_of_isNaN (absent : a.isNaN = true ∨ b.isNaN = true) : a.atMost b = false := by
  unfold atMost
  rcases absent with left | right
  · rw [extended?_of_isNaN left]
  · rw [extended?_of_isNaN right]
    cases a.extended? <;> rfl

/-- Two numbers are at most each other in no order exactly if one is a NaN. -/
theorem incomparable_eq (left : a.isNumber = true) (right : b.isNumber = true) :
    (!a.atMost b && !b.atMost a) = (a.isNaN || b.isNaN) := by
  by_cases absent : a.isNaN = true ∨ b.isNaN = true
  · have neither := atMost_of_isNaN absent
    have neither' := atMost_of_isNaN absent.symm
    rw [neither, neither', Bool.or_eq_true_iff.mpr absent]
    rfl
  · rw [not_or, Bool.not_eq_true, Bool.not_eq_true] at absent
    have total := atMost_total ⟨left, absent.1⟩ ⟨right, absent.2⟩
    rw [absent.1, absent.2]
    rcases total with le | ge
    · simp [le]
    · simp [ge]

end Value

/-- On any two numbers, a NaN makes the strict comparisons hold, both ways and against itself, although
`<=` does not; nothing else does. -/
theorem strict_comparisons {depth : Nat} (enough : 7 ≤ depth) (t : Tally) :
    ∃ env t', (Starting.prelude.load depth t).outcome = .done env t' ∧
      ∀ a b : Value, a.isNumber = true → b.isNumber = true → ∃ le lt gt : Bool,
        (Answers env "<=" a b le ∧ Answers env "<" a b lt ∧ Answers env ">" a b gt) ∧
        (Answers env "<" a a a.isNaN ∧ Answers env ">" a a a.isNaN) ∧
        (lt && gt) = (a.isNaN || b.isNaN) ∧ (lt && !le) = (a.isNaN || b.isNaN) := by
  obtain ⟨env, t', loaded, holds⟩ := prelude_loads enough t
  refine ⟨env, t', loaded, fun a b left right => ?_⟩
  have compared := holds.compared left right
  have itself : Answers env "<" a a (!a.atMost a) ∧ Answers env ">" a a (!a.atMost a) :=
    ⟨(holds.compared left left).lt, (holds.compared left left).gt⟩
  have alone : (!a.atMost a) = a.isNaN := by simpa using Value.incomparable_eq left left
  have apart : (!b.atMost a && !a.atMost b) = (a.isNaN || b.isNaN) := by
    rw [Bool.and_comm]
    exact Value.incomparable_eq left right
  rw [alone] at itself
  exact ⟨_, _, _, ⟨compared.le, compared.lt, compared.gt⟩, itself, apart, apart⟩

/-- A NaN against an integer. -/
theorem strict_comparisons_integer_nan :
    let a : Value := .int 5
    let b : Value := .float (.nan 0)
    (a.isNumber = true ∧ b.isNumber = true) ∧
      ∃ env t', (Starting.prelude.load 7 {}).outcome = .done env t' ∧
        Answers env "<" a a false ∧ Answers env "<" b b true ∧
        ∃ le lt gt : Bool, (Answers env "<=" a b le ∧ Answers env "<" a b lt ∧ Answers env ">" a b gt) ∧
          (lt && gt) = true ∧ (lt && !le) = true := by
  intro a b
  have numbers : a.isNumber = true ∧ b.isNumber = true := by decide
  obtain ⟨env, t', loaded, strict⟩ := strict_comparisons (Nat.le_refl 7) {}
  obtain ⟨le, lt, gt, answers, itself, both, refused⟩ := strict a b numbers.1 numbers.2
  obtain ⟨_, _, _, _, undefined, _⟩ := strict b a numbers.2 numbers.1
  exact ⟨numbers, env, t', loaded, itself.1, undefined.1, le, lt, gt, answers, both, refused⟩

/-- A NaN is less than itself and greater than itself, but not at most itself. -/
theorem nan_less_than_itself :
    let nan : Value := .float (.nan 0)
    ∃ env t', (Starting.prelude.load 7 {}).outcome = .done env t' ∧
      Answers env "<" nan nan true ∧ Answers env ">" nan nan true ∧ Answers env "<=" nan nan false := by
  intro nan
  obtain ⟨env, t', loaded, holds⟩ := prelude_loads (Nat.le_refl 7) {}
  have compared := holds.compared (a := nan) (b := nan) rfl rfl
  exact ⟨env, t', loaded, compared.lt, compared.gt, compared.le⟩

end Unfurl
