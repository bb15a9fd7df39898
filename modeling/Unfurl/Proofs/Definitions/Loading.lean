import Mathlib.Data.List.Induction
import Unfurl.Definitions.Load
import Unfurl.Proofs.Eval.Layer
import Unfurl.Proofs.Overlay

/-! The end of a load is told by the longest prefix of which each definition evaluates (`Evaluated`). -/

namespace Unfurl

def bindings (done : List (Definition × Value)) : List (Text × Value) :=
  done.map fun x => (x.1.1, x.2)

/-- Each definition evaluates, in the base overlaid with the values of all before it, to its own value. -/
inductive Evaluated (depth : Nat) (base : Environment) (t : Tally) :
    List (Definition × Value) → Tally → Prop
  | nil : Evaluated depth base t [] t
  | snoc {done : List (Definition × Value)} {d : Definition} {v : Value} {t₁ t₂ : Tally} :
      Evaluated depth base t done t₁ →
      evaluate depth d.2 (Overlay.extend base (bindings done)) none t₁ = .done v t₂ →
      Evaluated depth base t (done ++ [(d, v)]) t₂

variable {depth : Nat} {base : Environment} {t t₁ t₂ : Tally} {done : List (Definition × Value)}
  {d : Definition} {after : List Definition}

theorem bindings_snoc (done : List (Definition × Value)) (d : Definition) (v : Value) :
    Overlay.extend base (bindings (done ++ [(d, v)])) =
      Overlay.set (Overlay.extend base (bindings done)) d.1 v := by
  simp [bindings, Overlay.extend]

/-! ### Loads in parts -/

theorem load_append (depth : Nat) (first second : List Definition) (base : Environment) (t : Tally) :
    load depth (first ++ second) base t = (load depth first base t).bind (load depth second) := by
  induction first generalizing base t with
  | nil => rfl
  | cons d rest ih =>
    obtain ⟨name, e⟩ := d
    rw [List.cons_append, load, load]
    cases evaluate depth e base none t with
    | done v t' =>
      simp only [ih, Loading.bind]
      cases (load depth rest (Overlay.set base name v) t').outcome <;> rfl
    | failed fault t' => cases fault <;> rfl
    | exhausted t' => rfl

def definedRecords (ds : List Definition) : List LogRecord := ds.map fun d => Loading.defined d.1

theorem load_evaluated (evaluated : Evaluated depth base t done t₁) :
    load depth (done.map Prod.fst) base t =
      ⟨definedRecords (done.map Prod.fst), .done (Overlay.extend base (bindings done)) t₁⟩ := by
  induction evaluated with
  | nil => rfl
  | snoc _ here ih =>
    rw [List.map_append, load_append, ih, bindings_snoc]
    simp [Loading.bind, load, here, definedRecords]

/-- A load goes on behind the definitions that evaluate. -/
theorem load_behind (evaluated : Evaluated depth base t done t₁) {rest : List Definition} {later : Loading}
    (goesOn : load depth rest (Overlay.extend base (bindings done)) t₁ = later) :
    load depth (done.map Prod.fst ++ rest) base t =
      ⟨definedRecords (done.map Prod.fst) ++ later.log, later.outcome⟩ := by
  rw [load_append, load_evaluated evaluated, ← goesOn]
  rfl

/-- Either all definitions evaluate, or there is a first that does not. -/
theorem evaluated_or_stops (depth : Nat) (base : Environment) (t : Tally) (ds : List Definition) :
    (∃ done t₁, done.map Prod.fst = ds ∧ Evaluated depth base t done t₁) ∨
      ∃ done d after t₁, ds = done.map Prod.fst ++ d :: after ∧ Evaluated depth base t done t₁ ∧
        ∀ v t₂, evaluate depth d.2 (Overlay.extend base (bindings done)) none t₁ ≠ .done v t₂ := by
  induction ds using List.reverseRecOn with
  | nil => exact Or.inl ⟨[], t, rfl, .nil⟩
  | append_singleton ds d ih =>
    rcases ih with ⟨done, t₁, rfl, evaluated⟩ | ⟨done, d', after, t₁, rfl, evaluated, stops⟩
    · by_cases succeeds : ∃ v t₂,
        evaluate depth d.2 (Overlay.extend base (bindings done)) none t₁ = .done v t₂
      · obtain ⟨v, t₂, here⟩ := succeeds
        exact Or.inl ⟨done ++ [(d, v)], t₂, by simp, .snoc evaluated here⟩
      · refine Or.inr ⟨done, d, [], t₁, rfl, evaluated, fun v t₂ here => succeeds ⟨v, t₂, here⟩⟩
    · exact Or.inr ⟨done, d', after ++ [d], t₁, by simp, evaluated, stops⟩

/-! ### How a load ends -/

/-- What becomes of a failure in the definition of the name, and the records it leaves. -/
inductive Aborts (name : Text) : Fault → LoadError → List LogRecord → Prop
  | definition (cause : EvalError) :
      Aborts name (.eval cause) (.definition name cause) [Loading.failed name cause]
  | numeral (e : NumeralError) : Aborts name (.numeral e) (.numeral e) []
  | overflow : Aborts name .overflow .overflow []

theorem aborts_total (name : Text) (fault : Fault) : ∃ error records, Aborts name fault error records := by
  cases fault with
  | eval cause => exact ⟨_, _, .definition cause⟩
  | numeral e => exact ⟨_, _, .numeral e⟩
  | overflow => exact ⟨_, _, .overflow⟩

theorem Aborts.load_eq {name : Text} {fault : Fault} {error : LoadError} {records : List LogRecord}
    {e : Expr} (aborts : Aborts name fault error records)
    (fails : evaluate depth e base none t = .failed fault t₁) (after : List Definition) :
    load depth ((name, e) :: after) base t = ⟨records, .failed error t₁⟩ := by
  rw [load, fails]
  cases aborts <;> rfl

/-- The end of a load, told by the definitions that evaluate and the first that does not. -/
inductive LoadsTo (depth : Nat) (base : Environment) (t : Tally) : List Definition → Loading → Prop
  | done {done : List (Definition × Value)} {t₁ : Tally} : Evaluated depth base t done t₁ →
      LoadsTo depth base t (done.map Prod.fst)
        ⟨definedRecords (done.map Prod.fst), .done (Overlay.extend base (bindings done)) t₁⟩
  | failed {done : List (Definition × Value)} {d : Definition} {after : List Definition} {t₁ t₂ : Tally}
      {fault : Fault} {error : LoadError} {records : List LogRecord} : Evaluated depth base t done t₁ →
      evaluate depth d.2 (Overlay.extend base (bindings done)) none t₁ = .failed fault t₂ →
      Aborts d.1 fault error records →
      LoadsTo depth base t (done.map Prod.fst ++ d :: after)
        ⟨definedRecords (done.map Prod.fst) ++ records, .failed error t₂⟩
  | exhausted {done : List (Definition × Value)} {d : Definition} {after : List Definition}
      {t₁ t₂ : Tally} : Evaluated depth base t done t₁ →
      evaluate depth d.2 (Overlay.extend base (bindings done)) none t₁ = .exhausted t₂ →
      LoadsTo depth base t (done.map Prod.fst ++ d :: after)
        ⟨definedRecords (done.map Prod.fst), .exhausted t₂⟩

theorem exists_loadsTo (depth : Nat) (base : Environment) (t : Tally) (ds : List Definition) :
    ∃ loading, LoadsTo depth base t ds loading := by
  rcases evaluated_or_stops depth base t ds with
    ⟨done, t₁, rfl, evaluated⟩ | ⟨done, d, after, t₁, rfl, evaluated, stops⟩
  · exact ⟨_, .done evaluated⟩
  · cases ends : evaluate depth d.2 (Overlay.extend base (bindings done)) none t₁ with
    | done v t₂ => exact absurd ends (stops v t₂)
    | failed fault t₂ =>
      obtain ⟨error, records, aborts⟩ := aborts_total d.1 fault
      exact ⟨_, .failed evaluated ends aborts⟩
    | exhausted t₂ => exact ⟨_, .exhausted evaluated ends⟩

theorem LoadsTo.load_eq {ds : List Definition} {loading : Loading}
    (loads : LoadsTo depth base t ds loading) : load depth ds base t = loading := by
  cases loads with
  | done evaluated => exact load_evaluated evaluated
  | @failed _ _ after _ _ _ _ _ evaluated fails aborts =>
    exact load_behind evaluated (aborts.load_eq fails after)
  | @exhausted done d after t₁ t₂ evaluated ends =>
    have stopped : load depth (d :: after) (Overlay.extend base (bindings done)) t₁ =
        ⟨[], .exhausted t₂⟩ := by
      rw [load, ends]
    rw [load_behind evaluated stopped, List.append_nil]

theorem load_iff {ds : List Definition} {loading : Loading} :
    load depth ds base t = loading ↔ LoadsTo depth base t ds loading := by
  constructor
  · rintro rfl
    obtain ⟨loading, loads⟩ := exists_loadsTo depth base t ds
    rw [loads.load_eq]
    exact loads
  · exact LoadsTo.load_eq

/-! ### Captured environments -/

/-- A definition among those that evaluate does so where the ones before it have got to. -/
theorem Evaluated.place {before after : List (Definition × Value)} {v : Value}
    (evaluated : Evaluated depth base t (before ++ (d, v) :: after) t₁) :
    ∃ t₂ t₃, Evaluated depth base t before t₂ ∧
      evaluate depth d.2 (Overlay.extend base (bindings before)) none t₂ = .done v t₃ := by
  generalize whole : before ++ (d, v) :: after = done at evaluated
  induction evaluated generalizing after with
  | nil => simp at whole
  | @snoc done d' w t₁ t₂ earlier here ih =>
    rcases List.eq_nil_or_concat after with rfl | ⟨rest, last, rfl⟩
    · obtain ⟨rfl, same⟩ := List.append_inj' whole rfl
      cases same
      exact ⟨t₁, t₂, earlier, here⟩
    · have split : before ++ (d, v) :: rest = done ∧ [last] = [(d', w)] := by
        refine List.append_inj' ?_ rfl
        simpa using whole
      exact ih split.1

theorem evaluate_lambda {params : List Text} {body : Expr} {v : Value}
    (done : evaluate depth (.lambda params body) base none t = .done v t₁) :
    ∃ mark, v = .closure mark params body base := by
  cases depth with
  | zero => cases done
  | succ depth =>
    cases done
    exact ⟨_, rfl⟩

/-- A load of two lists is the load of the first and then, from where it got to, of the second. It succeeds
exactly if each definition evaluates on top of the values before it. Otherwise it ends where the first does
that does not: with the error of that definition and its record if this is an evaluation error, and as
the evaluation ended if not. -/
theorem load_exact (depth : Nat) (base : Environment) (t : Tally) :
    (∀ first second,
      load depth (first ++ second) base t = (load depth first base t).bind (load depth second)) ∧
    (∀ ds log env t', load depth ds base t = ⟨log, .done env t'⟩ ↔
      ∃ done, done.map Prod.fst = ds ∧ Evaluated depth base t done t' ∧
        env = Overlay.extend base (bindings done) ∧ log = definedRecords ds) ∧
    (∀ ds log error t', load depth ds base t = ⟨log, .failed error t'⟩ ↔
      ∃ done d after t₁ fault records, ds = done.map Prod.fst ++ d :: after ∧
        Evaluated depth base t done t₁ ∧
        evaluate depth d.2 (Overlay.extend base (bindings done)) none t₁ = .failed fault t' ∧
        Aborts d.1 fault error records ∧ log = definedRecords (done.map Prod.fst) ++ records) ∧
    (∀ ds log t', load depth ds base t = ⟨log, .exhausted t'⟩ ↔
      ∃ done d after t₁, ds = done.map Prod.fst ++ d :: after ∧ Evaluated depth base t done t₁ ∧
        evaluate depth d.2 (Overlay.extend base (bindings done)) none t₁ = .exhausted t' ∧
        log = definedRecords (done.map Prod.fst)) ∧
    ∀ before name params body v after t',
      Evaluated depth base t (before ++ ((name, .lambda params body), v) :: after) t' →
        ∃ mark, v = .closure mark params body (Overlay.extend base (bindings before)) := by
  refine ⟨fun first second => load_append depth first second base t, ?_, ?_, ?_, ?_⟩
  · intro ds log env t'
    rw [load_iff]
    constructor
    · intro loads
      cases loads with
      | done evaluated => exact ⟨_, rfl, evaluated, rfl, rfl⟩
    · rintro ⟨done, rfl, evaluated, rfl, rfl⟩
      exact .done evaluated
  · intro ds log error t'
    rw [load_iff]
    constructor
    · intro loads
      cases loads with
      | failed evaluated fails aborts => exact ⟨_, _, _, _, _, _, rfl, evaluated, fails, aborts, rfl⟩
    · rintro ⟨done, d, after, t₁, fault, records, rfl, evaluated, fails, aborts, rfl⟩
      exact .failed evaluated fails aborts
  · intro ds log t'
    rw [load_iff]
    constructor
    · intro loads
      cases loads with
      | exhausted evaluated ends => exact ⟨_, _, _, _, rfl, evaluated, ends, rfl⟩
    · rintro ⟨done, d, after, t₁, rfl, evaluated, ends, rfl⟩
      exact .exhausted evaluated ends
  · intro before name params body v after t' evaluated
    obtain ⟨t₁, t₂, _, made⟩ := evaluated.place
    exact evaluate_lambda made

/-- A name that is bound, captured, bound again and followed by a definition that fails. -/
theorem load_exact_shadowed :
    let base : Environment := [("x", .int 0)]
    let one : Definition × Value := (("x", .literal (.int 1)), .int 1)
    let f : Definition × Value :=
      (("f", .lambda [] (.reference "x")), .closure 1 [] (.reference "x") [("x", .int 1)])
    let two : Definition × Value := (("x", .literal (.int 2)), .int 2)
    let g : Definition := ("g", .reference "y")
    Evaluated 1 base {} ([one] ++ f :: [two]) { steps := 3, fresh := 2 } ∧
      (∃ mark, f.2 = .closure mark [] (.reference "x") (Overlay.extend base (bindings [one]))) ∧
      load 1 [one.1, f.1, two.1, g, ("y", .literal .nil)] base {} =
        ⟨definedRecords [one.1, f.1, two.1] ++ [Loading.failed "g" (.undefinedReference "y")],
          .failed (.definition "g" (.undefinedReference "y")) { steps := 4, fresh := 2 }⟩ := by
  intro base one f two g
  have first : Evaluated 1 base {} ([] ++ [one]) { steps := 1 } := .snoc .nil rfl
  have second : Evaluated 1 base {} ([one] ++ [f]) { steps := 2, fresh := 2 } := .snoc first rfl
  have evaluated : Evaluated 1 base {} ([one, f] ++ [two]) { steps := 3, fresh := 2 } := .snoc second rfl
  obtain ⟨_, _, failed, _, captured⟩ := load_exact 1 base {}
  refine ⟨evaluated, captured [one] "f" [] (.reference "x") f.2 [two] _ evaluated, ?_⟩
  exact (failed _ _ _ _).mpr ⟨[one, f, two], g, _, _, _, _, rfl, evaluated, rfl, .definition _, rfl⟩

end Unfurl
