import Mathlib.Data.Finset.Card
import Mathlib.Data.List.Induction
import Unfurl.Environment
import Unfurl.Proofs.Eval.Course
import Unfurl.Proofs.Overlay

/-! A name is looked up by its last pair (`get?_extend_iff`) and listed at the place of its first (`Listed`). -/

namespace Unfurl

namespace Overlay

variable {α : Type}

/-! ### The last pair of a name -/

/-- Of the pairs that bind the name, this entry is in the last. -/
def LastBinding (bound : List (Text × α)) (name : Text) (entry : α) : Prop :=
  ∃ before after, bound = before ++ (name, entry) :: after ∧ name ∉ names after

theorem lastBinding_snoc (bound : List (Text × α)) (key : Text) (new : α) (name : Text) (entry : α) :
    LastBinding (bound ++ [(key, new)]) name entry ↔
      if key = name then new = entry else LastBinding bound name entry := by
  constructor
  · rintro ⟨before, after, whole, absent⟩
    rcases List.eq_nil_or_concat after with rfl | ⟨rest, last, rfl⟩
    · obtain ⟨rfl, same⟩ := List.append_inj' whole rfl
      cases same
      rw [if_pos rfl]
    · have split : bound = before ++ (name, entry) :: rest ∧ [(key, new)] = [last] := by
        refine List.append_inj' ?_ rfl
        simpa using whole
      obtain ⟨rfl, same⟩ := split
      cases same
      simp only [names, List.concat_eq_append, List.map_append, List.map_cons, List.map_nil,
        List.mem_append, List.mem_singleton, not_or] at absent
      rw [if_neg (Ne.symm absent.2)]
      exact ⟨before, rest, rfl, absent.1⟩
  · intro here
    by_cases same : key = name
    · rw [if_pos same] at here
      subst same here
      exact ⟨bound, [], rfl, List.not_mem_nil⟩
    · rw [if_neg same] at here
      obtain ⟨before, after, rfl, absent⟩ := here
      refine ⟨before, after ++ [(key, new)], by simp, ?_⟩
      simpa [names, Ne.symm same] using absent

theorem get?_extend_iff (table pairs : List (Text × α)) (name : Text) (entry : α) :
    get? (extend table pairs) name = some entry ↔
      LastBinding pairs name entry ∨ name ∉ names pairs ∧ get? table name = some entry := by
  -- The induction takes off the last pair, since this is the one that decides.
  induction pairs using List.reverseRecOn with
  | nil => simp [extend, LastBinding, names]
  | append_singleton pairs pair ih =>
    obtain ⟨key, new⟩ := pair
    have absent : name ∉ names (pairs ++ [(key, new)]) ↔ name ∉ names pairs ∧ key ≠ name := by
      simp [names, eq_comm]
    rw [extend_append, lastBinding_snoc, absent]
    show get? (set (extend table pairs) key new) name = some entry ↔ _
    rw [get?_set]
    by_cases same : key = name
    · simp [same]
    · simp [same, ih]

theorem get?_ofPairs_iff (bound : List (Text × α)) (name : Text) (entry : α) :
    get? (ofPairs bound) name = some entry ↔ LastBinding bound name entry := by
  rw [ofPairs, get?_extend_iff]
  simp [get?]

/-! ### The order of first binding -/

/-- Each name of the history is listed once, in the order of the first occurrences. -/
structure Listed (listing history : List Text) : Prop where
  mem_iff : ∀ name, name ∈ listing ↔ name ∈ history
  ordered : listing.Pairwise fun a b => history.idxOf a < history.idxOf b

theorem Listed.set {table : List (Text × α)} {history : List Text}
    (listed : Listed (names table) history) (name : Text) (entry : α) :
    Listed (names (set table name entry)) (history ++ [name]) := by
  have kept : (names table).Pairwise fun a b => (history ++ [name]).idxOf a < (history ++ [name]).idxOf b := by
    refine listed.ordered.imp_of_mem fun {a b} memA memB before => ?_
    rw [List.idxOf_append_of_mem ((listed.mem_iff a).mp memA),
      List.idxOf_append_of_mem ((listed.mem_iff b).mp memB)]
    exact before
  rw [names_set]
  split
  · rename_i present
    refine ⟨fun x => ?_, kept⟩
    rw [listed.mem_iff, List.mem_append, List.mem_singleton]
    exact ⟨Or.inl, fun h => h.elim id fun same => same ▸ (listed.mem_iff name).mp present⟩
  · rename_i absent
    have new : name ∉ history := fun mem => absent ((listed.mem_iff name).mpr mem)
    refine ⟨fun x => by rw [List.mem_append, List.mem_append, listed.mem_iff], ?_⟩
    refine List.pairwise_append.mpr ⟨kept, List.pairwise_singleton _ _, fun a memA b memB => ?_⟩
    obtain rfl := List.mem_singleton.mp memB
    have old : a ∈ history := (listed.mem_iff a).mp memA
    rw [List.idxOf_append_of_mem old, List.idxOf_append_of_notMem new]
    have place : history.idxOf a < history.length := List.idxOf_lt_length_iff.mpr old
    omega

theorem Listed.extend {table : List (Text × α)} {history : List Text}
    (listed : Listed (names table) history) (pairs : List (Text × α)) :
    Listed (names (extend table pairs)) (history ++ names pairs) := by
  induction pairs generalizing table history with
  | nil => simpa [Overlay.extend, names] using listed
  | cons pair rest ih =>
    have later := ih (listed.set pair.1 pair.2)
    rw [List.append_assoc] at later
    exact later

theorem listed_ofPairs (bound : List (Text × α)) : Listed (names (ofPairs bound)) (names bound) := by
  have start : Listed (names ([] : List (Text × α))) [] := ⟨fun _ => Iff.rfl, List.Pairwise.nil⟩
  exact start.extend bound

theorem get?_ofPairs_none_iff (bound : List (Text × α)) (name : Text) :
    get? (ofPairs bound) name = none ↔ name ∉ names bound := by
  rw [get?_eq_none_iff, (listed_ofPairs bound).mem_iff]

namespace Listed

variable {listing history : List Text}

theorem nodup (listed : Listed listing history) : listing.Nodup :=
  listed.ordered.imp fun {a b} before same => by
    subst same
    exact Nat.lt_irrefl _ before

theorem count (listed : Listed listing history) (name : Text) :
    listing.count name = if name ∈ history then 1 else 0 := by
  split
  · rename_i present
    exact List.count_eq_one_of_mem listed.nodup ((listed.mem_iff name).mpr present)
  · rename_i absent
    exact List.count_eq_zero_of_not_mem fun mem => absent ((listed.mem_iff name).mp mem)

theorem length (listed : Listed listing history) : listing.length = history.toFinset.card := by
  rw [← List.toFinset_card_of_nodup listed.nodup]
  congr 1
  ext name
  rw [List.mem_toFinset, List.mem_toFinset, listed.mem_iff]

end Listed

end Overlay

open Overlay (LastBinding)

namespace Environment

/-! ### Look-ups -/

theorem lookup_ok {env : Environment} {name : Text} {value : Value} :
    lookup env name = .ok value ↔ Overlay.get? env name = some value := by
  unfold lookup
  cases Overlay.get? env name <;> simp

theorem lookup_error {env : Environment} {name : Text} {error : EvalError} :
    lookup env name = .error error ↔ error = .undefinedReference name ∧ Overlay.get? env name = none := by
  unfold lookup
  cases Overlay.get? env name <;> simp [eq_comm]

theorem coincides_self {env : Environment} (distinct : (Overlay.names env).Nodup) :
    coincides env env = true := by
  unfold coincides
  rw [beq_self_eq_true, Bool.true_and, List.all_eq_true]
  rintro ⟨name, value⟩ member
  simp only [Overlay.get?_of_mem distinct member, Value.quickCoincides_eq]
  exact Value.coincides_refl value

/-! ### Updates -/

def offered (pairs : List (Text × Value)) : List (Json × Value) :=
  pairs.map fun pair => (.text pair.1, pair.2)

theorem extend_offered (env : Environment) (pairs : List (Text × Value)) :
    extend env (offered pairs) = .ok (Overlay.extend env pairs) := by
  have named : offer (offered pairs) = .ok pairs := by
    induction pairs with
    | nil => rfl
    | cons pair rest ih =>
      show (offer (offered rest)).bind (fun named => .ok (pair :: named)) = _
      rw [ih]
      rfl
  unfold extend
  rw [named]
  rfl

/-- A change of an environment: pairs laid over it, or one name bound. -/
inductive Update where
  | extend (pairs : List (Text × Value))
  | define (name : Text) (value : Value)

def Update.pairs : Update → List (Text × Value)
  | .extend pairs => pairs
  | .define name value => [(name, value)]

def Update.perform (env : Environment) : Update → Except BindError Environment
  | .extend pairs => Environment.extend env (offered pairs)
  | .define name value => Environment.extend env [(.text name, value)]

def build (initial : List (Text × Value)) (updates : List Update) : Except BindError Environment := do
  let env ← extend [] (offered initial)
  updates.foldlM Update.perform env

theorem perform_eq (env : Environment) (update : Update) :
    update.perform env = .ok (Overlay.extend env update.pairs) := by
  cases update with
  | extend pairs => exact extend_offered env pairs
  | define name value => exact extend_offered env [(name, value)]

theorem performs_eq (env : Environment) (updates : List Update) :
    updates.foldlM Update.perform env = .ok (Overlay.extend env (updates.flatMap Update.pairs)) := by
  induction updates generalizing env with
  | nil => rfl
  | cons update rest ih =>
    rw [List.foldlM_cons, perform_eq, List.flatMap_cons, Overlay.extend_append]
    exact ih _

theorem build_eq (initial : List (Text × Value)) (updates : List Update) :
    build initial updates = .ok (Overlay.ofPairs (initial ++ updates.flatMap Update.pairs)) := by
  unfold build
  rw [extend_offered, Overlay.ofPairs, Overlay.extend_append]
  exact performs_eq _ updates

end Environment

/-! ### Calls -/

theorem lastBinding_zip {params : List Text} {args : List Value} (length : args.length = params.length)
    {i : Nat} {name : Text} {arg : Value} (param : params[i]? = some name)
    (last : name ∉ params.drop (i + 1)) (given : args[i]? = some arg) :
    LastBinding (params.zip args) name arg := by
  have here : (params.zip args)[i]? = some (name, arg) := by
    rw [List.getElem?_zip_eq_some]
    exact ⟨param, given⟩
  obtain ⟨inside, pair⟩ := List.getElem?_eq_some_iff.mp here
  have spelled : (params.zip args).map Prod.fst = params := List.map_fst_zip length.ge
  refine ⟨(params.zip args).take i, (params.zip args).drop (i + 1), ?_, ?_⟩
  · rw [← pair, List.getElem_cons_drop, List.take_append_drop]
  · rw [Overlay.names, List.map_drop, spelled]
    exact last

/-- Whatever the updates, the environment is there and is told by all the pairs bound so far: a name reads
as its last pair and, if it has none, is undefined; it is listed once, at the place of its first pair, and
keeps that place in every later update; the size is the number of different names. An extension by two
lists in turn is the extension by both together. In a call every occurrence of a parameter takes an
argument, and the body finds the one at the last occurrence of the name it reads. -/
theorem overlays_exact :
    (∀ (initial : List (Text × Value)) (updates : List Environment.Update),
      let bound := initial ++ updates.flatMap Environment.Update.pairs
      ∃ env, Environment.build initial updates = .ok env ∧
        (∀ name value, Environment.lookup env name = .ok value ↔ LastBinding bound name value) ∧
        (∀ name error, Environment.lookup env name = .error error ↔
          error = .undefinedReference name ∧ name ∉ Overlay.names bound) ∧
        (∀ name, Environment.lookupOffered env (.text name) = Environment.lookup env name) ∧
        (∀ name, (Overlay.names env).count name = if name ∈ Overlay.names bound then 1 else 0) ∧
        (Overlay.names env).Pairwise
          (fun a b => (Overlay.names bound).idxOf a < (Overlay.names bound).idxOf b) ∧
        (∀ update, ∃ env', Environment.Update.perform env update = .ok env' ∧
          Overlay.names env <+: Overlay.names env') ∧
        env.length = (Overlay.names bound).toFinset.card ∧
        (∀ name value, Environment.Update.perform env (.define name value) =
          .ok (Overlay.set env name value)) ∧
        ∀ xs ys, ∃ once first twice,
          Environment.extend env (Environment.offered (xs ++ ys)) = .ok once ∧
          Environment.extend env (Environment.offered xs) = .ok first ∧
          Environment.extend first (Environment.offered ys) = .ok twice ∧
          twice = once ∧ Environment.coincides twice once = true) ∧
    ∀ (mark : Mark) (params : List Text) (body : Expr) (captured : Environment) (args : List Value)
      (depth : Nat) (limit : Option Nat) (t : Tally),
      (args.length ≠ params.length →
        apply (depth + 1) (.closure mark params body captured) args limit t =
          .failed (.eval (.arityMismatch params.length args.length)) t.called) ∧
      (args.length = params.length → ∃ env,
        Environment.extend captured (Environment.offered (params.zip args)) = .ok env ∧
        apply (depth + 1) (.closure mark params body captured) args limit t =
          evaluate depth body env limit t.called ∧
        (∀ i name arg, params[i]? = some name → name ∉ params.drop (i + 1) → args[i]? = some arg →
          Environment.lookup env name = .ok arg) ∧
        ∀ name, name ∉ params → Environment.lookup env name = Environment.lookup captured name) := by
  constructor
  · intro initial updates bound
    have listed : Overlay.Listed (Overlay.names (Overlay.ofPairs bound)) (Overlay.names bound) :=
      Overlay.listed_ofPairs bound
    refine ⟨Overlay.ofPairs bound, Environment.build_eq initial updates, fun name value => ?_,
      fun name error => ?_, fun name => rfl, listed.count, listed.ordered, fun update => ?_, ?_,
      fun name value => ?_, fun xs ys => ?_⟩
    · rw [Environment.lookup_ok, Overlay.get?_ofPairs_iff]
    · rw [Environment.lookup_error, Overlay.get?_ofPairs_none_iff]
    · exact ⟨_, Environment.perform_eq _ update, Overlay.names_prefix_extend _ _⟩
    · rw [← listed.length, Overlay.names, List.length_map]
    · exact Environment.perform_eq _ (.define name value)
    · have distinct := (listed.extend (xs ++ ys)).nodup
      refine ⟨_, _, _, Environment.extend_offered _ _, Environment.extend_offered _ _,
        Environment.extend_offered _ _, (Overlay.extend_append _ xs ys).symm, ?_⟩
      rw [← Overlay.extend_append]
      exact Environment.coincides_self distinct
  · intro mark params body captured args depth limit t
    refine ⟨fun differ => apply_closure_mismatch differ depth mark body captured limit t, fun length => ?_⟩
    refine ⟨_, Environment.extend_offered _ _, apply_closure_match length depth mark body captured limit t,
      fun i name arg param last given => ?_, fun name absent => ?_⟩
    · have found := (Overlay.get?_extend_iff captured (params.zip args) name arg).mpr
        (Or.inl (lastBinding_zip length param last given))
      exact Environment.lookup_ok.mpr found
    · unfold Environment.lookup
      rw [Overlay.get?_extend_of_not_mem absent]

/-- Names that are bound again in the initial pairs, in a definition and within one extension, and a
parameter that is repeated and captured. -/
theorem overlays_exact_repeated :
    let initial : List (Text × Value) := [("a", .int 1), ("b", .int 2), ("a", .int 3)]
    let updates : List Environment.Update :=
      [.define "b" (.int 4), .extend [("c", .int 5), ("a", .int 6), ("c", .int 7)]]
    let captured : Environment := [("z", .int 8), ("x", .int 9)]
    let body : Expr := .vector [.reference "x", .reference "z"]
    let fn : Value := .closure 1 ["x", "y", "x"] body captured
    (∃ env, Environment.build initial updates = .ok env ∧ Environment.lookup env "a" = .ok (.int 6) ∧
      Environment.lookup env "d" = .error (.undefinedReference "d") ∧ env.length = 3) ∧
    apply 3 fn [.int 1, .int 2] none {} = .failed (.eval (.arityMismatch 3 2)) { applications := 1 } ∧
    ∃ env, apply 3 fn [.int 1, .int 2, .int 3] none {} = evaluate 2 body env none { applications := 1 } ∧
      Environment.lookup env "x" = .ok (.int 3) ∧ Environment.lookup env "z" = .ok (.int 8) := by
  intro initial updates captured body fn
  obtain ⟨built, calls⟩ := overlays_exact
  obtain ⟨env, made, found, missing, _, _, _, _, size, _⟩ := built initial updates
  obtain ⟨refused, _⟩ := calls 1 ["x", "y", "x"] body captured [.int 1, .int 2] 2 none {}
  obtain ⟨_, taken⟩ := calls 1 ["x", "y", "x"] body captured [.int 1, .int 2, .int 3] 2 none {}
  obtain ⟨scope, _, ran, seen, outside⟩ := taken rfl
  have last : LastBinding (initial ++ updates.flatMap Environment.Update.pairs) "a" (.int 6) :=
    ⟨initial.append [("b", .int 4), ("c", .int 5)], [("c", .int 7)], rfl, by decide⟩
  refine ⟨⟨env, made, (found _ _).mpr last, (missing _ _).mpr ⟨rfl, by decide⟩, size⟩,
    refused (by decide), scope, ran, ?_, ?_⟩
  · exact seen 2 "x" (.int 3) rfl (by decide) rfl
  · exact outside "z" (by decide)

end Unfurl
