import Unfurl.Definitions.Starting
import Unfurl.Proofs.Session.Answer

namespace Unfurl

variable {depth : Nat} {s : Session} {requests : List Request}

/-- The definitions that succeeded, with their values, in order. -/
def successes (requests : List Request) (replies : List Reply) : List (Definition × Value) :=
  (requests.zip replies).filterMap fun pair => pair.1.defined pair.2

theorem successes_cons (r : Request) (reply : Reply) (requests : List Request) (replies : List Reply) :
    successes (r :: requests) (reply :: replies) =
      (r.defined reply).toList ++ successes requests replies := by
  rw [successes, List.zip_cons_cons, List.filterMap_cons]
  cases r.defined reply <;> rfl

namespace Session

theorem answers_cons (depth : Nat) (s : Session) (r : Request) (rest : List Request) :
    s.answers depth (r :: rest) =
      ((s.answer depth r).1 :: ((s.answer depth r).2.answers depth rest).1,
        ((s.answer depth r).2.answers depth rest).2) := rfl

theorem answer_env (depth : Nat) (s : Session) (r : Request) :
    (s.answer depth r).2.env = bind s.env (r.defined (s.answer depth r).1) := by
  rw [answer_eq]

theorem answer_maxSteps (depth : Nat) (s : Session) (r : Request) :
    (s.answer depth r).2.maxSteps = s.maxSteps := by
  rw [answer_eq]

theorem answers_env (depth : Nat) (s : Session) (requests : List Request) :
    (s.answers depth requests).2.env =
      Overlay.extend s.env ((successes requests (s.answers depth requests).1).map fun x => (x.1.1, x.2)) := by
  induction requests generalizing s with
  | nil => rfl
  | cons r rest ih =>
    rw [answers_cons, successes_cons]
    rw [ih, answer_env]
    cases r.defined (s.answer depth r).1 <;> rfl

theorem answers_maxSteps (depth : Nat) (s : Session) (requests : List Request) :
    (s.answers depth requests).2.maxSteps = s.maxSteps := by
  induction requests generalizing s with
  | nil => rfl
  | cons r rest ih => rw [answers_cons, ih, answer_maxSteps]

theorem answers_reply (depth : Nat) (s : Session) (before : List Request) (r : Request) (after : List Request) :
    (s.answers depth (before ++ r :: after)).1[before.length]? =
      some ((s.answers depth before).2.answer depth r).1 := by
  induction before generalizing s with
  | nil => rfl
  | cons first rest ih =>
    simp only [List.cons_append, answers_cons, List.length_cons, List.getElem?_cons_succ]
    exact ih _

/-- Each request mentions only functions and NaNs that are there when it is made. -/
def Admits (depth : Nat) : Session → List Request → Prop
  | _, [] => True
  | s, r :: rest => EachMark (· < s.tally.fresh) r.marked ∧ Admits depth (s.answer depth r).2 rest

theorem admits_of_plain (plain : ∀ r ∈ requests, r.marked = []) : s.Admits depth requests := by
  induction requests generalizing s with
  | nil => trivial
  | cons r rest ih =>
    refine ⟨?_, ih fun r' member => plain r' (List.mem_cons_of_mem _ member)⟩
    simp [plain r List.mem_cons_self, EachMark]

/-- Wherever a sequence of requests has got to, the next one fits. -/
theorem answers_fit {before : List Request} {r : Request} {after : List Request}
    (env : EachMark (· < s.tally.fresh) (Value.markedEnv s.env))
    (admits : s.Admits depth (before ++ r :: after)) : (s.answers depth before).2.Fits r := by
  induction before generalizing s with
  | nil => exact ⟨env, admits.1⟩
  | cons first rest ih => exact ih (answer_below depth ⟨env, admits.1⟩).2 admits.2

end Session

/-! ### Loads alongside sessions -/

/-- A load has reached the environment and the tally, and the session the same up to marks. -/
structure Tracks (base : Mark) (ρ ρ' : Mark → Mark) (env : Environment) (t : Tally) (s : Session) : Prop where
  embeds : Embeds t.fresh s.tally.fresh ρ ρ'
  fixed : ∀ m < base, ρ m = m ∧ ρ' m = m
  start : base ≤ t.fresh ∧ base ≤ s.tally.fresh
  bound : EachMark (· < t.fresh) (Value.markedEnv env)
  env : s.env = Value.renameEnv ρ env

namespace Tracks

variable {base : Mark} {ρ ρ' : Mark → Mark} {env : Environment} {t : Tally} {r : Request}

/-- A request that defines nothing only moves the marks on. -/
theorem skip (tracks : Tracks base ρ ρ' env t s) (fits : s.Fits r)
    (undefined : r.defined (s.answer depth r).1 = none) : Tracks base ρ ρ' env t (s.answer depth r).2 := by
  have later := (Session.answer_below depth fits).1
  refine ⟨tracks.embeds.later later, tracks.fixed, ?_, tracks.bound, ?_⟩
  · exact ⟨tracks.start.1, Nat.le_trans tracks.start.2 later⟩
  · rw [Session.answer_env, undefined]
    exact tracks.env

/-- A definition that succeeds under the step limit of the session succeeds without one. -/
theorem define_unlimited {name : Text} {e : Expr} {v : Value}
    (ok : (s.answer depth (.define name e)).1.result = .ok v) :
    evaluate depth e s.env none { s.tally with steps := 0 } =
      .done v (s.answer depth (.define name e)).2.tally := by
  rw [Session.answer_eq] at ok ⊢
  rcases Session.attempt_cases depth s (.define name e) with ⟨e', same⟩ | ⟨run, limit, o, work, _, ends, same⟩
  · rw [same] at ok
    cases ok
  · rw [same] at ok ⊢
    cases work
    have done := Outcome.result_ok ok
    cases limit with
    | none => exact ends.trans done
    | some n =>
      obtain ⟨_, ⟨_, unlimited⟩ | ⟨_, _, _, stopped⟩⟩ :=
        (depth_exact depth).1 e s.env n { s.tally with steps := 0 } (Nat.zero_le n)
      · rw [← unlimited]
        exact ends.trans done
      · rw [ends, done] at stopped
        cases stopped

theorem define (tracks : Tracks base ρ ρ' env t s) {d : Definition} {v : Value}
    (defined : r.defined (s.answer depth r).1 = some (d, v)) (code : EachMark (· < base) d.2.marked) :
    ∃ w t', evaluate depth d.2 env none t = .done w t' ∧
      Tracks base (splice t.fresh s.tally.fresh ρ) (splice s.tally.fresh t.fresh ρ')
        (Overlay.set env d.1 w) t' (s.answer depth r).2 := by
  obtain ⟨rfl, ok⟩ := Request.defined_some defined
  have unlimited := define_unlimited ok
  let ρ₁ := splice t.fresh s.tally.fresh ρ
  have fixed : ∀ m < base, ρ₁ m = m ∧ splice s.tally.fresh t.fresh ρ' m = m := by
    intro m below
    rw [splice_below (Nat.lt_of_lt_of_le below tracks.start.2)]
    exact ⟨(splice_below (Nat.lt_of_lt_of_le below tracks.start.1)).trans (tracks.fixed m below).1,
      (tracks.fixed m below).2⟩
  have old : Value.renameEnv ρ₁ env = s.env := by
    rw [tracks.env]
    exact Value.renameEnv_congr (tracks.bound.imp fun m below => splice_below below)
  have aligned : ∀ k, ρ₁ (t.fresh + k) = ({ s.tally with steps := 0 } : Tally).fresh + k :=
    splice_aligned t.fresh s.tally.fresh ρ
  have twins := evaluate_twins tracks.embeds.injective aligned (Or.inl rfl) depth d.2 env
  rw [Expr.rename_eq_self (code.imp fun m below => (fixed m below).1), old, unlimited] at twins
  have below := evaluate_below depth
    (code.imp fun m below => Nat.lt_of_lt_of_le below tracks.start.1) tracks.bound none
  cases loaded : evaluate depth d.2 env none t with
  | failed e t' =>
    rw [loaded] at twins
    cases twins
  | exhausted t' =>
    rw [loaded] at twins
    cases twins
  | done w t' =>
    rw [loaded] at twins below
    obtain ⟨later, value⟩ := below
    cases twins with
    | done renamed tallies =>
      obtain ⟨⟨k, fresh, fresh'⟩, _⟩ := tallies
      refine ⟨w, t', rfl, ?_, fixed, ?_, ?_, ?_⟩
      · rw [fresh, fresh']
        exact tracks.embeds.grow k
      · rw [fresh, fresh']
        exact ⟨Nat.le_trans tracks.start.1 (Nat.le_add_right _ _),
          Nat.le_trans tracks.start.2 (Nat.le_add_right _ _)⟩
      · intro u member
        rcases mem_marked_set member with here | before
        · exact value w t' rfl u here
        · exact fun m mark => Nat.lt_of_lt_of_le (tracks.bound u before m mark) later
      · rw [Session.answer_env, defined, Session.bind, ← set_renameEnv, old, renamed]

/-- The load of the definitions that succeed goes alongside the whole session. -/
theorem answers (tracks : Tracks base ρ ρ' env t s)
    (marks : EachMark (· < s.tally.fresh) (Value.markedEnv s.env)) (admits : s.Admits depth requests)
    (codes : ∀ x ∈ successes requests (s.answers depth requests).1, EachMark (· < base) x.1.2.marked) :
    ∃ σ σ' env' t', Tracks base σ σ' env' t' (s.answers depth requests).2 ∧
      (load depth ((successes requests (s.answers depth requests).1).map Prod.fst) env t).outcome =
        .done env' t' := by
  -- The renaming grows with every definition that succeeds and stays as it is at every other request.
  induction requests generalizing s ρ ρ' env t with
  | nil => exact ⟨ρ, ρ', env, t, tracks, rfl⟩
  | cons r rest ih =>
    have fits : s.Fits r := ⟨marks, admits.1⟩
    have next := (Session.answer_below depth fits).2
    rw [Session.answers_cons, successes_cons] at codes ⊢
    cases defined : r.defined (s.answer depth r).1 with
    | none =>
      rw [defined] at codes
      exact ih (tracks.skip fits defined) next admits.2 codes
    | some pair =>
      obtain ⟨d, v⟩ := pair
      rw [defined] at codes
      obtain ⟨w, t₁, loaded, tracks₁⟩ := tracks.define defined (codes (d, v) List.mem_cons_self)
      obtain ⟨σ, σ', env', t', last, done⟩ :=
        ih tracks₁ next admits.2 fun x member => codes x (List.mem_cons_of_mem _ member)
      refine ⟨σ, σ', env', t', last, ?_⟩
      show (load depth (d :: List.map Prod.fst _) env t).outcome = _
      rw [load, loaded]
      exact done

end Tracks

/-- A load from another tally is the same load with the marks that it makes renamed. -/
theorem load_twins {ρ : Mark → Mark} (injective : Function.Injective ρ) {defs : List Definition}
    (codes : ∀ d ∈ defs, EachMark (fun m => ρ m = m) d.2.marked) {env env₁ : Environment} {t t' t₁ : Tally}
    (aligned : ∀ k, ρ (t.fresh + k) = t'.fresh + k) (done : (load depth defs env t).outcome = .done env₁ t₁) :
    ∃ t₁', (load depth defs (Value.renameEnv ρ env) t').outcome = .done (Value.renameEnv ρ env₁) t₁' := by
  induction defs generalizing env t t' with
  | nil =>
    cases done
    exact ⟨t', rfl⟩
  | cons d rest ih =>
    obtain ⟨code, codes⟩ := List.forall_mem_cons.mp codes
    have twins := evaluate_twins injective aligned (Or.inl rfl) depth d.2 env
    rw [Expr.rename_eq_self code] at twins
    cases run : evaluate depth d.2 env none t with
    | done v u =>
      cases run' : evaluate depth d.2 (Value.renameEnv ρ env) none t' with
      | done w u' =>
        rw [run, run'] at twins
        cases twins with
        | done renamed tallies =>
          obtain ⟨⟨k, fresh, fresh'⟩, _⟩ := tallies
          have later : ∀ j, ρ (u.fresh + j) = u'.fresh + j := by
            intro j
            rw [fresh, fresh', Nat.add_assoc, aligned, Nat.add_assoc]
          simp only [load, run] at done
          simp only [load, run', renamed, set_renameEnv]
          exact ih codes later done
      | failed => rw [run, run'] at twins; cases twins
      | exhausted => rw [run, run'] at twins; cases twins
    | failed fault u =>
      simp only [load, run] at done
      cases fault <;> cases done
    | exhausted => simp only [load, run] at done; cases done

/-- A sequence of requests changes the environment by the definitions that succeed, in order, and a request
that fails leaves it as it is. Each reply is, in result and steps, that of a fresh session with the
environment reached so far, and loading the definitions that succeeded, then or later, leads to the environment
of the end, both up to the marks of what is made on the way. A request mentions only what is there when it is
made; the definitions that are loaded, only what was there before the session. -/
theorem session_refines (depth : Nat) (s : Session) (requests : List Request) :
    (s.answers depth requests).2.env = Overlay.extend s.env
      ((successes requests (s.answers depth requests).1).map fun x => (x.1.1, x.2)) ∧
    (∀ before r after, requests = before ++ r :: after →
      let here := (s.answers depth before).2
      (s.answers depth requests).1[before.length]? = some (here.answer depth r).1 ∧
        ∀ e, (here.answer depth r).1.result = .error e → (here.answer depth r).2.env = here.env) ∧
    (EachMark (· < s.tally.fresh) (Value.markedEnv s.env) → s.Admits depth requests →
      (∀ before r after, requests = before ++ r :: after → ∀ t : Tally,
        let here := (s.answers depth before).2
        let fresh : Session := { env := here.env, maxSteps := s.maxSteps, tally := t }
        fresh.Fits r →
          (here.answer depth r).1.Alike (min here.tally.fresh t.fresh) (fresh.answer depth r).1) ∧
      ((∀ x ∈ successes requests (s.answers depth requests).1,
          EachMark (· < s.tally.fresh) x.1.2.marked) →
        ∀ t₀ : Tally, s.tally.fresh ≤ t₀.fresh → ∃ (env : Environment) (t : Tally) (ρ ρ' : Mark → Mark),
          (load depth ((successes requests (s.answers depth requests).1).map Prod.fst) s.env t₀).outcome =
            .done env t ∧
          (∀ m < s.tally.fresh, ρ m = m ∧ ρ' m = m) ∧
          (s.answers depth requests).2.env = Value.renameEnv ρ env ∧
          env = Value.renameEnv ρ' (s.answers depth requests).2.env)) := by
  refine ⟨Session.answers_env depth s requests, ?_, fun marks admits => ⟨?_, fun codes t₀ later => ?_⟩⟩
  · rintro before r after rfl
    refine ⟨Session.answers_reply depth s before r after, fun e failed => ?_⟩
    rw [Session.answer_env]
    cases h : ((s.answers depth before).2.answer depth r).1 with
    | mk result steps =>
      rw [h] at failed
      rw [show result = .error e from failed, Request.defined_error]
      rfl
  · rintro before r after rfl t here fresh fits
    have same : here.maxSteps = s.maxSteps := Session.answers_maxSteps depth s before
    have whole : fresh = { here with tally := t } := by simp only [fresh, ← same]
    rw [whole] at fits ⊢
    exact Session.answer_alike (Session.answers_fit marks admits) fits
  · have start : Tracks s.tally.fresh id id s.env s.tally s :=
      ⟨.refl (Nat.le_refl _), fun _ _ => ⟨rfl, rfl⟩, ⟨Nat.le_refl _, Nat.le_refl _⟩, marks,
        (Value.renameEnv_id s.env).symm⟩
    obtain ⟨ρ, ρ', env, t, tracks, done⟩ := start.answers marks admits codes
    -- The load alongside the session, which shares its first mark, is renamed to the one from `t₀`.
    have embeds : Embeds s.tally.fresh t₀.fresh id id := .refl later
    let σ := splice s.tally.fresh t₀.fresh id
    let σ' := splice t₀.fresh s.tally.fresh id
    have fixed : ∀ m < s.tally.fresh, σ m = m ∧ σ' m = m := fun m below =>
      ⟨splice_below below, splice_below (Nat.lt_of_lt_of_le below later)⟩
    have loaded : ∀ d ∈ (successes requests (s.answers depth requests).1).map Prod.fst,
        EachMark (fun m => σ m = m) d.2.marked := by
      rintro _ member
      obtain ⟨x, success, rfl⟩ := List.mem_map.mp member
      exact (codes x success).imp fun m below => (fixed m below).1
    obtain ⟨t', done'⟩ := load_twins embeds.injective loaded (splice_aligned _ _ _) done
    rw [Value.renameEnv_eq_self (marks.imp fun m below => (fixed m below).1)] at done'
    refine ⟨Value.renameEnv σ env, t', ρ ∘ σ', σ ∘ ρ', done', fun m below => ?_, ?_, ?_⟩
    · simp only [Function.comp_apply, fixed m below, tracks.fixed m below, and_self]
    · rw [tracks.env]
      refine (Value.renameEnv_renameEnv env fun u _ m _ => ?_).symm
      exact congrArg ρ (embeds.splice_back m)
    · rw [tracks.env]
      refine (Value.renameEnv_renameEnv env (tracks.bound.imp fun m below => ?_)).symm
      exact congrArg σ (tracks.embeds.back m below)

/-- Two definitions that succeed, with a failure, a call, a text that is none and a definition beyond the
step limit between them. -/
theorem session_refines_interleaved :
    let s : Session := { env := (genesis {}).1, maxSteps := some 3, tally := (genesis {}).2 }
    let requests : List Request :=
      [.define "f" (.lambda ["x"] (.reference "x")), .eval (.reference "nope"), .call (.text "f") [.int 1],
        .evalText "[", .define "g" (.vector [.reference "f", .reference "f", .reference "f"]),
        .define "h" (.vector [.reference "f", .lambda ["y"] (.reference "f")])]
    let defined := successes requests (s.answers 5 requests).1
    EachMark (· < s.tally.fresh) (Value.markedEnv s.env) ∧ s.Admits 5 requests ∧
      defined.map (·.1.1) = (["f", "h"] : List Text) ∧ (∀ x ∈ defined, EachMark (· < s.tally.fresh) x.1.2.marked) ∧
      s.tally.fresh ≤ (s.answers 5 requests).2.tally.fresh ∧
      ∃ (env : Environment) (t : Tally) (ρ : Mark → Mark),
        (load 5 (defined.map Prod.fst) s.env (s.answers 5 requests).2.tally).outcome = .done env t ∧
        (s.answers 5 requests).2.env = Value.renameEnv ρ env := by
  intro s requests defined
  have marks : EachMark (· < s.tally.fresh) (Value.markedEnv s.env) := by decide +kernel
  have plain : ∀ r ∈ requests, r.marked = [] := by
    simp only [← List.isEmpty_iff]
    decide +kernel
  have admits : s.Admits 5 requests := Session.admits_of_plain plain
  have names : defined.map (·.1.1) = (["f", "h"] : List Text) := by decide +kernel
  have codes : ∀ x ∈ defined, EachMark (· < s.tally.fresh) x.1.2.marked := by decide +kernel
  have later : s.tally.fresh ≤ (s.answers 5 requests).2.tally.fresh := by decide +kernel
  obtain ⟨env, t, ρ, _, done, _, same, _⟩ := ((session_refines 5 s requests).2.2 marks admits).2 codes _ later
  exact ⟨marks, admits, names, codes, later, env, t, ρ, done, same⟩

/-- Where a definition mentions a function that the session has made, a load after the session makes another
one, and the environments differ in a truth value. And one expression that is evaluated twice in one
environment gives two NaNs that are not the same. -/
theorem session_parts_from_load :
    let s : Session :=
      { env := [("eq?", .builtin 0 "eq?" .eq), ("-", .builtin 1 "-" .sub)], tally := { fresh := 2 } }
    let fn (m : Mark) : Value := .closure m ["x"] (.reference "x") s.env
    let requests : List Request :=
      [.define "f" (.lambda ["x"] (.reference "x")), .define "g" (.call "eq?" [.reference "f", .literal (fn 2)])]
    let defined := (successes requests (s.answers 4 requests).1).map Prod.fst
    let loaded : Environment := Overlay.extend s.env [("f", fn 4), ("g", .bool false)]
    let difference : Expr := .call "-" [.literal (.float (.infinite false)), .literal (.float (.infinite false))]
    ((s.answers 4 requests).1.map Reply.result = [.ok (fn 2), .ok (.bool true)] ∧
      (∃ t, (load 4 defined s.env (s.answers 4 requests).2.tally).outcome = .done loaded t) ∧
      ∀ ρ, (s.answers 4 requests).2.env ≠ Value.renameEnv ρ loaded) ∧
    (s.answers 4 [.eval difference, .eval difference]).1.map Reply.result =
        [.ok (.float (.nan 2)), .ok (.float (.nan 3))] ∧
      (Value.float (.nan 2)).same false (.float (.nan 3)) = false := by
  intro s fn requests defined loaded difference
  have ends : (s.answers 4 requests).2.env = Overlay.extend s.env [("f", fn 2), ("g", .bool true)] := rfl
  refine ⟨⟨rfl, ⟨_, rfl⟩, fun ρ same => ?_⟩, rfl, by decide⟩
  have found := congrArg (fun env : Environment => Overlay.get? env "g") (ends.symm.trans same)
  simp only [get?_renameEnv] at found
  cases found

end Unfurl
