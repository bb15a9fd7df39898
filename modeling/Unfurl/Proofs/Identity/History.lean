import Unfurl.Proofs.Identity.Stage

namespace Unfurl

/-! ### Starting environments -/

/-- The stage `s'` is sound and comes after `s`, and the environment binds nothing else. -/
structure Stage.Binds (old : Value → Prop) (s s' : Stage) (env : Environment) : Prop where
  sound : s'.Sound
  later : s.Before s'
  covers : s'.Covers old (Value.markedEnv env)

section Starting

variable {old : Value → Prop} {s : Stage} {made : List Value} {env env' : Environment} {t t' : Tally}

theorem builtins_bind (ops : List Primitive) {mark : Mark} (binds : s.Binds old ⟨made, mark⟩ env) :
    s.Binds old ⟨made ++ builtinsFrom mark ops, mark + ops.length⟩ (bindFrom mark ops env) := by
  induction ops generalizing env made mark with
  | nil => simpa [builtinsFrom, bindFrom] using binds
  | cons op rest ih =>
    have later : Stage.Before ⟨made, mark⟩ ⟨made ++ [.builtin mark op.name op], mark + 1⟩ :=
      ⟨List.prefix_append _ _, Nat.le_succ _⟩
    have next : s.Binds old ⟨made ++ [.builtin mark op.name op], mark + 1⟩
        (Overlay.set env op.name (.builtin mark op.name op)) := by
      refine ⟨binds.sound.make rfl rfl, binds.later.trans later, fun u member => ?_⟩
      rcases mem_marked_set member with here | before
      · rw [List.mem_singleton.mp here]
        exact Or.inr (Or.inl (List.mem_append_right _ (List.mem_singleton.mpr rfl)))
      · exact (binds.covers u before).later later
    have last := ih next
    rw [List.append_assoc, Nat.add_assoc, Nat.add_comm 1] at last
    exact last

theorem load_binds {depth : Nat} {defs : List Definition} (plain : ∀ d ∈ defs, d.2.marked = [])
    (binds : s.Binds old ⟨made, t.fresh⟩ env)
    (done : (load depth defs env t).outcome = .done env' t') :
    s.Binds old ⟨made ++ madeByLoad depth defs env t, t'.fresh⟩ env' := by
  induction defs generalizing env made t with
  | nil =>
    cases done
    simpa [madeByLoad] using binds
  | cons d rest ih =>
    obtain ⟨name, e⟩ := d
    have code : Stage.Covers old ⟨made, t.fresh⟩ e.marked := by
      rw [plain (name, e) List.mem_cons_self]
      exact Stage.covers_nil
    have ends := (note_keeps old depth).1 _ e env code binds.covers none t made (.refl _) binds.sound
    rw [(note_run depth).1] at ends
    rw [load] at done
    rw [madeByLoad, ← List.append_assoc]
    cases h : evaluate depth e env none t with
    | done v t₁ =>
      rw [h] at ends done
      refine ih (fun d member => plain d (List.mem_cons_of_mem _ member)) ?_ done
      refine ⟨ends.sound, binds.later.trans ends.later, fun u member => ?_⟩
      rcases mem_marked_set member with here | before
      · exact ends.meets u here
      · exact (binds.covers u before).later ends.later
    | failed fault t₁ =>
      rw [h] at done
      cases fault <;> cases done
    | exhausted t₁ =>
      rw [h] at done
      cases done

theorem genesisDefinitions_plain : ∀ d ∈ genesisDefinitions, d.2.marked = [] := by
  simp only [← List.isEmpty_iff]
  decide +kernel

theorem prelude_plain : ∀ d ∈ Prelude.definitions, d.2.marked = [] := by
  simp only [← List.isEmpty_iff]
  decide +kernel

theorem starting_binds (old : Value → Prop) {start : Starting} {depth : Nat}
    (sound : Stage.Sound ⟨made, t.fresh⟩) (done : (start.load depth t).outcome = .done env t') :
    Stage.Binds old ⟨made, t.fresh⟩ ⟨made ++ start.made depth t, t'.fresh⟩ env := by
  have nothing : Stage.Binds old ⟨made, t.fresh⟩ ⟨made, t.fresh⟩ [] :=
    ⟨sound, .refl _, Stage.covers_nil⟩
  have primitives := builtins_bind genesisPrimitives nothing
  have markers : ∀ {env t'}, (bootstrap depth t).outcome = .done env t' →
      Stage.Binds old ⟨made, t.fresh⟩ ⟨made ++ madeByBootstrap depth t, t'.fresh⟩ env := by
    intro env t' done
    have last := load_binds (t := (genesis t).2) genesisDefinitions_plain primitives done
    rw [List.append_assoc] at last
    exact last
  cases start with
  | empty =>
    cases done
    simpa [Starting.made] using nothing
  | genesis =>
    cases done
    exact primitives
  | bootstrap => exact markers done
  | prelude =>
    simp only [Starting.load, Loading.bind] at done
    rw [Starting.made, ← List.append_assoc]
    cases h : (bootstrap depth t).outcome with
    | done env₁ t₁ =>
      rw [h] at done
      exact load_binds prelude_plain (markers h) done
    | failed e t₁ =>
      rw [h] at done
      cases done
    | exhausted t₁ =>
      rw [h] at done
      cases done

end Starting

/-! ### Histories -/

/-- What operations have brought forth: the functions in the order in which they were made, the values that
were returned or that failures mentioned, and the environments. -/
structure History where
  fresh : Mark := 1
  made : List Value := []
  values : List Value := []
  envs : List Environment := []

def Outcome.values : Outcome Fault Value → List Value
  | .done v _ => [v]
  | .failed fault _ => fault.values
  | .exhausted _ => []

namespace History

def marked (h : History) : List Value := Value.markedAll h.values ++ h.envs.flatMap Value.markedEnv

def Knows (h : History) (us : List Value) : Prop := ∀ f ∈ us, f.isFunction = true → f ∈ h.marked

def after (h : History) (o : Outcome Fault Value) (made : List Value) : History where
  fresh := o.tally.fresh
  made := h.made ++ made
  values := h.values ++ o.values
  envs := h.envs

theorem knows_value {h : History} {v : Value} (member : v ∈ h.values) : h.Knows v.marked := by
  intro f inside _
  refine List.mem_append_left _ ?_
  rw [Value.markedAll_eq]
  exact List.mem_flatMap.mpr ⟨v, member, inside⟩

theorem knows_env {h : History} {env : Environment} (member : env ∈ h.envs) :
    h.Knows (Value.markedEnv env) := fun _ inside _ =>
  List.mem_append_right _ (List.mem_flatMap.mpr ⟨env, member, inside⟩)

inductive Step (h : History) : History → Prop
  | start (which : Starting) (depth : Nat) {t t' : Tally} {env : Environment} : t.fresh = h.fresh →
      (which.load depth t).outcome = .done env t' →
      h.Step { h with fresh := t'.fresh, made := h.made ++ which.made depth t, envs := h.envs ++ [env] }
  | evaluate (e : Expr) (env : Environment) (depth : Nat) (limit : Option Nat) {t : Tally} :
      t.fresh = h.fresh → h.Knows e.marked → h.Knows (Value.markedEnv env) →
      h.Step (h.after (evaluate depth e env limit t) ((note depth e env).made limit t))
  | apply (fn : Value) (args : List Value) (depth : Nat) (limit : Option Nat) {t : Tally} :
      t.fresh = h.fresh → h.Knows fn.marked → h.Knows (Value.markedAll args) →
      h.Step (h.after (apply depth fn args limit t) ((noteCall depth fn args).made limit t))
  | define (env : Environment) (name : Text) (v : Value) : h.Knows (Value.markedEnv env) →
      h.Knows v.marked → h.Step { h with envs := h.envs ++ [Overlay.set env name v] }

inductive Arises : History → Prop
  | nothing (fresh : Mark) : Arises { fresh }
  | step {h h' : History} : Arises h → h.Step h' → Arises h'

/-- Every function that can be reached is among those made, and the marks are in order. -/
structure Accounted (h : History) : Prop where
  sound : Stage.Sound ⟨h.made, h.fresh⟩
  covers : Stage.Covers (fun u => u.isFunction = false) ⟨h.made, h.fresh⟩ h.marked

variable {h h' : History}

theorem Accounted.knows (accounted : h.Accounted) {us : List Value} (knows : h.Knows us) :
    Stage.Covers (fun u => u.isFunction = false) ⟨h.made, h.fresh⟩ us := by
  intro u member
  cases function : u.isFunction with
  | false => exact Or.inl function
  | true => exact accounted.covers u (knows u member function)

theorem Accounted.after (accounted : h.Accounted) {x : Noted Value}
    (keeps : x.Keeps (fun u => u.isFunction = false) ⟨h.made, h.fresh⟩
      (Stage.Knows fun u => u.isFunction = false))
    (limit : Option Nat) {t : Tally} (fresh : t.fresh = h.fresh) :
    (h.after (x.run limit t) (x.made limit t)).Accounted := by
  rw [← fresh] at keeps
  have sound := accounted.sound
  have covers := accounted.covers
  rw [← fresh] at sound covers
  have ends := keeps limit t h.made (.refl _) sound
  refine ⟨ends.sound, ?_⟩
  obtain ⟨values, envs⟩ := Stage.covers_append.mp covers
  refine Stage.covers_append.mpr ⟨Stage.covers_markedAll.mpr fun v member => ?_, envs.later ends.later⟩
  rcases List.mem_append.mp member with before | new
  · exact (Stage.covers_markedAll.mp values v before).later ends.later
  · have meets := ends.meets
    cases h' : x.run limit t with
    | done w t' =>
      rw [h'] at meets new
      rw [List.mem_singleton.mp new]
      exact meets
    | failed fault t' =>
      rw [h'] at meets new
      exact Stage.covers_markedAll.mp meets v new
    | exhausted t' =>
      rw [h'] at new
      cases new

/-- An environment of known functions can be added at any later stage. -/
theorem Accounted.bind (accounted : h.Accounted) {s : Stage} {env : Environment}
    (binds : Stage.Binds (fun u => u.isFunction = false) ⟨h.made, h.fresh⟩ s env) :
    Accounted { h with fresh := s.fresh, made := s.made, envs := h.envs ++ [env] } := by
  refine ⟨binds.sound, ?_⟩
  obtain ⟨values, envs⟩ := Stage.covers_append.mp (accounted.covers.later binds.later)
  refine Stage.covers_append.mpr ⟨values, ?_⟩
  rw [List.flatMap_append, List.flatMap_singleton]
  exact Stage.covers_append.mpr ⟨envs, binds.covers⟩

theorem Accounted.step (accounted : h.Accounted) (step : h.Step h') : h'.Accounted := by
  cases step with
  | start which depth fresh done =>
    have sound := accounted.sound
    rw [← fresh] at sound
    have binds := starting_binds (fun u => u.isFunction = false) sound done
    rw [fresh] at binds
    exact accounted.bind binds
  | evaluate e env depth limit fresh code bound =>
    have keeps := (note_keeps _ depth).1 _ e env (accounted.knows code) (accounted.knows bound)
    have after := accounted.after keeps limit fresh
    rwa [(note_run depth).1] at after
  | apply fn args depth limit fresh knows covers =>
    have keeps := (note_keeps _ depth).2 _ fn args (accounted.knows knows) (accounted.knows covers)
    have after := accounted.after keeps limit fresh
    rwa [(note_run depth).2] at after
  | define env name v bound knows =>
    refine accounted.bind (s := ⟨h.made, h.fresh⟩) ⟨accounted.sound, .refl _, fun u member => ?_⟩
    rcases mem_marked_set member with here | before
    · exact accounted.knows knows u here
    · exact accounted.knows bound u before

theorem Arises.accounted (arises : h.Arises) : h.Accounted := by
  induction arises with
  | nothing fresh => exact ⟨.nothing fresh, Stage.covers_nil⟩
  | step _ step ih => exact ih.step step

/-- Operations add to the functions made and never drop one. -/
theorem Step.made_prefix (step : h.Step h') : h.made <+: h'.made := by
  cases step with
  | define => exact List.prefix_rfl
  | _ => exact List.prefix_append _ _

def Reaches (h : History) (f : Value) : Prop := f.isFunction = true ∧ f ∈ h.marked

theorem Accounted.made (accounted : h.Accounted) {f : Value} (reaches : h.Reaches f) : f ∈ h.made := by
  rcases accounted.covers f reaches.2 with data | made | ⟨m, _, rfl⟩
  · rw [reaches.1] at data
    cases data
  · exact made
  · cases reaches.1

end History

/-! ### Equality of functions -/

theorem Value.same_mark {f g : Value} {strict : Bool} (function : f.isFunction = true)
    (same : f.same strict g = true) : f.mark? = g.mark? := by
  cases f with
  | closure m params body env =>
    cases g <;> simp_all [Value.same, Value.mark?]
  | builtin m name op =>
    cases g <;> simp_all [Value.same, Value.mark?]
  | unfolding m fn env =>
    cases g <;> simp_all [Value.same, Value.mark?]
  | _ => cases function

theorem Stage.Sound.same_iff {s : Stage} (sound : s.Sound) {f g : Value} {i j : Nat}
    (first : s.made[i]? = some f) (second : s.made[j]? = some g) (strict : Bool) :
    f.same strict g = true ↔ i = j := by
  constructor
  · intro same
    have function := sound.functions f (List.mem_of_getElem? first)
    have marks := Value.same_mark function same
    have bound : i < (s.made.map Value.mark?).length := by
      simpa using (List.getElem?_eq_some_iff.mp first).1
    -- No mark occurs twice in the list, so equal marks stand at one place.
    refine (List.getElem?_inj bound sound.distinct).mp ?_
    rw [List.getElem?_map, List.getElem?_map, first, second, Option.map_some, Option.map_some, marks]
  · rintro rfl
    rw [first] at second
    cases second
    exact Value.same_refl strict f

/-- A function that is made later is unequal to all that were made before it. -/
theorem Stage.Sound.later_differs {earlier new : List Value} {fresh : Mark}
    (sound : Stage.Sound ⟨earlier ++ new, fresh⟩) {f g : Value} (later : f ∈ new) (before : g ∈ earlier)
    (strict : Bool) : f.same strict g = false := by
  have distinct := sound.distinct
  rw [List.map_append] at distinct
  have apart := (List.nodup_append.mp distinct).2.2
  rw [Bool.eq_false_iff]
  intro same
  have function := sound.functions f (List.mem_append_right _ later)
  have marks := Value.same_mark function same
  exact apart _ (List.mem_map_of_mem before) _ (List.mem_map_of_mem later) marks.symm

/-- Every function that can be reached comes from exactly one making. Two functions are equal exactly when
their makings are one, and are then the same function in all their parts. What an operation makes differs
from every function made before it. -/
theorem identity_exact {h : History} (arises : h.Arises) :
    (∀ f, h.Reaches f → ∃! i : Nat, h.made[i]? = some f) ∧
    (∀ (f g : Value) (i j : Nat) strict, h.made[i]? = some f → h.made[j]? = some g →
      (f.same strict g = true ↔ i = j)) ∧
    (∀ (f g : Value) strict, h.Reaches f → h.Reaches g → f.same strict g = true → f = g) ∧
    ∀ h', h.Step h' → ∃ new, h'.made = h.made ++ new ∧
      ∀ f ∈ new, f.isFunction = true ∧ ∀ g ∈ h.made, ∀ strict, f.same strict g = false := by
  have accounted := arises.accounted
  have same := fun f g i j strict first second =>
    accounted.sound.same_iff (f := f) (g := g) (i := i) (j := j) first second strict
  refine ⟨fun f reaches => ?_, same, fun f g strict reachesF reachesG equal => ?_, fun h' step => ?_⟩
  · obtain ⟨i, first⟩ := List.mem_iff_getElem?.mp (accounted.made reaches)
    refine ⟨i, first, fun j second => ?_⟩
    exact ((same f f i j true first second).mp (Value.same_refl true f)).symm
  · obtain ⟨i, first⟩ := List.mem_iff_getElem?.mp (accounted.made reachesF)
    obtain ⟨j, second⟩ := List.mem_iff_getElem?.mp (accounted.made reachesG)
    obtain rfl := (same f g i j strict first second).mp equal
    exact Option.some.inj (first.symm.trans second)
  · obtain ⟨new, whole⟩ := step.made_prefix
    have sound := (accounted.step step).sound
    rw [← whole] at sound
    refine ⟨new, whole.symm, fun f later => ⟨?_, fun g before strict => ?_⟩⟩
    · exact sound.functions f (List.mem_append_right _ later)
    · exact sound.later_differs later before strict

/-- Two lambdas with the same text, evaluated one after the other in the genesis environment, and a list
that then holds the first of them twice. -/
theorem identity_exact_twice :
    let env := (genesis {}).1
    let first : Value := .closure 11 ["x"] (.reference "x") env
    let second : Value := .closure 12 ["x"] (.reference "x") env
    ∃ h : History, h.Arises ∧ h.values = [.list [first, second], .list [first, first]] ∧
      h.Reaches first ∧ h.Reaches second ∧ (∃! i : Nat, h.made[i]? = some first) ∧
      ∀ strict, first.same strict second = false := by
  intro env first second
  let identity : Expr := .lambda ["x"] (.reference "x")
  let h₁ : History := { fresh := 11, made := builtinsFrom 1 genesisPrimitives, envs := [env] }
  have started : h₁.Arises := .step (.nothing 1) (.start .genesis 0 (t := {}) rfl rfl)
  let h₂ : History :=
    { h₁ with fresh := 13, made := h₁.made ++ [first, second], values := [.list [first, second]] }
  have bound : h₁.Knows (Value.markedEnv env) := History.knows_env List.mem_cons_self
  have evaluated : h₂.Arises :=
    .step started (.evaluate (.vector [identity, identity]) env 2 none (t := { fresh := 11 }) rfl
      (by simp [History.Knows, identity, Expr.marked, Expr.markedAll]) bound)
  have held : h₂.Knows (Value.list [first, second]).marked := History.knows_value List.mem_cons_self
  have again : h₂.Knows (Expr.vector [.literal first, .literal first]).marked := by
    intro f member function
    refine held f (List.mem_append_left _ ?_) function
    rcases List.mem_append.mp member with here | here
    · exact here
    · exact (List.append_nil first.marked) ▸ here
  let h₃ : History := { h₂ with values := [.list [first, second], .list [first, first]] }
  have listed : h₃.Arises :=
    .step evaluated (.evaluate _ env 2 none (t := { fresh := 13 }) rfl again
      (History.knows_env List.mem_cons_self))
  have reachesFirst : h₃.Reaches first := ⟨rfl, List.mem_cons_self⟩
  have reachesSecond : h₃.Reaches second :=
    ⟨rfl, by simp [History.marked, h₃, Value.markedAll, Value.marked, second]⟩
  obtain ⟨once, exact, _⟩ := identity_exact listed
  refine ⟨h₃, listed, rfl, reachesFirst, reachesSecond, once first reachesFirst, fun strict => ?_⟩
  have apart := exact first second 10 11 strict rfl rfl
  simpa using apart

end Unfurl
