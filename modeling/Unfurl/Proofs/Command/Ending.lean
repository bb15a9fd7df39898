import Mathlib.Data.List.TakeWhile
import Unfurl.Command.Run
import Unfurl.Proofs.Document.Text

namespace Unfurl

/-- The status that is returned, unless a failure leaves the program. -/
def Ended.status? : Ended → Option Nat
  | .arguments status => some status
  | .exit status _ _ => some status
  | .escaped _ _ => none

/-- The log is set up and the recursion limit can be set. -/
structure World.Ready (w : World) (i : Invocation) (threshold : Nat) (limit : Option Int) : Prop where
  log : Settings.threshold w.vars (levelOption i.logLevel) = .ok threshold
  recursion : Settings.recursionLimit w.vars = .ok limit
  settable : beyondLimit limit = false

/-- The failures that leave the program, and the inputs that bring them about. -/
inductive World.Uncaught (w : World) (i : Invocation) : Failure → Prop
  | level {e : LevelError} : Settings.threshold w.vars (levelOption i.logLevel) = .error e →
      w.Uncaught i (.level e)
  | recursion {threshold : Nat} {n : Int} :
      Settings.threshold w.vars (levelOption i.logLevel) = .ok threshold →
      Settings.recursionLimit w.vars = .ok (some n) → greatestRecursionLimit < n →
      w.Uncaught i .limitTooLarge
  | steps {threshold : Nat} {limit : Option Int} {file : String} {json noPrelude : Bool} {e : Expr} :
      w.Ready i threshold limit → i.command = .evaluate file json noPrelude .empty →
      w.expression file = .ok e → w.Uncaught i .limitEmpty
  | depth {threshold : Nat} {limit : Option Int} {file : String} {noColor : Bool} {e : Expr} :
      w.Ready i threshold limit → i.command = .outline file .empty noColor →
      w.expression file = .ok e → w.Uncaught i .depthEmpty
  | overflow {threshold : Nat} {limit maxSteps : Option Int} {file : String} {json noPrelude : Bool}
      {given : Arguments.Given Int} {e : Expr} {env : Environment} {t : Tally} :
      w.Ready i threshold limit → i.command = .evaluate file json noPrelude given → given ≠ .empty →
      w.expression file = .ok e → w.stepLimit given = .ok maxSteps →
      ((startingFor noPrelude).load maxDepth {}).outcome = .done env t →
      (Session.answer maxDepth { env, maxSteps, tally := t } (.eval e)).1.result =
        .error (.fault .overflow) →
      w.Uncaught i (.session (.fault .overflow))

/-! ### Lines -/

namespace Text

/-- All code points of the text are characters. -/
def isScalar (s : Text) : Bool := s.all (·.char?.isSome)

theorem encode_of_isScalar {s : Text} (scalar : s.isScalar = true) : s.encode = .ok s.characters := by
  have none : s.dropWhile (·.char?.isSome) = [] := List.dropWhile_eq_nil_iff.mpr (List.all_eq_true.mp scalar)
  rw [encode, none]

theorem isScalar_append (s t : Text) : isScalar (s ++ t) = (s.isScalar && t.isScalar) := List.all_append

theorem isScalar_spaces (n : Nat) : (spaces n).isScalar = true :=
  List.all_eq_true.mpr fun _ member => List.eq_of_mem_replicate member ▸ rfl

theorem escaped_append (s t : Text) : escaped (s ++ t) = s.escaped ++ t.escaped := by
  simp [escaped, characters, String.ofList_append]

theorem escaped_ofString (s : String) : escaped s = s := by
  simp [escaped, characters, ofString, List.flatMap_map, escapeSurrogate, CodePoint.char?, List.filterMap_flatMap]

end Text

/-! ### Starting environments -/

def Entry.shows (entry : Text × Value) : Bool :=
  entry.1.isScalar && entry.2.displayable && entry.2.displayed.isScalar

def Loading.shows (loading : Loading) : Bool :=
  match loading.outcome with
  | .done env _ => !env.isEmpty && env.all Entry.shows
  | _ => false

theorem starting_shows (noPrelude : Bool) : ((startingFor noPrelude).load maxDepth {}).shows = true := by
  cases noPrelude <;> decide +kernel

theorem starting_done (noPrelude : Bool) :
    ∃ env t, ((startingFor noPrelude).load maxDepth {}).outcome = .done env t ∧ env ≠ [] ∧
      ∀ entry ∈ env, Entry.shows entry = true := by
  have shows := starting_shows noPrelude
  unfold Loading.shows at shows
  split at shows
  · rename_i env t done
    simp only [Bool.and_eq_true, Bool.not_eq_true', List.isEmpty_eq_false_iff, List.all_eq_true] at shows
    exact ⟨env, t, done, shows.1, shows.2⟩
  · cases shows

/-! ### Results -/

section Except

variable {ε α β : Type}

theorem bind_ok {x : Except ε α} {f : α → Except ε β} {b : β} (ok : (x >>= f) = .ok b) :
    ∃ a, x = .ok a ∧ f a = .ok b := by
  cases x with
  | ok a => exact ⟨a, rfl, ok⟩
  | error e => cases ok

theorem bind_error {x : Except ε α} {f : α → Except ε β} {e : ε} (error : (x >>= f) = .error e) :
    x = .error e ∨ ∃ a, x = .ok a ∧ f a = .error e := by
  cases x with
  | ok a => exact Or.inr ⟨a, rfl, error⟩
  | error e' =>
    cases error
    exact Or.inl rfl

theorem failing_error {cause : ε → Failure} {r : Except ε α} {failure : Failure}
    (error : failing cause r = .error failure) : ∃ e, failure = cause e := by
  cases r with
  | ok a => cases error
  | error e =>
    cases error
    exact ⟨e, rfl⟩

end Except

theorem lineOf_of_isScalar {text : Text} (scalar : text.isScalar = true) :
    lineOf text = .ok (text.characters ++ "\n") := by
  rw [lineOf, Text.encode_of_isScalar scalar]
  rfl

theorem lineOf_ok {text : Text} {output : String} (ok : lineOf text = .ok output) : output ≠ "" := by
  obtain ⟨written, _, same⟩ := bind_ok ok
  cases same
  simp

theorem lineOf_caught {text : Text} {failure : Failure} (error : lineOf text = .error failure) :
    failure.escapes = false := by
  rcases bind_error error with unencoded | ⟨written, _, done⟩
  · obtain ⟨e, rfl⟩ := failing_error unencoded
    rfl
  · cases done

theorem printed_eq (json : Bool) (value : Value) :
    printed json value =
      (if json then failing .document (value.render none) else failing .numeral value.display) >>=
        lineOf := by
  cases json <;> rfl

theorem printed_ok {json : Bool} {value : Value} {output : String}
    (ok : printed json value = .ok output) : output ≠ "" := by
  rw [printed_eq] at ok
  obtain ⟨text, _, line⟩ := bind_ok ok
  exact lineOf_ok line

theorem nameLine_ok {entry : Text × Value} (shows : Entry.shows entry = true) :
    ∃ line, nameLine entry = .ok line := by
  simp only [Entry.shows, Bool.and_eq_true] at shows
  obtain ⟨⟨name, displayable⟩, value⟩ := shows
  have shown : entry.2.display = .ok entry.2.displayed := if_pos displayable
  have blank : Text.isScalar " " = true := rfl
  have scalar : Text.isScalar (entry.1 ++ Text.spaces (nameColumns - entry.1.length) ++ " " ++
      entry.2.displayed) = true := by
    simp only [Text.isScalar_append, name, value, Text.isScalar_spaces, blank, Bool.and_self]
  exact ⟨_, by rw [nameLine, shown]; exact lineOf_of_isScalar scalar⟩

theorem nameLines_ok {env : Environment} (shows : ∀ entry ∈ env, Entry.shows entry = true) :
    ∃ output, nameLines env = .ok output ∧ (env ≠ [] → output ≠ "") := by
  induction env with
  | nil => exact ⟨"", rfl, fun entries => (entries rfl).elim⟩
  | cons entry rest ih =>
    obtain ⟨here, later⟩ := List.forall_mem_cons.mp shows
    obtain ⟨line, shown⟩ := nameLine_ok here
    obtain ⟨output, lines, _⟩ := ih later
    have nonempty : line ≠ "" := by
      obtain ⟨_, _, written⟩ := bind_ok shown
      exact lineOf_ok written
    refine ⟨line ++ output, by rw [nameLines, shown, lines]; rfl, fun _ empty => nonempty ?_⟩
    exact (String.append_eq_empty_iff.mp empty).1

variable {w : World}

theorem evaluated_ok {e : Expr} {json : Bool} {given : Arguments.Given Int} {limit : Option Int}
    {env : Environment} {t : Tally} {output : String}
    (ok : evaluated e json given limit env t = .ok output) : output ≠ "" := by
  unfold evaluated at ok
  split at ok
  · cases ok
  · dsimp only at ok
    split at ok
    · exact printed_ok ok
    · cases ok

/-- The tree at the depth asked for, once that is a number. -/
theorem outlineFile_eq (w : World) (file : String) (depth : Arguments.Given Int) (noColor : Bool) :
    w.outlineFile file depth noColor = w.expression file >>= fun e =>
      match depth with
      | .empty => .error .depthEmpty
      | .absent => failing .numeral (e.tree { color := !noColor && w.terminal } 0) >>= lineOf
      | .value n => failing .numeral (e.tree { color := !noColor && w.terminal, maxDepth := n } 0) >>= lineOf := by
  cases depth <;> rfl

theorem perform_ok {command : Command} {output : String}
    (ok : (w.perform command).result = .ok output) : output ≠ "" := by
  cases command with
  | evaluate file json noPrelude given =>
    obtain ⟨env, t, done, _⟩ := starting_done noPrelude
    unfold World.perform World.evaluateFile at ok
    dsimp only at ok
    split at ok
    · cases ok
    · cases ok
    · simp only [afterLoad, done] at ok
      exact evaluated_ok ok
  | outline file depth noColor =>
    simp only [World.perform, outlineFile_eq] at ok
    obtain ⟨e, _, ok⟩ := bind_ok ok
    split at ok
    · cases ok
    · obtain ⟨text, _, line⟩ := bind_ok ok
      exact lineOf_ok line
    · obtain ⟨text, _, line⟩ := bind_ok ok
      exact lineOf_ok line
  | names noPrelude =>
    obtain ⟨env, t, done, entries, shows⟩ := starting_done noPrelude
    obtain ⟨lines, listed, nonempty⟩ := nameLines_ok shows
    simp only [World.perform, afterLoad, done, listed] at ok
    cases ok
    exact nonempty entries

/-- Listing the names never fails, so that it cannot fail after some of them. -/
theorem perform_names (w : World) (noPrelude : Bool) :
    ∃ output, (w.perform (.names noPrelude)).result = .ok output := by
  obtain ⟨env, t, done, _, shows⟩ := starting_done noPrelude
  obtain ⟨lines, listed, _⟩ := nameLines_ok shows
  exact ⟨lines, by simp only [World.perform, afterLoad, done, listed]⟩

/-! ### Failures -/

theorem source_caught {path : String} {failure : Failure} (error : w.source path = .error failure) :
    failure.escapes = false := by
  unfold World.source at error
  split at error
  · cases error
  · rcases bind_error error with missing | ⟨bytes, _, error⟩
    · obtain ⟨e, rfl⟩ := failing_error missing
      rfl
    · rcases bind_error error with undecoded | ⟨text, _, done⟩
      · obtain ⟨e, rfl⟩ := failing_error undecoded
        rfl
      · cases done

theorem expression_caught {path : String} {failure : Failure}
    (error : w.expression path = .error failure) : failure.escapes = false := by
  unfold World.expression at error
  rcases bind_error error with unread | ⟨text, _, malformed⟩
  · exact source_caught unread
  · obtain ⟨e, rfl⟩ := failing_error malformed
    rfl

theorem stepLimit_caught {given : Arguments.Given Int} {failure : Failure}
    (error : w.stepLimit given = .error failure) : failure.escapes = false := by
  cases given with
  | absent =>
    obtain ⟨e, rfl⟩ := failing_error error
    rfl
  | empty => cases error
  | value n => cases error

theorem printed_caught {json : Bool} {value : Value} {failure : Failure}
    (error : printed json value = .error failure) : failure.escapes = false := by
  rw [printed_eq] at error
  rcases bind_error error with unwritten | ⟨text, _, unprinted⟩
  · split at unwritten
    · obtain ⟨e, rfl⟩ := failing_error unwritten
      rfl
    · obtain ⟨e, rfl⟩ := failing_error unwritten
      rfl
  · exact lineOf_caught unprinted

/-- Of the failures of an evaluation only an overflow is not caught. -/
theorem session_escapes {e : SessionError} (escapes : (Failure.session e).escapes = true) :
    e = .fault .overflow := by
  cases e with
  | fault fault =>
    cases fault with
    | overflow => rfl
    | _ => cases escapes
  | _ => cases escapes

theorem evaluated_escapes {e : Expr} {json : Bool} {given : Arguments.Given Int} {limit : Option Int}
    {env : Environment} {t : Tally} {failure : Failure}
    (error : evaluated e json given limit env t = .error failure) (escapes : failure.escapes = true) :
    (given = .empty ∧ failure = .limitEmpty) ∨
      (given ≠ .empty ∧ failure = .session (.fault .overflow) ∧
        (Session.answer maxDepth { env, maxSteps := limit, tally := t } (.eval e)).1.result =
          .error (.fault .overflow)) := by
  unfold evaluated at error
  split at error
  · cases error
    exact Or.inl ⟨rfl, rfl⟩
  · rename_i given nonempty
    dsimp only at error
    split at error
    · rw [printed_caught error] at escapes
      cases escapes
    · rename_i cause failed
      cases error
      obtain rfl := session_escapes escapes
      exact Or.inr ⟨nonempty, rfl, failed⟩

theorem outlineFile_escapes {file : String} {depth : Arguments.Given Int} {noColor : Bool}
    {failure : Failure} (error : w.outlineFile file depth noColor = .error failure)
    (escapes : failure.escapes = true) :
    depth = .empty ∧ failure = .depthEmpty ∧ ∃ e, w.expression file = .ok e := by
  have drawn : ∀ {r : Except NumeralError Text},
      (failing Failure.numeral r >>= lineOf) = .error failure → False := by
    intro r error
    rcases bind_error error with unwritten | ⟨text, _, unprinted⟩
    · obtain ⟨e, rfl⟩ := failing_error unwritten
      cases escapes
    · rw [lineOf_caught unprinted] at escapes
      cases escapes
  rw [outlineFile_eq] at error
  rcases bind_error error with unread | ⟨e, read, error⟩
  · rw [expression_caught unread] at escapes
    cases escapes
  · split at error
    · cases error
      exact ⟨rfl, rfl, e, read⟩
    · exact (drawn error).elim
    · exact (drawn error).elim

theorem evaluateFile_escapes {file : String} {json noPrelude : Bool} {given : Arguments.Given Int}
    {failure : Failure} (error : (w.evaluateFile file json noPrelude given).result = .error failure)
    (escapes : failure.escapes = true) :
    ∃ e limit env t, w.expression file = .ok e ∧ w.stepLimit given = .ok limit ∧
      ((startingFor noPrelude).load maxDepth {}).outcome = .done env t ∧
      evaluated e json given limit env t = .error failure := by
  obtain ⟨env, t, done, _⟩ := starting_done noPrelude
  unfold World.evaluateFile at error
  split at error
  · rename_i unread
    cases error
    rw [expression_caught unread] at escapes
    cases escapes
  · rename_i unset _
    cases error
    rw [stepLimit_caught unset] at escapes
    cases escapes
  · rename_i e limit read set
    simp only [afterLoad, done] at error
    exact ⟨e, limit, env, t, read, set, done, error⟩

/-- A command that fails without being caught does so for one of the reasons listed. -/
theorem perform_uncaught {i : Invocation} {threshold : Nat} {limit : Option Int} {failure : Failure}
    (ready : w.Ready i threshold limit) (error : (w.perform i.command).result = .error failure)
    (escapes : failure.escapes = true) : w.Uncaught i failure := by
  cases command : i.command with
  | evaluate file json noPrelude given =>
    rw [command] at error
    obtain ⟨e, maxSteps, env, t, read, set, done, error⟩ := evaluateFile_escapes error escapes
    rcases evaluated_escapes error escapes with ⟨rfl, rfl⟩ | ⟨nonempty, rfl, failed⟩
    · exact .steps ready command read
    · exact .overflow ready command nonempty read set done failed
  | outline file depth noColor =>
    rw [command] at error
    obtain ⟨rfl, rfl, e, read⟩ := outlineFile_escapes error escapes
    exact .depth ready command read
  | names noPrelude =>
    obtain ⟨output, ok⟩ := perform_names w noPrelude
    rw [command, ok] at error
    cases error

theorem uncaught_escapes {i : Invocation} {threshold : Nat} {limit : Option Int} {failure : Failure}
    (ready : w.Ready i threshold limit) (uncaught : w.Uncaught i failure) :
    (w.perform i.command).result = .error failure ∧ failure.escapes = true := by
  obtain ⟨log, recursion, settable⟩ := ready
  cases uncaught with
  | level unset =>
    rw [log] at unset
    cases unset
  | recursion _ same beyond =>
    rw [recursion] at same
    cases same
    simp [beyondLimit, beyond] at settable
  | @steps _ _ file json noPrelude e _ command read =>
    obtain ⟨env, t, done, _⟩ := starting_done noPrelude
    refine ⟨?_, rfl⟩
    simp only [command, World.perform, World.evaluateFile, read, World.stepLimit, afterLoad, done, evaluated]
  | depth _ command read =>
    refine ⟨?_, rfl⟩
    simp only [command, World.perform, outlineFile_eq, read, bind, Except.bind]
  | overflow _ command nonempty read set done failed =>
    refine ⟨?_, rfl⟩
    simp only [command, World.perform, World.evaluateFile, read, set, afterLoad, done, evaluated, failed]

/-! ### Endings -/

structure World.Documented (w : World) (command : Command) (status : Nat) (output errors : String) :
    Prop where
  returned : status = 0 ∨ status = 1 ∨ status = 2
  printed : status = 0 ↔ (w.perform command).result = .ok output
  reported : status ≠ 0 → output = "" ∧
    ∃ (log : String) (failure : Failure), errors = log ++ ("error: " ++ failure.message.escaped ++ "\n")
  listed (noPrelude : Bool) : command = .names noPrelude → status ≠ 1

theorem Failure.report_eq (failure : Failure) :
    failure.report = "error: " ++ failure.message.escaped ++ "\n" := by
  rw [report, Text.escaped_append, Text.escaped_append, Text.escaped_ofString, Text.escaped_ofString]

theorem not_printed_empty (w : World) (command : Command) : (w.perform command).result ≠ .ok "" :=
  fun ok => perform_ok ok rfl

/-- Where everything is set up, the failures of the command that escape leave the program and all others
are reported. -/
theorem finish_ends {i : Invocation} {threshold : Nat} {limit : Option Int}
    (ready : w.Ready i threshold limit) :
    (∃ failure errors, w.Uncaught i failure ∧
      w.finish threshold limit i.command = .escaped failure errors) ∨
    ((∀ failure, ¬ w.Uncaught i failure) ∧ ∃ status output errors,
      w.finish threshold limit i.command = .exit status output errors ∧
        w.Documented i.command status output errors) := by
  simp only [World.finish, ready.settable, Bool.false_eq_true, if_false]
  cases result : (w.perform i.command).result with
  | ok output =>
    refine Or.inr ⟨fun failure uncaught => ?_, 0, output, _, rfl, ?_⟩
    · have escaped := (uncaught_escapes ready uncaught).1
      rw [result] at escaped
      cases escaped
    · exact ⟨Or.inl rfl, by simp [result], by simp, by simp⟩
  | error failure =>
    cases escapes : failure.escapes with
    | true => exact Or.inl ⟨failure, _, perform_uncaught ready result escapes, if_pos escapes⟩
    | false =>
      refine Or.inr ⟨fun other uncaught => ?_, 1, "", _, if_neg (by simp [escapes]), ?_⟩
      · obtain ⟨escaped, uncaught⟩ := uncaught_escapes ready uncaught
        rw [result] at escaped
        cases escaped
        rw [escapes] at uncaught
        cases uncaught
      · refine ⟨Or.inr (Or.inl rfl), by simp [result], fun _ => ⟨rfl, _, failure, by rw [failure.report_eq]⟩, ?_⟩
        intro noPrelude command
        obtain ⟨output, ok⟩ := perform_names w noPrelude
        rw [command, ok] at result
        cases result

theorem invoke_ends (w : World) (i : Invocation) :
    (∃ failure errors, w.Uncaught i failure ∧ w.invoke i = .escaped failure errors) ∨
    ((∀ failure, ¬ w.Uncaught i failure) ∧ ∃ status output errors,
      w.invoke i = .exit status output errors ∧ w.Documented i.command status output errors) := by
  unfold World.invoke
  cases log : Settings.threshold w.vars (levelOption i.logLevel) with
  | error e => exact Or.inl ⟨_, _, .level log, rfl⟩
  | ok threshold =>
    cases recursion : Settings.recursionLimit w.vars with
    | error e =>
      refine Or.inr ⟨fun failure uncaught => ?_, 2, "", _, rfl, ?_⟩
      · -- All failures listed but the first need a recursion limit that can be read.
        cases uncaught with
        | level unset => rw [log] at unset; cases unset
        | recursion _ set => rw [recursion] at set; cases set
        | steps ready | depth ready | overflow ready =>
          have set := ready.recursion
          rw [recursion] at set
          cases set
      · refine ⟨Or.inr (Or.inr rfl), ?_, fun _ => ⟨rfl, "", .setting e, ?_⟩, ?_⟩
        · exact iff_of_false (by simp) (not_printed_empty w i.command)
        · rw [Failure.report_eq, String.empty_append]
        · simp
    | ok limit =>
      cases beyond : beyondLimit limit with
      | false => exact finish_ends ⟨log, recursion, beyond⟩
      | true =>
        cases limit with
        | none => cases beyond
        | some n =>
          refine Or.inl ⟨.limitTooLarge, w.logText threshold (raisingRecord (some n)),
            .recursion log recursion (of_decide_eq_true beyond), ?_⟩
          simp only [World.finish, beyond, if_true]

/-- Arguments that are not accepted end the program. Otherwise it ends as documented, with one exception:
the failures that are not caught, which are exactly those listed. -/
theorem run_documented (w : World) (words : List String) :
    (∃ ending, Invocation.read words = .error ending ∧ w.run words = .arguments ending.status) ∨
    ∃ i, Invocation.read words = .ok i ∧
      ((∃ failure errors, w.Uncaught i failure ∧ w.run words = .escaped failure errors) ∨
      ((∀ failure, ¬ w.Uncaught i failure) ∧ ∃ status output errors,
        w.run words = .exit status output errors ∧ w.Documented i.command status output errors)) := by
  unfold World.run
  cases Invocation.read words with
  | error ending => exact Or.inl ⟨ending, rfl, rfl⟩
  | ok i => exact Or.inr ⟨i, rfl, invoke_ends w i⟩

def overflowingSum : Expr :=
  .application (.reference "+")
    (.vector [.literal (.int (10 ^ 309)), .literal (.float (.finite false (2 ^ 52) (-53) (by decide)))])

theorem overflowingSum_lasts : LastingAtoms overflowingSum.atoms := by
  show ∀ v ∈ overflowingSum.atoms, v.lasting = true
  decide +kernel

theorem overflowingSum_named : LastingNames overflowingSum.names := by
  show ∀ name ∈ overflowingSum.names, name.Unpaired
  decide +kernel

def Loading.overflows (e : Expr) (loading : Loading) : Bool :=
  match loading.outcome with
  | .done env t =>
    match (Session.answer maxDepth { env, tally := t } (.eval e)).1.result with
    | .error (.fault .overflow) => true
    | _ => false
  | _ => false

theorem overflows_result {e : Expr} {loading : Loading} {env : Environment} {t : Tally}
    (overflows : loading.overflows e = true) (done : loading.outcome = .done env t) :
    (Session.answer maxDepth { env, tally := t } (.eval e)).1.result = .error (.fault .overflow) := by
  simp only [Loading.overflows, done] at overflows
  split at overflows
  · assumption
  · cases overflows

/-- An evaluation that overflows returns no status. -/
theorem overflow_returns_no_status :
    ∃ text, overflowingSum.render none = .ok text ∧
      ∀ fetch terminal time, ((World.mk [] text fetch terminal time).run ["run", "-"]).status? = none := by
  obtain ⟨text, rendered, read⟩ := Expr.render_lasting overflowingSum_lasts overflowingSum_named none
  refine ⟨text, rendered, ?_⟩
  intro fetch terminal time
  let w : World := ⟨[], text, fetch, terminal, time⟩
  let i : Invocation := ⟨.absent, .evaluate "-" false false .absent⟩
  have expression : w.expression "-" = .ok overflowingSum := by
    simp [World.expression, World.source, w, read, failing, bind, Except.bind]
  obtain ⟨env, t, done, _⟩ := starting_done false
  have overflows : ((startingFor false).load maxDepth {}).overflows overflowingSum = true := by
    decide +kernel
  have threshold : Settings.threshold [] none = .ok Severity.warning.rank := by decide +kernel
  have ready : w.Ready i Severity.warning.rank none := ⟨threshold, rfl, rfl⟩
  have failed := overflows_result overflows done
  have uncaught : w.Uncaught i (.session (.fault .overflow)) :=
    .overflow ready rfl (by simp) expression rfl done failed
  rcases invoke_ends w i with ⟨failure, errors, _, escaped⟩ | ⟨caught, _⟩
  · have accepted : Invocation.read ["run", "-"] = .ok i := rfl
    simp only [World.run, accepted, escaped, w, Ended.status?]
  · exact (caught _ uncaught).elim

end Unfurl
