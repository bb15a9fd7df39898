import Unfurl.Document.Encode
import Unfurl.Command.Invocation
import Unfurl.Command.Path
import Unfurl.Definitions.Starting
import Unfurl.Session
import Unfurl.Settings
import Unfurl.Term.Outline
import Unfurl.Text.Utf8

namespace Unfurl

/-- What a process can see. -/
structure World where
  vars : Variables
  input : Text
  fetch : Path → Except FileFault (List UInt8)
  terminal : Bool
  time : String

inductive Failure where
  | file (path : Path) (fault : FileFault)
  | encoding (fault : Text.Utf8Fault)
  /-- The result holds surrogates, which cannot be printed. -/
  | printing (fault : Text.SurrogateFault)
  | document (fault : DocumentFault)
  | numeral (error : NumeralError)
  | setting (error : SettingError)
  | load (error : LoadError)
  | session (error : SessionError)
  | level (error : LevelError)
  | limitTooLarge
  /-- The step limit was given as no word at all. -/
  | limitEmpty
  /-- The depth was given as no word at all. -/
  | depthEmpty

namespace Failure

def message : Failure → Text
  | .file path fault => fault.message path.text
  | .encoding fault => fault.message
  | .printing fault => fault.message
  | .document fault => fault.message
  | .numeral e => e.message
  | .setting e => e.message
  | .load e => e.message
  | .session e => e.message
  | .level e => e.message
  | .limitTooLarge => "Python int too large to convert to C int"
  | .limitEmpty => "'<=' not supported between instances of 'list' and 'int'"
  | .depthEmpty => "'>=' not supported between instances of 'int' and 'list'"

def escapes : Failure → Bool
  | .load .overflow => true
  | .session (.fault .overflow) => true
  | .level _ => true
  | .limitTooLarge => true
  | .limitEmpty => true
  | .depthEmpty => true
  | _ => false

/-- The line that reports a failure; surrogates in it are spelled out. -/
def report (failure : Failure) : String := Text.escaped ("error: " ++ failure.message ++ "\n")

end Failure

inductive Ended where
  /-- The arguments ended it; what is then written is a matter of the help texts. -/
  | arguments (status : Nat)
  | exit (status : Nat) (output errors : String)
  /-- A failure left the program, after what it had written about itself. -/
  | escaped (failure : Failure) (errors : String)

/-! ### Commands -/

/-- What a command prints, after what it reports to the log. -/
structure Performance where
  log : List LogRecord := []
  result : Except Failure String

def failing {ε α : Type} (cause : ε → Failure) : Except ε α → Except Failure α
  | .ok a => .ok a
  | .error e => .error (cause e)

/-- The document of a path; a lone dash is the standard input, which is taken as it is. -/
def World.source (w : World) (path : String) : Except Failure Text :=
  if path = "-" then .ok w.input
  else do
    let bytes ← failing (.file (Path.parse path)) (w.fetch (Path.parse path))
    let text ← failing .encoding (Text.decodeUtf8 bytes)
    .ok (Text.unifyNewlines text)

def World.expression (w : World) (path : String) : Except Failure Expr := do
  let text ← w.source path
  failing .document (Expr.read text)

def lineOf (text : Text) : Except Failure String := do
  let written ← failing .printing text.encode
  .ok (written ++ "\n")

def printed (json : Bool) (value : Value) : Except Failure String := do
  let text ← if json then failing .document (value.render none) else failing .numeral value.display
  lineOf text

def startingFor (noPrelude : Bool) : Starting := if noPrelude then .bootstrap else .prelude

def afterLoad (loading : Loading) (next : Environment → Tally → Except Failure String) :
    Performance where
  log := loading.log
  result := match loading.outcome with
    | .done env t => next env t
    | .failed e _ => .error (.load e)
    | .exhausted _ => .error (.session .exhausted)

/-- The step limit of a program: that of the option, or else that of the variables. -/
def World.stepLimit (w : World) : Arguments.Given Int → Except Failure (Option Int)
  | .absent => failing .setting (Settings.maxSteps w.vars)
  | .empty => .ok none
  | .value n => .ok (some n)

def evaluated (e : Expr) (json : Bool) (given : Arguments.Given Int) (limit : Option Int)
    (env : Environment) (t : Tally) : Except Failure String :=
  match given with
  | .empty => .error .limitEmpty
  | _ =>
    let session : Session := { env, maxSteps := limit, tally := t }
    match (session.answer maxDepth (.eval e)).1.result with
    | .ok value => printed json value
    | .error e => .error (.session e)

def World.evaluateFile (w : World) (file : String) (json noPrelude : Bool)
    (given : Arguments.Given Int) : Performance :=
  match w.expression file, w.stepLimit given with
  | .error failure, _ => { result := .error failure }
  | _, .error failure => { result := .error failure }
  | .ok e, .ok limit =>
    afterLoad ((startingFor noPrelude).load maxDepth {}) (evaluated e json given limit)

def World.outlineFile (w : World) (file : String) (depth : Arguments.Given Int) (noColor : Bool) :
    Except Failure String := do
  let e ← w.expression file
  let options : OutlineOptions := { color := !noColor && w.terminal }
  let options ← match depth with
    | .absent => .ok options
    | .empty => .error .depthEmpty
    | .value n => .ok { options with maxDepth := n }
  let text ← failing .numeral (e.tree options 0)
  lineOf text

def nameColumns : Nat := 10

def nameLine (entry : Text × Value) : Except Failure String := do
  let shown ← failing .numeral entry.2.display
  lineOf (entry.1 ++ Text.spaces (nameColumns - entry.1.length) ++ " " ++ shown)

def nameLines : Environment → Except Failure String
  | [] => .ok ""
  | entry :: rest => do
    let line ← nameLine entry
    let lines ← nameLines rest
    .ok (line ++ lines)

def World.perform (w : World) : Command → Performance
  | .evaluate file json noPrelude maxSteps => w.evaluateFile file json noPrelude maxSteps
  | .outline file depth noColor => { result := w.outlineFile file depth noColor }
  | .names noPrelude =>
    afterLoad ((startingFor noPrelude).load maxDepth {}) fun env _ => nameLines env

/-! ### The whole run -/

def startingRecursionLimit : Int := 20000

def greatestRecursionLimit : Int := 2147483647

def raisingRecord : Option Int → List LogRecord
  | none => []
  | some n =>
    if startingRecursionLimit < n then
      [⟨.debug, "gexpr.cli", "Raising recursion limit to " ++ Numeral.text n⟩]
    else []

def beyondLimit : Option Int → Bool
  | none => false
  | some n => decide (greatestRecursionLimit < n)

def World.logText (w : World) (threshold : Nat) (records : List LogRecord) : String :=
  String.join ((records.filter (·.reaches threshold)).map fun r => Text.escaped (r.line w.time ++ "\n"))

def World.finish (w : World) (threshold : Nat) (limit : Option Int) (command : Command) : Ended :=
  let raising := raisingRecord limit
  if beyondLimit limit then .escaped .limitTooLarge (w.logText threshold raising)
  else
    let performance := w.perform command
    let errors := w.logText threshold (raising ++ performance.log)
    match performance.result with
    | .ok output => .exit 0 output errors
    | .error failure =>
      if failure.escapes then .escaped failure errors else .exit 1 "" (errors ++ failure.report)

def levelOption : Arguments.Given String → Option String
  | .value level => some level
  | _ => none

def World.invoke (w : World) (i : Invocation) : Ended :=
  match Settings.threshold w.vars (levelOption i.logLevel) with
  | .error e => .escaped (.level e) ""
  | .ok threshold =>
    match Settings.recursionLimit w.vars with
    | .error e => .exit 2 "" (Failure.setting e).report
    | .ok limit => w.finish threshold limit i.command

def World.run (w : World) (words : List String) : Ended :=
  match Invocation.read words with
  | .error ending => .arguments ending.status
  | .ok i => w.invoke i

end Unfurl
