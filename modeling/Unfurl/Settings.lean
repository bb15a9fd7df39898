import Unfurl.Log
import Unfurl.Number.Entry
import Unfurl.Overlay
import Unfurl.Text.Quoted
import Unfurl.Text.Upper

/-! A variable that is blank counts as not set. -/

namespace Unfurl

abbrev Variables := List (String × String)

inductive SettingError where
  | notInteger (name raw : String)
  | notPositive (name : String) (value : Int)

def SettingError.message : SettingError → Text
  | .notInteger name raw => name ++ " must be an integer, got " ++ Text.quote raw
  | .notPositive name value =>
    name ++ " must be positive, got " ++ Numeral.text value

/-- Words that sound like levels and name something else. -/
inductive LevelError where
  | layout
  | styles
deriving DecidableEq

def LevelError.message : LevelError → Text
  | .layout => "Unknown level: '%(levelname)s:%(name)s:%(message)s'"
  | .styles =>
    "Level not an integer or a valid string: \x7b'%': (<class 'logging.PercentStyle'>, " ++
      "'%(levelname)s:%(name)s:%(message)s'), '\x7b': (<class 'logging.StrFormatStyle'>, " ++
      "'\x7blevelname\x7d:\x7bname\x7d:\x7bmessage\x7d'), '$': " ++
      "(<class 'logging.StringTemplateStyle'>, " ++
      "'$\x7blevelname\x7d:$\x7bname\x7d:$\x7bmessage\x7d')\x7d"

namespace Settings

/-- The positive integer that a variable holds, or the default if it is blank or not set. -/
def integer (vars : Variables) (name : String) (default : Option Int) :
    Except SettingError (Option Int) :=
  match Overlay.get? vars name with
  | none => .ok default
  | some raw =>
    match Text.trim raw.toList with
    | [] => .ok default
    | body =>
      match Entry.read? body with
      | none => .error (.notInteger name raw)
      | some n => if n ≤ 0 then .error (.notPositive name n) else .ok (some n)

def maxSteps (vars : Variables) : Except SettingError (Option Int) :=
  integer vars "GEXPR_MAX_STEPS" none

def recursionLimit (vars : Variables) : Except SettingError (Option Int) :=
  integer vars "GEXPR_RECURSION_LIMIT" none

def defaultLevel : String := "WARNING"

def logLevel (vars : Variables) : String :=
  let raw := (Overlay.get? vars "GEXPR_LOG_LEVEL").getD defaultLevel
  match Text.upper (Text.trim raw.toList) with
  | [] => defaultLevel
  | name => String.ofList name

/-- The threshold of a level by its name; an unknown name is a warning. -/
def rank : String → Except LevelError Nat
  | "NOTSET" => .ok 0
  | "DEBUG" => .ok Severity.debug.rank
  | "INFO" => .ok Severity.info.rank
  | "ERROR" => .ok Severity.error.rank
  | "CRITICAL" => .ok Severity.critical.rank
  | "FATAL" => .ok Severity.critical.rank
  | "BASIC_FORMAT" => .error .layout
  | "_STYLES" => .error .styles
  | _ => .ok Severity.warning.rank

/-- The threshold of the log: the level asked for, or else that of the variables. -/
def threshold (vars : Variables) (level : Option String) : Except LevelError Nat :=
  let name := match level with
    | none => logLevel vars
    | some "" => logLevel vars
    | some given => given
  rank (String.ofList (Text.upper name.toList))

end Settings

end Unfurl
