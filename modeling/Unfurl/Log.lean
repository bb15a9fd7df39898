import Unfurl.Text.Basic

namespace Unfurl

inductive Severity where
  | debug
  | info
  | warning
  | error
  | critical
deriving DecidableEq

namespace Severity

def name : Severity → Text
  | .debug => "DEBUG"
  | .info => "INFO"
  | .warning => "WARNING"
  | .error => "ERROR"
  | .critical => "CRITICAL"

/-- Severities in order, ten apart. -/
def rank : Severity → Nat
  | .debug => 10
  | .info => 20
  | .warning => 30
  | .error => 40
  | .critical => 50

end Severity

structure LogRecord where
  severity : Severity
  source : Text
  message : Text
deriving DecidableEq

namespace LogRecord

def reaches (threshold : Nat) (r : LogRecord) : Bool := decide (threshold ≤ r.severity.rank)

/-- The line of a record, behind the time at which it was made. -/
def line (time : Text) (r : LogRecord) : Text :=
  Text.joined " - " [time, r.source, r.severity.name, r.message]

end LogRecord

end Unfurl
