import Unfurl.Command.Arguments

namespace Unfurl

open Arguments

/-- A command with its options. -/
inductive Command where
  | evaluate (file : String) (json noPrelude : Bool) (maxSteps : Given Int)
  | outline (file : String) (depth : Given Int) (noColor : Bool)
  | names (noPrelude : Bool)

structure Invocation where
  logLevel : Given String
  command : Command

namespace Command

def helpGrammar : Grammar := [("-h", .raise .help), ("--help", .raise .help)]

def evaluateGrammar : Grammar :=
  helpGrammar ++
    [("--json", .raise .json), ("--no-prelude", .raise .noPrelude), ("--max-steps", .set .maxSteps)]

def outlineGrammar : Grammar :=
  helpGrammar ++ [("--depth", .set .depth), ("--no-color", .raise .noColor)]

def namesGrammar : Grammar := helpGrammar ++ [("--no-prelude", .raise .noPrelude)]

/-- The command of a name with the words behind it, and the words that could not be placed. -/
def read (name : String) (words : List String) : Except Ending (Command × List String) :=
  match name with
  | "run" => do
    let r ← readCommand evaluateGrammar true words
    .ok (.evaluate (r.file.getD "") r.options.json r.options.noPrelude r.options.maxSteps, r.unknown)
  | "show" => do
    let r ← readCommand outlineGrammar true words
    .ok (.outline (r.file.getD "") r.options.depth r.options.noColor, r.unknown)
  | "env" => do
    let r ← readCommand namesGrammar false words
    .ok (.names r.options.noPrelude, r.unknown)
  | _ => .error .misuse

def file? : Command → Option String
  | .evaluate file _ _ _ => some file
  | .outline file _ _ => some file
  | .names _ => none

end Command

namespace Invocation

def grammar : Grammar := Command.helpGrammar ++ [("--log-level", .set .logLevel)]

/-- Takes the words of the program up to the command, which takes all others. -/
def take (r : Reading) : List Word → Except Ending Invocation
  | [] => .error .misuse
  | ⟨name, .plain⟩ :: rest => do
    let (command, unknown) ← Command.read name (rest.map Word.text)
    if r.unknown.isEmpty ∧ unknown.isEmpty then .ok ⟨r.options.logLevel, command⟩
    else .error .misuse
  | ⟨_, .divider⟩ :: _ => .error .misuse
  | ⟨text, .option none _⟩ :: rest => take { r with unknown := r.unknown ++ [text] } rest
  | ⟨_, .option (some (name, purpose)) (some explicit)⟩ :: rest => do
    let options ← takeExplicit grammar r.options name purpose explicit
    take { r with options } rest
  | ⟨_, .option (some (_, .raise flag)) none⟩ :: rest => do
    let options ← raise r.options flag
    take { r with options } rest
  | ⟨_, .option (some (_, .set field)) none⟩ :: rest =>
    match rest with
    | ⟨argument, .plain⟩ :: more => do
      let options ← assign r.options field argument.toList
      take { r with options } more
    | _ => .error .misuse

def read (words : List String) : Except Ending Invocation := do
  let classified ← classify grammar words
  take {} classified

end Invocation

end Unfurl
