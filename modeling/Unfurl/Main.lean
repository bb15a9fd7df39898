import Unfurl.Command.Run

namespace Unfurl

def FileFault.ofError : IO.Error → FileFault
  | .noFileOrDirectory .. => .missing
  | .permissionDenied .. => .denied
  | .inappropriateType _ code _ => if code = 20 then .notDirectory else .isDirectory
  | .invalidArgument .. => .nameTooLong
  | _ => .missing

/-- Reads the file of an invocation, if it has one that is not the standard input. -/
def readSource (file : Option String) : IO (Except FileFault (List UInt8)) := do
  match file with
  | none => return .ok []
  | some "-" => return .ok []
  | some path =>
    try
      let bytes ← IO.FS.readBinFile (Path.parse path).text
      return .ok bytes.toList
    catch e => return .error (FileFault.ofError e)

def readVariables : IO Variables := do
  let mut vars := []
  for name in ["GEXPR_MAX_STEPS", "GEXPR_RECURSION_LIMIT", "GEXPR_LOG_LEVEL"] do
    match ← IO.getEnv name with
    | some value => vars := vars ++ [(name, value)]
    | none => pure ()
  return vars

def fileOf (words : List String) : Option String :=
  match Invocation.read words with
  | .ok i => i.command.file?
  | .error _ => none

/-- What the process can see, as far as the arguments ask for it. -/
def readWorld (words : List String) : IO World := do
  let file := fileOf words
  let source ← readSource file
  let stdin ← IO.getStdin
  let input ← if file = some "-" then IO.FS.Stream.readToEnd stdin else pure ""
  let stdout ← IO.getStdout
  let now ← IO.monoMsNow
  return {
    vars := ← readVariables
    input
    fetch := fun _ => source
    terminal := ← stdout.isTty
    time := toString now }

def runProcess (words : List String) : IO UInt32 := do
  let world ← readWorld words
  let stdout ← IO.getStdout
  let stderr ← IO.getStderr
  match world.run words with
  | .arguments status =>
    stderr.putStr "usage: gexpr [-h] [--log-level LOG_LEVEL] \x7brun,show,env\x7d ...\n"
    return UInt32.ofNat status
  | .exit status output errors =>
    stderr.putStr errors
    stdout.putStr output
    return UInt32.ofNat status
  | .escaped failure errors =>
    stderr.putStr errors
    stderr.putStr (failure.message.escaped ++ "\n")
    return 1

end Unfurl

def main (words : List String) : IO UInt32 := Unfurl.runProcess words
