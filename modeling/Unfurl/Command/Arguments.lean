import Unfurl.Number.Entry
import Unfurl.Overlay

/-! Words are taken from left to right; the first that asks for help or cannot be taken ends the reading. -/

namespace Unfurl.Arguments

/-- How the reading of arguments can end the program. -/
inductive Ending where
  | help
  | misuse
deriving DecidableEq

def Ending.status : Ending → Nat
  | .help => 0
  | .misuse => 2

inductive Given (α : Type) where
  | absent
  /-- The option was given a double dash, which stands for no word at all. -/
  | empty
  | value (a : α)

structure Options where
  json : Bool := false
  noPrelude : Bool := false
  noColor : Bool := false
  logLevel : Given String := .absent
  maxSteps : Given Int := .absent
  depth : Given Int := .absent

inductive Flag where
  | help
  | json
  | noPrelude
  | noColor

inductive Field where
  | logLevel
  | maxSteps
  | depth

inductive Purpose where
  | raise (flag : Flag)
  | set (field : Field)

abbrev Grammar := List (String × Purpose)

/-! ### Words -/

inductive Role where
  /-- An option by its full name with what follows it in the same word, or a word that looks like an
  option and is none. -/
  | option (known : Option (String × Purpose)) (explicit : Option (List Char))
  | plain
  | divider

structure Word where
  text : String
  role : Role

def splitEquals : List Char → Option (List Char × List Char)
  | [] => none
  | c :: rest =>
    if c = '=' then some ([], rest)
    else (splitEquals rest).map fun (before, after) => (c :: before, after)

def named (grammar : Grammar) (name : List Char) : Option (String × Purpose) :=
  grammar.find? fun entry => entry.1.toList == name

/-- A run of one or more digits up to the end, where a line feed may follow. -/
def isDigitRun (cs : List Char) : Bool :=
  let rest := cs.dropWhile Text.isDecimalDigit
  !(cs.takeWhile Text.isDecimalDigit).isEmpty && (rest == [] || rest == ['\n'])

/-- What follows the dash spells a number: digits, or digits with a point before the last of them. -/
def isNumber (cs : List Char) : Bool :=
  isDigitRun cs ||
    match cs.dropWhile Text.isDecimalDigit with
    | '.' :: rest => isDigitRun rest
    | _ => false

def unnamedRole (text : List Char) : Role :=
  if isNumber (text.drop 1) || text.contains ' ' then .plain else .option none none

/-- The role of a long option that may be shortened; several meanings are a misuse. -/
def shortenedRole (grammar : Grammar) (text : List Char) : Except Ending Role :=
  let (stem, explicit) := match splitEquals text with
    | some (before, after) => (before, some after)
    | none => (text, none)
  match grammar.filter fun entry => stem.isPrefixOf entry.1.toList with
  | [] => .ok (unnamedRole text)
  | [entry] => .ok (.option (some entry) explicit)
  | _ => .error .misuse

def shortRole (grammar : Grammar) (text : List Char) : Role :=
  match named grammar (text.take 2) with
  | some entry => .option (some entry) (some (text.drop 2))
  | none => unnamedRole text

def dashedRole (grammar : Grammar) (text : List Char) : Except Ending Role :=
  match (splitEquals text).bind fun (before, after) =>
      (named grammar before).map fun entry => (entry, after) with
  | some (entry, after) => .ok (.option (some entry) (some after))
  | none =>
    match text with
    | '-' :: '-' :: _ => shortenedRole grammar text
    | _ => .ok (shortRole grammar text)

def roleOf (grammar : Grammar) (text : List Char) : Except Ending Role :=
  match text with
  | '-' :: rest =>
    match named grammar text with
    | some entry => .ok (.option (some entry) none)
    | none => if rest.isEmpty then .ok .plain else dashedRole grammar text
  | _ => .ok .plain

def classify (grammar : Grammar) : List String → Except Ending (List Word)
  | [] => .ok []
  | text :: rest =>
    if text = "--" then .ok (⟨text, .divider⟩ :: rest.map fun t => ⟨t, .plain⟩)
    else do
      let role ← roleOf grammar text.toList
      let words ← classify grammar rest
      .ok (⟨text, role⟩ :: words)

/-! ### Options -/

def raise (options : Options) : Flag → Except Ending Options
  | .help => .error .help
  | .json => .ok { options with json := true }
  | .noPrelude => .ok { options with noPrelude := true }
  | .noColor => .ok { options with noColor := true }

def integer (argument : List Char) : Except Ending (Given Int) :=
  match Entry.read? argument with
  | some n => .ok (.value n)
  | none => .error .misuse

def assign (options : Options) (field : Field) (argument : List Char) : Except Ending Options :=
  if argument = ['-', '-'] then
    match field with
    | .logLevel => .ok { options with logLevel := .empty }
    | .maxSteps => .ok { options with maxSteps := .empty }
    | .depth => .ok { options with depth := .empty }
  else
    match field with
    | .logLevel => .ok { options with logLevel := .value (String.ofList argument) }
    | .maxSteps => do
      let n ← integer argument
      .ok { options with maxSteps := n }
    | .depth => do
      let n ← integer argument
      .ok { options with depth := n }

/-- The flags that letters spell, each behind a dash. -/
def letters (grammar : Grammar) : List Char → Except Ending (List Flag)
  | [] => .ok []
  | c :: rest =>
    match named grammar ['-', c] with
    | some (_, .raise flag) => do
      let flags ← letters grammar rest
      .ok (flag :: flags)
    | _ => .error .misuse

def raiseAll (options : Options) : List Flag → Except Ending Options
  | [] => .ok options
  | flag :: rest => do
    let next ← raise options flag
    raiseAll next rest

/-- Takes an option whose word goes on. Behind a single-dash flag further flags may stand; a long flag
takes nothing. -/
def takeExplicit (grammar : Grammar) (options : Options) (name : String) (purpose : Purpose)
    (explicit : List Char) : Except Ending Options :=
  match purpose with
  | .set field => assign options field explicit
  | .raise flag =>
    if name.toList.take 2 = ['-', '-'] ∨ explicit = [] then .error .misuse
    else do
      let flags ← letters grammar explicit
      raiseAll options (flag :: flags)

/-! ### Commands -/

structure Reading where
  options : Options := {}
  file : Option String := none
  /-- Words that could not be placed. -/
  unknown : List String := []

def take (grammar : Grammar) (wantsFile : Bool) (r : Reading) : List Word → Except Ending Reading
  | [] => .ok r
  | ⟨text, .plain⟩ :: rest =>
    if wantsFile ∧ r.file.isNone then
      match rest with
      | ⟨_, .divider⟩ :: more => take grammar wantsFile { r with file := some text } more
      | more => take grammar wantsFile { r with file := some text } more
    else take grammar wantsFile { r with unknown := r.unknown ++ [text] } rest
  | ⟨text, .divider⟩ :: rest =>
    match rest with
    | ⟨file, .plain⟩ :: more =>
      if wantsFile ∧ r.file.isNone then take grammar wantsFile { r with file := some file } more
      else take grammar wantsFile { r with unknown := r.unknown ++ [text, file] } more
    | more => take grammar wantsFile { r with unknown := r.unknown ++ [text] } more
  | ⟨text, .option none _⟩ :: rest =>
    take grammar wantsFile { r with unknown := r.unknown ++ [text] } rest
  | ⟨_, .option (some (name, purpose)) (some explicit)⟩ :: rest => do
    let options ← takeExplicit grammar r.options name purpose explicit
    take grammar wantsFile { r with options } rest
  | ⟨_, .option (some (_, .raise flag)) none⟩ :: rest => do
    let options ← raise r.options flag
    take grammar wantsFile { r with options } rest
  | ⟨_, .option (some (_, .set field)) none⟩ :: rest =>
    match rest with
    | ⟨argument, .plain⟩ :: more => do
      let options ← assign r.options field argument.toList
      take grammar wantsFile { r with options } more
    | _ => .error .misuse

def readCommand (grammar : Grammar) (wantsFile : Bool) (words : List String) :
    Except Ending Reading := do
  let classified ← classify grammar words
  let r ← take grammar wantsFile {} classified
  if wantsFile ∧ r.file.isNone then .error .misuse else .ok r

end Unfurl.Arguments
