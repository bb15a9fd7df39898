import Unfurl.Document.Error

/-! Further fields of a node are ignored, and bare scalars and arrays are values too. -/

namespace Unfurl

/-! ### Values and patterns -/

mutual

def Value.decode : Json → Except DocumentFault Value
  | .null => .ok .nil
  | .bool b => .ok (.bool b)
  | .int n => .ok (.int n)
  | .float x => .ok (.float x)
  | .text s => .ok (.text s)
  | .array items => do
    let values ← Value.decodeItems items
    .ok (.list values)
  | .object [(key, .text name)] =>
    if key = "symbol" then .ok (.symbol name) else refuse .value (.object [(key, .text name)])
  | .object [(key, .array items)] =>
    if key = "list" then do
      let values ← Value.decodeItems items
      .ok (.list values)
    else refuse .value (.object [(key, .array items)])
  | doc => refuse .value doc

def Value.decodeItems : List Json → Except DocumentFault (List Value)
  | [] => .ok []
  | doc :: rest => do
    let value ← Value.decode doc
    let values ← Value.decodeItems rest
    .ok (value :: values)

end

def Pattern.decode : Json → Except DocumentFault Pattern
  | .text s => if s = "else" then .ok .otherwise else .ok (.literal (.text s))
  | .object [(key, doc)] =>
    if key = "lit" then do
      let value ← Value.decode doc
      .ok (.literal value)
    else
      match doc with
      | .text name =>
        if key = "ref" then .ok (.reference name) else refuse .pattern (.object [(key, .text name)])
      | _ => refuse .pattern (.object [(key, doc)])
  | .object fields => refuse .pattern (.object fields)
  | doc => do
    let value ← Value.decode doc
    .ok (.literal value)

/-! ### Expressions -/

theorem Overlay.sizeOf_get? {table : List (Text × Json)} {name : Text} {doc : Json}
    (found : Overlay.get? table name = some doc) : sizeOf doc < sizeOf table := by
  induction table with
  | nil => simp [Overlay.get?] at found
  | cons entry rest ih =>
    obtain ⟨key, item⟩ := entry
    simp only [Overlay.get?] at found
    split at found
    · cases found
      simp only [List.cons.sizeOf_spec, Prod.mk.sizeOf_spec]
      omega
    · have := ih found
      simp only [List.cons.sizeOf_spec]
      omega

/-- The field of a document, with the fact that it is smaller. -/
def Json.part? (doc : Json) (key : Text) : Option { part : Json // sizeOf part < sizeOf doc } :=
  match doc with
  | .object fields =>
    match found : Overlay.get? fields key with
    | some part => some ⟨part, by
        have := Overlay.sizeOf_get? found
        simp only [Json.object.sizeOf_spec]
        omega⟩
    | none => none
  | _ => none

def Json.part (kind key : Text) (payload : Json) :
    Except DocumentFault { part : Json // sizeOf part < sizeOf payload } :=
  match payload.part? key with
  | some part => .ok part
  | none => .error (.shape (.missingField kind key))

/-- The strings of a list of documents, if they all are strings. -/
def Json.texts? : List Json → Option (List Text)
  | [] => some []
  | .text s :: rest => (Json.texts? rest).map (s :: ·)
  | _ :: _ => none

def Expr.decodeParams : Json → Except DocumentFault (List Text)
  | .array items =>
    match Json.texts? items with
    | some names => .ok names
    | none => refuse .lambdaParams (.array items)
  | doc => refuse .lambdaParams doc

inductive NodeKind where
  | literal
  | reference
  | application
  | vector
  | lambda
  | fix
  | select

def NodeKind.name : NodeKind → Text
  | .literal => "lit"
  | .reference => "ref"
  | .application => "app"
  | .vector => "vec"
  | .lambda => "lam"
  | .fix => "fix"
  | .select => "match"

def NodeKind.all : List NodeKind :=
  [.literal, .reference, .application, .vector, .lambda, .fix, .select]

def Json.nodeKind? : Json → Option NodeKind
  | .text name => NodeKind.all.find? fun kind => decide (kind.name = name)
  | _ => none

mutual

def Expr.decode (doc : Json) : Except DocumentFault Expr :=
  match doc.part? "g", doc.part? "v" with
  | some ⟨kind, _⟩, some ⟨payload, _⟩ =>
    match kind.nodeKind? with
    | some .literal => do
      let value ← Value.decode payload
      .ok (.literal value)
    | some .reference =>
      match payload with
      | .text name => .ok (.reference name)
      | other => refuse .referenceName other
    | some .application => do
      let ⟨fn, _⟩ ← payload.part "app" "fn"
      let f ← Expr.decode fn
      let ⟨arg, _⟩ ← payload.part "app" "args"
      let a ← Expr.decode arg
      .ok (.application f a)
    | some .vector => do
      let elements ← Expr.decodeElements payload
      .ok (.vector elements)
    | some .lambda => do
      let ⟨params, _⟩ ← payload.part "lam" "params"
      let names ← Expr.decodeParams params
      let ⟨body, _⟩ ← payload.part "lam" "body"
      let b ← Expr.decode body
      .ok (.lambda names b)
    | some .fix => do
      let f ← Expr.decode payload
      .ok (.fix f)
    | some .select => do
      let ⟨branches, _⟩ ← payload.part "match" "branches"
      let bs ← Expr.decodeBranches branches
      let ⟨scrutinee, _⟩ ← payload.part "match" "expr"
      let s ← Expr.decode scrutinee
      .ok (.select s bs)
    | none => refuse .unknownKind kind
  | _, _ => refuse .notNode doc
termination_by sizeOf doc

/-- The elements that the payload of a vector stands for. -/
def Expr.decodeElements (doc : Json) : Except DocumentFault (List Expr) :=
  match doc with
  | .array items => Expr.decodeAll items
  | other => refuse .vectorItems other
termination_by sizeOf doc

def Expr.decodeAll (docs : List Json) : Except DocumentFault (List Expr) :=
  match docs with
  | [] => .ok []
  | doc :: rest => do
    let e ← Expr.decode doc
    let es ← Expr.decodeAll rest
    .ok (e :: es)
termination_by sizeOf docs

def Expr.decodeBranches (doc : Json) : Except DocumentFault (List (Pattern × Expr)) :=
  match doc with
  | .array items => Expr.decodePairs items
  | other => refuse .matchBranches other
termination_by sizeOf doc

def Expr.decodePairs (docs : List Json) : Except DocumentFault (List (Pattern × Expr)) :=
  match docs with
  | [] => .ok []
  | .array [pattern, body] :: rest => do
    let p ← Pattern.decode pattern
    let b ← Expr.decode body
    let bs ← Expr.decodePairs rest
    .ok ((p, b) :: bs)
  | other :: _ => refuse .branchPair other
termination_by sizeOf docs

end

/-! ### Texts -/

def readDocument (text : Text) : Except DocumentFault Json :=
  match Json.parse text with
  | .ok doc => .ok doc
  | .error (.malformed what place) => .error (.shape (.malformedText what place))
  | .error (.numeral e) => .error (.numeral e)

def Expr.read (text : Text) : Except DocumentFault Expr := do
  let doc ← readDocument text
  Expr.decode doc

end Unfurl
