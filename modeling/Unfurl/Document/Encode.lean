import Unfurl.Document.Error

/-! Functions have no document: the first one met in document order is the error. -/

namespace Unfurl

def Json.node (kind : Text) (payload : Json) : Json := .object [("g", .text kind), ("v", payload)]

mutual

def Value.encode : Value → Except DocumentError Json
  | .nil => .ok .null
  | .bool b => .ok (.bool b)
  | .int n => .ok (.int n)
  | .float x => .ok (.float x)
  | .text s => .ok (.text s)
  | .symbol name => .ok (.object [("symbol", .text name)])
  | .list items => do
    let docs ← Value.encodeItems items
    .ok (.object [("list", .array docs)])
  | fn => .error (.functionValue fn)

def Value.encodeItems : List Value → Except DocumentError (List Json)
  | [] => .ok []
  | v :: rest => do
    let doc ← Value.encode v
    let docs ← Value.encodeItems rest
    .ok (doc :: docs)

end

def Pattern.encode : Pattern → Except DocumentError Json
  | .otherwise => .ok (.text "else")
  | .literal value => do
    let doc ← value.encode
    .ok (.object [("lit", doc)])
  | .reference name => .ok (.object [("ref", .text name)])

mutual

def Expr.encode : Expr → Except DocumentError Json
  | .literal value => do
    let doc ← value.encode
    .ok (Json.node "lit" doc)
  | .reference name => .ok (Json.node "ref" (.text name))
  | .application fn arg => do
    let f ← Expr.encode fn
    let a ← Expr.encode arg
    .ok (Json.node "app" (.object [("fn", f), ("args", a)]))
  | .vector elements => do
    let docs ← Expr.encodeAll elements
    .ok (Json.node "vec" (.array docs))
  | .lambda params body => do
    let b ← Expr.encode body
    .ok (Json.node "lam" (.object [("params", .array (params.map .text)), ("body", b)]))
  | .fix fn => do
    let f ← Expr.encode fn
    .ok (Json.node "fix" f)
  | .select scrutinee branches => do
    let s ← Expr.encode scrutinee
    let bs ← Expr.encodeBranches branches
    .ok (Json.node "match" (.object [("expr", s), ("branches", .array bs)]))

def Expr.encodeAll : List Expr → Except DocumentError (List Json)
  | [] => .ok []
  | e :: rest => do
    let doc ← Expr.encode e
    let docs ← Expr.encodeAll rest
    .ok (doc :: docs)

def Expr.encodeBranches : List (Pattern × Expr) → Except DocumentError (List Json)
  | [] => .ok []
  | (p, e) :: rest => do
    let pattern ← p.encode
    let body ← Expr.encode e
    let docs ← Expr.encodeBranches rest
    .ok (.array [pattern, body] :: docs)

end

def writeEncoded (indent : Option Nat) (encoded : Except DocumentError Json) : Except DocumentFault Text :=
  match encoded with
  | .error e => .error (.shape e)
  | .ok doc =>
    match doc.render indent with
    | .ok s => .ok s
    | .error e => .error (.numeral e)

def Value.render (indent : Option Nat) (v : Value) : Except DocumentFault Text :=
  writeEncoded indent v.encode

def Pattern.render (indent : Option Nat) (p : Pattern) : Except DocumentFault Text :=
  writeEncoded indent p.encode

def Expr.render (indent : Option Nat) (e : Expr) : Except DocumentFault Text :=
  writeEncoded indent e.encode

/-- The indent of a document that is written without further wishes. -/
def Expr.standardIndent : Option Nat := some 2

end Unfurl
