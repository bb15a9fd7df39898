import Unfurl.Term.Display

/-! A closure shows its parameters and its body, never its environment. -/

namespace Unfurl

def bracketed (items : List Text) : Text := "[" ++ Text.joined ", " items ++ "]"

/-- A row of texts in parentheses; a single one keeps a comma behind it. -/
def tupled : List Text → Text
  | [item] => "(" ++ item ++ ",)"
  | items => "(" ++ Text.joined ", " items ++ ")"

mutual

def Value.quoted : Value → Text
  | .nil => "None"
  | .bool true => "True"
  | .bool false => "False"
  | .int n => Numeral.text n
  | .float x => x.text
  | .text s => Text.quote s
  | .symbol name => "Symbol(" ++ Text.quote name ++ ")"
  | .list items => "GList(" ++ bracketed (Value.quotedItems items) ++ ")"
  | .closure _ params body _ =>
    "Closure(params=" ++ bracketed (params.map Text.quote) ++ ", body=" ++ Expr.quoted body ++ ")"
  | .builtin _ name _ => "Builtin(" ++ Text.quote name ++ ")"
  | .unfolding _ fn _ => "FixUnfolding(Fix(fn=" ++ Expr.quoted fn ++ "))"

def Value.quotedItems : List Value → List Text
  | [] => []
  | v :: rest => Value.quoted v :: Value.quotedItems rest

def Expr.quoted : Expr → Text
  | .literal value => "Literal(value=" ++ Value.quoted value ++ ")"
  | .reference name => "Reference(name=" ++ Text.quote name ++ ")"
  | .application fn arg => "Application(fn=" ++ Expr.quoted fn ++ ", arg=" ++ Expr.quoted arg ++ ")"
  | .vector elements => "Vector(elements=" ++ tupled (Expr.quotedAll elements) ++ ")"
  | .lambda params body =>
    "Lambda(params=" ++ tupled (params.map Text.quote) ++ ", body=" ++ Expr.quoted body ++ ")"
  | .fix fn => "Fix(fn=" ++ Expr.quoted fn ++ ")"
  | .select scrutinee branches =>
    "Match(scrutinee=" ++ Expr.quoted scrutinee ++ ", branches=" ++
      tupled (Expr.quotedBranches branches) ++ ")"

def Expr.quotedAll : List Expr → List Text
  | [] => []
  | e :: rest => Expr.quoted e :: Expr.quotedAll rest

def Expr.quotedBranches : List (Pattern × Expr) → List Text
  | [] => []
  | (p, e) :: rest => tupled [Pattern.quoted p, Expr.quoted e] :: Expr.quotedBranches rest

def Pattern.quoted : Pattern → Text
  | .literal value => "LiteralPattern(value=" ++ Value.quoted value ++ ")"
  | .reference name => "ReferencePattern(name=" ++ Text.quote name ++ ")"
  | .otherwise => "ElsePattern()"

end

mutual

/-- Every integer of the value and of the code it shows is short enough to be written. -/
def Value.quotable : Value → Bool
  | .int n => Json.writableInt n
  | .list items => Value.allQuotable items
  | .closure _ _ body _ => Expr.quotable body
  | .unfolding _ fn _ => Expr.quotable fn
  | _ => true

def Value.allQuotable : List Value → Bool
  | [] => true
  | v :: rest => Value.quotable v && Value.allQuotable rest

def Expr.quotable : Expr → Bool
  | .literal value => Value.quotable value
  | .reference _ => true
  | .application fn arg => Expr.quotable fn && Expr.quotable arg
  | .vector elements => Expr.allQuotable elements
  | .lambda _ body => Expr.quotable body
  | .fix fn => Expr.quotable fn
  | .select scrutinee branches => Expr.quotable scrutinee && Expr.branchesQuotable branches

def Expr.allQuotable : List Expr → Bool
  | [] => true
  | e :: rest => Expr.quotable e && Expr.allQuotable rest

def Expr.branchesQuotable : List (Pattern × Expr) → Bool
  | [] => true
  | (p, e) :: rest => Pattern.quotable p && Expr.quotable e && Expr.branchesQuotable rest

def Pattern.quotable : Pattern → Bool
  | .literal value => Value.quotable value
  | _ => true

end

def Value.quote (v : Value) : Except NumeralError Text :=
  if v.quotable then .ok v.quoted else .error .unwritable

def Expr.quote (e : Expr) : Except NumeralError Text :=
  if e.quotable then .ok e.quoted else .error .unwritable

def Pattern.quote (p : Pattern) : Except NumeralError Text :=
  if p.quotable then .ok p.quoted else .error .unwritable

/-- A value as plain text: a string and a symbol by their characters, a function in angle brackets,
anything else in quoted form. -/
def Value.plain : Value → Except NumeralError Text
  | .text s => .ok s
  | .symbol name => .ok name
  | v => if v.isFunction then .ok v.functionText else v.quote

end Unfurl
