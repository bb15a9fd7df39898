import Unfurl.Definitions.Load

/-! A definition refers only to names defined above it. -/

namespace Unfurl.Prelude

/-- Choices between values that are already there; both sides have been evaluated. -/
def control : List Definition :=
  [ ("when", .lambda ["condition", "body"]
      (.call "cond" [.reference "condition", .reference "body", .literal .nil])),
    ("unless", .lambda ["condition", "body"]
      (.call "cond" [.reference "condition", .literal .nil, .reference "body"])),
    ("let", .lambda ["binding", "body"]
      (.application (.lambda ["x"] (.reference "body"))
        (.vector [.call "cdr" [.reference "binding"]]))) ]

def items : List Definition :=
  [ ("map", .lambda ["f", "x"] (.call "f" [.reference "x"])),
    ("filter", .lambda ["pred", "x"]
      (.call "cond" [.call "pred" [.reference "x"], .reference "x", .literal .nil])),
    ("reduce", .lambda ["f", "acc", "x"] (.call "f" [.reference "acc", .reference "x"])) ]

def numbers : List Definition :=
  [ ("inc", .lambda ["x"] (.call "+" [.reference "x", .literal (.int 1)])),
    ("dec", .lambda ["x"] (.call "-" [.reference "x", .literal (.int 1)])),
    ("square", .lambda ["x"] (.call "*" [.reference "x", .reference "x"])) ]

def logic : List Definition :=
  [ ("and", .lambda ["a", "b"]
      (.call "cond" [.reference "a", .reference "b", .literal (.bool false)])),
    ("or", .lambda ["a", "b"]
      (.call "cond" [.reference "a", .literal (.bool true), .reference "b"])),
    ("not", .lambda ["x"]
      (.call "cond" [.reference "x", .literal (.bool false), .literal (.bool true)])) ]

def comparisons : List Definition :=
  [ ("=", .lambda ["a", "b"] (.call "eq?" [.reference "a", .reference "b"])),
    ("!=", .lambda ["a", "b"] (.call "not" [.call "eq?" [.reference "a", .reference "b"]])),
    (">", .lambda ["a", "b"] (.call "not" [.call "<=" [.reference "a", .reference "b"]])),
    ("<", .lambda ["a", "b"] (.call "not" [.call "<=" [.reference "b", .reference "a"]])),
    (">=", .lambda ["a", "b"] (.call "<=" [.reference "b", .reference "a"])) ]

def combinators : List Definition :=
  [ ("compose", .lambda ["f", "g"]
      (.lambda ["x"] (.call "f" [.call "g" [.reference "x"]]))),
    ("partial", .lambda ["f", "a"]
      (.lambda ["x"] (.call "f" [.reference "a", .reference "x"]))),
    ("curry", .lambda ["f"]
      (.lambda ["a"] (.lambda ["b"] (.call "f" [.reference "a", .reference "b"])))) ]

/-- Forms that pass one of their arguments on. An error ends the program, so a handler is never used. -/
def forms : List Definition :=
  [ ("try", .lambda ["expr", "handler"] (.reference "expr")),
    ("case", .lambda ["expr", "branches"]
      (.select (.reference "expr") [(.otherwise, .reference "branches")])) ]

def definitions : List Definition :=
  control ++ items ++ numbers ++ logic ++ comparisons ++ combinators ++ forms

end Unfurl.Prelude
