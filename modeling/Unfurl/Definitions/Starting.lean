import Unfurl.Definitions.Prelude

namespace Unfurl

def genesisPrimitives : List Primitive :=
  [.cons, .car, .cdr, .identity, .eq, .cond, .add, .sub, .mul, .le]

/-- Binds primitives under their names, with consecutive marks from `mark` on. -/
def bindFrom (mark : Mark) : List Primitive → Environment → Environment
  | [], env => env
  | op :: rest, env => bindFrom (mark + 1) rest (Overlay.set env op.name (.builtin mark op.name op))

/-- Binds primitives over an environment, each as a function of its own. -/
def bindPrimitives (ops : List Primitive) (env : Environment) (t : Tally) : Environment × Tally :=
  (bindFrom t.fresh ops env, { t with fresh := t.fresh + ops.length })

def genesis (t : Tally) : Environment × Tally := bindPrimitives genesisPrimitives [] t

def genesisDefinitions : List Definition :=
  [ ("lambda", .call "cons"
      [.literal (.symbol "closure"),
        .call "cons" [.literal (.text "params"), .literal (.text "body")]]),
    ("if", .call "cons"
      [.literal (.symbol "if"),
        .call "cons"
          [.literal (.text "condition"),
            .call "cons" [.literal (.text "then"), .literal (.text "else")]]]),
    ("list", .literal (.symbol "list-constructor")),
    ("eval", .literal (.symbol "evaluator")) ]

/-- How much is bound at the start. -/
inductive Starting where
  | empty
  | genesis
  | bootstrap
  | prelude
deriving DecidableEq

def bootstrap (depth : Nat) (t : Tally) : Loading :=
  let (env, t') := genesis t
  load depth genesisDefinitions env t'

def Starting.load (depth : Nat) (start : Starting) (t : Tally) : Loading :=
  match start with
  | .empty => ⟨[], .done [] t⟩
  | .genesis =>
    let (env, t') := Unfurl.genesis t
    ⟨[], .done env t'⟩
  | .bootstrap => Unfurl.bootstrap depth t
  | .prelude => (Unfurl.bootstrap depth t).bind (Unfurl.load depth Prelude.definitions)

end Unfurl
