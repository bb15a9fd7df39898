import Unfurl.Eval.Evaluate

namespace Unfurl

mutual

/-- In `env` the expression `e` ends in `r`, a value or the first failure, after the calls of primitives
`calls`; new functions get the marks from `m` up to `m'`. -/
inductive Unfurls : Environment → Expr → Mark → Except Fault Value → List Call → Mark → Prop
  | literal {env : Environment} {v : Value} {m : Mark} : Unfurls env (.literal v) m (.ok v) [] m
  | bound {env : Environment} {name : Text} {v : Value} {m : Mark} :
      Overlay.get? env name = some v → Unfurls env (.reference name) m (.ok v) [] m
  | unbound {env : Environment} {name : Text} {m : Mark} : Overlay.get? env name = none →
      Unfurls env (.reference name) m (.error (.eval (.undefinedReference name))) [] m
  | vector {env : Environment} {es : List Expr} {vs : List Value} {c : List Call} {m m' : Mark} :
      UnfurlsAll env es m (.ok vs) c m' → Unfurls env (.vector es) m (.ok (.list vs)) c m'
  | vectorFails {env : Environment} {es : List Expr} {e : Fault} {c : List Call} {m m' : Mark} :
      UnfurlsAll env es m (.error e) c m' → Unfurls env (.vector es) m (.error e) c m'
  | application {env : Environment} {f a : Expr} {fn arg : Value} {r : Except Fault Value}
      {c₁ c₂ c₃ : List Call} {m m₁ m₂ m' : Mark} :
      Unfurls env f m (.ok fn) c₁ m₁ → Unfurls env a m₁ (.ok arg) c₂ m₂ →
      Calls fn arg.spread m₂ r c₃ m' → Unfurls env (.application f a) m r (c₁ ++ (c₂ ++ c₃)) m'
  | applicationFn {env : Environment} {f a : Expr} {e : Fault} {c : List Call} {m m' : Mark} :
      Unfurls env f m (.error e) c m' → Unfurls env (.application f a) m (.error e) c m'
  | applicationArg {env : Environment} {f a : Expr} {fn : Value} {e : Fault} {c₁ c₂ : List Call}
      {m m₁ m' : Mark} :
      Unfurls env f m (.ok fn) c₁ m₁ → Unfurls env a m₁ (.error e) c₂ m' →
      Unfurls env (.application f a) m (.error e) (c₁ ++ c₂) m'
  | lambda {env : Environment} {params : List Text} {body : Expr} {m : Mark} :
      Unfurls env (.lambda params body) m (.ok (.closure m params body env)) [] (m + 1)
  | fix {env : Environment} {f : Expr} {fn : Value} {r : Except Fault Value} {c₁ c₂ : List Call}
      {m m₁ m' : Mark} :
      Unfurls env f m (.ok fn) c₁ m₁ → Calls fn [.unfolding m₁ f env] (m₁ + 1) r c₂ m' →
      Unfurls env (.fix f) m r (c₁ ++ c₂) m'
  | fixFn {env : Environment} {f : Expr} {e : Fault} {c : List Call} {m m' : Mark} :
      Unfurls env f m (.error e) c m' → Unfurls env (.fix f) m (.error e) c m'
  | select {env : Environment} {s body : Expr} {p : Pattern} {before after : List Branch} {v : Value}
      {r : Except Fault Value} {c₁ c₂ : List Call} {m m₁ m' : Mark} :
      Unfurls env s m (.ok v) c₁ m₁ → (∀ branch ∈ before, branch.1.accepts v = false) →
      p.accepts v = true → Unfurls env body m₁ r c₂ m' →
      Unfurls env (.select s (before ++ (p, body) :: after)) m r (c₁ ++ c₂) m'
  | selectNone {env : Environment} {s : Expr} {branches : List Branch} {v : Value} {c : List Call}
      {m m' : Mark} :
      Unfurls env s m (.ok v) c m' → (∀ branch ∈ branches, branch.1.accepts v = false) →
      Unfurls env (.select s branches) m (.error (blame .noMatchingPattern v)) c m'
  | selectScrutinee {env : Environment} {s : Expr} {branches : List Branch} {e : Fault} {c : List Call}
      {m m' : Mark} :
      Unfurls env s m (.error e) c m' → Unfurls env (.select s branches) m (.error e) c m'

/-- The elements of a vector, from left to right up to the first that fails. -/
inductive UnfurlsAll : Environment → List Expr → Mark → Except Fault (List Value) → List Call → Mark → Prop
  | nil {env : Environment} {m : Mark} : UnfurlsAll env [] m (.ok []) [] m
  | cons {env : Environment} {e : Expr} {es : List Expr} {v : Value} {vs : List Value}
      {c₁ c₂ : List Call} {m m₁ m' : Mark} :
      Unfurls env e m (.ok v) c₁ m₁ → UnfurlsAll env es m₁ (.ok vs) c₂ m' →
      UnfurlsAll env (e :: es) m (.ok (v :: vs)) (c₁ ++ c₂) m'
  | first {env : Environment} {e : Expr} {es : List Expr} {fault : Fault} {c : List Call} {m m' : Mark} :
      Unfurls env e m (.error fault) c m' → UnfurlsAll env (e :: es) m (.error fault) c m'
  | later {env : Environment} {e : Expr} {es : List Expr} {v : Value} {fault : Fault}
      {c₁ c₂ : List Call} {m m₁ m' : Mark} :
      Unfurls env e m (.ok v) c₁ m₁ → UnfurlsAll env es m₁ (.error fault) c₂ m' →
      UnfurlsAll env (e :: es) m (.error fault) (c₁ ++ c₂) m'

inductive Calls : Value → List Value → Mark → Except Fault Value → List Call → Mark → Prop
  | closure {k : Mark} {params : List Text} {body : Expr} {env : Environment} {args : List Value}
      {r : Except Fault Value} {c : List Call} {m m' : Mark} : args.length = params.length →
      Unfurls (Overlay.extend env (params.zip args)) body m r c m' →
      Calls (.closure k params body env) args m r c m'
  | arity {k : Mark} {params : List Text} {body : Expr} {env : Environment} {args : List Value}
      {m : Mark} : args.length ≠ params.length →
      Calls (.closure k params body env) args m
        (.error (.eval (.arityMismatch params.length args.length))) [] m
  | unfolding {k : Mark} {f : Expr} {env : Environment} {args : List Value} {fn : Value}
      {r : Except Fault Value} {c₁ c₂ : List Call} {m m₁ m' : Mark} :
      Unfurls env (.fix f) m (.ok fn) c₁ m₁ → Calls fn args m₁ r c₂ m' →
      Calls (.unfolding k f env) args m r (c₁ ++ c₂) m'
  | unfoldingNode {k : Mark} {f : Expr} {env : Environment} {args : List Value} {e : Fault}
      {c : List Call} {m m' : Mark} :
      Unfurls env (.fix f) m (.error e) c m' → Calls (.unfolding k f env) args m (.error e) c m'
  | builtin {k : Mark} {name : Text} {op : Primitive} {args : List Value} {m : Mark} :
      Calls (.builtin k name op) args m (op.result m args) [(op, args)] (m + 1)
  | data {v : Value} {args : List Value} {m : Mark} : v.isFunction = false →
      Calls v args m (.error (blame .notCallable v)) [] m

end

end Unfurl
