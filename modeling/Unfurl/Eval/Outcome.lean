import Unfurl.Eval.Fault

namespace Unfurl

abbrev Call := Primitive × List Value

/-- What has happened during a run. -/
structure Tally where
  steps : Nat := 0
  applications : Nat := 0
  /-- The mark that the next new function or NaN gets. -/
  fresh : Mark := 1
  /-- The calls of primitives, latest first. -/
  calls : List Call := []

inductive Outcome (ε α : Type) where
  | done (result : α) (tally : Tally)
  | failed (error : ε) (tally : Tally)
  | exhausted (tally : Tally)

def Outcome.tally {ε α : Type} : Outcome ε α → Tally
  | .done _ t => t
  | .failed _ t => t
  | .exhausted t => t

/-- A run under a step limit, or under none. -/
def Run (α : Type) : Type := Option Nat → Tally → Outcome Fault α

namespace Run

variable {α β : Type}

protected def pure (a : α) : Run α := fun _ t => .done a t

protected def bind (x : Run α) (f : α → Run β) : Run β := fun limit t =>
  match x limit t with
  | .done a t' => f a limit t'
  | .failed e t' => .failed e t'
  | .exhausted t' => .exhausted t'

instance : Monad Run where
  pure := Run.pure
  bind := Run.bind

def fail (fault : Fault) : Run α := fun _ t => .failed fault t

def exhausted : Run α := fun _ t => .exhausted t

/-- Counts a step, and fails if it is one too many. -/
def tick : Run Unit := fun limit t =>
  let t' := { t with steps := t.steps + 1 }
  match limit with
  | some n => if n < t'.steps then .failed (.eval (.stepLimitExceeded n)) t' else .done () t'
  | none => .done () t'

def count : Run Unit := fun _ t => .done () { t with applications := t.applications + 1 }

def freshMark : Run Mark := fun _ t => .done t.fresh { t with fresh := t.fresh + 1 }

def record (call : Call) : Run Unit := fun _ t => .done () { t with calls := call :: t.calls }

def ofExcept : Except Fault α → Run α
  | .ok a => Run.pure a
  | .error e => fail e

def each (f : α → Run β) : List α → Run (List β)
  | [] => Run.pure []
  | a :: rest => Run.bind (f a) fun b => Run.bind (each f rest) fun bs => Run.pure (b :: bs)

end Run

def Tally.remaining (limit : Nat) (t : Tally) : Nat := limit - t.steps

end Unfurl
