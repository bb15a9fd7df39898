/-! A new name goes to the end; a name that is present keeps its place and takes the new entry. -/

namespace Unfurl.Overlay

variable {κ α : Type} [DecidableEq κ]

def get? : List (κ × α) → κ → Option α
  | [], _ => none
  | (key, entry) :: rest, name => if key = name then some entry else get? rest name

def set : List (κ × α) → κ → α → List (κ × α)
  | [], name, entry => [(name, entry)]
  | (key, old) :: rest, name, entry =>
    if key = name then (name, entry) :: rest else (key, old) :: set rest name entry

def extend (table pairs : List (κ × α)) : List (κ × α) :=
  pairs.foldl (fun acc pair => set acc pair.1 pair.2) table

def ofPairs (pairs : List (κ × α)) : List (κ × α) := extend [] pairs

/-- The bound names in the order of their first binding. -/
def names (table : List (κ × α)) : List κ := table.map Prod.fst

def has (table : List (κ × α)) (name : κ) : Bool := (get? table name).isSome

end Unfurl.Overlay
