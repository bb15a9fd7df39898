import Unfurl.Document.Encode
import Unfurl.Proofs.Document.Node

/-! `atoms` lists the values without parts that are written, in the order in which a document shows them. -/

namespace Unfurl

/-! ### Atoms in document order -/

mutual

def Value.atoms : Value → List Value
  | .list items => Value.atomsAll items
  | v => [v]

def Value.atomsAll : List Value → List Value
  | [] => []
  | v :: rest => Value.atoms v ++ Value.atomsAll rest

end

def Pattern.atoms : Pattern → List Value
  | .literal value => value.atoms
  | _ => []

mutual

def Expr.atoms : Expr → List Value
  | .literal value => value.atoms
  | .reference _ => []
  | .application f a => Expr.atoms f ++ Expr.atoms a
  | .vector elements => Expr.atomsAll elements
  | .lambda _ body => Expr.atoms body
  | .fix f => Expr.atoms f
  | .select scrutinee branches => Expr.atoms scrutinee ++ Expr.atomsBranches branches

def Expr.atomsAll : List Expr → List Value
  | [] => []
  | e :: rest => Expr.atoms e ++ Expr.atomsAll rest

def Expr.atomsBranches : List (Pattern × Expr) → List Value
  | [] => []
  | (p, e) :: rest => p.atoms ++ (Expr.atoms e ++ Expr.atomsBranches rest)

end

/-! ### Encoders -/

variable {α β : Type}

/-- An encoder that meets these atoms fails at the first function among them, and otherwise has a result
with the property. -/
def Encodes (r : Except DocumentError α) (atoms : List Value) (P : α → Prop) : Prop :=
  match atoms.find? Value.isFunction with
  | none => ∃ a, r = .ok a ∧ P a
  | some fn => r = .error (.functionValue fn)

namespace Encodes

variable {P : α → Prop} {Q : β → Prop} {r : Except DocumentError α} {xs ys : List Value}

theorem ok {a : α} (holds : P a) : Encodes (.ok a) [] P := ⟨a, rfl, holds⟩

theorem bind {k : α → Except DocumentError β} (first : Encodes r xs P)
    (rest : ∀ a, P a → Encodes (k a) ys Q) : Encodes (r >>= k) (xs ++ ys) Q := by
  unfold Encodes at first ⊢
  rw [List.find?_append]
  cases found : xs.find? Value.isFunction with
  | none =>
    rw [found] at first
    obtain ⟨a, rfl, holds⟩ := first
    exact rest a holds
  | some fn =>
    rw [found] at first
    obtain rfl := first
    rfl

theorem map {f : α → β} (first : Encodes r xs P) (holds : ∀ a, P a → Q (f a)) :
    Encodes (r >>= fun a => .ok (f a)) xs Q := by
  have whole := first.bind (k := fun a => .ok (f a)) fun a here => Encodes.ok (holds a here)
  rwa [List.append_nil] at whole

theorem of_ok {a : α} (encodes : Encodes r xs P) (done : r = .ok a) : P a := by
  unfold Encodes at encodes
  split at encodes
  · obtain ⟨b, same, holds⟩ := encodes
    exact Except.ok.inj (done.symm.trans same) ▸ holds
  · cases done.symm.trans encodes

end Encodes

/-! ### Values and patterns -/

mutual

theorem Value.encodes : (v : Value) → Encodes v.encode v.atoms (Value.decode · = .ok v)
  | .nil | .bool _ | .int _ | .float _ | .text _ | .symbol _ => ⟨_, rfl, rfl⟩
  | .closure .. | .builtin .. | .unfolding .. => rfl
  | .list items => by
    refine (Value.encodesItems items).map fun docs decoded => ?_
    rw [Value.decode, decoded]
    rfl

theorem Value.encodesItems : (vs : List Value) →
    Encodes (Value.encodeItems vs) (Value.atomsAll vs) (Value.decodeItems · = .ok vs)
  | [] => .ok rfl
  | v :: rest => by
    refine (Value.encodes v).bind fun doc decoded => ?_
    refine (Value.encodesItems rest).map fun docs later => ?_
    rw [Value.decodeItems, decoded, later]
    rfl

end

theorem Pattern.encodes (p : Pattern) : Encodes p.encode p.atoms (Pattern.decode · = .ok p) := by
  cases p with
  | otherwise => exact ⟨_, rfl, rfl⟩
  | reference name => exact ⟨_, rfl, rfl⟩
  | literal value =>
    refine (Value.encodes value).map fun doc decoded => ?_
    rw [Pattern.decode_lit, decoded]
    rfl

/-! ### Expressions -/

theorem Expr.decode_node (kind : NodeKind) (payload : Json) :
    Expr.decode (Json.node kind.name payload) = Expr.decodePayload kind payload := by
  rw [Expr.decode_eq]
  cases kind <;> rfl

theorem Json.texts?_map (names : List Text) : Json.texts? (names.map .text) = some names := by
  induction names with
  | nil => rfl
  | cons name rest ih => rw [List.map_cons, Json.texts?, ih, Option.map_some]

mutual

theorem Expr.encodes : (e : Expr) → Encodes e.encode e.atoms (Expr.decode · = .ok e)
  | .literal value => by
    refine (Value.encodes value).map fun doc decoded => ?_
    refine (Expr.decode_node .literal _).trans ?_
    rw [Expr.decodePayload, decoded]
    rfl
  | .reference name => ⟨_, rfl, Expr.decode_node .reference (.text name)⟩
  | .application f a => by
    refine (Expr.encodes f).bind fun fn decodedFn => ?_
    refine (Expr.encodes a).map fun arg decodedArg => ?_
    refine (Expr.decode_node .application _).trans ?_
    rw [Expr.decodePayload]
    simp [Json.need, Json.field?, Overlay.get?, bind, Except.bind, decodedFn, decodedArg]
  | .vector elements => by
    refine (Expr.encodesAll elements).map fun docs decoded => ?_
    refine (Expr.decode_node .vector _).trans ?_
    rw [Expr.decodePayload, Expr.decodeElements, decoded]
    rfl
  | .lambda params body => by
    refine (Expr.encodes body).map fun doc decoded => ?_
    refine (Expr.decode_node .lambda _).trans ?_
    rw [Expr.decodePayload]
    simp [Json.need, Json.field?, Overlay.get?, bind, Except.bind, decoded, Expr.decodeParams,
      Json.texts?_map]
  | .fix f => by
    refine (Expr.encodes f).map fun doc decoded => ?_
    refine (Expr.decode_node .fix _).trans ?_
    rw [Expr.decodePayload, decoded]
    rfl
  | .select s branches => by
    refine (Expr.encodes s).bind fun doc decoded => ?_
    refine (Expr.encodesBranches branches).map fun docs later => ?_
    refine (Expr.decode_node .select _).trans ?_
    rw [Expr.decodePayload]
    simp [Json.need, Json.field?, Overlay.get?, bind, Except.bind, decoded, Expr.decodeBranches, later]

theorem Expr.encodesAll : (es : List Expr) →
    Encodes (Expr.encodeAll es) (Expr.atomsAll es) (Expr.decodeAll · = .ok es)
  | [] => .ok (by rw [Expr.decodeAll])
  | e :: rest => by
    refine (Expr.encodes e).bind fun doc decoded => ?_
    refine (Expr.encodesAll rest).map fun docs later => ?_
    rw [Expr.decodeAll, decoded, later]
    rfl

theorem Expr.encodesBranches : (branches : List (Pattern × Expr)) →
    Encodes (Expr.encodeBranches branches) (Expr.atomsBranches branches)
      (Expr.decodePairs · = .ok branches)
  | [] => .ok (by rw [Expr.decodePairs])
  | (p, e) :: rest => by
    refine (Pattern.encodes p).bind fun pattern decodedPattern => ?_
    refine (Expr.encodes e).bind fun body decodedBody => ?_
    refine (Expr.encodesBranches rest).map fun docs later => ?_
    rw [Expr.decodePairs, decodedPattern, decodedBody, later]
    rfl

end

/-- Encoding succeeds exactly on what holds no function, and decoding undoes it; otherwise it names the
first function in document order. -/
theorem document_round_trip :
    (∀ v : Value, Encodes v.encode v.atoms (Value.decode · = .ok v)) ∧
      (∀ p : Pattern, Encodes p.encode p.atoms (Pattern.decode · = .ok p)) ∧
      ∀ e : Expr, Encodes e.encode e.atoms (Expr.decode · = .ok e) :=
  ⟨Value.encodes, Pattern.encodes, Expr.encodes⟩

end Unfurl
