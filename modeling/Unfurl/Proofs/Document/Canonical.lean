import Mathlib.Data.List.Perm.Subperm
import Unfurl.Proofs.Document.Grammar
import Unfurl.Proofs.Overlay

/-! Decoding and encoding drops further fields and wraps bare lists and bare literal patterns. -/

namespace Unfurl

/-! ### Equality up to the order of fields -/

namespace Json

mutual

/-- The second document is the first with the fields of its objects in some order. -/
def reorders : Json → Json → Bool
  | .null, .null => true
  | .bool a, .bool b => a == b
  | .int a, .int b => a == b
  | .float x, .float y => decide (x = y)
  | .text s, .text t => s == t
  | .array xs, .array ys => reordersItems xs ys
  | .object fields, .object others => fields.length == others.length && reordersFields fields others
  | _, _ => false

def reordersItems : List Json → List Json → Bool
  | [], [] => true
  | x :: xs, y :: ys => reorders x y && reordersItems xs ys
  | _, _ => false

def reordersFields : List (Text × Json) → List (Text × Json) → Bool
  | [], _ => true
  | (key, x) :: rest, others =>
    (match Overlay.get? others key with
      | some y => reorders x y
      | none => false) && reordersFields rest others

end

theorem reordersItems_texts (names : List Text) :
    reordersItems (names.map .text) (names.map .text) = true := by
  induction names with
  | nil => rfl
  | cons name rest ih => simp [reordersItems, reorders, ih]

theorem perm_of_two {fields : List (Text × Json)} {key₁ key₂ : Text} {x y : Json}
    (different : key₁ ≠ key₂) (first : Overlay.get? fields key₁ = some x)
    (second : Overlay.get? fields key₂ = some y) :
    fields.length = 2 ↔ (fields.map Prod.fst).Perm [key₁, key₂] := by
  constructor
  · intro two
    have subset : [key₁, key₂] ⊆ fields.map Prod.fst := by
      intro key member
      have either : key = key₁ ∨ key = key₂ := by simpa using member
      rcases either with rfl | rfl
      · exact List.mem_map.mpr ⟨_, Overlay.mem_of_get? first, rfl⟩
      · exact List.mem_map.mpr ⟨_, Overlay.mem_of_get? second, rfl⟩
    have within := List.subperm_of_subset (by simpa using different) subset
    exact (within.perm_of_length_le (by simp [two])).symm
  · intro perm
    simpa using perm.length_eq

/-- An object of two fields becomes the document if its parts do and there are no further fields. -/
theorem reorders_pair {doc x y x' y' : Json} {key₁ key₂ : Text} (different : key₁ ≠ key₂)
    (pair : doc.Pair .lenient key₁ x key₂ y) :
    (Json.object [(key₁, x'), (key₂, y')]).reorders doc = true ↔
      doc.keys.Perm [key₁, key₂] ∧ x'.reorders x = true ∧ y'.reorders y = true := by
  cases doc with
  | object fields =>
    have first : Overlay.get? fields key₁ = some x := pair.first
    have second : Overlay.get? fields key₂ = some y := pair.second
    rw [Json.keys, ← perm_of_two different first second]
    have counted : ([(key₁, x'), (key₂, y')].length == fields.length) = true ↔ fields.length = 2 := by
      rw [beq_iff_eq]
      exact eq_comm
    simp only [reorders, reordersFields, first, second, Bool.and_true, Bool.and_eq_true, counted]
  | _ => cases pair.first

end Json

/-! ### Decoding and encoding again -/

variable {α β : Type}

/-- Decoding has a result, and encoding it yields the same again exactly for the canonical. -/
def Normalises (decoded : Except DocumentFault α) (encode : α → Except DocumentError β)
    (same : β → Bool) (canonical : Prop) : Prop :=
  ∃ a b, decoded = .ok a ∧ encode a = .ok b ∧ (same b = true ↔ canonical)

theorem Normalises.all {decode : Json → Except DocumentFault α} {encode : α → Except DocumentError Json}
    {decodeAll : List Json → Except DocumentFault (List α)}
    {encodeAll : List α → Except DocumentError (List Json)} {canonical : Json → Prop}
    (decode_nil : decodeAll [] = .ok [])
    (decode_cons : ∀ doc docs, decodeAll (doc :: docs) = do
      let a ← decode doc
      let as ← decodeAll docs
      .ok (a :: as))
    (encode_nil : encodeAll [] = .ok [])
    (encode_cons : ∀ a as, encodeAll (a :: as) = do
      let doc ← encode a
      let docs ← encodeAll as
      .ok (doc :: docs))
    {docs : List Json}
    (inside : ∀ doc ∈ docs, Normalises (decode doc) encode (·.reorders doc) (canonical doc)) :
    Normalises (decodeAll docs) encodeAll (Json.reordersItems · docs) (∀ doc ∈ docs, canonical doc) := by
  induction docs with
  | nil => exact ⟨[], [], decode_nil, encode_nil, by simp [Json.reordersItems]⟩
  | cons doc rest ih =>
    obtain ⟨here, later⟩ := List.forall_mem_cons.mp inside
    obtain ⟨a, d, decoded, encoded, same⟩ := here
    obtain ⟨as, ds, decodedRest, encodedRest, sameRest⟩ := ih later
    refine ⟨a :: as, d :: ds, ?_, ?_, ?_⟩
    · rw [decode_cons, decoded, decodedRest]
      rfl
    · rw [encode_cons, encoded, encodedRest]
      rfl
    · rw [List.forall_mem_cons, ← same, ← sameRest]
      exact Bool.and_eq_true _ _ ▸ Iff.rfl

theorem Value.normalisesItems {items : List Json}
    (inside : ∀ doc ∈ items,
      Normalises (Value.decode doc) Value.encode (·.reorders doc) (ValueDoc .canonical doc)) :
    Normalises (Value.decodeItems items) Value.encodeItems (Json.reordersItems · items)
      (∀ doc ∈ items, ValueDoc .canonical doc) := by
  refine .all ?_ (fun doc docs => ?_) ?_ (fun v vs => ?_) inside
  all_goals rfl

theorem Value.normalises {doc : Json} (accepted : ValueDoc .lenient doc) :
    Normalises (Value.decode doc) Value.encode (·.reorders doc) (ValueDoc .canonical doc) := by
  induction accepted with
  | null => exact ⟨_, _, rfl, rfl, iff_of_true rfl .null⟩
  | bool b => exact ⟨_, _, rfl, rfl, iff_of_true (by simp [Json.reorders]) (.bool b)⟩
  | int n => exact ⟨_, _, rfl, rfl, iff_of_true (by simp [Json.reorders]) (.int n)⟩
  | float x => exact ⟨_, _, rfl, rfl, iff_of_true (by simp [Json.reorders]) (.float x)⟩
  | text s => exact ⟨_, _, rfl, rfl, iff_of_true (by simp [Json.reorders]) (.text s)⟩
  | symbol name =>
    refine ⟨_, _, rfl, rfl, iff_of_true ?_ (.symbol name)⟩
    simp [Json.reorders, Json.reordersFields, Overlay.get?]
  | @list items _ ih =>
    obtain ⟨vs, docs, decoded, encoded, same⟩ := Value.normalisesItems ih
    refine ⟨.list vs, .object [("list", .array docs)], ?_, ?_, ?_⟩
    · rw [Value.decode, decoded]
      rfl
    · rw [Value.encode, encoded]
      rfl
    · rw [valueDoc_list, ← same]
      simp [Json.reorders, Json.reordersFields, Overlay.get?]
  | @bare items _ _ ih =>
    obtain ⟨vs, docs, decoded, encoded, _⟩ := Value.normalisesItems ih
    refine ⟨.list vs, .object [("list", .array docs)], ?_, ?_, ?_⟩
    · rw [Value.decode, decoded]
      rfl
    · rw [Value.encode, encoded]
      rfl
    · refine iff_of_false (by simp [Json.reorders]) fun canonical => ?_
      cases canonical with
      | bare lenient => cases lenient

theorem Pattern.decode_bare {doc : Json} (plain : doc.isObject = false) (other : doc ≠ .text "else") :
    Pattern.decode doc = Value.decode doc >>= fun value => .ok (.literal value) := by
  unfold Pattern.decode
  split
  · rw [if_neg fun isElse => other (congrArg Json.text isElse)]
    rfl
  · cases plain
  · cases plain
  · rfl

theorem Pattern.normalises {doc : Json} (accepted : PatternDoc .lenient doc) :
    Normalises (Pattern.decode doc) Pattern.encode (·.reorders doc) (PatternDoc .canonical doc) := by
  cases accepted with
  | otherwise => exact ⟨_, _, rfl, rfl, iff_of_true (by simp [Json.reorders]) .otherwise⟩
  | @literal value inside =>
    obtain ⟨v, d, decoded, encoded, same⟩ := Value.normalises inside
    refine ⟨.literal v, .object [("lit", d)], ?_, ?_, ?_⟩
    · rw [Pattern.decode_lit, decoded]
      rfl
    · rw [Pattern.encode, encoded]
      rfl
    · rw [patternDoc_object]
      simp [Json.reorders, Json.reordersFields, Overlay.get?, same]
  | reference name =>
    refine ⟨_, _, rfl, rfl, iff_of_true ?_ (.reference name)⟩
    simp [Json.reorders, Json.reordersFields, Overlay.get?]
  | bare _ plain inside =>
    by_cases other : doc = .text "else"
    · subst other
      exact ⟨_, _, rfl, rfl, iff_of_true (by simp [Json.reorders]) .otherwise⟩
    · obtain ⟨v, d, decoded, encoded, _⟩ := Value.normalises inside
      refine ⟨.literal v, .object [("lit", d)], ?_, ?_, ?_⟩
      · rw [Pattern.decode_bare plain other, decoded]
        rfl
      · rw [Pattern.encode, encoded]
        rfl
      · refine iff_of_false ?_ fun canonical => ?_
        · cases doc with
          | object fields => cases plain
          | _ => simp [Json.reorders]
        · cases ((patternDoc_bare plain other).mp canonical).1

/-! ### Nodes -/

theorem Expr.decode_of_node {doc payload : Json} {kind : NodeKind}
    (node : doc.Node .lenient kind payload) : Expr.decode doc = Expr.decodePayload kind payload := by
  have named : (Json.text kind.name).nodeKind? = some kind := Json.nodeKind?_eq_some.mpr rfl
  rw [Expr.decode_eq, node.first, node.second]
  dsimp only
  rw [named]

/-- Fields that are the same in both styles are compared by their parts. -/
theorem Json.Pair.canonical_iff {doc x y : Json} {key₁ key₂ : Text}
    (pair : doc.Pair .lenient key₁ x key₂ y) :
    doc.Pair .canonical key₁ x key₂ y ↔ doc.keys.Perm [key₁, key₂] :=
  ⟨fun strict => strict.only rfl, fun perm => ⟨pair.first, pair.second, fun _ => perm⟩⟩

theorem Json.Pair.unique {style style' : Style} {doc x y x' y' : Json} {key₁ key₂ : Text}
    (pair : doc.Pair style key₁ x key₂ y) (other : doc.Pair style' key₁ x' key₂ y') : x = x' ∧ y = y' :=
  ⟨Option.some.inj (pair.first.symm.trans other.first),
    Option.some.inj (pair.second.symm.trans other.second)⟩

theorem Json.need_of_field {payload part : Json} {kind key : Text}
    (found : payload.field? key = some part) : payload.need kind key = .ok part := by
  rw [Json.need, found]

theorem node_normalises {doc payload payload' : Json} {kind : NodeKind} {e : Expr}
    (node : doc.Node .lenient kind payload) (decoded : Expr.decodePayload kind payload = .ok e)
    (encoded : e.encode = .ok (Json.node kind.name payload'))
    (same : payload'.reorders payload = true ↔ PayloadDoc .canonical kind payload) :
    Normalises (Expr.decode doc) Expr.encode (·.reorders doc) (ExprDoc .canonical doc) := by
  refine ⟨e, _, (Expr.decode_of_node node).trans decoded, encoded, ?_⟩
  have strict : doc.Node .canonical kind payload ↔ doc.keys.Perm ["g", "v"] := node.canonical_iff
  rw [exprDoc_node node, strict, ← same]
  refine (Json.reorders_pair (by decide) node).trans ?_
  simp [Json.reorders]

theorem Expr.normalisesAll {docs : List Json}
    (inside : ∀ doc ∈ docs,
      Normalises (Expr.decode doc) Expr.encode (·.reorders doc) (ExprDoc .canonical doc)) :
    Normalises (Expr.decodeAll docs) Expr.encodeAll (Json.reordersItems · docs)
      (∀ doc ∈ docs, ExprDoc .canonical doc) := by
  refine .all ?_ (fun doc docs => ?_) ?_ (fun e es => ?_) inside
  · rw [Expr.decodeAll]
  · rw [Expr.decodeAll]
  · rfl
  · rfl

theorem Expr.normalisesPairs {branches : List (Json × Json)}
    (patterns : ∀ branch ∈ branches, PatternDoc .lenient branch.1)
    (bodies : ∀ branch ∈ branches, Normalises (Expr.decode branch.2) Expr.encode (·.reorders branch.2)
      (ExprDoc .canonical branch.2)) :
    Normalises (Expr.decodePairs (branches.map Json.ofBranch)) Expr.encodeBranches
      (Json.reordersItems · (branches.map Json.ofBranch))
      ((∀ branch ∈ branches, PatternDoc .canonical branch.1) ∧
        ∀ branch ∈ branches, ExprDoc .canonical branch.2) := by
  induction branches with
  | nil => exact ⟨[], [], by rw [List.map_nil, Expr.decodePairs], rfl, by simp [Json.reordersItems]⟩
  | cons branch rest ih =>
    obtain ⟨pattern, body⟩ := branch
    obtain ⟨firstPattern, patterns⟩ := List.forall_mem_cons.mp patterns
    obtain ⟨firstBody, bodies⟩ := List.forall_mem_cons.mp bodies
    obtain ⟨p, pd, decodedPattern, encodedPattern, samePattern⟩ := Pattern.normalises firstPattern
    obtain ⟨e, d, decoded, encoded, same⟩ := firstBody
    obtain ⟨bs, ds, decodedRest, encodedRest, sameRest⟩ := ih patterns bodies
    refine ⟨(p, e) :: bs, .array [pd, d] :: ds, ?_, ?_, ?_⟩
    · rw [List.map_cons, Json.ofBranch, Expr.decodePairs, decodedPattern, decoded, decodedRest]
      rfl
    · rw [Expr.encodeBranches, encodedPattern, encoded, encodedRest]
      rfl
    · rw [List.forall_mem_cons, List.forall_mem_cons, ← samePattern, ← same]
      simp [Json.reordersItems, Json.reorders, Json.ofBranch, sameRest]
      tauto

theorem Expr.normalises {doc : Json} (accepted : ExprDoc .lenient doc) :
    Normalises (Expr.decode doc) Expr.encode (·.reorders doc) (ExprDoc .canonical doc) := by
  induction accepted with
  | literal node value =>
    obtain ⟨v, d, decoded, encoded, same⟩ := Value.normalises value
    refine node_normalises (e := .literal v) node ?_ ?_ same
    · rw [Expr.decodePayload, decoded]
      rfl
    · rw [Expr.encode, encoded]
      rfl
  | @reference doc name node =>
    refine node_normalises (e := .reference name) node rfl rfl ?_
    exact iff_of_true (by simp [Json.reorders]) ⟨name, rfl⟩
  | @application doc payload f a node fields _ _ ihFn ihArg =>
    obtain ⟨fn, d, decodedFn, encodedFn, sameFn⟩ := ihFn
    obtain ⟨arg, d', decodedArg, encodedArg, sameArg⟩ := ihArg
    have shape : (Json.object [("fn", d), ("args", d')]).reorders payload = true ↔ _ :=
      Json.reorders_pair (by decide) fields
    refine node_normalises (e := .application fn arg) node ?_ ?_ (shape.trans ?_)
    · rw [Expr.decodePayload, Json.need_of_field fields.first, Json.need_of_field fields.second]
      simp [bind, Except.bind, decodedFn, decodedArg]
    · rw [Expr.encode, encodedFn, encodedArg]
      rfl
    · rw [sameFn, sameArg, ← fields.canonical_iff]
      constructor
      · rintro ⟨strict, fn, arg⟩
        exact ⟨f, a, strict, fn, arg⟩
      · rintro ⟨f', a', strict, fn, arg⟩
        obtain ⟨rfl, rfl⟩ := fields.unique strict
        exact ⟨strict, fn, arg⟩
  | vector node _ ih =>
    obtain ⟨es, ds, decoded, encoded, same⟩ := Expr.normalisesAll ih
    have written : (Expr.vector es).encode = .ok (Json.node "vec" (.array ds)) := by
      rw [Expr.encode, encoded]
      rfl
    refine node_normalises node ?_ written ?_
    · rw [Expr.decodePayload, Expr.decodeElements, decoded]
      rfl
    · simpa [PayloadDoc, Json.reorders] using same
  | @lambda doc payload body names node fields _ ih =>
    obtain ⟨b, d, decoded, encoded, same⟩ := ih
    have shape : (Json.object [("params", .array (names.map .text)), ("body", d)]).reorders payload =
        true ↔ _ := Json.reorders_pair (by decide) fields
    refine node_normalises (e := .lambda names b) node ?_ ?_ (shape.trans ?_)
    · rw [Expr.decodePayload, Json.need_of_field fields.first, Json.need_of_field fields.second]
      simp [bind, Except.bind, Expr.decodeParams, Json.texts?_map, decoded]
    · rw [Expr.encode, encoded]
      rfl
    · rw [Json.reorders, Json.reordersItems_texts, same, ← fields.canonical_iff]
      constructor
      · rintro ⟨strict, _, accepted⟩
        exact ⟨names, body, strict, accepted⟩
      · rintro ⟨names', body', strict, accepted⟩
        obtain ⟨listed, rfl⟩ := fields.unique strict
        exact ⟨listed ▸ strict, rfl, accepted⟩
  | fix node _ ih =>
    obtain ⟨f, d, decoded, encoded, same⟩ := ih
    refine node_normalises (e := .fix f) node ?_ ?_ same
    · rw [Expr.decodePayload, decoded]
      rfl
    · rw [Expr.encode, encoded]
      rfl
  | @select doc payload s branches node fields _ patterns _ ihScrutinee ihBodies =>
    obtain ⟨e, d, decoded, encoded, same⟩ := ihScrutinee
    obtain ⟨bs, ds, decodedAll, encodedAll, sameAll⟩ := Expr.normalisesPairs patterns ihBodies
    have shape : (Json.object [("expr", d), ("branches", .array ds)]).reorders payload = true ↔ _ :=
      Json.reorders_pair (by decide) fields
    refine node_normalises (e := .select e bs) node ?_ ?_ (shape.trans ?_)
    · rw [Expr.decodePayload, Json.need_of_field fields.first, Json.need_of_field fields.second]
      simp [bind, Except.bind, Expr.decodeBranches, decoded, decodedAll]
    · rw [Expr.encode, encoded, encodedAll]
      rfl
    · rw [Json.reorders, same, sameAll, ← fields.canonical_iff]
      constructor
      · rintro ⟨strict, scrutinee, patterns, bodies⟩
        exact ⟨s, branches, strict, scrutinee, patterns, bodies⟩
      · rintro ⟨s', branches', strict, scrutinee, patterns, bodies⟩
        obtain ⟨rfl, listed⟩ := fields.unique strict
        obtain rfl := Json.ofBranch_injective.list_map (Json.array.inj listed)
        exact ⟨strict, scrutinee, patterns, bodies⟩

/-- The decoder accepts exactly the lenient grammar and complains about the shape of anything else. What it
accepts it normalises: the result is encoded as a document that decodes to the same, and that is the
document itself exactly if the document is canonical. -/
theorem decoding_exact (doc : Json) :
    ((∃ e, Expr.decode doc = .ok e) ↔ ExprDoc .lenient doc) ∧
      (doc.writable = true → ∀ fault, Expr.decode doc = .error fault → ∃ why, fault = .shape why) ∧
      ∀ e, Expr.decode doc = .ok e → ∃ doc', e.encode = .ok doc' ∧ Expr.decode doc' = .ok e ∧
        (doc'.reorders doc = true ↔ ExprDoc .canonical doc) := by
  have decided := Expr.decided doc
  cases decoded : Expr.decode doc with
  | ok e =>
    rw [decoded] at decided
    refine ⟨iff_of_true ⟨e, rfl⟩ decided, nofun, ?_⟩
    rintro _ ⟨⟩
    obtain ⟨_, doc', same, encoded, canonical⟩ := Expr.normalises decided
    obtain rfl := Except.ok.inj (decoded.symm.trans same)
    exact ⟨doc', encoded, (Expr.encodes e).of_ok encoded, canonical⟩
  | error fault =>
    rw [decoded] at decided
    refine ⟨iff_of_false nofun decided.1, ?_, nofun⟩
    rintro short _ ⟨⟩
    exact decided.2 short

theorem decoding_exact_refused :
    let doc : Json := .object [("v", .null), ("g", .text "ref"), ("note", .bool true)]
    doc.writable = true ∧ ∃ why, Expr.decode doc = .error (.shape why) := by
  intro doc
  have short : doc.writable = true := rfl
  have refused : Expr.decode doc = .error (.shape (.referenceName .null)) := by
    rw [Expr.decode_eq]
    rfl
  obtain ⟨why, same⟩ := (decoding_exact doc).2.1 short _ refused
  exact ⟨short, why, same ▸ refused⟩

end Unfurl
