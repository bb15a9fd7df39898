import Unfurl.Document.Decode

/-! `decode_eq` opens `Expr.decode` by one level; nothing else unfolds the decoder. -/

namespace Unfurl

/-! ### Fields -/

theorem Json.part?_val (doc : Json) (key : Text) : (doc.part? key).map Subtype.val = doc.field? key := by
  cases doc with
  | object fields =>
    rw [Json.part?, Json.field?]
    split
    · rename_i found
      exact found.symm
    · rename_i missing
      exact missing.symm
  | _ => rfl

def Json.need (kind key : Text) (payload : Json) : Except DocumentFault Json :=
  match payload.field? key with
  | some part => .ok part
  | none => .error (.shape (.missingField kind key))

/-! ### Patterns -/

theorem Pattern.decode_lit (doc : Json) :
    Pattern.decode (.object [("lit", doc)]) = Value.decode doc >>= fun value => .ok (.literal value) := by
  cases doc <;> rfl

/-! ### Kinds -/

theorem Json.nodeKind?_eq_some {tag : Json} {kind : NodeKind} :
    tag.nodeKind? = some kind ↔ tag = .text kind.name := by
  constructor
  · intro found
    cases tag with
    | text name =>
      have named := List.find?_some found
      rw [of_decide_eq_true named]
    | _ => cases found
  · rintro rfl
    cases kind <;> rfl

/-- What a node of a kind makes of its payload. -/
def Expr.decodePayload : NodeKind → Json → Except DocumentFault Expr
  | .literal, payload => do
    let value ← Value.decode payload
    .ok (.literal value)
  | .reference, .text name => .ok (.reference name)
  | .reference, other => refuse .referenceName other
  | .application, payload => do
    let f ← payload.need "app" "fn" >>= Expr.decode
    let a ← payload.need "app" "args" >>= Expr.decode
    .ok (.application f a)
  | .vector, payload => do
    let elements ← Expr.decodeElements payload
    .ok (.vector elements)
  | .lambda, payload => do
    let names ← payload.need "lam" "params" >>= Expr.decodeParams
    let body ← payload.need "lam" "body" >>= Expr.decode
    .ok (.lambda names body)
  | .fix, payload => do
    let f ← Expr.decode payload
    .ok (.fix f)
  | .select, payload => do
    let branches ← payload.need "match" "branches" >>= Expr.decodeBranches
    let scrutinee ← payload.need "match" "expr" >>= Expr.decode
    .ok (.select scrutinee branches)

theorem Expr.decode_eq (doc : Json) :
    Expr.decode doc =
      match doc.field? "g", doc.field? "v" with
      | some tag, some payload =>
        match tag.nodeKind? with
        | some kind => Expr.decodePayload kind payload
        | none => refuse .unknownKind tag
      | _, _ => refuse .notNode doc := by
  rw [Expr.decode, ← Json.part?_val, ← Json.part?_val]
  cases doc.part? "g" with
  | none => rfl
  | some tag =>
    cases doc.part? "v" with
    | none => rfl
    | some payload =>
      obtain ⟨tag, _⟩ := tag
      obtain ⟨payload, _⟩ := payload
      dsimp only [Option.map_some]
      cases tag.nodeKind? with
      | none => rfl
      | some kind =>
        cases kind with
        | literal | vector | fix => rfl
        | reference => cases payload <;> rfl
        | application =>
          simp only [Expr.decodePayload, Json.part, Json.need, ← Json.part?_val]
          cases payload.part? "fn" <;> cases payload.part? "args" <;> rfl
        | lambda =>
          simp only [Expr.decodePayload, Json.part, Json.need, ← Json.part?_val]
          cases payload.part? "params" <;> cases payload.part? "body" <;> rfl
        | select =>
          simp only [Expr.decodePayload, Json.part, Json.need, ← Json.part?_val]
          cases payload.part? "branches" <;> cases payload.part? "expr" <;> rfl

end Unfurl
