import Unfurl.Proofs.Document.RoundTrip

/-!
The lenient style admits further fields, bare arrays as lists and bare values as literal patterns; the
canonical style admits none of these.
-/

namespace Unfurl

inductive Style where
  | lenient
  | canonical

def Json.keys : Json → List Text
  | .object fields => fields.map Prod.fst
  | _ => []

def Json.isObject : Json → Bool
  | .object _ => true
  | _ => false

/-- The document has these two fields and, in the canonical style, no others. -/
structure Json.Pair (style : Style) (doc : Json) (key₁ : Text) (part₁ : Json) (key₂ : Text)
    (part₂ : Json) : Prop where
  first : doc.field? key₁ = some part₁
  second : doc.field? key₂ = some part₂
  only : style = .canonical → doc.keys.Perm [key₁, key₂]

/-- The document is a node of this kind with this payload. -/
abbrev Json.Node (style : Style) (kind : NodeKind) (doc payload : Json) : Prop :=
  doc.Pair style "g" (.text kind.name) "v" payload

def Json.ofBranch (branch : Json × Json) : Json := .array [branch.1, branch.2]

theorem Json.ofBranch_injective : Function.Injective Json.ofBranch := by
  rintro ⟨p, e⟩ ⟨p', e'⟩ same
  cases same
  rfl

/-! ### The rules -/

inductive ValueDoc (style : Style) : Json → Prop
  | null : ValueDoc style .null
  | bool (b : Bool) : ValueDoc style (.bool b)
  | int (n : Int) : ValueDoc style (.int n)
  | float (x : Binary64) : ValueDoc style (.float x)
  | text (s : Text) : ValueDoc style (.text s)
  | symbol (name : Text) : ValueDoc style (.object [("symbol", .text name)])
  | list {items : List Json} : (∀ doc ∈ items, ValueDoc style doc) →
      ValueDoc style (.object [("list", .array items)])
  | bare {items : List Json} : style = .lenient → (∀ doc ∈ items, ValueDoc style doc) →
      ValueDoc style (.array items)

inductive PatternDoc (style : Style) : Json → Prop
  | otherwise : PatternDoc style (.text "else")
  | literal {doc : Json} : ValueDoc style doc → PatternDoc style (.object [("lit", doc)])
  | reference (name : Text) : PatternDoc style (.object [("ref", .text name)])
  | bare {doc : Json} : style = .lenient → doc.isObject = false → ValueDoc style doc →
      PatternDoc style doc

inductive ExprDoc (style : Style) : Json → Prop
  | literal {doc value : Json} : doc.Node style .literal value → ValueDoc style value →
      ExprDoc style doc
  | reference {doc : Json} {name : Text} : doc.Node style .reference (.text name) → ExprDoc style doc
  | application {doc payload f a : Json} : doc.Node style .application payload →
      payload.Pair style "fn" f "args" a → ExprDoc style f → ExprDoc style a → ExprDoc style doc
  | vector {doc : Json} {items : List Json} : doc.Node style .vector (.array items) →
      (∀ item ∈ items, ExprDoc style item) → ExprDoc style doc
  | lambda {doc payload body : Json} {names : List Text} : doc.Node style .lambda payload →
      payload.Pair style "params" (.array (names.map .text)) "body" body → ExprDoc style body →
      ExprDoc style doc
  | fix {doc f : Json} : doc.Node style .fix f → ExprDoc style f → ExprDoc style doc
  | select {doc payload s : Json} {branches : List (Json × Json)} : doc.Node style .select payload →
      payload.Pair style "expr" s "branches" (.array (branches.map Json.ofBranch)) → ExprDoc style s →
      (∀ branch ∈ branches, PatternDoc style branch.1) → (∀ branch ∈ branches, ExprDoc style branch.2) →
      ExprDoc style doc

/-! ### Payloads -/

variable {style : Style}

def PayloadDoc (style : Style) : NodeKind → Json → Prop
  | .literal, payload => ValueDoc style payload
  | .reference, payload => ∃ name, payload = .text name
  | .application, payload => ∃ f a, payload.Pair style "fn" f "args" a ∧ ExprDoc style f ∧ ExprDoc style a
  | .vector, payload => ∃ items, payload = .array items ∧ ∀ item ∈ items, ExprDoc style item
  | .lambda, payload => ∃ (names : List Text) (body : Json),
      payload.Pair style "params" (.array (names.map .text)) "body" body ∧ ExprDoc style body
  | .fix, payload => ExprDoc style payload
  | .select, payload => ∃ (s : Json) (branches : List (Json × Json)),
      payload.Pair style "expr" s "branches" (.array (branches.map Json.ofBranch)) ∧ ExprDoc style s ∧
        (∀ branch ∈ branches, PatternDoc style branch.1) ∧ ∀ branch ∈ branches, ExprDoc style branch.2

theorem exprDoc_iff {doc : Json} : ExprDoc style doc ↔
    ∃ kind payload, doc.Node style kind payload ∧ PayloadDoc style kind payload := by
  constructor
  · intro accepted
    cases accepted with
    | literal node value => exact ⟨_, _, node, value⟩
    | reference node => exact ⟨_, _, node, _, rfl⟩
    | application node fields fn arg => exact ⟨_, _, node, _, _, fields, fn, arg⟩
    | vector node items => exact ⟨_, _, node, _, rfl, items⟩
    | lambda node fields body => exact ⟨_, _, node, _, _, fields, body⟩
    | fix node fn => exact ⟨_, _, node, fn⟩
    | select node fields scrutinee patterns bodies =>
      exact ⟨_, _, node, _, _, fields, scrutinee, patterns, bodies⟩
  · rintro ⟨kind, payload, node, shape⟩
    cases kind with
    | literal => exact .literal node shape
    | reference =>
      obtain ⟨name, rfl⟩ := shape
      exact .reference node
    | application =>
      obtain ⟨f, a, fields, fn, arg⟩ := shape
      exact .application node fields fn arg
    | vector =>
      obtain ⟨items, rfl, accepted⟩ := shape
      exact .vector node accepted
    | lambda =>
      obtain ⟨names, body, fields, accepted⟩ := shape
      exact .lambda node fields accepted
    | fix => exact .fix node shape
    | select =>
      obtain ⟨s, branches, fields, scrutinee, patterns, bodies⟩ := shape
      exact .select node fields scrutinee patterns bodies

theorem NodeKind.name_injective {kind kind' : NodeKind} (same : kind.name = kind'.name) :
    kind = kind' := by
  have found : (Json.text kind.name).nodeKind? = some kind := Json.nodeKind?_eq_some.mpr rfl
  have found' : (Json.text kind.name).nodeKind? = some kind' := Json.nodeKind?_eq_some.mpr (by rw [same])
  exact Option.some.inj (found.symm.trans found')

/-- A node is an expression if its payload fits its kind. -/
theorem exprDoc_node {doc payload : Json} {kind : NodeKind} (node : doc.Node .lenient kind payload) :
    ExprDoc style doc ↔ doc.Node style kind payload ∧ PayloadDoc style kind payload := by
  rw [exprDoc_iff]
  constructor
  · rintro ⟨kind', payload', node', shape⟩
    have same := Option.some.inj (node.first.symm.trans node'.first)
    obtain rfl := NodeKind.name_injective (Json.text.inj same)
    obtain rfl := Option.some.inj (node.second.symm.trans node'.second)
    exact ⟨node', shape⟩
  · rintro ⟨node', shape⟩
    exact ⟨kind, payload, node', shape⟩

/-! ### Decisions of a decoder -/

variable {α β : Type}

/-- The decoder has a result exactly if the document is accepted, and otherwise complains about its shape
if its integers are short. -/
def Decided (r : Except DocumentFault α) (accepted short : Prop) : Prop :=
  match r with
  | .ok _ => accepted
  | .error fault => ¬ accepted ∧ (short → ∃ why, fault = .shape why)

namespace Decided

variable {r : Except DocumentFault α} {accepted accepted' short short' : Prop}

theorem congr (decided : Decided r accepted short) (same : accepted ↔ accepted') :
    Decided r accepted' short := by
  rwa [← propext same]

theorem shorten (decided : Decided r accepted short) (imp : short' → short) :
    Decided r accepted short' := by
  cases r with
  | ok a => exact decided
  | error fault => exact ⟨decided.1, fun here => decided.2 (imp here)⟩

theorem refuse {why : Json → DocumentError} {doc : Json} (refused : ¬ accepted) :
    Decided (refuse why doc : Except DocumentFault α) accepted (doc.writable = true) := by
  unfold Unfurl.refuse
  split
  · exact ⟨refused, fun _ => ⟨_, rfl⟩⟩
  · rename_i long
    exact ⟨refused, fun short => absurd short long⟩

theorem bind {k : α → Except DocumentFault β} (first : Decided r accepted short)
    (rest : ∀ a, Decided (k a) accepted' short) : Decided (r >>= k) (accepted ∧ accepted') short := by
  cases r with
  | ok a =>
    show Decided (k a) _ _
    have later := rest a
    cases h : k a with
    | ok b =>
      rw [h] at later
      exact ⟨first, later⟩
    | error fault =>
      rw [h] at later
      exact ⟨fun both => later.1 both.2, later.2⟩
  | error fault => exact ⟨fun both => first.1 both.1, first.2⟩

theorem map (f : α → β) (first : Decided r accepted short) :
    Decided (r >>= fun a => .ok (f a)) accepted short := by
  cases r with
  | ok a => exact first
  | error fault => exact first

end Decided

/-! ### Short integers -/

theorem Json.writable_field {doc part : Json} {key : Text} (found : doc.field? key = some part)
    (short : doc.writable = true) : part.writable = true := by
  cases doc with
  | object fields =>
    rw [Json.writable] at short
    rw [Json.field?] at found
    induction fields with
    | nil => cases found
    | cons field rest ih =>
      obtain ⟨name, item⟩ := field
      rw [Json.fieldsWritable, Bool.and_eq_true] at short
      rw [Overlay.get?] at found
      split at found
      · exact Option.some.inj found ▸ short.1
      · exact ih found short.2
  | _ => cases found

theorem Json.sizeOf_field {doc part : Json} {key : Text} (found : doc.field? key = some part) :
    sizeOf part < sizeOf doc := by
  cases doc with
  | object fields =>
    have smaller := Overlay.sizeOf_get? found
    simp only [Json.object.sizeOf_spec]
    omega
  | _ => cases found

/-! ### Values and patterns -/

theorem valueDoc_array {items : List Json} :
    ValueDoc .lenient (.array items) ↔ ∀ doc ∈ items, ValueDoc .lenient doc := by
  constructor
  · intro accepted
    cases accepted with
    | bare _ inside => exact inside
  · exact .bare rfl

theorem valueDoc_object {fields : List (Text × Json)} : ValueDoc style (.object fields) ↔
    (∃ name, fields = [(↑"symbol", .text name)]) ∨
      ∃ items, fields = [(↑"list", .array items)] ∧ ∀ doc ∈ items, ValueDoc style doc := by
  constructor
  · intro accepted
    generalize same : Json.object fields = doc at accepted
    cases accepted with
    | symbol name => exact Or.inl ⟨name, Json.object.inj same⟩
    | list inside => exact Or.inr ⟨_, Json.object.inj same, inside⟩
    | _ => cases same
  · rintro (⟨name, rfl⟩ | ⟨items, rfl, inside⟩)
    · exact .symbol name
    · exact .list inside

theorem valueDoc_list {items : List Json} :
    ValueDoc style (.object [("list", .array items)]) ↔ ∀ doc ∈ items, ValueDoc style doc := by
  simp [valueDoc_object]

theorem Decided.all (decode : Json → Except DocumentFault α)
    {decodeAll : List Json → Except DocumentFault (List α)} {accepted : Json → Prop}
    (nil : decodeAll [] = .ok [])
    (cons : ∀ doc docs, decodeAll (doc :: docs) = do
      let a ← decode doc
      let as ← decodeAll docs
      .ok (a :: as))
    {docs : List Json} (inside : ∀ doc ∈ docs, Decided (decode doc) (accepted doc) (doc.writable = true)) :
    Decided (decodeAll docs) (∀ doc ∈ docs, accepted doc) (Json.allWritable docs = true) := by
  induction docs with
  | nil =>
    rw [nil]
    exact fun _ member => absurd member List.not_mem_nil
  | cons doc rest ih =>
    obtain ⟨here, later⟩ := List.forall_mem_cons.mp inside
    rw [cons, Json.allWritable, Bool.and_eq_true, List.forall_mem_cons]
    exact (here.shorten And.left).bind fun value => ((ih later).shorten And.right).map (value :: ·)

theorem Value.decided (doc : Json) :
    Decided (Value.decode doc) (ValueDoc .lenient doc) (doc.writable = true) := by
  have smaller : ∀ part, sizeOf part < sizeOf doc →
      Decided (Value.decode part) (ValueDoc .lenient part) (part.writable = true) :=
    fun part _ => Value.decided part
  have items : ∀ docs, sizeOf docs < sizeOf doc → Decided (Value.decodeItems docs)
      (∀ doc ∈ docs, ValueDoc .lenient doc) (Json.allWritable docs = true) := by
    intro docs less
    refine .all Value.decode ?_ (fun _ _ => ?_) fun part member => ?_
    · rfl
    · rfl
    exact smaller part (Nat.lt_trans (List.sizeOf_lt_of_mem member) less)
  unfold Value.decode
  split
  · exact .null
  · exact .bool _
  · exact .int _
  · exact .float _
  · exact .text _
  · rename_i docs
    have inside := (items docs (by simp)).map Value.list
    exact inside.congr valueDoc_array.symm
  · split
    · rename_i isSymbol
      subst isSymbol
      exact .symbol _
    · rename_i other
      exact .refuse fun accepted => by simp [valueDoc_object, other] at accepted
  · rename_i docs
    split
    · rename_i isList
      subst isList
      have inside := (items docs (by simp; omega)).map Value.list
      refine (inside.congr valueDoc_list.symm).shorten fun short => ?_
      have found : (Json.object [("list", .array docs)]).field? "list" = some (.array docs) := rfl
      exact Json.writable_field found short
    · rename_i other
      exact .refuse fun accepted => by simp [valueDoc_object, other] at accepted
  · refine .refuse fun accepted => ?_
    cases accepted <;> simp_all
termination_by sizeOf doc

theorem patternDoc_object {fields : List (Text × Json)} : PatternDoc style (.object fields) ↔
    (∃ doc, fields = [(↑"lit", doc)] ∧ ValueDoc style doc) ∨ ∃ name, fields = [(↑"ref", .text name)] := by
  constructor
  · intro accepted
    generalize same : Json.object fields = doc at accepted
    cases accepted with
    | otherwise => cases same
    | literal inside => exact Or.inl ⟨_, Json.object.inj same, inside⟩
    | reference name => exact Or.inr ⟨name, Json.object.inj same⟩
    | bare _ plain =>
      rw [← same] at plain
      cases plain
  · rintro (⟨doc, rfl, inside⟩ | ⟨name, rfl⟩)
    · exact .literal inside
    · exact .reference name

theorem patternDoc_bare {doc : Json} (plain : doc.isObject = false) (other : doc ≠ .text "else") :
    PatternDoc style doc ↔ style = .lenient ∧ ValueDoc style doc := by
  constructor
  · intro accepted
    cases accepted with
    | otherwise => exact absurd rfl other
    | literal | reference => cases plain
    | bare lenient _ inside => exact ⟨lenient, inside⟩
  · rintro ⟨lenient, inside⟩
    exact .bare lenient plain inside

theorem Pattern.decided (doc : Json) :
    Decided (Pattern.decode doc) (PatternDoc .lenient doc) (doc.writable = true) := by
  unfold Pattern.decode
  split
  · split
    · rename_i isElse
      subst isElse
      exact .otherwise
    · rename_i other
      exact .bare rfl rfl (.text _)
  · rename_i key value
    split
    · rename_i isLit
      subst isLit
      have inside := (Value.decided value).map Pattern.literal
      refine (inside.congr ?_).shorten fun short => ?_
      · simp [patternDoc_object]
      · have found : (Json.object [("lit", value)]).field? "lit" = some value := rfl
        exact Json.writable_field found short
    · rename_i notLit
      split
      · split
        · rename_i isRef
          subst isRef
          exact .reference _
        · rename_i notRef
          exact .refuse fun accepted => by simp [patternDoc_object, notLit, notRef] at accepted
      · rename_i notText
        refine .refuse fun accepted => ?_
        rcases patternDoc_object.mp accepted with ⟨_, same, _⟩ | ⟨name, same⟩ <;> simp_all
  · refine .refuse fun accepted => ?_
    rcases patternDoc_object.mp accepted with ⟨value, rfl, _⟩ | ⟨name, rfl⟩ <;> simp_all
  · rename_i notText _ notObject
    have plain : doc.isObject = false := by
      cases doc with
      | object fields => exact absurd rfl (notObject fields)
      | _ => rfl
    have inside := (Value.decided doc).map Pattern.literal
    exact inside.congr ((patternDoc_bare plain (notText _)).trans (and_iff_right rfl)).symm

/-! ### Expressions -/

def BranchDocs (style : Style) (docs : List Json) : Prop :=
  ∃ branches : List (Json × Json), docs = branches.map Json.ofBranch ∧
    (∀ branch ∈ branches, PatternDoc style branch.1) ∧ ∀ branch ∈ branches, ExprDoc style branch.2

theorem branchDocs_cons {pattern body : Json} {rest : List Json} :
    BranchDocs style (.array [pattern, body] :: rest) ↔
      PatternDoc style pattern ∧ ExprDoc style body ∧ BranchDocs style rest := by
  constructor
  · rintro ⟨branches, same, patterns, bodies⟩
    cases branches with
    | nil => cases same
    | cons branch branches =>
      obtain ⟨here, rfl⟩ := List.cons.inj same
      cases here
      obtain ⟨firstPattern, patterns⟩ := List.forall_mem_cons.mp patterns
      obtain ⟨firstBody, bodies⟩ := List.forall_mem_cons.mp bodies
      exact ⟨firstPattern, firstBody, branches, rfl, patterns, bodies⟩
  · rintro ⟨firstPattern, firstBody, branches, rfl, patterns, bodies⟩
    exact ⟨(pattern, body) :: branches, rfl, List.forall_mem_cons.mpr ⟨firstPattern, patterns⟩,
      List.forall_mem_cons.mpr ⟨firstBody, bodies⟩⟩

theorem Expr.decidedPairs {docs : List Json}
    (inside : ∀ pattern body, Json.array [pattern, body] ∈ docs →
      Decided (Expr.decode body) (ExprDoc .lenient body) (body.writable = true)) :
    Decided (Expr.decodePairs docs) (BranchDocs .lenient docs) (Json.allWritable docs = true) := by
  induction docs with
  | nil =>
    rw [Expr.decodePairs]
    exact ⟨[], rfl, by simp, by simp⟩
  | cons doc rest ih =>
    have later := ih fun pattern body member => inside pattern body (List.mem_cons_of_mem _ member)
    rw [Json.allWritable, Bool.and_eq_true]
    by_cases pair : ∃ pattern body, doc = .array [pattern, body]
    · obtain ⟨pattern, body, rfl⟩ := pair
      have own := inside pattern body List.mem_cons_self
      have short : (Json.array [pattern, body]).writable = true →
          pattern.writable = true ∧ body.writable = true := by
        simp [Json.writable, Json.allWritable]
      rw [Expr.decodePairs]
      refine Decided.congr (.bind ((Pattern.decided pattern).shorten fun both => (short both.1).1)
        fun p => ?_) branchDocs_cons.symm
      refine .bind (own.shorten fun both => (short both.1).2) fun b => ?_
      exact (later.shorten And.right).map ((p, b) :: ·)
    · have refused : ¬ BranchDocs .lenient (doc :: rest) := by
        rintro ⟨branches, same, _⟩
        cases branches with
        | nil => cases same
        | cons branch branches => exact pair ⟨_, _, (List.cons.inj same).1⟩
      rw [Expr.decodePairs]
      · exact (Decided.refuse refused).shorten And.left
      · exact fun pattern body same => pair ⟨pattern, body, same⟩

theorem Expr.decidedBranches {doc : Json}
    (inside : ∀ body, sizeOf body < sizeOf doc →
      Decided (Expr.decode body) (ExprDoc .lenient body) (body.writable = true)) :
    Decided (Expr.decodeBranches doc) (∃ docs, doc = .array docs ∧ BranchDocs .lenient docs)
      (doc.writable = true) := by
  by_cases array : ∃ docs, doc = .array docs
  · obtain ⟨docs, rfl⟩ := array
    have pairs : Decided (Expr.decodePairs docs) _ _ := Expr.decidedPairs fun pattern body member => by
      refine inside body ?_
      have := List.sizeOf_lt_of_mem member
      simp at this ⊢
      omega
    rw [Expr.decodeBranches]
    exact pairs.congr (by simp)
  · rw [Expr.decodeBranches]
    · exact .refuse fun ⟨docs, same, _⟩ => array ⟨docs, same⟩
    · exact fun docs same => array ⟨docs, same⟩

theorem Json.texts?_eq_some {items : List Json} {names : List Text} :
    Json.texts? items = some names ↔ items = names.map .text := by
  constructor
  · intro found
    induction items generalizing names with
    | nil =>
      cases found
      rfl
    | cons item rest ih =>
      cases item with
      | text s =>
        rw [Json.texts?, Option.map_eq_some_iff] at found
        obtain ⟨names, found, rfl⟩ := found
        rw [List.map_cons, ← ih found]
      | _ => cases found
  · rintro rfl
    exact Json.texts?_map names

theorem Expr.decidedParams (doc : Json) :
    Decided (Expr.decodeParams doc) (∃ names : List Text, doc = .array (names.map .text))
      (doc.writable = true) := by
  unfold Expr.decodeParams
  split
  · rename_i items
    split
    · rename_i names found
      exact ⟨names, congrArg _ (Json.texts?_eq_some.mp found)⟩
    · rename_i missing
      refine .refuse ?_
      rintro ⟨names, same⟩
      cases same
      rw [Json.texts?_map] at missing
      cases missing
  · rename_i notArray
    refine .refuse ?_
    rintro ⟨names, rfl⟩
    exact notArray _ rfl

theorem Decided.need {kind key : Text} {payload : Json} {k : Json → Except DocumentFault α}
    {Q : Json → Prop}
    (inside : ∀ part, payload.field? key = some part → Decided (k part) (Q part) (part.writable = true)) :
    Decided (payload.need kind key >>= k) (∃ part, payload.field? key = some part ∧ Q part)
      (payload.writable = true) := by
  rw [Json.need]
  cases found : payload.field? key with
  | none => exact ⟨by simp, fun _ => ⟨_, rfl⟩⟩
  | some part =>
    have here := (inside part found).shorten (Json.writable_field found)
    exact here.congr (by simp)

theorem payload_decided (kind : NodeKind) (payload : Json)
    (inside : ∀ part, sizeOf part ≤ sizeOf payload →
      Decided (Expr.decode part) (ExprDoc .lenient part) (part.writable = true)) :
    Decided (Expr.decodePayload kind payload) (PayloadDoc .lenient kind payload)
      (payload.writable = true) := by
  have field : ∀ kind key, Decided (payload.need kind key >>= Expr.decode)
      (∃ part, payload.field? key = some part ∧ ExprDoc .lenient part) (payload.writable = true) := by
    intro kind key
    exact .need fun part found => inside part (Nat.le_of_lt (Json.sizeOf_field found))
  cases kind with
  | literal => exact (Value.decided payload).map Expr.literal
  | reference =>
    by_cases named : ∃ name, payload = .text name
    · obtain ⟨name, rfl⟩ := named
      exact ⟨name, rfl⟩
    · rw [Expr.decodePayload]
      · exact .refuse named
      · exact fun name same => named ⟨name, same⟩
  | application =>
    have parts := (field "app" "fn").bind fun f => (field "app" "args").map (Expr.application f)
    refine parts.congr ?_
    constructor
    · rintro ⟨⟨f, first, fn⟩, a, second, arg⟩
      exact ⟨f, a, ⟨first, second, nofun⟩, fn, arg⟩
    · rintro ⟨f, a, fields, fn, arg⟩
      exact ⟨⟨f, fields.first, fn⟩, a, fields.second, arg⟩
  | vector =>
    by_cases array : ∃ items, payload = .array items
    · obtain ⟨items, rfl⟩ := array
      have elements : Decided (Expr.decodeAll items) (∀ doc ∈ items, ExprDoc .lenient doc)
          (Json.allWritable items = true) := by
        refine .all Expr.decode ?_ (fun _ _ => ?_) fun doc member => ?_
        · rw [Expr.decodeAll]
        · rw [Expr.decodeAll]
        have less := List.sizeOf_lt_of_mem member
        refine inside doc ?_
        simp only [Json.array.sizeOf_spec]
        omega
      rw [Expr.decodePayload, Expr.decodeElements]
      refine (elements.map Expr.vector).congr ?_
      simp [PayloadDoc]
    · have refused : ¬ PayloadDoc .lenient .vector payload := by
        rintro ⟨items, same, _⟩
        exact array ⟨items, same⟩
      rw [Expr.decodePayload, Expr.decodeElements]
      · exact (Decided.refuse refused).map _
      · exact fun items same => array ⟨items, same⟩
  | lambda =>
    have names : Decided (payload.need "lam" "params" >>= Expr.decodeParams) _ _ :=
      .need fun part _ => Expr.decidedParams part
    have parts := names.bind fun names => (field "lam" "body").map (Expr.lambda names)
    refine parts.congr ?_
    constructor
    · rintro ⟨⟨_, first, names, rfl⟩, body, second, accepted⟩
      exact ⟨names, body, ⟨first, second, nofun⟩, accepted⟩
    · rintro ⟨names, body, fields, accepted⟩
      exact ⟨⟨_, fields.first, names, rfl⟩, body, fields.second, accepted⟩
  | fix => exact (inside payload (Nat.le_refl _)).map Expr.fix
  | select =>
    have branches : Decided (payload.need "match" "branches" >>= Expr.decodeBranches) _ _ :=
      .need fun part found => Expr.decidedBranches fun body less =>
        inside body (by have := Json.sizeOf_field found; omega)
    have parts := branches.bind fun bs => (field "match" "expr").map (Expr.select · bs)
    refine parts.congr ?_
    constructor
    · rintro ⟨⟨_, second, docs, rfl, branches, rfl, patterns, bodies⟩, s, first, scrutinee⟩
      exact ⟨s, branches, ⟨first, second, nofun⟩, scrutinee, patterns, bodies⟩
    · rintro ⟨s, branches, fields, scrutinee, patterns, bodies⟩
      exact ⟨⟨_, fields.second, _, rfl, branches, rfl, patterns, bodies⟩, s, fields.first, scrutinee⟩

/-- The decoder accepts the lenient grammar. -/
theorem Expr.decided (doc : Json) :
    Decided (Expr.decode doc) (ExprDoc .lenient doc) (doc.writable = true) := by
  have smaller : ∀ part, sizeOf part < sizeOf doc →
      Decided (Expr.decode part) (ExprDoc .lenient part) (part.writable = true) :=
    fun part _ => Expr.decided part
  have missing : ∀ key, key = "g" ∨ key = "v" → doc.field? key = none → ¬ ExprDoc .lenient doc := by
    intro key either absent accepted
    obtain ⟨kind, payload, node, _⟩ := exprDoc_iff.mp accepted
    rcases either with rfl | rfl
    · cases absent.symm.trans node.first
    · cases absent.symm.trans node.second
  rw [Expr.decode_eq]
  cases tagged : doc.field? "g" with
  | none => exact .refuse (missing "g" (Or.inl rfl) tagged)
  | some tag =>
    cases held : doc.field? "v" with
    | none => exact .refuse (missing "v" (Or.inr rfl) held)
    | some payload =>
      dsimp only
      cases named : tag.nodeKind? with
      | none =>
        have refused : ¬ ExprDoc .lenient doc := by
          intro accepted
          obtain ⟨kind, _, node, _⟩ := exprDoc_iff.mp accepted
          have same := Option.some.inj (tagged.symm.trans node.first)
          cases named.symm.trans (Json.nodeKind?_eq_some.mpr same)
        exact (Decided.refuse refused).shorten (Json.writable_field tagged)
      | some kind =>
        obtain rfl := Json.nodeKind?_eq_some.mp named
        have node : doc.Node .lenient kind payload := ⟨tagged, held, nofun⟩
        have inside := payload_decided kind payload fun part less =>
          smaller part (Nat.lt_of_le_of_lt less (Json.sizeOf_field held))
        refine (inside.shorten (Json.writable_field held)).congr ?_
        exact ((exprDoc_node node).trans (and_iff_right node)).symm
termination_by sizeOf doc

end Unfurl
