import Unfurl.Proofs.Document.RoundTrip
import Unfurl.Proofs.Json.RoundTrip
import Unfurl.Session

namespace Unfurl

/-! ### Names -/

def Pattern.names : Pattern → List Text
  | .reference name => [name]
  | _ => []

mutual

/-- The names of references, parameters and patterns that are written in an expression. -/
def Expr.names : Expr → List Text
  | .literal _ => []
  | .reference name => [name]
  | .application f a => Expr.names f ++ Expr.names a
  | .vector elements => Expr.namesAll elements
  | .lambda params body => params ++ Expr.names body
  | .fix f => Expr.names f
  | .select scrutinee branches => Expr.names scrutinee ++ Expr.namesBranches branches

def Expr.namesAll : List Expr → List Text
  | [] => []
  | e :: rest => Expr.names e ++ Expr.namesAll rest

def Expr.namesBranches : List (Pattern × Expr) → List Text
  | [] => []
  | (p, e) :: rest => p.names ++ (Expr.names e ++ Expr.namesBranches rest)

end

/-! ### Documents of data -/

/-- A value without parts that a text keeps: no function, no NaN, no integer too long to be written, and no
text in which the halves of a pair stand side by side. -/
def Value.lasting : Value → Bool
  | .int n => Json.writableInt n
  | .float x => x.isNumber
  | .text s => s.Unpaired
  | .symbol name => name.Unpaired
  | v => !v.isFunction

def LastingAtoms (atoms : List Value) : Prop := ∀ v ∈ atoms, v.lasting = true

theorem LastingAtoms.append {xs ys : List Value} (lasting : LastingAtoms (xs ++ ys)) :
    LastingAtoms xs ∧ LastingAtoms ys :=
  List.forall_mem_append.mp lasting

def LastingNames (names : List Text) : Prop := ∀ name ∈ names, name.Unpaired

theorem LastingNames.append {xs ys : List Text} (lasting : LastingNames (xs ++ ys)) :
    LastingNames xs ∧ LastingNames ys :=
  List.forall_mem_append.mp lasting

theorem Json.lasting_node {kind : String} {payload : Json} (lasting : payload.Lasting) :
    (Json.node kind payload).Lasting :=
  ⟨by simp [Overlay.names], Text.unpaired_ofString _, Text.unpaired_ofString kind, Text.unpaired_ofString _,
    lasting, trivial⟩

theorem Json.lasting_field {key : String} {item : Json} (lasting : item.Lasting) :
    (Json.object [(key, item)]).Lasting :=
  ⟨List.nodup_singleton _, Text.unpaired_ofString key, lasting, trivial⟩

theorem Json.lasting_pair {key key' : String} {item item' : Json} (distinct : key ≠ key')
    (first : item.Lasting) (second : item'.Lasting) :
    (Json.object [(key, item), (key', item')]).Lasting :=
  ⟨by simpa [Overlay.names] using distinct, Text.unpaired_ofString key, first, Text.unpaired_ofString key',
    second, trivial⟩

theorem Json.lasting_array {items : List Json} (all : Json.AllLasting items) :
    (Json.array items).Lasting := all

theorem Json.lasting_texts {names : List Text} (lasting : LastingNames names) :
    (Json.array (names.map .text)).Lasting := by
  induction names with
  | nil => trivial
  | cons name rest ih =>
    obtain ⟨first, others⟩ := List.forall_mem_cons.mp lasting
    exact ⟨first, ih others⟩

mutual

theorem Value.encode_lasting : (v : Value) → LastingAtoms v.atoms →
    ∃ doc, v.encode = .ok doc ∧ doc.Lasting
  | .nil, _ | .bool _, _ => ⟨_, rfl, trivial⟩
  | .text s, lasting => ⟨_, rfl, of_decide_eq_true (p := s.Unpaired) (lasting (.text s) List.mem_cons_self)⟩
  | .int n, lasting => ⟨_, rfl, lasting (.int n) List.mem_cons_self⟩
  | .float x, lasting => ⟨_, rfl, lasting (.float x) List.mem_cons_self⟩
  | .symbol name, lasting =>
    ⟨_, rfl, Json.lasting_field (of_decide_eq_true (p := name.Unpaired) (lasting _ List.mem_cons_self))⟩
  | .closure .., lasting | .builtin .., lasting | .unfolding .., lasting =>
    nomatch lasting _ List.mem_cons_self
  | .list items, lasting => by
    obtain ⟨docs, encoded, all⟩ := Value.encodeItems_lasting items lasting
    exact ⟨_, by rw [Value.encode, encoded]; rfl, Json.lasting_field (Json.lasting_array all)⟩

theorem Value.encodeItems_lasting : (vs : List Value) → LastingAtoms (Value.atomsAll vs) →
    ∃ docs, Value.encodeItems vs = .ok docs ∧ Json.AllLasting docs
  | [], _ => ⟨[], rfl, trivial⟩
  | v :: rest, lasting => by
    obtain ⟨doc, encoded, first⟩ := Value.encode_lasting v lasting.append.1
    obtain ⟨docs, encodedRest, others⟩ := Value.encodeItems_lasting rest lasting.append.2
    exact ⟨doc :: docs, by rw [Value.encodeItems, encoded, encodedRest]; rfl, first, others⟩

end

theorem Pattern.encode_lasting (p : Pattern) (lasting : LastingAtoms p.atoms) (named : LastingNames p.names) :
    ∃ doc, p.encode = .ok doc ∧ doc.Lasting := by
  cases p with
  | otherwise => exact ⟨_, rfl, Text.unpaired_ofString _⟩
  | reference name => exact ⟨_, rfl, Json.lasting_field (named name List.mem_cons_self)⟩
  | literal value =>
    obtain ⟨doc, encoded, last⟩ := Value.encode_lasting value lasting
    exact ⟨_, by rw [Pattern.encode, encoded]; rfl, Json.lasting_field last⟩

mutual

theorem Expr.encode_lasting : (e : Expr) → LastingAtoms e.atoms → LastingNames e.names →
    ∃ doc, e.encode = .ok doc ∧ doc.Lasting
  | .literal value, lasting, _ => by
    obtain ⟨doc, encoded, last⟩ := Value.encode_lasting value lasting
    exact ⟨_, by rw [Expr.encode, encoded]; rfl, Json.lasting_node last⟩
  | .reference name, _, named => ⟨_, rfl, Json.lasting_node (named name List.mem_cons_self)⟩
  | .application f a, lasting, named => by
    obtain ⟨fn, encodedFn, lastFn⟩ := Expr.encode_lasting f lasting.append.1 named.append.1
    obtain ⟨arg, encodedArg, lastArg⟩ := Expr.encode_lasting a lasting.append.2 named.append.2
    exact ⟨_, by rw [Expr.encode, encodedFn, encodedArg]; rfl,
      Json.lasting_node (Json.lasting_pair (by decide) lastFn lastArg)⟩
  | .vector elements, lasting, named => by
    obtain ⟨docs, encoded, all⟩ := Expr.encodeAll_lasting elements lasting named
    exact ⟨_, by rw [Expr.encode, encoded]; rfl, Json.lasting_node (Json.lasting_array all)⟩
  | .lambda params body, lasting, named => by
    obtain ⟨doc, encoded, last⟩ := Expr.encode_lasting body lasting named.append.2
    exact ⟨_, by rw [Expr.encode, encoded]; rfl,
      Json.lasting_node (Json.lasting_pair (by decide) (Json.lasting_texts named.append.1) last)⟩
  | .fix f, lasting, named => by
    obtain ⟨doc, encoded, last⟩ := Expr.encode_lasting f lasting named
    exact ⟨_, by rw [Expr.encode, encoded]; rfl, Json.lasting_node last⟩
  | .select s branches, lasting, named => by
    obtain ⟨doc, encoded, last⟩ := Expr.encode_lasting s lasting.append.1 named.append.1
    obtain ⟨docs, encodedBranches, all⟩ :=
      Expr.encodeBranches_lasting branches lasting.append.2 named.append.2
    exact ⟨_, by rw [Expr.encode, encoded, encodedBranches]; rfl,
      Json.lasting_node (Json.lasting_pair (by decide) last (Json.lasting_array all))⟩

theorem Expr.encodeAll_lasting : (es : List Expr) → LastingAtoms (Expr.atomsAll es) →
    LastingNames (Expr.namesAll es) → ∃ docs, Expr.encodeAll es = .ok docs ∧ Json.AllLasting docs
  | [], _, _ => ⟨[], rfl, trivial⟩
  | e :: rest, lasting, named => by
    obtain ⟨doc, encoded, first⟩ := Expr.encode_lasting e lasting.append.1 named.append.1
    obtain ⟨docs, encodedRest, others⟩ := Expr.encodeAll_lasting rest lasting.append.2 named.append.2
    exact ⟨doc :: docs, by rw [Expr.encodeAll, encoded, encodedRest]; rfl, first, others⟩

theorem Expr.encodeBranches_lasting : (branches : List (Pattern × Expr)) →
    LastingAtoms (Expr.atomsBranches branches) → LastingNames (Expr.namesBranches branches) →
    ∃ docs, Expr.encodeBranches branches = .ok docs ∧ Json.AllLasting docs
  | [], _, _ => ⟨[], rfl, trivial⟩
  | (p, e) :: rest, lasting, named => by
    obtain ⟨here, later⟩ := lasting.append
    obtain ⟨nameHere, nameLater⟩ := named.append
    obtain ⟨pattern, encodedPattern, lastPattern⟩ := Pattern.encode_lasting p here nameHere
    obtain ⟨body, encodedBody, lastBody⟩ := Expr.encode_lasting e later.append.1 nameLater.append.1
    obtain ⟨docs, encodedRest, others⟩ := Expr.encodeBranches_lasting rest later.append.2 nameLater.append.2
    exact ⟨.array [pattern, body] :: docs,
      by rw [Expr.encodeBranches, encodedPattern, encodedBody, encodedRest]; rfl,
      ⟨lastPattern, lastBody, trivial⟩, others⟩

end

/-! ### Texts -/

/-- The document of data is written, and its text reads back as that document. -/
theorem writeEncoded_lasting {encoded : Except DocumentError Json} {doc : Json}
    (succeeded : encoded = .ok doc) (lasting : doc.Lasting) (indent : Option Nat) :
    ∃ text, writeEncoded indent encoded = .ok text ∧ readDocument text = .ok doc := by
  obtain ⟨text, rendered, parsed⟩ := Json.parse_render lasting indent
  exact ⟨text, by rw [succeeded, writeEncoded, rendered], by rw [readDocument, parsed]⟩

theorem Value.render_lasting {v : Value} (lasting : LastingAtoms v.atoms) (indent : Option Nat) :
    ∃ text, v.render indent = .ok text ∧ (readDocument text >>= Value.decode) = .ok v := by
  obtain ⟨doc, encoded, last⟩ := Value.encode_lasting v lasting
  obtain ⟨text, rendered, read⟩ := writeEncoded_lasting encoded last indent
  exact ⟨text, rendered, by rw [read]; exact (Value.encodes v).of_ok encoded⟩

theorem Expr.render_lasting {e : Expr} (lasting : LastingAtoms e.atoms) (named : LastingNames e.names)
    (indent : Option Nat) : ∃ text, e.render indent = .ok text ∧ Expr.read text = .ok e := by
  obtain ⟨doc, encoded, last⟩ := Expr.encode_lasting e lasting named
  obtain ⟨text, rendered, read⟩ := writeEncoded_lasting encoded last indent
  exact ⟨text, rendered, by rw [Expr.read, read]; exact (Expr.encodes e).of_ok encoded⟩

theorem Session.answer_evalText {text : Text} {e : Expr} (read : Expr.read text = .ok e) (depth : Nat)
    (s : Session) : s.answer depth (.evalText text) = s.answer depth (.eval e) := by
  simp only [Session.answer, read]

/-- Expressions and values of data without paired surrogates are written at every indent, and their texts read
back as what was written; a session answers the text of an expression as it answers the expression. -/
theorem text_round_trip (indent : Option Nat) :
    (∀ e : Expr, (∀ v ∈ e.atoms, v.lasting = true) → (∀ name ∈ e.names, name.Unpaired) →
      ∃ text, e.render indent = .ok text ∧ Expr.read text = .ok e ∧
        ∀ (depth : Nat) (s : Session), s.answer depth (.evalText text) = s.answer depth (.eval e)) ∧
    (∀ v : Value, (∀ a ∈ v.atoms, a.lasting = true) →
      ∃ text, v.render indent = .ok text ∧ (readDocument text >>= Value.decode) = .ok v) := by
  refine ⟨fun e lasting named => ?_, fun v lasting => Value.render_lasting lasting indent⟩
  obtain ⟨text, rendered, read⟩ := Expr.render_lasting lasting named indent
  exact ⟨text, rendered, read, Session.answer_evalText read⟩

/-- A repeated parameter, a pattern with characters that are escaped, a pair of code units, a negative
integer, the least positive number and an empty list, four levels deep. -/
theorem text_round_trip_nested :
    ∃ e : Expr,
      e = .application
        (.lambda ["x", "x"] (.select (.reference "x")
          [(.literal (.list [.text "\"\\\n\u00e9😀", .int (-10)]), .literal (.symbol "s")),
            (.otherwise, .literal (.float (.finite false 1 (-1074) (by decide))))]))
        (.vector [.literal (.list []), .literal (.bool true)]) ∧
      (∀ v ∈ e.atoms, v.lasting = true) ∧ (∀ name ∈ e.names, name.Unpaired) ∧
      ∃ text, e.render (some 2) = .ok text ∧ Expr.read text = .ok e ∧
        ∀ (depth : Nat) (s : Session), s.answer depth (.evalText text) = s.answer depth (.eval e) := by
  refine ⟨_, rfl, ?lasting, ?named, (text_round_trip (some 2)).1 _ ?lasting ?named⟩ <;> decide +kernel

end Unfurl
