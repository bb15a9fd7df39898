import Unfurl.Proofs.Document.Text
import Unfurl.Proofs.Eval.Course
import Unfurl.Proofs.Term.Display

namespace Unfurl

namespace Value

/-- A value without parts that is neither a float nor a function. -/
def isDatum : Value → Bool
  | .float _ => false
  | v => !v.isFunction

def DataAtoms (atoms : List Value) : Prop := ∀ v ∈ atoms, v.isDatum = true

theorem DataAtoms.append {xs ys : List Value} (data : DataAtoms (xs ++ ys)) :
    DataAtoms xs ∧ DataAtoms ys :=
  List.forall_mem_append.mp data

theorem isFunction_of_isDatum {v : Value} (datum : v.isDatum = true) : v.isFunction = false := by
  cases v with
  | closure | builtin | unfolding => cases datum
  | _ => rfl

/-- No high surrogate stands directly in front of a low one in the strings and symbols among the values. -/
def UnpairedTexts (atoms : List Value) : Prop :=
  ∀ s : Text, .text s ∈ atoms ∨ .symbol s ∈ atoms → s.Unpaired

theorem DataAtoms.lasting {atoms : List Value} (data : DataAtoms atoms) (short : ShortIntegers atoms)
    (unpaired : UnpairedTexts atoms) : LastingAtoms atoms := by
  intro v member
  cases v with
  | int n => exact short n member
  | float => cases data _ member
  | text s => exact decide_eq_true (unpaired s (Or.inl member))
  | symbol name => exact decide_eq_true (unpaired name (Or.inr member))
  | _ => exact data _ member

/-! ### Equality -/

mutual

theorem same_iff_eq (a b : Value) (data : DataAtoms a.atoms) : a.same true b = true ↔ a = b := by
  cases a with
  | list xs =>
    cases b with
    | list ys =>
      rw [same, Value.list.injEq]
      exact sameItems_iff_eq xs ys data
    | _ => simp [same]
  | float | closure | builtin | unfolding => exact nomatch data _ List.mem_cons_self
  | _ => cases b <;> simp [same]

theorem sameItems_iff_eq (xs ys : List Value) (data : DataAtoms (atomsAll xs)) :
    sameItems true xs ys = true ↔ xs = ys := by
  cases xs with
  | nil => cases ys <;> simp [sameItems]
  | cons x xs =>
    cases ys with
    | nil => simp [sameItems]
    | cons y ys =>
      rw [sameItems, Bool.and_eq_true, same_iff_eq x y data.append.1, sameItems_iff_eq xs ys data.append.2,
        List.cons.injEq]

end

theorem eq_returns (m : Mark) (name : Text) (a b : Value) :
    (Course.apply (.builtin m name .eq) [a, b]).Returns (.bool (a.same true b)) := by
  intro t
  rw [← quickSame_eq]
  exact ⟨_, Course.apply_builtin m name .eq [a, b] t⟩

/-! ### Documents and texts -/

theorem DataAtoms.encoded {v : Value} (data : DataAtoms v.atoms) {P : Json → Prop}
    (encodes : Encodes v.encode v.atoms P) : ∃ doc, v.encode = .ok doc ∧ P doc := by
  have none : v.atoms.find? isFunction = none := by
    rw [List.find?_eq_none]
    intro u member
    rw [isFunction_of_isDatum (data u member)]
    exact Bool.false_ne_true
  rwa [Encodes, none] at encodes

mutual

theorem encodes_writable (v : Value) (short : ShortIntegers v.atoms) :
    Encodes v.encode v.atoms (Json.writable · = true) := by
  cases v with
  | int n => exact ⟨_, rfl, short n List.mem_cons_self⟩
  | list items =>
    refine (encodesItems_writable items short).map fun docs written => ?_
    simpa [Json.writable, Json.fieldsWritable] using written
  | closure | builtin | unfolding => rfl
  | _ => exact ⟨_, rfl, rfl⟩

theorem encodesItems_writable (vs : List Value) (short : ShortIntegers (atomsAll vs)) :
    Encodes (encodeItems vs) (atomsAll vs) (Json.allWritable · = true) := by
  cases vs with
  | nil => exact .ok rfl
  | cons v rest =>
    obtain ⟨here, later⟩ := shortIntegers_append.mp short
    refine (encodes_writable v here).bind fun doc first => ?_
    refine (encodesItems_writable rest later).map fun docs others => ?_
    rw [Json.allWritable, first, others, Bool.and_self]

end

theorem DataAtoms.rendered {v : Value} (data : DataAtoms v.atoms) (short : ShortIntegers v.atoms)
    (indent : Option Nat) : ∃ text, v.render indent = .ok text := by
  obtain ⟨doc, encoded, writable⟩ := data.encoded (encodes_writable v short)
  exact ⟨doc.write indent, by rw [render, encoded, writeEncoded, Json.render, if_pos writable]⟩

end Value

/-- Where what was made of two values leads back to them, it is the same exactly if the values are. -/
theorem made_eq_iff {α δ ε : Type} {make : Value → Except δ α} (undo : α → Except ε Value) {a b : Value}
    {x y : α} (left : make a = .ok x ∧ undo x = .ok a) (right : make b = .ok y ∧ undo y = .ok b) :
    x = y ↔ a = b := by
  constructor
  · rintro rfl
    exact Except.ok.inj (left.2.symm.trans right.2)
  · rintro rfl
    exact Except.ok.inj (left.1.symm.trans right.1)

/-- On data without floats the equality primitive answers whether the values have one document, which they
have exactly if they are the same. Where their integers can be written, equal values have one text at every
indent, and values without paired surrogates that have one text are equal. -/
theorem equality_agrees_with_documents {a b : Value} (left : ∀ v ∈ a.atoms, v.isDatum = true)
    (right : ∀ v ∈ b.atoms, v.isDatum = true) :
    ∃ (equal : Bool) (doc doc' : Json),
      (∀ m name, (Course.apply (.builtin m name .eq) [a, b]).Returns (.bool equal)) ∧
      a.encode = .ok doc ∧ b.encode = .ok doc' ∧
      (equal = true ↔ doc = doc') ∧ (doc = doc' ↔ a = b) ∧
      (ShortIntegers a.atoms → ShortIntegers b.atoms → ∀ indent : Option Nat, ∃ text text',
        a.render indent = .ok text ∧ b.render indent = .ok text' ∧ (equal = true → text = text') ∧
        (Value.UnpairedTexts a.atoms → Value.UnpairedTexts b.atoms → text = text' → equal = true)) := by
  obtain ⟨doc, encoded⟩ := Value.DataAtoms.encoded left (Value.encodes a)
  obtain ⟨doc', encoded'⟩ := Value.DataAtoms.encoded right (Value.encodes b)
  have equal := Value.same_iff_eq a b left
  have documents : doc = doc' ↔ a = b := made_eq_iff Value.decode encoded encoded'
  refine ⟨_, doc, doc', fun m name => Value.eq_returns m name a b, encoded.1, encoded'.1,
    equal.trans documents.symm, documents, fun short short' indent => ?_⟩
  obtain ⟨text, written⟩ := Value.DataAtoms.rendered left short indent
  obtain ⟨text', written'⟩ := Value.DataAtoms.rendered right short' indent
  refine ⟨text, text', written, written', fun same => ?_, fun unpaired unpaired' same => ?_⟩
  · obtain rfl := equal.mp same
    exact Except.ok.inj (written.symm.trans written')
  · obtain ⟨_, lasts, read⟩ := Value.render_lasting (Value.DataAtoms.lasting left short unpaired) indent
    obtain ⟨_, lasts', read'⟩ := Value.render_lasting (Value.DataAtoms.lasting right short' unpaired') indent
    cases lasts.symm.trans written
    cases lasts'.symm.trans written'
    exact equal.mpr ((made_eq_iff (readDocument · >>= Value.decode) ⟨written, read⟩ ⟨written', read'⟩).mp same)

/-- The number one and the truth, and a list beside the symbol and the string of the field that marks one. -/
theorem equality_agrees_on_lookalikes :
    let a : Value := .list [.int 1, .list [.symbol "list"], .nil]
    let b : Value := .list [.bool true, .list [.text "list"], .nil]
    (∀ v ∈ a.atoms, v.isDatum = true) ∧ (∀ v ∈ b.atoms, v.isDatum = true) ∧
      ShortIntegers a.atoms ∧ ShortIntegers b.atoms ∧
      Value.UnpairedTexts a.atoms ∧ Value.UnpairedTexts b.atoms ∧
      ∃ (doc doc' : Json) (text text' : Text),
        (∀ m name, (Course.apply (.builtin m name .eq) [a, b]).Returns (.bool false)) ∧
        (a.encode = .ok doc ∧ b.encode = .ok doc' ∧ doc ≠ doc') ∧
        a.render (some 2) = .ok text ∧ b.render (some 2) = .ok text' ∧ text ≠ text' := by
  intro a b
  have left : ∀ v ∈ a.atoms, v.isDatum = true := by decide
  have right : ∀ v ∈ b.atoms, v.isDatum = true := by decide
  have short : ShortIntegers a.atoms := a.displayable_iff.mp (by decide +kernel)
  have short' : ShortIntegers b.atoms := b.displayable_iff.mp (by decide +kernel)
  have unpaired : Value.UnpairedTexts a.atoms := by
    simp [Value.UnpairedTexts, a, Value.atoms, Value.atomsAll, Text.unpaired_ofString]
  have unpaired' : Value.UnpairedTexts b.atoms := by
    simp [Value.UnpairedTexts, b, Value.atoms, Value.atomsAll, Text.unpaired_ofString]
  have differ : a ≠ b := by simp [a, b]
  obtain ⟨equal, doc, doc', returns, encoded, encoded', same, documents, texts⟩ :=
    equality_agrees_with_documents left right
  obtain ⟨text, text', written, written', -, apart⟩ := texts short short' (some 2)
  have unequal : equal = false := by
    rw [Bool.eq_false_iff]
    exact fun yes => differ (documents.mp (same.mp yes))
  subst unequal
  exact ⟨left, right, short, short', unpaired, unpaired', doc, doc', text, text', returns,
    ⟨encoded, encoded', fun one => differ (documents.mp one)⟩, written, written',
    fun one => nomatch apart unpaired unpaired' one⟩

/-- A string of two surrogates and the string of the character that they encode are told apart by the equality
primitive and by their documents, and have one text at every indent. -/
theorem pair_shares_text :
    let a : Value := .text [.surrogate 0x3D, .surrogate 0x600]
    let b : Value := .text [.char '😀']
    (∀ v ∈ a.atoms, v.isDatum = true) ∧ (∀ v ∈ b.atoms, v.isDatum = true) ∧
      ShortIntegers a.atoms ∧ ShortIntegers b.atoms ∧
      (∀ m name, (Course.apply (.builtin m name .eq) [a, b]).Returns (.bool false)) ∧ a.encode ≠ b.encode ∧
      ∀ indent : Option Nat, a.render indent = .ok "\"\\ud83d\\ude00\"" ∧ b.render indent = a.render indent := by
  intro a b
  refine ⟨by decide, by decide, a.displayable_iff.mp rfl, b.displayable_iff.mp rfl, fun m name => ?_, ?_, ?_⟩
  · exact Value.eq_returns m name a b
  · intro same
    cases same
  · exact fun indent => ⟨rfl, rfl⟩

end Unfurl
