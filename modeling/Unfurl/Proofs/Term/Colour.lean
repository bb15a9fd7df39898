import Unfurl.Proofs.Term.Outline

/-! Each coloured piece decorates the plain one in front of whatever follows it, and so do pieces put together. -/

namespace Unfurl

/-! ### Deleting the sequences -/

namespace Hue

/-- The sequences that switch a colour on, and the one that switches it off. -/
def sequences : List (Text) :=
  ([.reference, .lambda, .builtin, .keyword, .pattern, .literal].map Hue.start ++ [Hue.reset])

/-- The text without the sequences. They are found from left to right, and `pending` characters of the last
one are still ahead. -/
def deleteSequences : (pending : Nat) → Text → Text
  | _, [] => []
  | pending + 1, _ :: rest => deleteSequences pending rest
  | 0, c :: rest =>
    match sequences.find? (·.isPrefixOf (c :: rest)) with
    | some sequence => deleteSequences (sequence.length - 1) rest
    | none => c :: deleteSequences 0 rest

def uncoloured (s : Text) : Text := deleteSequences 0 s

theorem deleteSequences_sequence {sequence : Text} (member : sequence ∈ sequences) (tail : Text) :
    deleteSequences 0 (sequence ++ tail) = deleteSequences 0 tail := by
  simp only [sequences, start, reset, List.map_cons, List.map_nil, List.cons_append, List.nil_append,
    List.mem_cons, List.not_mem_nil, or_false] at member
  -- None of the seven starts another one, so each is found as itself.
  rcases member with rfl | rfl | rfl | rfl | rfl | rfl | rfl <;> rfl

theorem sequences_start : ∀ sequence ∈ sequences, sequence.head? = some (.char '\x1b') := by
  decide +kernel

theorem deleteSequences_cons {c : CodePoint} (other : c ≠ '\x1b') (rest : Text) :
    deleteSequences 0 (c :: rest) = c :: deleteSequences 0 rest := by
  have none : sequences.find? (·.isPrefixOf (c :: rest)) = none := by
    rw [List.find?_eq_none]
    intro sequence member starts
    have head := sequences_start sequence member
    cases sequence with
    | nil => cases head
    | cons x xs =>
      rw [List.isPrefixOf, Bool.and_eq_true, beq_iff_eq] at starts
      exact other (starts.1.symm.trans (Option.some.inj head))
  rw [deleteSequences, none]

end Hue

def Text.Plain (s : Text) : Prop := .char '\x1b' ∉ s

namespace Text.Plain

variable {s t : Text}

@[simp] theorem nil : Plain [] := List.not_mem_nil

@[simp] theorem cons_iff {c : CodePoint} : Plain (c :: s) ↔ c ≠ '\x1b' ∧ Plain s := by
  rw [Plain, Plain, List.mem_cons, not_or, eq_comm]

@[simp] theorem append_iff : Plain (s ++ t) ↔ Plain s ∧ Plain t := by
  rw [Plain, Plain, Plain, List.mem_append, not_or]

theorem subset (plain : Plain t) (part : s ⊆ t) : Plain s := fun member => plain (part member)

@[simp] theorem ofString_iff {s : String} : Plain (ofString s) ↔ '\x1b' ∉ s.toList := by
  simp [Plain, ofString]

theorem replicate {c : CodePoint} (other : c ≠ '\x1b') (n : Nat) : Plain (List.replicate n c) :=
  fun member => other (List.eq_of_mem_replicate member).symm

end Text.Plain

open Text (Plain)

theorem Hue.deleteSequences_plain {s : Text} (plain : Plain s) (tail : Text) :
    deleteSequences 0 (s ++ tail) = s ++ deleteSequences 0 tail := by
  induction s with
  | nil => rfl
  | cons c rest ih =>
    obtain ⟨other, plain⟩ := Plain.cons_iff.mp plain
    rw [List.cons_append, deleteSequences_cons other, ih plain, List.cons_append]

/-! ### Decorated texts -/

/-- Without its sequences the first text is the second one, whatever follows it, and no escape is left. -/
structure Decorates (coloured bare : Text) : Prop where
  plain : Plain bare
  deleted : ∀ tail, Hue.deleteSequences 0 (coloured ++ tail) = bare ++ Hue.deleteSequences 0 tail

namespace Decorates

theorem refl {s : Text} (plain : Plain s) : Decorates s s :=
  ⟨plain, Hue.deleteSequences_plain plain⟩

theorem append {s s' t t' : Text} (first : Decorates s s') (second : Decorates t t') :
    Decorates (s ++ t) (s' ++ t') := by
  refine ⟨?_, fun tail => ?_⟩
  · exact Plain.append_iff.mpr ⟨first.plain, second.plain⟩
  · rw [List.append_assoc, first.deleted, second.deleted, List.append_assoc]

theorem of_sequence {s : Text} (member : s ∈ Hue.sequences) : Decorates s [] :=
  ⟨Plain.nil, Hue.deleteSequences_sequence member⟩

theorem paint (hue : Hue) {s : Text} (plain : Plain s) :
    Decorates (hue.paint true s) (hue.paint false s) := by
  have start : Decorates hue.start [] := of_sequence (by cases hue <;> decide +kernel)
  have reset : Decorates Hue.reset [] := of_sequence (by decide +kernel)
  have whole := (start.append (refl plain)).append reset
  rwa [List.nil_append, List.append_nil] at whole

theorem joined {α : Type} {separator : Text} (separated : Plain separator) {f g : α → Text}
    (xs : List α) (each : ∀ x ∈ xs, Decorates (f x) (g x)) :
    Decorates (Text.joined separator (xs.map f)) (Text.joined separator (xs.map g)) := by
  have following (rest : List α) (later : ∀ x ∈ rest, Decorates (f x) (g x)) :
      Decorates ((rest.map f).flatMap (separator ++ ·)) ((rest.map g).flatMap (separator ++ ·)) := by
    induction rest with
    | nil => exact refl Plain.nil
    | cons x rest ih =>
      obtain ⟨here, later⟩ := List.forall_mem_cons.mp later
      exact ((refl separated).append here).append (ih later)
  cases xs with
  | nil => exact refl Plain.nil
  | cons x rest =>
    obtain ⟨here, later⟩ := List.forall_mem_cons.mp each
    exact here.append (following rest later)

theorem uncoloured {s s' : Text} (decorates : Decorates s s') : Hue.uncoloured s = s' := by
  have whole := decorates.deleted []
  rw [List.append_nil, Hue.deleteSequences, List.append_nil] at whole
  rw [Hue.uncoloured, whole]

end Decorates

theorem Text.plain_joined {separator : Text} (separated : Plain separator) {texts : List Text}
    (each : ∀ s ∈ texts, Plain s) : Plain (Text.joined separator texts) := by
  have whole := Decorates.joined separated texts (f := id) (g := id) fun s member => .refl (each s member)
  rw [List.map_id] at whole
  exact whole.plain

/-! ### Numbers and strings -/

theorem Text.plain_of_digits {ds : Text} (digits : ∀ c ∈ ds, Json.isDigit c = true) : Plain ds :=
  fun member => nomatch digits _ member

namespace Numeral

theorem plain_digits (n : Nat) : Plain (digits n) :=
  Text.plain_of_digits fun _ => isDigit_of_mem_digits

theorem plain_text (n : Int) : Plain (text n) := by
  unfold text
  split
  · exact Plain.cons_iff.mpr ⟨by decide, plain_digits _⟩
  · exact plain_digits _

end Numeral

namespace Binary64

theorem plain_exponentText (e : Int) : Plain (exponentText e) := by
  obtain ⟨run, text, -, digits, -⟩ := Json.exponentText_eq e
  rw [text, Plain.cons_iff]
  exact ⟨by split <;> decide, Text.plain_of_digits digits⟩

theorem plain_layout (d : Decimal) : Plain (layout d) := by
  have digits := Numeral.plain_digits d.digits
  have zeros (n : Nat) : Plain (zeros n) := .replicate (by decide) n
  unfold layout
  generalize Numeral.digits d.digits = ds at digits
  dsimp only
  split
  · split
    · simp [digits, zeros]
    · split
      · simp [digits.subset (List.take_subset _ _), digits.subset (List.drop_subset _ _)]
      · simp [digits, zeros]
  · split
    · exact Plain.nil
    · simp [Plain.cons_iff.mp digits, plain_exponentText]
    · simp [Plain.cons_iff.mp digits, plain_exponentText]

theorem plain_text (x : Binary64) : Plain x.text := by
  rw [text]
  have magnitude (m : Nat) (q : Int) : Plain (magnitudeText m q) := by
    unfold magnitudeText
    split
    · simp
    · exact plain_layout _
  cases x with
  | nan => simp [render, displayNames]
  | infinite negative => cases negative <;> simp [render, displayNames]
  | finite negative m q => cases negative <;> simp [render, magnitude]

end Binary64

namespace Json

theorem plain_unitEscape (n : Nat) : Plain (unitEscape n) := by
  -- A digit reads back as its value, and the escape character as none.
  have digit (k : Nat) : Text.hexDigit (k % 16) ≠ '\x1b' := by
    intro escape
    have read := hexValue?_hexDigit (Nat.mod_lt k (by decide : 0 < 16))
    rw [escape] at read
    cases read
  simp [unitEscape, Text.hex, digit]

theorem plain_escapeChar (c : CodePoint) : Plain (escapeChar c) := by
  unfold escapeChar
  -- The seven characters with an escape of their own.
  iterate 7
    split
    · simp
  split
  · rename_i visible
    refine Plain.cons_iff.mpr ⟨?_, Plain.nil⟩
    rintro rfl
    exact absurd visible.1 (by decide)
  · split
    · exact plain_unitEscape _
    · exact Plain.append_iff.mpr ⟨plain_unitEscape _, plain_unitEscape _⟩

theorem plain_writeText (s : Text) : Plain (writeText s) := by
  have escaped (cs : Text) : Plain (escapeOnto cs ['"']) := by
    induction cs with
    | nil => simp [escapeOnto]
    | cons c rest ih => exact Plain.append_iff.mpr ⟨plain_escapeChar c, ih⟩
  exact Plain.cons_iff.mpr ⟨by decide, escaped s⟩

end Json

/-! ### Values -/

namespace Value

/-- The names in the text of a value without parts. -/
def ownNames : Value → List Text
  | .symbol name => [name]
  | .closure _ params _ _ => params
  | .builtin _ name _ => [name]
  | _ => []

def shownNames (v : Value) : List Text := v.atoms.flatMap ownNames

theorem plain_functionText {v : Value} (plain : ∀ name ∈ v.ownNames, Plain name) :
    Plain v.functionText := by
  cases v with
  | closure mark params body env =>
    have names : Plain (Text.joined " " params) := Text.plain_joined (by simp) plain
    simp [functionText, names]
  | builtin mark name op => simpa [functionText, ownNames] using plain
  | _ => simp [functionText]

mutual

theorem plain_displayed (v : Value) (plain : ∀ name ∈ v.shownNames, Plain name) :
    Plain v.displayed := by
  cases v with
  | nil => simp [displayed]
  | bool b => cases b <;> simp [displayed]
  | int n => simpa [displayed] using Numeral.plain_text n
  | float x => exact x.plain_text
  | text s => simpa [displayed] using Json.plain_writeText s
  | symbol name => simpa [displayed, shownNames, atoms, ownNames] using plain
  | list items =>
    have texts : Plain (Text.joined " " (displayedItems items)) :=
      Text.plain_joined (by simp) (plain_displayedItems items plain)
    simp [displayed, texts]
  | closure | builtin | unfolding =>
    exact plain_functionText fun name member => plain name (by simpa [shownNames, atoms] using member)

theorem plain_displayedItems (vs : List Value)
    (plain : ∀ name ∈ (atomsAll vs).flatMap ownNames, Plain name) :
    ∀ s ∈ displayedItems vs, Plain s := by
  cases vs with
  | nil => nofun
  | cons v rest =>
    rw [atomsAll, List.flatMap_append] at plain
    obtain ⟨first, later⟩ := List.forall_mem_append.mp plain
    exact List.forall_mem_cons.mpr ⟨plain_displayed v first, plain_displayedItems rest later⟩

end

end Value

/-! ### Patterns, rows and trees -/

def Pattern.shownNames : Pattern → List Text
  | .literal value => value.shownNames
  | .reference name => [name]
  | .otherwise => []

theorem Pattern.decorates {p : Pattern} (plain : ∀ name ∈ p.shownNames, Plain name) :
    Decorates (p.displayed true) (p.displayed false) := by
  cases p with
  | literal value => exact .paint .pattern (value.plain_displayed plain)
  | reference name => exact .paint .pattern (plain name List.mem_cons_self)
  | otherwise => exact .paint .pattern (by simp)

def Row.shownNames : Row → List Text
  | .literal value => value.shownNames
  | .reference name => [name]
  | .lambda params => params
  | .branch pattern => pattern.shownNames
  | _ => []

theorem Row.decorates {row : Row} (plain : ∀ name ∈ row.shownNames, Plain name) :
    Decorates (row.text true) (row.text false) := by
  have blank : Decorates " " " " := .refl (by simp)
  cases row with
  | cut => exact .refl (by simp [Row.text])
  | literal value =>
    have shown := Decorates.paint .literal (value.plain_displayed plain)
    exact ((Decorates.paint .keyword (by simp)).append blank).append shown
  | reference name =>
    have shown := Decorates.paint .reference (plain name List.mem_cons_self)
    exact ((Decorates.paint .keyword (by simp)).append blank).append shown
  | vector size => exact .paint .keyword (by simp [Numeral.plain_digits])
  | lambda params =>
    have names : Plain (Text.joined " " params) := Text.plain_joined (by simp) plain
    have opening : Decorates " (" " (" := .refl (by simp)
    have closing : Decorates ")" ")" := .refl (by simp)
    exact (((Decorates.paint .lambda (by simp)).append opening).append (.refl names)).append closing
  | branch pattern =>
    have bar : Decorates "| " "| " := .refl (by simp)
    have arrow : Decorates " =>" " =>" := .refl (by simp)
    exact (bar.append (Pattern.decorates plain)).append arrow
  | application | fix | select => exact .paint .keyword (by simp)

theorem Line.decorates (options : OutlineOptions) {line : Line}
    (plain : ∀ name ∈ line.row.shownNames, Plain name) :
    Decorates (line.render { options with color := true }) (line.render { options with color := false }) := by
  have blanks : Plain (padding options.indent line.depth) := by
    simpa [padding, Text.spaces] using Plain.replicate (by decide) _
  exact (Decorates.refl blanks).append (Row.decorates plain)

def Expr.shownNames (e : Expr) : List Text := e.rows.flatMap Row.shownNames

theorem Expr.decorates {e : Expr} (plain : ∀ name ∈ e.shownNames, Plain name) (options : OutlineOptions)
    (depth : Int) :
    Decorates (Text.joined "\n" (e.treeLines { options with color := true } depth))
      (Text.joined "\n" (e.treeLines { options with color := false } depth)) := by
  refine .joined (by simp) _ fun line member => line.decorates options fun name shown => ?_
  obtain cut | row := e.row_mem_rows depth line member
  · rw [cut] at shown
    cases shown
  · exact plain name (List.mem_flatMap.mpr ⟨line.row, row, shown⟩)

/-! ### Colour and plain text -/

/-- With names that hold no escape, deleting the seven sequences from a coloured tree gives the plain tree, at
every depth, limit and indent, and from a coloured pattern the plain pattern. No escape is left in either. -/
theorem colours_only_decorate :
    (∀ (e : Expr) (options : OutlineOptions) (d : Int), ShortIntegers e.atoms →
      (∀ name ∈ e.shownNames, .char '\x1b' ∉ name) →
      ∃ coloured plain, e.tree { options with color := true } d = .ok coloured ∧
        e.tree { options with color := false } d = .ok plain ∧
        Hue.uncoloured coloured = plain ∧ .char '\x1b' ∉ plain) ∧
    ∀ p : Pattern, ShortIntegers p.atoms → (∀ name ∈ p.shownNames, .char '\x1b' ∉ name) →
      ∃ coloured plain, p.display true = .ok coloured ∧ p.display false = .ok plain ∧
        Hue.uncoloured coloured = plain ∧ .char '\x1b' ∉ plain := by
  constructor
  · intro e options d short plain
    have decorates := Expr.decorates plain options d
    exact ⟨_, _, e.tree_of_shortIntegers short _ d, e.tree_of_shortIntegers short _ d,
      decorates.uncoloured, decorates.plain⟩
  · intro p short plain
    have shown (color : Bool) : p.display color = .ok (p.displayed color) := if_pos (p.displayable_iff.mpr short)
    have decorates := Pattern.decorates plain
    exact ⟨_, _, shown true, shown false, decorates.uncoloured, decorates.plain⟩

/-- A string that holds a sequence, and a symbol that is the rest of one, beside functions. -/
theorem colours_only_decorate_lookalikes :
    let p : Pattern := .literal (.list [.text "\x1b[0m", .symbol "[0m"])
    let e : Expr := .select
      (.application (.reference "f") (.lambda ["x", "y"] (.literal (.builtin 0 "head" .car))))
      [(p, .vector []), (.reference "m", .literal (.closure 1 ["z"] (.reference "z") []))]
    let options : OutlineOptions := ⟨9, 2, true⟩
    let coloured := "\x1b[93m(\"\\u001b[0m\" '[0m)\x1b[0m"
    let plain := "(\"\\u001b[0m\" '[0m)"
    (ShortIntegers e.atoms ∧ (∀ name ∈ e.shownNames, .char '\x1b' ∉ name) ∧
      ∃ text, e.tree { options with color := true } 3 = .ok text ∧
        e.tree { options with color := false } 3 = .ok (Hue.uncoloured text)) ∧
    ShortIntegers p.atoms ∧ (∀ name ∈ p.shownNames, .char '\x1b' ∉ name) ∧
      p.display true = .ok coloured ∧ p.display false = .ok plain ∧ Hue.uncoloured coloured = plain := by
  intro p e options coloured plain
  have shown : e.shownNames = (["f", "x", "y", "head", "[0m", "m", "z"] : List Text) := by
    simp [e, p, Expr.shownNames, Expr.rows_eq, Part.rows, Expr.parts, Expr.row, Row.shownNames,
      Pattern.shownNames, Value.shownNames, Value.atoms, Value.atomsAll, Value.ownNames]
  have names : ∀ name ∈ e.shownNames, .char '\x1b' ∉ name := by
    rw [shown]
    decide +kernel
  have names' : ∀ name ∈ p.shownNames, .char '\x1b' ∉ name := by decide +kernel
  have short' : ShortIntegers p.atoms := p.displayable_iff.mp (by decide +kernel)
  have short : ShortIntegers e.atoms := by
    simp [e, p, ShortIntegers, Expr.atoms, Expr.atomsAll, Expr.atomsBranches, Pattern.atoms, Value.atoms,
      Value.atomsAll]
  obtain ⟨trees, patterns⟩ := colours_only_decorate
  obtain ⟨text, _, drawn, drawn', rfl, -⟩ := trees e options 3 short names
  obtain ⟨_, _, displayed, displayed', same, -⟩ := patterns p short' names'
  have first : p.display true = .ok coloured := by decide +kernel
  have second : p.display false = .ok plain := by decide +kernel
  cases displayed.symm.trans first
  cases displayed'.symm.trans second
  exact ⟨⟨short, names, text, drawn, drawn'⟩, short', names', first, second, same⟩

end Unfurl
