import Unfurl.Proofs.Document.RoundTrip
import Unfurl.Proofs.Json.RoundTrip
import Unfurl.Term.Display

/-! The text of a value shows by its first character what kind of value it is, and from there on where it ends. -/

namespace Unfurl

/-! ### Integers that can be written -/

/-- Every integer among the values is short enough to be written. -/
def ShortIntegers (atoms : List Value) : Prop := ∀ n : Int, .int n ∈ atoms → Json.writableInt n = true

theorem shortIntegers_append {xs ys : List Value} :
    ShortIntegers (xs ++ ys) ↔ ShortIntegers xs ∧ ShortIntegers ys := by
  simp only [ShortIntegers, List.mem_append, or_imp, forall_and]

namespace Value

mutual

theorem displayable_iff (v : Value) : v.displayable = true ↔ ShortIntegers v.atoms := by
  cases v with
  | list items => exact allDisplayable_iff items
  | _ => simp [displayable, ShortIntegers, atoms]

theorem allDisplayable_iff (vs : List Value) :
    allDisplayable vs = true ↔ ShortIntegers (atomsAll vs) := by
  cases vs with
  | nil => simp [allDisplayable, ShortIntegers, atomsAll]
  | cons v rest =>
    rw [allDisplayable, atomsAll, Bool.and_eq_true, displayable_iff v, allDisplayable_iff rest,
      shortIntegers_append]

end

/-! ### Legible values -/

/-- A value without parts whose text can be told from all others: no function, no float, no integer too long
to be written, no string in which the halves of a pair stand side by side, and no symbol that holds a blank
or a closing parenthesis. -/
def legible : Value → Bool
  | .int n => Json.writableInt n
  | .float _ => false
  | .text s => s.Unpaired
  | .symbol name => name.all fun c => c != ' ' && c != ')'
  | v => !v.isFunction

def LegibleAtoms (atoms : List Value) : Prop := ∀ v ∈ atoms, v.legible = true

theorem LegibleAtoms.append {xs ys : List Value} (legible : LegibleAtoms (xs ++ ys)) :
    LegibleAtoms xs ∧ LegibleAtoms ys :=
  List.forall_mem_append.mp legible

theorem LegibleAtoms.shortIntegers {atoms : List Value} (legible : LegibleAtoms atoms) :
    ShortIntegers atoms := fun n member => legible (.int n) member

/-! ### How a text starts -/

/-- What the first character of a text tells about the value. -/
inductive Kind where
  | nil
  | bool
  | int
  | text
  | symbol
  | list
  | other

def Kind.ofChar : CodePoint → Kind
  | 'n' => .nil
  | '#' => .bool
  | '"' => .text
  | '\'' => .symbol
  | '(' => .list
  | c => if c == '-' || Json.isDigit c then .int else .other

def kind : Value → Kind
  | .nil => .nil
  | .bool _ => .bool
  | .int _ => .int
  | .text _ => .text
  | .symbol _ => .symbol
  | .list _ => .list
  | _ => .other

theorem Kind.ofChar_digit {c : CodePoint} (digit : Json.isDigit c = true) : Kind.ofChar c = .int := by
  unfold Kind.ofChar
  split
  case h_6 => rw [digit, Bool.or_true, if_pos rfl]
  all_goals exact absurd digit (by decide)

def following (items : List Value) : Text := (displayedItems items).flatMap (' ' :: ·)

theorem following_cons (v : Value) (rest : List Value) :
    following (v :: rest) = .char ' ' :: (v.displayed ++ following rest) := rfl

theorem displayed_nil_append (s : Text) :
    (Value.list []).displayed ++ s = .char '(' :: .char ')' :: s := by
  simp [displayed, displayedItems, Text.joined, Text.ofString]

theorem displayed_cons_append (v : Value) (rest : List Value) (s : Text) :
    (Value.list (v :: rest)).displayed ++ s =
      .char '(' :: (v.displayed ++ (following rest ++ .char ')' :: s)) := by
  simp [displayed, displayedItems, Text.joined, following, Text.ofString]

theorem displayed_symbol_append (name : Text) (s : Text) :
    (Value.symbol name).displayed ++ s = .char '\'' :: (name ++ s) := by
  simp [displayed, Text.ofString]

theorem displayed_starts {v : Value} (legible : LegibleAtoms v.atoms) (s : Text) :
    ∃ (c : CodePoint) (rest : Text), v.displayed ++ s = c :: rest ∧ Kind.ofChar c = v.kind := by
  cases v with
  | nil => exact ⟨'n', _, rfl, rfl⟩
  | bool b => cases b <;> exact ⟨'#', _, rfl, rfl⟩
  | int n =>
    obtain ⟨c, rest, cons, digit, -⟩ := Numeral.digits_eq_cons n.natAbs
    rw [displayed, Numeral.text, cons]
    split
    · exact ⟨'-', _, rfl, rfl⟩
    · exact ⟨c, _, rfl, Kind.ofChar_digit digit⟩
  | text u =>
    rw [displayed]
    exact ⟨'"', _, rfl, rfl⟩
  | symbol name => exact ⟨'\'', _, displayed_symbol_append name s, rfl⟩
  | list items =>
    cases items with
    | nil => exact ⟨'(', _, displayed_nil_append s, rfl⟩
    | cons v rest => exact ⟨'(', _, displayed_cons_append v rest s, rfl⟩
  | float | closure | builtin | unfolding => exact absurd (legible _ List.mem_cons_self) Bool.false_ne_true

theorem kind_of_displayed {v : Value} (legible : LegibleAtoms v.atoms) {c : CodePoint} {s rest : Text}
    (text : v.displayed ++ s = c :: rest) : v.kind = Kind.ofChar c := by
  obtain ⟨c', rest', cons, kind⟩ := displayed_starts legible s
  rw [← kind, (List.cons.inj (cons.symm.trans text)).1]

theorem kind_eq_of_displayed {a b : Value} (left : LegibleAtoms a.atoms) (right : LegibleAtoms b.atoms)
    {s t : Text} (same : a.displayed ++ s = b.displayed ++ t) : a.kind = b.kind := by
  obtain ⟨c, rest, cons, kind⟩ := displayed_starts right t
  rw [← kind]
  exact kind_of_displayed left (same.trans cons)

theorem displayed_ne_close {v : Value} (legible : LegibleAtoms v.atoms) (s t : Text) :
    v.displayed ++ s ≠ .char ')' :: t := by
  intro text
  have kind := kind_of_displayed legible text
  cases v with
  | float | closure | builtin | unfolding => exact absurd (legible _ List.mem_cons_self) Bool.false_ne_true
  | _ => cases kind

/-! ### Where a text ends -/

/-- Nothing of a word follows: the text is over, or goes on with a blank or a closing parenthesis. -/
def EndsWord (tail : Text) : Prop := ∀ c ∈ tail.head?, (c != ' ' && c != ')') = false

theorem endsWord_following (items : List Value) (tail : Text) :
    EndsWord (following items ++ .char ')' :: tail) := by
  cases items <;> rintro c ⟨⟩ <;> rfl

theorem EndsWord.endsNumber {tail : Text} (ends : EndsWord tail) : Json.EndsNumber tail := by
  intro c head
  have last := ends c head
  simp only [Bool.and_eq_false_iff, bne_eq_false_iff_eq] at last
  rcases last with rfl | rfl <;> decide

theorem int_append_inj {m n : Int} (left : Json.writableInt m = true) (right : Json.writableInt n = true)
    {s t : Text} (ends : EndsWord s) (ends' : EndsWord t)
    (same : Numeral.text m ++ s = Numeral.text n ++ t) : m = n ∧ s = t := by
  have first := Json.readValue_int left 0 ends.endsNumber
  have second := Json.readValue_int right 0 ends'.endsNumber
  rw [same, second] at first
  cases first
  exact ⟨rfl, rfl⟩

theorem writeText_append (u : Text) (s : Text) :
    Json.writeText u ++ s = .char '"' :: Json.escapeOnto u ('"' :: s) := by
  rw [Json.writeText, Json.writeTextOnto, List.cons_append, Json.escapeOnto_append]
  rfl

theorem text_append_inj {u w : Text} (left : u.Unpaired) (right : w.Unpaired) {s t : Text}
    (same : Json.writeText u ++ s = Json.writeText w ++ t) : u = w ∧ s = t := by
  rw [writeText_append, writeText_append, List.cons.injEq] at same
  have first := Json.readText_written [] left s
  rw [same.2, Json.readText_written [] right] at first
  cases first
  exact ⟨rfl, rfl⟩

theorem symbol_append_inj {u w : Text} (left : (Value.symbol u).legible = true)
    (right : (Value.symbol w).legible = true) {s t : Text} (ends : EndsWord s) (ends' : EndsWord t)
    (same : u ++ s = w ++ t) : u = w ∧ s = t := by
  obtain ⟨taken, dropped⟩ := Json.takeWhile_run (List.all_eq_true.mp left) ends
  obtain ⟨taken', dropped'⟩ := Json.takeWhile_run (List.all_eq_true.mp right) ends'
  rw [same] at taken dropped
  exact ⟨taken.symm.trans taken', dropped.symm.trans dropped'⟩

mutual

/-- A text determines its value and what follows it. -/
theorem displayed_append_inj (a b : Value) (left : LegibleAtoms a.atoms) (right : LegibleAtoms b.atoms)
    {s t : Text} (ends : EndsWord s) (ends' : EndsWord t)
    (same : a.displayed ++ s = b.displayed ++ t) : a = b ∧ s = t := by
  -- The first characters agree, so only pairs of one kind are left.
  have kinds := kind_eq_of_displayed left right same
  cases a with
  | nil =>
    cases b with
    | nil => exact ⟨rfl, List.append_cancel_left same⟩
    | _ => cases kinds
  | bool p =>
    cases b with
    | bool q => cases p <;> cases q <;> simp_all [displayed, Text.ofString]
    | _ => cases kinds
  | int m =>
    cases b with
    | int n =>
      rw [displayed, displayed] at same
      obtain ⟨rfl, tails⟩ := int_append_inj (left.shortIntegers m List.mem_cons_self)
        (right.shortIntegers n List.mem_cons_self) ends ends' same
      exact ⟨rfl, tails⟩
    | _ => cases kinds
  | text u =>
    cases b with
    | text w =>
      rw [displayed, displayed] at same
      obtain ⟨rfl, tails⟩ := text_append_inj (of_decide_eq_true (left _ List.mem_cons_self))
        (of_decide_eq_true (right _ List.mem_cons_self)) same
      exact ⟨rfl, tails⟩
    | _ => cases kinds
  | symbol u =>
    cases b with
    | symbol w =>
      rw [displayed_symbol_append, displayed_symbol_append, List.cons.injEq] at same
      obtain ⟨rfl, tails⟩ := symbol_append_inj (left _ List.mem_cons_self) (right _ List.mem_cons_self)
        ends ends' same.2
      exact ⟨rfl, tails⟩
    | _ => cases kinds
  | list xs =>
    cases b with
    | list ys =>
      obtain ⟨rfl, tails⟩ := items_append_inj xs ys left right same
      exact ⟨rfl, tails⟩
    | _ => cases kinds
  | float | closure | builtin | unfolding => exact absurd (left _ List.mem_cons_self) Bool.false_ne_true

theorem items_append_inj (xs ys : List Value) (left : LegibleAtoms (atomsAll xs))
    (right : LegibleAtoms (atomsAll ys)) {s t : Text}
    (same : (Value.list xs).displayed ++ s = (Value.list ys).displayed ++ t) :
    xs = ys ∧ s = t := by
  cases xs with
  | nil =>
    cases ys with
    | nil => exact ⟨rfl, List.append_cancel_left same⟩
    | cons y ys =>
      rw [displayed_nil_append, displayed_cons_append, List.cons.injEq] at same
      exact absurd same.2.symm (displayed_ne_close right.append.1 _ _)
  | cons x xs =>
    cases ys with
    | nil =>
      rw [displayed_cons_append, displayed_nil_append, List.cons.injEq] at same
      exact absurd same.2 (displayed_ne_close left.append.1 _ _)
    | cons y ys =>
      rw [displayed_cons_append, displayed_cons_append, List.cons.injEq] at same
      obtain ⟨rfl, more⟩ := displayed_append_inj x y left.append.1 right.append.1
        (endsWord_following xs s) (endsWord_following ys t) same.2
      obtain ⟨rfl, tails⟩ := following_append_inj xs ys left.append.2 right.append.2 more
      exact ⟨rfl, tails⟩

theorem following_append_inj (xs ys : List Value) (left : LegibleAtoms (atomsAll xs))
    (right : LegibleAtoms (atomsAll ys)) {s t : Text}
    (same : following xs ++ .char ')' :: s = following ys ++ .char ')' :: t) : xs = ys ∧ s = t := by
  cases xs with
  | nil =>
    cases ys with
    | nil => exact ⟨rfl, (List.cons.inj same).2⟩
    | cons y ys => simp [following, displayedItems] at same
  | cons x xs =>
    cases ys with
    | nil => simp [following, displayedItems] at same
    | cons y ys =>
      rw [following_cons, following_cons, List.cons_append, List.cons_append, List.cons.injEq,
        List.append_assoc, List.append_assoc] at same
      obtain ⟨rfl, more⟩ := displayed_append_inj x y left.append.1 right.append.1
        (endsWord_following xs s) (endsWord_following ys t) same.2
      obtain ⟨rfl, tails⟩ := following_append_inj xs ys left.append.2 right.append.2 more
      exact ⟨rfl, tails⟩

end

theorem display_of_shortIntegers {v : Value} (short : ShortIntegers v.atoms) :
    v.display = .ok v.displayed :=
  if_pos (v.displayable_iff.mpr short)

end Value

/-! ### Injectivity -/

/-- Values of data whose symbols hold no blank and no closing parenthesis have a text, and only one of them
has that text. -/
theorem display_injective {a b : Value} (left : ∀ v ∈ a.atoms, v.legible = true)
    (right : ∀ v ∈ b.atoms, v.legible = true) :
    ∃ text text', a.display = .ok text ∧ b.display = .ok text' ∧ (text = text' ↔ a = b) := by
  refine ⟨_, _, Value.display_of_shortIntegers (Value.LegibleAtoms.shortIntegers left),
    Value.display_of_shortIntegers (Value.LegibleAtoms.shortIntegers right), fun same => ?_,
    congrArg Value.displayed⟩
  exact (Value.displayed_append_inj a b left right (s := []) (t := []) nofun nofun
    (by rw [same])).1

/-- A symbol in quotes beside the string that looks like it, and a string with the end of a list in it. -/
theorem display_injective_lookalikes :
    let a : Value := .list [.int 1, .list [.symbol "\"1\"", .bool true], .text "1) (", .symbol ""]
    let b : Value := .list [.int 1, .list [.text "1", .bool true], .text "1) (", .symbol ""]
    (∀ v ∈ a.atoms, v.legible = true) ∧ (∀ v ∈ b.atoms, v.legible = true) ∧
      ∃ text text', a.display = .ok text ∧ b.display = .ok text' ∧ text ≠ text' := by
  intro a b
  have left : ∀ v ∈ a.atoms, v.legible = true := by decide +kernel
  have right : ∀ v ∈ b.atoms, v.legible = true := by decide +kernel
  have differ : a ≠ b := by simp [a, b]
  obtain ⟨text, text', shown, shown', same⟩ := display_injective left right
  exact ⟨left, right, text, text', shown, shown', fun equal => differ (same.mp equal)⟩

end Unfurl
