import Unfurl.Json.Writer
import Unfurl.Proofs.Number.Digits
import Unfurl.Proofs.Number.Shortest

/-! A number is read as far as its text goes on, so it reads back in front of what cannot go on with it. -/

namespace Unfurl.Json

/-! ### Where a number ends -/

def NoDigit (tail : Text) : Prop := ∀ c ∈ tail.head?, isDigit c = false

/-- The text cannot go on with a number: it starts with no digit, point or exponent mark. -/
def EndsNumber (tail : Text) : Prop :=
  ∀ c ∈ tail.head?, isDigit c = false ∧ c ≠ '.' ∧ c ≠ 'e' ∧ c ≠ 'E'

theorem EndsNumber.noDigit {tail : Text} (ends : EndsNumber tail) : NoDigit tail :=
  fun c head => (ends c head).1

/-- A run of characters of one class ends where the next character is of another. -/
theorem takeWhile_run {inside : CodePoint → Bool} {run tail : Text} (all : ∀ c ∈ run, inside c = true)
    (ends : ∀ c ∈ tail.head?, inside c = false) :
    (run ++ tail).takeWhile inside = run ∧ (run ++ tail).dropWhile inside = tail := by
  rw [List.takeWhile_append_of_pos all, List.dropWhile_append_of_pos all]
  cases tail with
  | nil => exact ⟨List.append_nil run, rfl⟩
  | cons c rest =>
    have stop : ¬inside c = true := by
      rw [ends c rfl]
      exact Bool.false_ne_true
    rw [List.takeWhile_cons_of_neg stop, List.dropWhile_cons_of_neg stop]
    exact ⟨List.append_nil run, rfl⟩

theorem takeWhile_digits {ds tail : Text} (digits : ∀ c ∈ ds, isDigit c = true)
    (ends : NoDigit tail) :
    (ds ++ tail).takeWhile isDigit = ds ∧ (ds ++ tail).dropWhile isDigit = tail :=
  takeWhile_run digits ends

/-! ### Parts of a number -/

/-- The digits before the point, after it, and the exponent, where the text of a number has them. -/
structure Spelling where
  whole : Text
  fraction : Text
  exponent : Option Int

namespace Spelling

def pointed : Text → Text
  | [] => []
  | ds => '.' :: ds

def marked : Option Int → Text
  | none => []
  | some e => 'e' :: Binary64.exponentText e

def text (s : Spelling) : Text := s.whole ++ (pointed s.fraction ++ marked s.exponent)

/-- The digits before the point are a zero or do not start with one. -/
structure Proper (s : Spelling) : Prop where
  leading : s.whole = [.char '0'] ∨ ∃ c rest, s.whole = c :: rest ∧ c ≠ .char '0'
  whole : ∀ c ∈ s.whole, isDigit c = true
  fraction : ∀ c ∈ s.fraction, isDigit c = true

end Spelling

theorem wholePart_append {ds tail : Text} (leading : ds = [.char '0'] ∨ ∃ c rest, ds = c :: rest ∧ c ≠ .char '0')
    (digits : ∀ c ∈ ds, isDigit c = true) (ends : NoDigit tail) :
    wholePart (ds ++ tail) = some (ds, tail) := by
  obtain rfl | ⟨c, rest, rfl, nonzero⟩ := leading
  · rfl
  · obtain ⟨taken, dropped⟩ := takeWhile_digits (fun x mem => digits x (List.mem_cons_of_mem c mem)) ends
    rw [List.cons_append, wholePart, if_neg nonzero, if_pos (digits c List.mem_cons_self), taken, dropped]

theorem fractionPart_append {ds tail : Text} (digits : ∀ c ∈ ds, isDigit c = true)
    (ends : NoDigit tail) (noPoint : ∀ c ∈ tail.head?, c ≠ '.') :
    fractionPart (Spelling.pointed ds ++ tail) = (ds, tail) := by
  cases ds with
  | nil =>
    unfold Spelling.pointed fractionPart
    split
    · exact absurd rfl (noPoint '.' (by simp_all))
    · rfl
  | cons c rest =>
    obtain ⟨taken, dropped⟩ := takeWhile_digits (fun x mem => digits x (List.mem_cons_of_mem c mem)) ends
    rw [Spelling.pointed, List.cons_append, List.cons_append, fractionPart,
      if_pos (digits c List.mem_cons_self), taken, dropped]
    nofun

/-- An exponent is written as a sign and a run of digits for its magnitude. -/
theorem exponentText_eq (e : Int) :
    ∃ run : Text, Binary64.exponentText e = (if e < 0 then .char '-' else .char '+') :: run ∧ run ≠ [] ∧
      (∀ c ∈ run, isDigit c = true) ∧ Numeral.value run = e.natAbs := by
  have digits : ∀ c ∈ Numeral.digits e.natAbs, isDigit c = true := fun c => Numeral.isDigit_of_mem_digits
  refine ⟨_, rfl, ?_⟩
  split
  · refine ⟨List.cons_ne_nil _ _, ?_, ?_⟩
    · intro c mem
      obtain rfl | mem := List.mem_cons.mp mem
      · rfl
      · exact digits c mem
    · have padded := Numeral.value_append ['0'] (Numeral.digits e.natAbs)
      rwa [Numeral.value_digits, show Numeral.value ['0'] = 0 from rfl, zero_mul, zero_add] at padded
  · exact ⟨List.ne_nil_of_length_pos (Numeral.length_digits_pos _), digits, Numeral.value_digits _⟩

theorem exponentPart_append (x : Option Int) {tail : Text} (ends : EndsNumber tail) :
    exponentPart (Spelling.marked x ++ tail) = (x, tail) := by
  cases x with
  | none =>
    cases tail with
    | nil => rfl
    | cons c rest =>
      obtain ⟨-, -, lower, upper⟩ := ends c rfl
      rw [Spelling.marked, List.nil_append]
      unfold exponentPart
      exact if_neg (not_or.mpr ⟨lower, upper⟩)
  | some e =>
    obtain ⟨run, written, nonempty, digits, value⟩ := exponentText_eq e
    obtain ⟨taken, dropped⟩ := takeWhile_digits digits ends.noDigit
    have some_run : run.isEmpty = false := List.isEmpty_eq_false_iff.mpr nonempty
    rw [Spelling.marked, written, List.cons_append, List.cons_append]
    by_cases negative : e < 0
    · have magnitude : Binary64.signed true e.natAbs = e := by
        rw [Binary64.signed, if_pos rfl]
        omega
      rw [if_pos negative]
      simp only [exponentPart, true_or, if_true, taken, dropped, some_run, value, magnitude]
      rfl
    · have magnitude : Binary64.signed false e.natAbs = e := by
        rw [Binary64.signed, if_neg Bool.false_ne_true]
        omega
      rw [if_neg negative]
      simp only [exponentPart, true_or, if_true, taken, dropped, some_run, value, magnitude]
      rfl

/-- Reading takes a number apart as it is spelled. -/
theorem parts_text {s : Spelling} (proper : s.Proper) {tail : Text} (ends : EndsNumber tail) :
    wholePart (s.text ++ tail) =
        some (s.whole, Spelling.pointed s.fraction ++ (Spelling.marked s.exponent ++ tail)) ∧
      fractionPart (Spelling.pointed s.fraction ++ (Spelling.marked s.exponent ++ tail)) =
        (s.fraction, Spelling.marked s.exponent ++ tail) ∧
      exponentPart (Spelling.marked s.exponent ++ tail) = (s.exponent, tail) := by
  obtain ⟨whole, fraction, exponent⟩ := s
  have afterFraction : ∀ c ∈ (Spelling.marked exponent ++ tail).head?, isDigit c = false ∧ c ≠ '.' := by
    cases exponent with
    | none => exact fun c head => ⟨(ends c head).1, (ends c head).2.1⟩
    | some e =>
      rintro c ⟨⟩
      decide
  have afterWhole : NoDigit (Spelling.pointed fraction ++ (Spelling.marked exponent ++ tail)) := by
    cases fraction with
    | nil => exact fun c head => (afterFraction c head).1
    | cons d rest =>
      rintro c ⟨⟩
      decide
  refine ⟨?_, ?_, exponentPart_append exponent ends⟩
  · rw [Spelling.text, List.append_assoc, List.append_assoc]
    exact wholePart_append proper.leading proper.whole afterWhole
  · exact fractionPart_append proper.fraction (fun c head => (afterFraction c head).1)
      fun c head => (afterFraction c head).2

theorem readMagnitude_integer {s : Spelling} (proper : s.Proper)
    (isInt : (s.fraction.isEmpty && s.exponent.isNone) = true) {n : Nat}
    (read : Numeral.read s.whole = .ok n) (negative : Bool) (left : Text) {tail : Text}
    (ends : EndsNumber tail) :
    readMagnitude negative left (s.text ++ tail) = .ok (.int (Binary64.signed negative n), tail) := by
  obtain ⟨whole, fraction, exponent⟩ := parts_text proper ends
  simp only [readMagnitude, whole, fraction, exponent, isInt, if_true, read]

theorem readMagnitude_decimal {s : Spelling} (proper : s.Proper)
    (notInt : (s.fraction.isEmpty && s.exponent.isNone) = false) (negative : Bool) (left : Text)
    {tail : Text} (ends : EndsNumber tail) :
    readMagnitude negative left (s.text ++ tail) =
      .ok (.float (Binary64.ofDecimal negative (Numeral.value (s.whole ++ s.fraction))
        (s.exponent.getD 0 - s.fraction.length)), tail) := by
  obtain ⟨whole, fraction, exponent⟩ := parts_text proper ends
  simp only [readMagnitude, whole, fraction, exponent, notInt, Bool.false_eq_true, if_false]

/-! ### Layouts -/

/-- The text is spelled properly, with a fraction or an exponent, and its parts denote the decimal. -/
structure Spelling.Spells (s : Spelling) (cs : Text) (d : Binary64.Decimal) : Prop where
  proper : s.Proper
  text : cs = s.text
  notInt : (s.fraction.isEmpty && s.exponent.isNone) = false
  value : (Numeral.value (s.whole ++ s.fraction) : ℚ) * 10 ^ (s.exponent.getD 0 - s.fraction.length) =
    d.toRat

theorem isDigit_of_mem_zeros {n : Nat} {c : CodePoint} (mem : c ∈ Binary64.zeros n) :
    isDigit c = true := by
  rw [List.eq_of_mem_replicate mem]
  rfl

section Shapes

variable {ds : Text} (digits : ∀ c ∈ ds, isDigit c = true)
  (leading : ∃ c rest, ds = c :: rest ∧ c ≠ '0')

include digits leading

/-- A number with zeros up to the point and one behind it. -/
theorem spells_padded (n : Nat) :
    Spelling.Spells ⟨ds ++ Binary64.zeros n, ['0'], none⟩ (ds ++ Binary64.zeros n ++ (['.', '0'] : Text))
      ⟨Numeral.value ds, n⟩ := by
  obtain ⟨c, rest, rfl, nonzero⟩ := leading
  refine ⟨⟨Or.inr ⟨c, rest ++ Binary64.zeros n, rfl, nonzero⟩, ?_, ?_⟩, ?_, rfl, ?_⟩
  · intro x mem
    obtain mem | mem := List.mem_append.mp mem
    · exact digits x mem
    · exact isDigit_of_mem_zeros mem
  · exact fun x mem => isDigit_of_mem_zeros (n := 1) mem
  · simp [Spelling.text, Spelling.pointed, Spelling.marked]
  · have tenfold : Numeral.value (c :: rest ++ Binary64.zeros n ++ (['0'] : Text)) =
        Numeral.value (c :: rest) * 10 ^ n * 10 := by
      rw [Numeral.value_append, Numeral.value_append, Binary64.zeros, Numeral.value_zeros, List.length_replicate]
      rfl
    rw [tenfold, Binary64.Decimal.toRat]
    push_cast
    simp

/-- A number with the point between its digits. -/
theorem spells_split {k : Nat} (some_before : 0 < k) (some_after : k < ds.length) :
    Spelling.Spells ⟨ds.take k, ds.drop k, none⟩ (ds.take k ++ ('.' :: ds.drop k : Text))
      ⟨Numeral.value ds, (k : Int) - ds.length⟩ := by
  have after : ds.drop k ≠ [] := by
    intro empty
    have := List.length_drop (i := k) (l := ds)
    rw [empty, List.length_nil] at this
    omega
  refine ⟨⟨?_, ?_, ?_⟩, ?_, ?_, ?_⟩
  · obtain ⟨c, rest, rfl, nonzero⟩ := leading
    obtain ⟨j, rfl⟩ : ∃ j, k = j + 1 := ⟨k - 1, by omega⟩
    exact Or.inr ⟨c, rest.take j, rfl, nonzero⟩
  · exact fun x mem => digits x (List.mem_of_mem_take mem)
  · exact fun x mem => digits x (List.mem_of_mem_drop mem)
  · generalize ds.drop k = fs at after ⊢
    obtain ⟨f, fs', rfl⟩ := List.exists_cons_of_ne_nil after
    simp [Spelling.text, Spelling.pointed, Spelling.marked]
  · simp [List.isEmpty_eq_false_iff.mpr after]
  · rw [List.take_append_drop, List.length_drop, Binary64.Decimal.toRat, Option.getD_none]
    congr 2
    dsimp only
    omega

/-- A number with all its digits behind the point and a zero in front. -/
theorem spells_small (n : Nat) :
    Spelling.Spells ⟨['0'], Binary64.zeros n ++ ds, none⟩ ('0' :: '.' :: (Binary64.zeros n ++ ds))
      ⟨Numeral.value ds, -(n + ds.length : Int)⟩ := by
  have some_digit : Binary64.zeros n ++ ds ≠ [] := by
    obtain ⟨c, rest, rfl, -⟩ := leading
    simp
  refine ⟨⟨Or.inl rfl, ?_, ?_⟩, ?_, ?_, ?_⟩
  · exact fun x mem => isDigit_of_mem_zeros (n := 1) mem
  · intro x mem
    obtain mem | mem := List.mem_append.mp mem
    · exact isDigit_of_mem_zeros mem
    · exact digits x mem
  · generalize Binary64.zeros n ++ ds = fs at some_digit ⊢
    obtain ⟨f, fs', rfl⟩ := List.exists_cons_of_ne_nil some_digit
    simp [Spelling.text, Spelling.pointed, Spelling.marked]
  · rw [List.isEmpty_eq_false_iff.mpr some_digit]
    rfl
  · have unpadded : Numeral.value ((['0'] : Text) ++ (Binary64.zeros n ++ ds)) = Numeral.value ds := by
      rw [← List.append_assoc, Numeral.value_append, ← List.replicate_one, Binary64.zeros,
        List.replicate_append_replicate,
        Numeral.value_zeros, zero_mul, zero_add]
    rw [unpadded, Binary64.Decimal.toRat, List.length_append, Binary64.zeros, List.length_replicate,
      Option.getD_none]
    push_cast
    congr 2
    omega

end Shapes

/-- A number with its leading digit before the point and an exponent. -/
theorem spells_scaled {c : CodePoint} {rest : Text} (digits : ∀ x ∈ c :: rest, isDigit x = true)
    (nonzero : c ≠ '0') (e : Int) :
    Spelling.Spells ⟨[c], rest, some e⟩ (c :: (Spelling.pointed rest ++ ('e' :: Binary64.exponentText e : Text)))
      ⟨Numeral.value (c :: rest), e - rest.length⟩ := by
  refine ⟨⟨Or.inr ⟨c, [], rfl, nonzero⟩, ?_, ?_⟩, rfl, ?_, rfl⟩
  · intro x mem
    exact digits x (List.mem_cons.mpr (Or.inl (List.mem_singleton.mp mem)))
  · exact fun x mem => digits x (List.mem_cons_of_mem c mem)
  · exact Bool.and_false _

theorem layout_spelled {d : Binary64.Decimal} (nonzero : d.digits ≠ 0) :
    ∃ s : Spelling, s.Spells (Binary64.layout d) d := by
  obtain ⟨c, rest, cons, -, zero⟩ := Numeral.digits_eq_cons d.digits
  have nonzero' : c ≠ '0' := fun isZero => nonzero (zero isZero).1
  have digits : ∀ x ∈ Numeral.digits d.digits, isDigit x = true := fun x => Numeral.isDigit_of_mem_digits
  have same (e : Int) (exponent : e = d.exponent) :
      (⟨Numeral.value (Numeral.digits d.digits), e⟩ : Binary64.Decimal) = d := by
    rw [Numeral.value_digits, exponent]
  unfold Binary64.layout
  dsimp only
  rw [cons] at digits same ⊢
  have leading : ∃ x xs, c :: rest = x :: xs ∧ x ≠ '0' := ⟨c, rest, rfl, nonzero'⟩
  have length : (c :: rest).length = rest.length + 1 := rfl
  split
  · split
    · have spelled := spells_padded digits leading d.exponent.toNat
      rw [same _ (by omega)] at spelled
      exact ⟨_, spelled⟩
    · split
      · have before : 0 < (d.exponent + (c :: rest).length - 1).toNat + 1 := by omega
        have spelled := spells_split digits leading before (by omega)
        rw [same _ (by omega)] at spelled
        exact ⟨_, spelled⟩
      · have spelled := spells_small digits leading (-(d.exponent + (c :: rest).length - 1) - 1).toNat
        rw [same _ (by omega)] at spelled
        exact ⟨_, spelled⟩
  · have spelled := spells_scaled digits nonzero' (d.exponent + (c :: rest).length - 1)
    rw [same _ (by omega)] at spelled
    cases rest <;> exact ⟨_, spelled⟩

/-! ### Written numbers -/

theorem readName?_digit {c : CodePoint} (digit : isDigit c = true) (rest : Text) :
    readName? (c :: rest) = none := by
  unfold readName?
  split
  any_goals
    rename_i same
    cases same
    exact absurd digit (by decide)
  rfl

theorem readName?_minus {c : CodePoint} (digit : isDigit c = true) (rest : Text) :
    readName? ('-' :: c :: rest) = none := by
  unfold readName?
  split
  any_goals
    rename_i same
    cases same
    try exact absurd digit (by decide)
  rfl

/-- A number is read where its text stands, which starts with a digit or a minus sign before one. -/
theorem readValue_signed {cs tail : Text} {doc : Json} (fuel : Nat) (negative : Bool)
    (unsigned : ∃ c rest, cs = c :: rest ∧ isDigit c = true)
    (magnitude : ∀ left, readMagnitude negative left (cs ++ tail) = .ok (doc, tail)) :
    readValue (fuel + 1) (((if negative then '-' :: cs else cs : Text)) ++ tail) = .ok (doc, tail) := by
  obtain ⟨c, rest, rfl, digit⟩ := unsigned
  have other (x : CodePoint) (isOther : isDigit x = false) : c ≠ x := by
    rintro rfl
    rw [isOther] at digit
    cases digit
  cases negative with
  | true =>
    rw [if_pos rfl, List.cons_append, List.cons_append, readValue, readName?_minus digit]
    · exact magnitude _
    all_goals nofun
  | false =>
    rw [if_neg Bool.false_ne_true, List.cons_append, readValue, readName?_digit digit]
    · dsimp only
      rw [readNumber]
      · exact magnitude _
      · rintro r ⟨⟩
        exact other '-' rfl rfl
    · rintro r ⟨⟩
      exact other '"' rfl rfl
    · rintro r ⟨⟩
      exact other '[' rfl rfl
    · rintro r ⟨⟩
      exact other '\x7b' rfl rfl

theorem Spelling.Proper.starts {s : Spelling} (proper : s.Proper) :
    ∃ c rest, s.text = c :: rest ∧ isDigit c = true := by
  obtain zero | ⟨c, rest, cons, -⟩ := proper.leading
  · exact ⟨'0', _, by rw [Spelling.text, zero]; rfl, rfl⟩
  · exact ⟨c, _, by rw [Spelling.text, cons]; rfl, proper.whole c (by rw [cons]; exact List.mem_cons_self)⟩

/-- An integer that is short enough to be written reads back. -/
theorem readValue_int {n : Int} (writable : writableInt n = true) (fuel : Nat) {tail : Text}
    (ends : EndsNumber tail) :
    readValue (fuel + 1) (Numeral.text n ++ tail) = .ok (.int n, tail) := by
  obtain ⟨c, rest, cons, digit, zero⟩ := Numeral.digits_eq_cons n.natAbs
  have proper : Spelling.Proper ⟨Numeral.digits n.natAbs, [], none⟩ := by
    refine ⟨?_, fun x => Numeral.isDigit_of_mem_digits, nofun⟩
    by_cases isZero : c = '0'
    · exact Or.inl (by rw [cons, isZero, (zero isZero).2])
    · exact Or.inr ⟨c, rest, cons, isZero⟩
  have short : n.natAbs < Numeral.bound := of_decide_eq_true writable
  have sign : Binary64.signed (decide (n < 0)) n.natAbs = n := by
    rw [Binary64.signed]
    split
    · rename_i negative
      have := of_decide_eq_true negative
      omega
    · rename_i positive
      have := of_decide_eq_false (Bool.eq_false_iff.mpr positive)
      omega
  have text : Numeral.text n =
      if decide (n < 0) then .char '-' :: Numeral.digits n.natAbs else Numeral.digits n.natAbs := by
    simp only [Numeral.text, decide_eq_true_eq]
  rw [text]
  refine readValue_signed fuel _ ⟨c, rest, cons, digit⟩ fun left => ?_
  have read := readMagnitude_integer proper rfl (Numeral.read_digits short) (decide (n < 0)) left ends
  rw [sign] at read
  rwa [show Spelling.text ⟨Numeral.digits n.natAbs, [], none⟩ = _ from List.append_nil _] at read

/-- The text of a finite number reads back as that number. -/
theorem readMagnitude_finite {m : Nat} {q : Int} (canonical : Binary64.Canonical m q) (negative : Bool) :
    ∃ s : Spelling, s.Proper ∧ Binary64.magnitudeText m q = s.text ∧
      ∀ (left : Text) {tail : Text}, EndsNumber tail →
        readMagnitude negative left (s.text ++ tail) =
          .ok (.float (.finite negative m q canonical), tail) := by
  unfold Binary64.magnitudeText
  split
  · rename_i zero
    subst zero
    obtain rfl : q = -1074 := by
      obtain ⟨-, -, -, normal⟩ := canonical
      omega
    have digits : ∀ c ∈ (['0'] : Text), isDigit c = true := fun x mem => isDigit_of_mem_zeros (n := 1) mem
    have proper : Spelling.Proper ⟨['0'], ['0'], none⟩ := ⟨Or.inl rfl, digits, digits⟩
    exact ⟨_, proper, rfl, fun left tail ends => readMagnitude_decimal proper rfl negative left ends⟩
  · rename_i nonzero
    have positive := Nat.pos_of_ne_zero nonzero
    have near := Binary64.shortest_near (q := q) positive
    obtain ⟨s, proper, text, notInt, value⟩ := layout_spelled (near.digits_pos positive).ne'
    refine ⟨s, proper, text, fun left tail ends => ?_⟩
    rw [← value] at near
    rw [readMagnitude_decimal proper notInt negative left ends,
      Binary64.ofDecimal_of_near negative canonical positive near]

theorem readValue_float {x : Binary64} (number : x.isNumber = true) (fuel : Nat) {tail : Text}
    (ends : EndsNumber tail) :
    readValue (fuel + 1) (x.render numberNames ++ tail) = .ok (.float x, tail) := by
  cases x with
  | nan mark => cases number
  | infinite negative =>
    cases negative <;> rfl
  | finite negative m q canonical =>
    obtain ⟨s, proper, text, read⟩ := readMagnitude_finite canonical negative
    rw [Binary64.render, text]
    exact readValue_signed fuel negative proper.starts fun left => read left ends

end Unfurl.Json
