import Mathlib.Data.List.Chain
import Mathlib.Tactic.IntervalCases
import Unfurl.Json.Reader
import Unfurl.Json.Writer

namespace Unfurl

/-- No high surrogate stands directly in front of a low one. -/
def Text.Unpaired (s : Text) : Prop := List.IsChain (fun c d => ¬(c.isHigh = true ∧ d.isLow = true)) s

instance (s : Text) : Decidable s.Unpaired := inferInstanceAs (Decidable (List.IsChain _ s))

theorem Text.unpaired_ofString (s : String) : Unpaired s := by
  rw [Unpaired, ofString, List.isChain_map]
  exact (List.pairwise_of_forall fun _ _ both => Bool.false_ne_true both.1).isChain

namespace Json

/-! ### Pieces -/

/-- What is read for a written code point: itself where it is written by a name or as it is, else one unit,
or beyond U+FFFF the two halves of a pair. -/
def piecesOf (c : CodePoint) : List Piece :=
  if c ∈ (['"', '\\', '\n', '\r', '\t', '\x0c', '\x08'] : Text) ∨ 0x20 ≤ c.toNat ∧ c.toNat < 0x7F then [.point c]
  else if c.toNat < 0x10000 then [.unit c.toNat]
  else [.unit (0xD800 + (c.toNat - 0x10000) / 0x400), .unit (0xDC00 + (c.toNat - 0x10000) % 0x400)]

theorem isHighUnit_toNat (c : CodePoint) : isHighUnit c.toNat = c.isHigh := by
  rw [Bool.eq_iff_iff, isHighUnit, Bool.and_eq_true, decide_eq_true_eq, decide_eq_true_eq]
  cases c with
  | char c =>
    have scalar : c.toNat < 0xD800 ∨ 0xDFFF < c.toNat ∧ c.toNat < 0x110000 := c.valid
    rw [CodePoint.toNat]
    exact iff_of_false (by omega) Bool.false_ne_true
  | surrogate n =>
    simp only [CodePoint.toNat, CodePoint.isHigh, decide_eq_true_eq]
    omega

theorem isLowUnit_toNat (c : CodePoint) : isLowUnit c.toNat = c.isLow := by
  rw [Bool.eq_iff_iff, isLowUnit, Bool.and_eq_true, decide_eq_true_eq, decide_eq_true_eq]
  cases c with
  | char c =>
    have scalar : c.toNat < 0xD800 ∨ 0xDFFF < c.toNat ∧ c.toNat < 0x110000 := c.valid
    rw [CodePoint.toNat]
    exact iff_of_false (by omega) Bool.false_ne_true
  | surrogate n =>
    simp only [CodePoint.toNat, CodePoint.isLow, decide_eq_true_eq]
    omega

theorem toNat_lt (c : CodePoint) : c.toNat < 0x110000 := by
  cases c with
  | char c =>
    have scalar : c.toNat < 0xD800 ∨ 0xDFFF < c.toNat ∧ c.toNat < 0x110000 := c.valid
    simp only [CodePoint.toNat]
    omega
  | surrogate n => simp only [CodePoint.toNat]; omega

theorem ofUnit_toNat (c : CodePoint) : ofUnit c.toNat = c := by
  cases c with
  | char c =>
    have scalar : c.toNat < 0xD800 ∨ 0xDFFF < c.toNat ∧ c.toNat < 0x110000 := c.valid
    rw [CodePoint.toNat, ofUnit, dif_neg (by omega), Char.ofNat_toNat]
  | surrogate n =>
    rw [CodePoint.toNat, ofUnit, dif_pos (by omega)]
    simp

theorem ofUnits_toNat {c : CodePoint} (beyond : 0x10000 ≤ c.toNat) :
    ofUnits (0xD800 + (c.toNat - 0x10000) / 0x400) (0xDC00 + (c.toNat - 0x10000) % 0x400) = c := by
  cases c with
  | char c =>
    simp only [CodePoint.toNat] at beyond ⊢
    have unit : 0x10000 + (0xD800 + (c.toNat - 0x10000) / 0x400 - 0xD800) * 0x400 +
        (0xDC00 + (c.toNat - 0x10000) % 0x400 - 0xDC00) = c.toNat := by omega
    rw [ofUnits, unit, Char.ofNat_toNat]
  | surrogate n =>
    simp only [CodePoint.toNat] at beyond
    omega

/-- A unit stays by itself unless it is a high half in front of a low one. -/
theorem joinPieces_unit {n : Nat} {pieces : List Piece}
    (apart : isHighUnit n = true → ∀ m, pieces.head? = some (.unit m) → isLowUnit m = false) :
    joinPieces (.unit n :: pieces) = ofUnit n :: joinPieces pieces := by
  cases pieces with
  | nil => rfl
  | cons piece rest =>
    cases piece with
    | point c => rfl
    | unit m =>
      have single : (isHighUnit n && isLowUnit m) = false := by
        cases high : isHighUnit n with
        | false => rfl
        | true => exact apart high m rfl
      rw [joinPieces, single, if_neg Bool.false_ne_true]

theorem isLow_of_head {c : CodePoint} {m : Nat} (first : (piecesOf c).head? = some (.unit m))
    (low : isLowUnit m = true) : c.isLow = true := by
  unfold piecesOf at first
  split at first
  · cases first
  split at first
  · cases first
    rwa [← isLowUnit_toNat]
  · cases first
    have bound := toNat_lt c
    simp only [isLowUnit, Bool.and_eq_true, decide_eq_true_eq] at low
    omega

theorem piecesOf_ne_nil (c : CodePoint) : piecesOf c ≠ [] := by
  unfold piecesOf
  split_ifs <;> exact List.cons_ne_nil _ _

theorem joinPieces_piecesOf {c : CodePoint} {rest : Text} (unpaired : Text.Unpaired (c :: rest)) :
    joinPieces (piecesOf c ++ rest.flatMap piecesOf) = c :: joinPieces (rest.flatMap piecesOf) := by
  have apart : c.isHigh = true → ∀ m, (rest.flatMap piecesOf).head? = some (.unit m) →
      isLowUnit m = false := by
    intro high m first
    cases rest with
    | nil => cases first
    | cons d rest =>
      by_contra low
      rw [List.flatMap_cons, List.head?_append_of_ne_nil _ (piecesOf_ne_nil d)] at first
      exact (List.isChain_cons.mp unpaired).1 d rfl ⟨high, isLow_of_head first (Bool.eq_true_of_not_eq_false low)⟩
  unfold piecesOf
  split
  · rfl
  split
  · rw [List.singleton_append, joinPieces_unit (by rwa [isHighUnit_toNat]), ofUnit_toNat]
  · rename_i beyond
    have bound := toNat_lt c
    have high : isHighUnit (0xD800 + (c.toNat - 0x10000) / 0x400) = true := by
      simp only [isHighUnit, Bool.and_eq_true, decide_eq_true_eq]
      omega
    have low : isLowUnit (0xDC00 + (c.toNat - 0x10000) % 0x400) = true := by
      simp only [isLowUnit, Bool.and_eq_true, decide_eq_true_eq]
      omega
    rw [List.cons_append, List.cons_append, List.nil_append, joinPieces, high, low, Bool.and_self,
      if_pos rfl, ofUnits_toNat (Nat.not_lt.mp beyond)]

theorem joinPieces_flatMap {s : Text} (unpaired : s.Unpaired) : joinPieces (s.flatMap piecesOf) = s := by
  induction s with
  | nil => rfl
  | cons c rest ih => rw [List.flatMap_cons, joinPieces_piecesOf unpaired, ih (List.isChain_cons.mp unpaired).2]

/-! ### Escapes -/

theorem hexValue?_hexDigit {d : Nat} (small : d < 16) : hexValue? (Text.hexDigit d) = some d := by
  interval_cases d <;> decide

theorem readText_unitEscape (opening : Text) (acc : List Piece) {n : Nat} (small : n < 0x10000)
    {rest : Text} (nonempty : rest ≠ []) :
    readText opening acc (unitEscape n ++ rest) = readText opening (.unit n :: acc) rest := by
  have unit : ((n / 16 / 16 / 16 % 16 * 16 + n / 16 / 16 % 16) * 16 + n / 16 % 16) * 16 + n % 16 = n := by
    omega
  have digits : hex4? (Text.hexDigit (n / 16 / 16 / 16 % 16)) (Text.hexDigit (n / 16 / 16 % 16))
      (Text.hexDigit (n / 16 % 16)) (Text.hexDigit (n % 16)) = some n := by
    have digit (k : Nat) := hexValue?_hexDigit (Nat.mod_lt k (by decide : 0 < 16))
    rw [hex4?, digit, digit, digit, digit]
    exact congrArg some unit
  show readText opening acc ('\\' :: 'u' :: Text.hexDigit (n / 16 / 16 / 16 % 16) ::
    Text.hexDigit (n / 16 / 16 % 16) :: Text.hexDigit (n / 16 % 16) :: Text.hexDigit (n % 16) :: rest) = _
  rw [readText, digits]
  dsimp only
  rw [if_neg (by rwa [List.isEmpty_iff])]

theorem readText_plain (opening : Text) (acc : List Piece) {c : CodePoint} (notQuote : c ≠ '"')
    (notBackslash : c ≠ '\\') (visible : 0x20 ≤ c.toNat) (rest : Text) :
    readText opening acc (c :: rest) = readText opening (.point c :: acc) rest := by
  rw [readText, if_neg (by omega)]
  · exact notQuote
  all_goals
    intros
    exact notBackslash ‹c = '\\'›

/-- One written code point adds its pieces to those that were read. A unit escape at the end of a text is
refused, so something must follow. -/
theorem readText_escapeChar (opening : Text) (acc : List Piece) (c : CodePoint) {rest : Text}
    (nonempty : rest ≠ []) :
    readText opening acc (escapeChar c ++ rest) = readText opening ((piecesOf c).reverse ++ acc) rest := by
  unfold escapeChar
  -- The seven characters with an escape of their own.
  iterate 7
    split
    · rename_i same
      subst same
      rfl
  rename_i notQuote notBackslash notFeed notReturn notTab notForm notBack
  have unnamed : c ∉ (['"', '\\', '\n', '\r', '\t', '\x0c', '\x08'] : Text) := by
    simp [notQuote, notBackslash, notFeed, notReturn, notTab, notForm, notBack]
  split
  · rename_i plain
    have single : piecesOf c = [.point c] := if_pos (Or.inr plain)
    rw [single]
    exact readText_plain opening acc notQuote notBackslash plain.1 rest
  rename_i escaped
  have bound := toNat_lt c
  rw [piecesOf, if_neg (not_or.mpr ⟨unnamed, escaped⟩)]
  split
  · rename_i small
    exact readText_unitEscape opening acc small nonempty
  · rw [List.append_assoc, readText_unitEscape opening acc (by omega),
      readText_unitEscape opening _ (by omega) nonempty]
    · rfl
    · nofun

theorem length_escapeOnto (cs tail : Text) : tail.length ≤ (escapeOnto cs tail).length := by
  induction cs with
  | nil => exact Nat.le_refl _
  | cons c rest ih =>
    rw [escapeOnto, List.length_append]
    omega

theorem escapeOnto_append (cs s t : Text) : escapeOnto cs s ++ t = escapeOnto cs (s ++ t) := by
  induction cs with
  | nil => rfl
  | cons c rest ih => rw [escapeOnto, escapeOnto, List.append_assoc, ih]

theorem readText_escapeOnto (opening : Text) (acc : List Piece) (cs tail : Text) :
    readText opening acc (escapeOnto cs ('"' :: tail)) =
      .ok (joinPieces (acc.reverse ++ cs.flatMap piecesOf), tail) := by
  induction cs generalizing acc with
  | nil => rw [escapeOnto, readText, List.flatMap_nil, List.append_nil]
  | cons c rest ih =>
    have nonempty : escapeOnto rest ('"' :: tail) ≠ [] := by
      have length := length_escapeOnto rest ('"' :: tail)
      rw [List.length_cons] at length
      exact List.ne_nil_of_length_pos (by omega)
    rw [escapeOnto, readText_escapeChar opening acc c nonempty, ih, List.reverse_append,
      List.reverse_reverse, List.flatMap_cons, List.append_assoc]

theorem readText_written (opening : Text) {s : Text} (unpaired : s.Unpaired) (tail : Text) :
    readText opening [] (escapeOnto s ('"' :: tail)) = .ok (s, tail) := by
  rw [readText_escapeOnto, List.reverse_nil, List.nil_append, joinPieces_flatMap unpaired]

end Json

end Unfurl
