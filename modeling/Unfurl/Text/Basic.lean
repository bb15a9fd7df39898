namespace Unfurl

/-- A code point: a character, or a surrogate, which is half of a pair and stands for no character. -/
inductive CodePoint where
  | char (c : Char)
  | surrogate (n : Fin 0x800)
deriving DecidableEq, Inhabited

/-- Code points in a row. Surrogates may stand in it alone and even side by side, and stay what they are. -/
abbrev Text := List CodePoint

instance : LawfulBEq Text := inferInstance

namespace CodePoint

instance : Coe Char CodePoint := ⟨char⟩

def toNat : CodePoint → Nat
  | .char c => c.toNat
  | .surrogate n => 0xD800 + n

def char? : CodePoint → Option Char
  | .char c => some c
  | .surrogate _ => none

def isHigh : CodePoint → Bool
  | .char _ => false
  | .surrogate n => decide (n.val < 0x400)

def isLow : CodePoint → Bool
  | .char _ => false
  | .surrogate n => decide (0x400 ≤ n.val)

end CodePoint

namespace Text

def ofString (s : String) : Text := s.toList.map .char

instance : Coe String Text := ⟨ofString⟩

@[simp] theorem ofString_inj {s s' : String} : ofString s = ofString s' ↔ s = s' := by
  rw [ofString, ofString, List.map_inj_right fun _ _ => CodePoint.char.inj, String.toList_inj]

def joined (separator : Text) : List Text → Text
  | [] => []
  | s :: rest => s ++ rest.flatMap (separator ++ ·)

def spaces (n : Nat) : Text := List.replicate n ' '

end Text

end Unfurl
