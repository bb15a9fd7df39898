import Unfurl.Term.Display

/-! Children stand one level below their node, the header of a branch one level and its body two. -/

namespace Unfurl

/-! ### Lines -/

inductive Row where
  | cut
  | literal (value : Value)
  | reference (name : Text)
  | application
  | vector (size : Nat)
  | lambda (params : List Text)
  | fix
  | select
  | branch (pattern : Pattern)

structure Line where
  depth : Int
  row : Row

namespace Expr

mutual

/-- The lines of an expression at `depth`, with everything at depth `limit` or below cut off. -/
def outline (limit depth : Int) (e : Expr) : List Line :=
  if limit ≤ depth then [⟨depth, .cut⟩]
  else
    match e with
    | .literal value => [⟨depth, .literal value⟩]
    | .reference name => [⟨depth, .reference name⟩]
    | .application fn arg =>
      ⟨depth, .application⟩ :: (outline limit (depth + 1) fn ++ outline limit (depth + 1) arg)
    | .vector elements => ⟨depth, .vector elements.length⟩ :: outlineAll limit (depth + 1) elements
    | .lambda params body => ⟨depth, .lambda params⟩ :: outline limit (depth + 1) body
    | .fix fn => ⟨depth, .fix⟩ :: outline limit (depth + 1) fn
    | .select scrutinee branches =>
      ⟨depth, .select⟩ ::
        (outline limit (depth + 1) scrutinee ++ outlineBranches limit (depth + 1) branches)

def outlineAll (limit depth : Int) : List Expr → List Line
  | [] => []
  | e :: rest => outline limit depth e ++ outlineAll limit depth rest

/-- The lines of branches whose headers stand at `depth`. -/
def outlineBranches (limit depth : Int) : List (Pattern × Expr) → List Line
  | [] => []
  | (p, e) :: rest =>
    ⟨depth, .branch p⟩ :: (outline limit (depth + 1) e ++ outlineBranches limit depth rest)

end

end Expr

/-! ### Colours -/

inductive Hue where
  | reference
  | lambda
  | builtin
  | keyword
  | pattern
  | literal

def Hue.start : Hue → Text
  | .reference => "\x1b[94m"
  | .lambda => "\x1b[92m"
  | .builtin => "\x1b[95m"
  | .keyword => "\x1b[90m"
  | .pattern => "\x1b[93m"
  | .literal => "\x1b[36m"

def Hue.reset : Text := "\x1b[0m"

/-- The text in a colour, if colours are wanted. -/
def Hue.paint (hue : Hue) (color : Bool) (text : Text) : Text :=
  if color then hue.start ++ text ++ Hue.reset else text

/-! ### Rendering -/

structure OutlineOptions where
  maxDepth : Int := 32
  indent : Int := 2
  color : Bool := true

def Pattern.displayed (color : Bool) : Pattern → Text
  | .otherwise => Hue.pattern.paint color "else"
  | .reference name => Hue.pattern.paint color name
  | .literal value => Hue.pattern.paint color value.displayed

def Pattern.displayable : Pattern → Bool
  | .literal value => value.displayable
  | _ => true

def Pattern.display (color : Bool) (p : Pattern) : Except NumeralError Text :=
  if p.displayable then .ok (p.displayed color) else .error .unwritable

def Row.text (color : Bool) : Row → Text
  | .cut => "…"
  | .literal value =>
    Hue.keyword.paint color "lit" ++ " " ++ Hue.literal.paint color value.displayed
  | .reference name => Hue.keyword.paint color "ref" ++ " " ++ Hue.reference.paint color name
  | .application => Hue.keyword.paint color "app"
  | .vector size => Hue.keyword.paint color ("vec[" ++ Numeral.digits size ++ "]")
  | .lambda params => Hue.lambda.paint color "lam" ++ " (" ++ Text.joined " " params ++ ")"
  | .fix => Hue.keyword.paint color "fix"
  | .select => Hue.keyword.paint color "match"
  | .branch pattern => "| " ++ pattern.displayed color ++ " =>"

def Row.displayable : Row → Bool
  | .literal value => value.displayable
  | .branch pattern => pattern.displayable
  | _ => true

/-- The spaces in front of a line; a negative amount is none. -/
def padding (indent depth : Int) : Text := Text.spaces (indent * depth).toNat

def Line.render (options : OutlineOptions) (line : Line) : Text :=
  padding options.indent line.depth ++ line.row.text options.color

def Expr.treeLines (options : OutlineOptions) (depth : Int) (e : Expr) : List Text :=
  (e.outline options.maxDepth depth).map (Line.render options)

def Expr.tree (options : OutlineOptions) (depth : Int) (e : Expr) : Except NumeralError Text :=
  if (e.outline options.maxDepth depth).all (·.row.displayable) then
    .ok (Text.joined "\n" (e.treeLines options depth))
  else .error .unwritable

end Unfurl
