import Unfurl.Proofs.Term.Display
import Unfurl.Term.Outline

/-!
Every statement about an outline follows its one equation over the parts of a node (`outline_eq`) by one
induction (`parts_induction`).
-/

namespace Unfurl

/-! ### Parts of a node -/

/-- A node right below another one, behind the header of its branch if it is the body of one. -/
structure Part where
  header : Option Pattern
  body : Expr

/-- How much deeper than its node a part stands. -/
def Part.descent (part : Part) : Int :=
  match part.header with
  | none => 1
  | some _ => 2

namespace Expr

def row : Expr → Row
  | .literal value => .literal value
  | .reference name => .reference name
  | .application _ _ => .application
  | .vector elements => .vector elements.length
  | .lambda params _ => .lambda params
  | .fix _ => .fix
  | .select _ _ => .select

def parts : Expr → List Part
  | .literal _ => []
  | .reference _ => []
  | .application f a => [⟨none, f⟩, ⟨none, a⟩]
  | .vector elements => elements.map (⟨none, ·⟩)
  | .lambda _ body => [⟨none, body⟩]
  | .fix f => [⟨none, f⟩]
  | .select scrutinee branches => ⟨none, scrutinee⟩ :: branches.map fun branch => ⟨some branch.1, branch.2⟩

theorem sizeOf_part_lt {e : Expr} {part : Part} (member : part ∈ e.parts) :
    sizeOf part.body < sizeOf e := by
  cases e with
  | literal | reference => cases member
  | application f a =>
    simp only [parts, List.mem_cons, List.not_mem_nil, or_false] at member
    rcases member with rfl | rfl <;> simp only [Expr.application.sizeOf_spec] <;> omega
  | vector elements =>
    obtain ⟨element, inside, rfl⟩ := List.mem_map.mp member
    have := List.sizeOf_lt_of_mem inside
    simp only [Expr.vector.sizeOf_spec]
    omega
  | lambda params body =>
    rw [List.mem_singleton.mp member]
    simp only [Expr.lambda.sizeOf_spec]
    omega
  | fix f =>
    rw [List.mem_singleton.mp member]
    simp only [Expr.fix.sizeOf_spec]
    omega
  | select scrutinee branches =>
    rcases List.mem_cons.mp member with rfl | branched
    · simp only [Expr.select.sizeOf_spec]
      omega
    · obtain ⟨⟨p, body⟩, inside, rfl⟩ := List.mem_map.mp branched
      have := List.sizeOf_lt_of_mem inside
      simp only [Expr.select.sizeOf_spec, Prod.mk.sizeOf_spec] at this ⊢
      omega

/-- What holds of a node whenever it holds of the parts holds of every node. -/
theorem parts_induction {P : Expr → Prop} (step : ∀ e, (∀ part ∈ e.parts, P part.body) → P e) (e : Expr) :
    P e :=
  step e fun part _ => parts_induction step part.body
termination_by sizeOf e
decreasing_by exact sizeOf_part_lt ‹_›

end Expr

def Part.outline (limit depth : Int) (part : Part) : List Line :=
  (part.header.toList.map fun p => ⟨depth + 1, .branch p⟩) ++
    part.body.outline limit (depth + part.descent)

namespace Expr

theorem outlineAll_eq (limit depth : Int) (es : List Expr) :
    outlineAll limit depth es = es.flatMap (outline limit depth) := by
  induction es with
  | nil => rfl
  | cons e rest ih => rw [outlineAll, ih, List.flatMap_cons]

theorem outlineBranches_eq (limit depth : Int) (branches : List Branch) :
    outlineBranches limit depth branches = branches.flatMap fun branch =>
      ⟨depth, .branch branch.1⟩ :: outline limit (depth + 1) branch.2 := by
  induction branches with
  | nil => rfl
  | cons branch rest ih => rw [outlineBranches, ih, List.flatMap_cons, List.cons_append]

theorem outline_eq (limit depth : Int) (e : Expr) : e.outline limit depth =
    if limit ≤ depth then [⟨depth, .cut⟩]
    else ⟨depth, e.row⟩ :: e.parts.flatMap (Part.outline limit depth) := by
  rw [outline.eq_def]
  congr 1
  cases e with
  | vector elements => simp [row, parts, Part.outline, Part.descent, outlineAll_eq, List.flatMap_map]
  | select scrutinee branches =>
    simp [row, parts, Part.outline, Part.descent, outlineBranches_eq, List.flatMap_map, Int.add_assoc]
  | _ => simp [row, parts, Part.outline, Part.descent]

end Expr

/-- A line is the ellipsis, or shows the node, or stands in the outline of a part. -/
theorem Expr.mem_outline {limit depth : Int} {e : Expr} {line : Line}
    (member : line ∈ e.outline limit depth) :
    limit ≤ depth ∧ line = ⟨depth, .cut⟩ ∨ line = ⟨depth, e.row⟩ ∨ ∃ part ∈ e.parts,
      (∃ p, part.header = some p ∧ line = ⟨depth + 1, .branch p⟩) ∨
        line ∈ part.body.outline limit (depth + part.descent) := by
  rw [outline_eq] at member
  split at member
  · rename_i beyond
    exact Or.inl ⟨beyond, List.mem_singleton.mp member⟩
  · simpa [Part.outline, eq_comm] using Or.inr member

/-! ### Nodes and headers in document order -/

/-- A node or a header, shown by its row, with its depth and the depths of the nodes above it. -/
structure Spot where
  above : List Int
  depth : Int
  row : Row

def Spot.isNode (spot : Spot) : Bool :=
  match spot.row with
  | .branch _ => false
  | _ => true

/-- The line of a spot under a depth limit: none if a node above it reaches the limit, and an ellipsis if it
is itself a node that does. -/
def Spot.line? (limit : Int) (spot : Spot) : Option Line :=
  if spot.above.all (· < limit) then
    some ⟨spot.depth, if spot.isNode ∧ limit ≤ spot.depth then .cut else spot.row⟩
  else none

namespace Expr

/-- All nodes and headers in document order. A header stands one level below its node. -/
def spots (above : List Int) (depth : Int) (e : Expr) : List Spot :=
  ⟨above, depth, e.row⟩ :: e.parts.attach.flatMap fun part =>
    (part.1.header.toList.map fun p => ⟨depth :: above, depth + 1, .branch p⟩) ++
      part.1.body.spots (depth :: above) (depth + part.1.descent)
termination_by sizeOf e
decreasing_by exact sizeOf_part_lt part.2

end Expr

def Part.spots (above : List Int) (depth : Int) (part : Part) : List Spot :=
  (part.header.toList.map fun p => ⟨depth :: above, depth + 1, .branch p⟩) ++
    part.body.spots (depth :: above) (depth + part.descent)

namespace Expr

theorem spots_eq (above : List Int) (depth : Int) (e : Expr) :
    e.spots above depth = ⟨above, depth, e.row⟩ :: e.parts.flatMap (Part.spots above depth) := by
  rw [spots]
  conv_rhs => rw [← e.parts.attach_map_subtype_val, List.flatMap_map]
  rfl

theorem mem_spots {above : List Int} {depth : Int} {e : Expr} {spot : Spot} :
    spot ∈ e.spots above depth ↔
      spot = ⟨above, depth, e.row⟩ ∨ ∃ part ∈ e.parts, spot ∈ part.spots above depth := by
  rw [spots_eq, List.mem_cons, List.mem_flatMap]

end Expr

theorem Part.mem_spots {above : List Int} {depth : Int} {part : Part} {spot : Spot} :
    spot ∈ part.spots above depth ↔
      (∃ p, part.header = some p ∧ spot = ⟨depth :: above, depth + 1, .branch p⟩) ∨
        spot ∈ part.body.spots (depth :: above) (depth + part.descent) := by
  simp [Part.spots, eq_comm]

/-! ### The lines of an outline -/

namespace Spot

variable {limit depth : Int} {above : List Int}

theorem line?_shown {spot : Spot} (below : ∀ x ∈ spot.above, x < limit) : spot.line? limit =
    some ⟨spot.depth, if spot.isNode ∧ limit ≤ spot.depth then .cut else spot.row⟩ :=
  if_pos (List.all_eq_true.mpr fun x member => decide_eq_true (below x member))

theorem line?_hidden {spot : Spot} (reached : depth ∈ spot.above) (beyond : limit ≤ depth) :
    spot.line? limit = none := by
  refine if_neg fun all => ?_
  have below := of_decide_eq_true (List.all_eq_true.mp all depth reached)
  omega

theorem line?_node (below : ∀ x ∈ above, x < limit) (e : Expr) : Spot.line? limit ⟨above, depth, e.row⟩ =
    some ⟨depth, if limit ≤ depth then .cut else e.row⟩ := by
  have node : (Spot.mk above depth e.row).isNode = true := by cases e <;> rfl
  rw [line?_shown below, node]
  simp only [true_and]

theorem line?_header (below : ∀ x ∈ above, x < limit) (p : Pattern) :
    Spot.line? limit ⟨above, depth, .branch p⟩ = some ⟨depth, .branch p⟩ := by
  rw [line?_shown below]
  simp [isNode]

end Spot

/-- A node stands above whatever stands below it. -/
theorem Expr.above_subset (e : Expr) : ∀ (above : List Int) (depth : Int),
    ∀ spot ∈ e.spots above depth, above ⊆ spot.above := by
  induction e using parts_induction with
  | step e ih =>
    intro above depth spot member
    obtain rfl | ⟨part, below, member⟩ := mem_spots.mp member
    · exact List.Subset.refl _
    · refine List.Subset.trans (List.subset_cons_self depth above) ?_
      obtain ⟨p, -, rfl⟩ | body := Part.mem_spots.mp member
      · exact List.Subset.refl _
      · exact ih part below _ _ spot body

theorem Part.depth_mem_above {above : List Int} {depth : Int} {part : Part} {spot : Spot}
    (member : spot ∈ part.spots above depth) : depth ∈ spot.above := by
  obtain ⟨p, -, rfl⟩ | body := Part.mem_spots.mp member
  · exact List.mem_cons_self
  · exact part.body.above_subset _ _ spot body List.mem_cons_self

/-- The lines of an outline are those of its spots. -/
theorem Expr.outline_eq_spots (limit : Int) (e : Expr) : ∀ (above : List Int) (depth : Int),
    (∀ x ∈ above, x < limit) →
      e.outline limit depth = (e.spots above depth).filterMap (Spot.line? limit) := by
  induction e using parts_induction with
  | step e ih =>
    intro above depth below
    rw [outline_eq, spots_eq, List.filterMap_cons_some (Spot.line?_node below e)]
    by_cases beyond : limit ≤ depth
    -- The node itself stands above all that is below it, so none of that has a line.
    · have hidden : (e.parts.flatMap (Part.spots above depth)).filterMap (Spot.line? limit) = [] := by
        rw [List.filterMap_eq_nil_iff]
        intro spot member
        obtain ⟨part, -, member⟩ := List.mem_flatMap.mp member
        exact Spot.line?_hidden (Part.depth_mem_above member) beyond
      rw [if_pos beyond, if_pos beyond, hidden]
    · have deeper : ∀ x ∈ depth :: above, x < limit :=
        List.forall_mem_cons.mpr ⟨Int.not_le.mp beyond, below⟩
      rw [if_neg beyond, if_neg beyond, List.filterMap_flatMap]
      congr 1
      refine List.flatMap_congr fun part member => ?_
      rw [Part.outline, Part.spots, List.filterMap_append, ← ih part member _ _ deeper]
      congr 1
      cases part.header with
      | none => rfl
      | some p => simp [Spot.line?_header deeper]

/-! ### Room below the limit -/

/-- Every node stands above the limit. -/
def Expr.Fits (limit : Int) (above : List Int) (depth : Int) (e : Expr) : Prop :=
  ∀ spot ∈ e.spots above depth, spot.isNode = true → spot.depth < limit

namespace Expr.Fits

variable {limit depth : Int} {above : List Int} {e : Expr}

theorem node (fits : e.Fits limit above depth) : depth < limit :=
  fits ⟨above, depth, e.row⟩ (mem_spots.mpr (Or.inl rfl)) (by cases e <;> rfl)

theorem part (fits : e.Fits limit above depth) {part : Part} (member : part ∈ e.parts) :
    part.body.Fits limit (depth :: above) (depth + part.descent) :=
  fun spot below => fits spot (mem_spots.mpr (Or.inr ⟨part, member, Part.mem_spots.mpr (Or.inr below)⟩))

/-- Where every node fits, more room changes nothing. -/
theorem outline_of_room {limit' : Int} (room : limit ≤ limit') (e : Expr) : ∀ (above : List Int) (depth : Int),
    e.Fits limit above depth → e.outline limit' depth = e.outline limit depth := by
  induction e using parts_induction with
  | step e ih =>
    intro above depth fits
    have inside := fits.node
    rw [Expr.outline_eq, Expr.outline_eq, if_neg (by omega), if_neg (by omega)]
    congr 1
    refine List.flatMap_congr fun part member => ?_
    rw [Part.outline, Part.outline, ih part member _ _ (fits.part member)]

theorem row_ne_cut (e : Expr) : ∀ (above : List Int) (depth : Int), e.Fits limit above depth →
    ∀ line ∈ e.outline limit depth, line.row ≠ .cut := by
  induction e using parts_induction with
  | step e ih =>
    intro above depth fits line member
    have inside := fits.node
    obtain ⟨beyond, -⟩ | rfl | ⟨part, below, ⟨p, -, rfl⟩ | body⟩ := mem_outline member
    · omega
    · cases e <;> nofun
    · nofun
    · exact ih part below _ _ (fits.part below) line body

end Expr.Fits

/-! ### Outlines that start deeper -/

def Line.lower (k : Int) (line : Line) : Line := ⟨line.depth + k, line.row⟩

theorem Expr.outline_lower (k limit : Int) (e : Expr) : ∀ depth : Int,
    e.outline (limit + k) (depth + k) = (e.outline limit depth).map (Line.lower k) := by
  induction e using parts_induction with
  | step e ih =>
    intro depth
    rw [outline_eq, outline_eq limit]
    by_cases beyond : limit ≤ depth
    · rw [if_pos beyond, if_pos (by omega)]
      rfl
    · rw [if_neg beyond, if_neg (by omega), List.map_cons, List.map_flatMap]
      congr 1
      refine List.flatMap_congr fun part member => ?_
      have deeper : depth + k + part.descent = depth + part.descent + k := by omega
      rw [Part.outline, Part.outline, List.map_append, deeper, ih part member]
      congr 1
      cases part.header with
      | none => rfl
      | some p => simp [Line.lower]; omega

theorem Part.descent_pos (part : Part) : 0 < part.descent := by
  unfold Part.descent
  split <;> decide

theorem Expr.le_depth (limit : Int) (e : Expr) : ∀ depth : Int,
    ∀ line ∈ e.outline limit depth, depth ≤ line.depth := by
  induction e using parts_induction with
  | step e ih =>
    intro depth line member
    obtain ⟨-, rfl⟩ | rfl | ⟨part, below, ⟨p, -, rfl⟩ | body⟩ := mem_outline member
    · exact Int.le_refl _
    · exact Int.le_refl _
    · exact Int.le_of_lt (Int.lt_succ depth)
    · have deeper := ih part below _ line body
      have descends := part.descent_pos
      omega

theorem Text.spaces_add (m n : Nat) : Text.spaces (m + n) = Text.spaces m ++ Text.spaces n := by
  rw [Text.spaces, Text.spaces, Text.spaces, List.replicate_append_replicate]

theorem padding_add (indent : Int) {depth k : Int} (start : 0 ≤ depth) (more : 0 ≤ k) :
    padding indent (depth + k) = Text.spaces (indent * k).toNat ++ padding indent depth := by
  have amounts : (indent * (depth + k)).toNat = (indent * k).toNat + (indent * depth).toNat := by
    rw [Int.mul_add]
    -- Both products have the sign of the indent, so the bound at zero applies to both or to neither.
    rcases Int.le_total 0 indent with forward | backward
    · have := Int.mul_nonneg forward start
      have := Int.mul_nonneg forward more
      omega
    · have := Int.mul_nonpos_of_nonpos_of_nonneg backward start
      have := Int.mul_nonpos_of_nonpos_of_nonneg backward more
      omega
  rw [padding, padding, amounts, Text.spaces_add]

theorem Line.render_lower (options : OutlineOptions) {line : Line} (start : 0 ≤ line.depth) {k : Int}
    (more : 0 ≤ k) :
    (line.lower k).render options = Text.spaces (options.indent * k).toNat ++ line.render options := by
  rw [render, render, lower, padding_add options.indent start more, List.append_assoc]

/-! ### Cropped expressions -/

namespace Expr

mutual

/-- The expression with the same literal in place of every node at depth `limit` or below. -/
def crop (limit depth : Int) (e : Expr) : Expr :=
  if limit ≤ depth then .literal .nil
  else
    match e with
    | .literal value => .literal value
    | .reference name => .reference name
    | .application f a => .application (crop limit (depth + 1) f) (crop limit (depth + 1) a)
    | .vector elements => .vector (cropAll limit (depth + 1) elements)
    | .lambda params body => .lambda params (crop limit (depth + 1) body)
    | .fix f => .fix (crop limit (depth + 1) f)
    | .select scrutinee branches =>
      .select (crop limit (depth + 1) scrutinee) (cropBranches limit (depth + 2) branches)

def cropAll (limit depth : Int) : List Expr → List Expr
  | [] => []
  | e :: rest => crop limit depth e :: cropAll limit depth rest

def cropBranches (limit depth : Int) : List (Pattern × Expr) → List (Pattern × Expr)
  | [] => []
  | (p, e) :: rest => (p, crop limit depth e) :: cropBranches limit depth rest

end

theorem cropAll_eq (limit depth : Int) (es : List Expr) :
    cropAll limit depth es = es.map (crop limit depth) := by
  induction es with
  | nil => rfl
  | cons e rest ih => rw [cropAll, ih, List.map_cons]

theorem cropBranches_eq (limit depth : Int) (branches : List Branch) :
    cropBranches limit depth branches =
      branches.map fun branch => (branch.1, branch.2.crop limit depth) := by
  induction branches with
  | nil => rfl
  | cons branch rest ih => rw [cropBranches, ih, List.map_cons]

theorem crop_inside {limit depth : Int} (inside : ¬limit ≤ depth) (e : Expr) :
    (e.crop limit depth).row = e.row ∧
      (e.crop limit depth).parts =
        e.parts.map fun part => ⟨part.header, part.body.crop limit (depth + part.descent)⟩ := by
  rw [crop.eq_def, if_neg inside]
  cases e with
  | vector elements => simp [row, parts, Part.descent, cropAll_eq]
  | select scrutinee branches => simp [row, parts, Part.descent, cropBranches_eq]
  | _ => exact ⟨rfl, rfl⟩

/-- What stands at the limit or below it leaves no trace in an outline. -/
theorem outline_crop (limit : Int) (e : Expr) : ∀ depth : Int,
    (e.crop limit depth).outline limit depth = e.outline limit depth := by
  induction e using parts_induction with
  | step e ih =>
    intro depth
    rw [outline_eq, outline_eq limit depth e]
    by_cases beyond : limit ≤ depth
    · rw [if_pos beyond, if_pos beyond]
    · obtain ⟨row, parts⟩ := crop_inside beyond e
      rw [if_neg beyond, if_neg beyond, row, parts, List.flatMap_map]
      congr 1
      refine List.flatMap_congr fun part member => ?_
      exact congrArg (_ ++ ·) (ih part member _)

end Expr

/-! ### Rows that can be written -/

namespace Expr

def rows (e : Expr) : List Row :=
  e.row :: e.parts.attach.flatMap fun part => part.1.header.toList.map .branch ++ part.1.body.rows
termination_by sizeOf e
decreasing_by exact sizeOf_part_lt part.2

end Expr

def Part.rows (part : Part) : List Row := part.header.toList.map .branch ++ part.body.rows

namespace Expr

theorem rows_eq (e : Expr) : e.rows = e.row :: e.parts.flatMap Part.rows := by
  rw [rows]
  conv_rhs => rw [← e.parts.attach_map_subtype_val, List.flatMap_map]
  rfl

theorem mem_rows {e : Expr} {row : Row} : row ∈ e.rows ↔ row = e.row ∨ ∃ part ∈ e.parts,
    (∃ p, part.header = some p ∧ row = .branch p) ∨ row ∈ part.body.rows := by
  rw [rows_eq]
  simp [Part.rows, eq_comm]

theorem row_mem_rows {limit : Int} (e : Expr) : ∀ depth : Int, ∀ line ∈ e.outline limit depth,
    line.row = .cut ∨ line.row ∈ e.rows := by
  induction e using parts_induction with
  | step e ih =>
    intro depth line member
    rw [mem_rows]
    obtain ⟨-, rfl⟩ | rfl | ⟨part, below, ⟨p, header, rfl⟩ | body⟩ := mem_outline member
    · exact Or.inl rfl
    · exact Or.inr (Or.inl rfl)
    · exact Or.inr (Or.inr ⟨part, below, Or.inl ⟨p, header, rfl⟩⟩)
    · exact (ih part below _ line body).imp_right fun row => Or.inr ⟨part, below, Or.inr row⟩

theorem shortIntegers_all {es : List Expr} (short : ShortIntegers (atomsAll es)) :
    ∀ e ∈ es, ShortIntegers e.atoms := by
  induction es with
  | nil => nofun
  | cons e rest ih =>
    obtain ⟨first, later⟩ := shortIntegers_append.mp short
    exact List.forall_mem_cons.mpr ⟨first, ih later⟩

theorem shortIntegers_branches {branches : List Branch} (short : ShortIntegers (atomsBranches branches)) :
    ∀ branch ∈ branches, ShortIntegers branch.1.atoms ∧ ShortIntegers branch.2.atoms := by
  induction branches with
  | nil => nofun
  | cons branch rest ih =>
    obtain ⟨pattern, later⟩ := shortIntegers_append.mp short
    obtain ⟨body, later⟩ := shortIntegers_append.mp later
    exact List.forall_mem_cons.mpr ⟨⟨pattern, body⟩, ih later⟩

theorem shortIntegers_parts {e : Expr} (short : ShortIntegers e.atoms) : ∀ part ∈ e.parts,
    (∀ p, part.header = some p → ShortIntegers p.atoms) ∧ ShortIntegers part.body.atoms := by
  cases e with
  | literal | reference => nofun
  | application f a => simpa [parts, atoms, shortIntegers_append] using short
  | vector elements =>
    rintro _ member
    obtain ⟨element, inside, rfl⟩ := List.mem_map.mp member
    exact ⟨nofun, shortIntegers_all short element inside⟩
  | lambda | fix => simpa [parts, atoms] using short
  | select scrutinee branches =>
    obtain ⟨first, later⟩ := shortIntegers_append.mp short
    refine List.forall_mem_cons.mpr ⟨⟨nofun, first⟩, fun _ member => ?_⟩
    obtain ⟨branch, inside, rfl⟩ := List.mem_map.mp member
    obtain ⟨pattern, body⟩ := shortIntegers_branches later branch inside
    exact ⟨fun p header => Option.some.inj header ▸ pattern, body⟩

end Expr

theorem Pattern.displayable_iff (p : Pattern) : p.displayable = true ↔ ShortIntegers p.atoms := by
  cases p with
  | literal value => exact value.displayable_iff
  | _ => simp [Pattern.displayable, ShortIntegers, Pattern.atoms]

theorem Expr.rows_displayable (e : Expr) : ShortIntegers e.atoms → ∀ row ∈ e.rows, row.displayable = true := by
  induction e using parts_induction with
  | step e ih =>
    intro short row member
    obtain rfl | ⟨part, below, ⟨p, header, rfl⟩ | body⟩ := mem_rows.mp member
    · cases e with
      | literal value => exact value.displayable_iff.mpr short
      | _ => rfl
    · exact p.displayable_iff.mpr ((shortIntegers_parts short part below).1 p header)
    · exact ih part below (shortIntegers_parts short part below).2 row body

theorem Expr.tree_of_shortIntegers {e : Expr} (short : ShortIntegers e.atoms) (options : OutlineOptions)
    (depth : Int) : e.tree options depth = .ok (Text.joined "\n" (e.treeLines options depth)) := by
  refine if_pos (List.all_eq_true.mpr fun line member => ?_)
  obtain cut | shown := e.row_mem_rows depth line member
  · rw [cut]
    rfl
  · exact e.rows_displayable short _ shown

/-! ### Lines that are no ellipsis -/

theorem Row.text_starts (color : Bool) {row : Row} (shown : row ≠ .cut) :
    ∃ c, (row.text color).head? = some c ∧ c ≠ ' ' ∧ c ≠ '…' := by
  cases row with
  | cut => exact absurd rfl shown
  | branch p => simp [Row.text, Text.ofString]
  | _ => cases color <;> simp [Row.text, Hue.paint, Hue.start, Text.ofString]

theorem Text.dropWhile_spaces (n : Nat) {s : Text} (starts : ∀ c ∈ s.head?, (c == ' ') = false) :
    (Text.spaces n ++ s).dropWhile (· == .char ' ') = s := by
  have blanks : ∀ c ∈ Text.spaces n, (c == ' ') = true := fun c member =>
    beq_iff_eq.mpr (List.eq_of_mem_replicate member)
  exact (Json.takeWhile_run blanks starts).2

theorem Line.render_ne_ellipsis (options : OutlineOptions) {line : Line} (shown : line.row ≠ .cut) (n : Nat) :
    line.render options ≠ Text.spaces n ++ "…" := by
  intro same
  obtain ⟨c, head, notBlank, notCut⟩ := line.row.text_starts options.color shown
  have starts : ∀ x ∈ (line.row.text options.color).head?, (x == ' ') = false := by
    rw [head]
    rintro x ⟨⟩
    exact beq_eq_false_iff_ne.mpr notBlank
  -- Behind the blanks one line starts with the ellipsis and the other does not.
  have whole := congrArg (fun s : Text => s.dropWhile (· == .char ' ')) same
  dsimp only [Line.render, padding] at whole
  rw [Text.dropWhile_spaces _ starts, Text.dropWhile_spaces n (by rintro x ⟨⟩; rfl)] at whole
  rw [whole] at head
  exact notCut (Option.some.inj head).symm

/-! ### The tree of an expression -/

/-- The lines of a tree are those of its nodes and headers under the limit, indented by their depths. What
lies at the limit or below it does not matter; where nothing does there is no ellipsis, and a greater limit
changes nothing; and a tree that starts deeper is the same tree, indented by as much. -/
theorem tree_lines_exact (options : OutlineOptions) {d : Int} (start : 0 ≤ d) {e : Expr}
    (short : ShortIntegers e.atoms) :
    (e.tree options d = .ok (Text.joined "\n" (e.treeLines options d)) ∧
      e.treeLines options d =
        ((e.spots [] d).filterMap (Spot.line? options.maxDepth)).map fun line =>
          Text.spaces (options.indent * line.depth).toNat ++ line.row.text options.color) ∧
    (∀ e' : Expr, e'.crop options.maxDepth d = e.crop options.maxDepth d →
      e'.tree options d = e.tree options d) ∧
    ((∀ spot ∈ e.spots [] d, spot.isNode = true → spot.depth < options.maxDepth) →
      (∀ line ∈ e.treeLines options d, ∀ n, line ≠ Text.spaces n ++ "…") ∧
      ∀ m, options.maxDepth ≤ m → e.tree { options with maxDepth := m } d = e.tree options d) ∧
    ∀ k, 0 ≤ k →
      e.treeLines { options with maxDepth := options.maxDepth + k } (d + k) =
        (e.treeLines options d).map (Text.spaces (options.indent * k).toNat ++ ·) := by
  refine ⟨⟨e.tree_of_shortIntegers short options d, ?_⟩, ?_, ?_, ?_⟩
  · rw [Expr.treeLines, e.outline_eq_spots options.maxDepth [] d nofun]
    rfl
  · intro e' cropped
    have outlines : e'.outline options.maxDepth d = e.outline options.maxDepth d := by
      rw [← e'.outline_crop, cropped, e.outline_crop]
    rw [Expr.tree, Expr.tree, Expr.treeLines, Expr.treeLines, outlines]
  · intro fits
    refine ⟨fun line member n => ?_, fun m room => ?_⟩
    · obtain ⟨shown, inside, rfl⟩ := List.mem_map.mp member
      exact shown.render_ne_ellipsis options (Expr.Fits.row_ne_cut e [] d fits shown inside) n
    · have outlines := Expr.Fits.outline_of_room room e [] d fits
      simp only [Expr.tree, Expr.treeLines, outlines]
      rfl
  · intro k more
    rw [Expr.treeLines, e.outline_lower, List.map_map, Expr.treeLines, List.map_map]
    refine List.map_congr_left fun line member => ?_
    have deep := e.le_depth options.maxDepth d line member
    exact Line.render_lower options (Int.le_trans start deep) more

/-- Two matches that differ only at depth four and below, a branch that asks for an ellipsis among theirs. -/
theorem tree_lines_exact_match :
    let call (arg : Expr) : Expr := .application (.reference "f") (.vector [arg])
    let e (arg : Expr) : Expr :=
      .select (call arg) [(.literal (.text "…"), .fix arg), (.otherwise, .literal (.int (-7)))]
    let e₁ := e (.lambda ["x"] (.reference "x"))
    let e₂ := e (.literal .nil)
    let near : OutlineOptions := ⟨4, 2, false⟩
    let far : OutlineOptions := ⟨6, 2, false⟩
    let lines : List Text := ["  match", "    app", "      ref f", "      vec[1]", "        …",
      "    | \"\\u2026\" =>", "      fix", "        …", "    | else =>", "      lit -7"]
    0 ≤ (1 : Int) ∧ ShortIntegers e₁.atoms ∧ e₂.crop 4 1 = e₁.crop 4 1 ∧ e₁.Fits 6 [] 1 ∧
      e₁.tree near 1 = .ok (Text.joined "\n" lines) ∧
      e₂.tree near 1 = e₁.tree near 1 ∧
      e₁.tree { far with maxDepth := 9 } 1 = e₁.tree far 1 ∧
      e₁.treeLines { far with maxDepth := 6 + 3 } (1 + 3) =
        (e₁.treeLines far 1).map (Text.spaces 6 ++ ·) := by
  intro call e e₁ e₂ near far lines
  have short : ShortIntegers e₁.atoms := by
    intro n member
    simp [e₁, e, call, Expr.atoms, Expr.atomsAll, Expr.atomsBranches, Pattern.atoms, Value.atoms] at member
    subst member
    decide +kernel
  have cropped : e₂.crop 4 1 = e₁.crop 4 1 := by
    simp [e₁, e₂, e, call, Expr.crop, Expr.cropAll, Expr.cropBranches]
  have fits : e₁.Fits 6 [] 1 := by
    simp [e₁, e, call, Expr.Fits, Expr.spots_eq, Expr.parts, Part.spots, Part.descent, Expr.row, Spot.isNode]
  obtain ⟨⟨shown, -⟩, same, -⟩ := tree_lines_exact near (by decide : 0 ≤ (1 : Int)) short
  obtain ⟨-, -, room, deeper⟩ := tree_lines_exact far (by decide : 0 ≤ (1 : Int)) short
  have printed : e₁.treeLines near 1 = lines := by decide +kernel
  rw [printed] at shown
  exact ⟨by decide, short, cropped, fits, shown, same e₂ cropped, (room fits).2 9 (by decide),
    deeper 3 (by decide)⟩

end Unfurl
