import Mathlib.Data.List.Forall2
import Unfurl.Overlay

namespace Unfurl.Overlay

variable {κ α : Type} [DecidableEq κ]

/-! ### Look-ups -/

theorem get?_set (table : List (κ × α)) (name : κ) (entry : α) (x : κ) :
    get? (set table name entry) x = if name = x then some entry else get? table x := by
  induction table with
  | nil => rfl
  | cons pair rest ih =>
    obtain ⟨key, old⟩ := pair
    rw [set]
    by_cases same : key = name
    · rw [if_pos same, get?, get?, same]
      split <;> rfl
    · rw [if_neg same, get?, get?, ih]
      by_cases hit : key = x
      · rw [if_pos hit, if_pos hit, if_neg (fun h => same (hit.trans h.symm))]
      · rw [if_neg hit, if_neg hit]

theorem extend_cons (table : List (κ × α)) (pair : κ × α) (pairs : List (κ × α)) :
    extend table (pair :: pairs) = extend (set table pair.1 pair.2) pairs := rfl

theorem extend_append (table xs ys : List (κ × α)) :
    extend table (xs ++ ys) = extend (extend table xs) ys := List.foldl_append

theorem get?_eq_none_iff {table : List (κ × α)} {name : κ} :
    get? table name = none ↔ name ∉ names table := by
  induction table with
  | nil => simp [get?, names]
  | cons pair rest ih =>
    obtain ⟨key, entry⟩ := pair
    rw [get?]
    by_cases same : key = name
    · simp [same, names]
    · rw [if_neg same, ih]
      simp [names, Ne.symm same]

theorem has_set (table : List (κ × α)) (name : κ) (entry : α) (x : κ) :
    has (set table name entry) x = true ↔ name = x ∨ has table x = true := by
  rw [has, has, get?_set]
  split <;> simp_all

theorem has_extend (table pairs : List (κ × α)) (x : κ) :
    has (extend table pairs) x = true ↔ x ∈ pairs.map Prod.fst ∨ has table x = true := by
  induction pairs generalizing table with
  | nil => simp [extend]
  | cons pair rest ih =>
    rw [extend_cons, ih, has_set, List.map_cons, List.mem_cons]
    constructor
    · rintro (later | here | old)
      · exact Or.inl (Or.inr later)
      · exact Or.inl (Or.inl here.symm)
      · exact Or.inr old
    · rintro ((here | later) | old)
      · exact Or.inr (Or.inl here.symm)
      · exact Or.inl later
      · exact Or.inr (Or.inr old)

theorem get?_extend_of_not_mem {names : List κ} {x : κ} (absent : x ∉ names)
    (table : List (κ × α)) (entries : List α) :
    get? (extend table (names.zip entries)) x = get? table x := by
  induction names generalizing table entries with
  | nil => rfl
  | cons name rest ih =>
    obtain ⟨different, later⟩ := List.ne_and_not_mem_of_not_mem_cons absent
    cases entries with
    | nil => rfl
    | cons entry entries =>
      rw [List.zip_cons_cons, extend_cons, ih later, get?_set, if_neg (Ne.symm different)]

theorem get?_extend_zip {names : List κ} {entries : List α} (distinct : names.Nodup)
    (length : entries.length = names.length) (table : List (κ × α)) :
    List.Forall₂ (fun name entry => get? (extend table (names.zip entries)) name = some entry)
      names entries := by
  induction names generalizing table entries with
  | nil =>
    obtain rfl := List.length_eq_zero_iff.mp length
    exact .nil
  | cons name rest ih =>
    obtain ⟨absent, later⟩ := List.nodup_cons.mp distinct
    cases entries with
    | nil => cases length
    | cons entry entries =>
      rw [List.zip_cons_cons, extend_cons]
      refine .cons ?_ (ih later (Nat.succ.inj length) _)
      rw [get?_extend_of_not_mem absent, get?_set, if_pos rfl]

/-! ### Entries -/

theorem mem_of_get? {table : List (κ × α)} {x : κ} {entry : α}
    (found : get? table x = some entry) : (x, entry) ∈ table := by
  induction table with
  | nil => cases found
  | cons pair rest ih =>
    obtain ⟨key, old⟩ := pair
    rw [get?] at found
    split at found
    · rename_i here
      obtain rfl := Option.some.inj found
      rw [here]
      exact List.mem_cons_self
    · exact List.mem_cons_of_mem _ (ih found)

theorem mem_set {table : List (κ × α)} {name : κ} {entry : α} {pair : κ × α}
    (member : pair ∈ set table name entry) : pair = (name, entry) ∨ pair ∈ table := by
  induction table with
  | nil => exact Or.inl (List.mem_singleton.mp member)
  | cons first rest ih =>
    obtain ⟨key, old⟩ := first
    rw [set] at member
    split at member
    · rcases List.mem_cons.mp member with here | later
      · exact Or.inl here
      · exact Or.inr (List.mem_cons_of_mem _ later)
    · rcases List.mem_cons.mp member with here | later
      · exact Or.inr (here ▸ List.mem_cons_self)
      · exact (ih later).imp_right (List.mem_cons_of_mem _)

theorem mem_extend {table pairs : List (κ × α)} {pair : κ × α}
    (member : pair ∈ extend table pairs) : pair ∈ pairs ∨ pair ∈ table := by
  induction pairs generalizing table with
  | nil => exact Or.inr member
  | cons first rest ih =>
    rcases ih member with later | before
    · exact Or.inl (List.mem_cons_of_mem _ later)
    · rcases mem_set before with here | old
      · exact Or.inl (here ▸ List.mem_cons_self)
      · exact Or.inr old

theorem forall_set {P : α → Prop} {table : List (κ × α)} (old : ∀ pair ∈ table, P pair.2)
    (name : κ) {entry : α} (new : P entry) : ∀ pair ∈ set table name entry, P pair.2 := by
  intro pair member
  rcases mem_set member with rfl | before
  · exact new
  · exact old pair before

theorem forall_extend {P : α → Prop} {table : List (κ × α)} (old : ∀ pair ∈ table, P pair.2)
    (names : List κ) {entries : List α} (new : ∀ entry ∈ entries, P entry) :
    ∀ pair ∈ extend table (names.zip entries), P pair.2 := by
  intro pair member
  rcases mem_extend member with here | before
  · exact new _ (List.of_mem_zip here).2
  · exact old pair before

/-! ### Distinct names -/

theorem set_of_not_mem {table : List (κ × α)} {name : κ} (absent : name ∉ names table)
    (entry : α) : set table name entry = table ++ [(name, entry)] := by
  induction table with
  | nil => rfl
  | cons pair rest ih =>
    obtain ⟨key, old⟩ := pair
    obtain ⟨different, later⟩ := List.ne_and_not_mem_of_not_mem_cons absent
    rw [set, if_neg (Ne.symm different), ih later, List.cons_append]

theorem extend_of_nodup {table pairs : List (κ × α)} (distinct : (names (table ++ pairs)).Nodup) :
    extend table pairs = table ++ pairs := by
  induction pairs generalizing table with
  | nil => exact (List.append_nil table).symm
  | cons pair rest ih =>
    have absent : pair.1 ∉ names table := by
      rw [names, List.map_append, List.map_cons] at distinct
      exact fun mem => (List.nodup_append.mp distinct).2.2 _ mem _ List.mem_cons_self rfl
    rw [← List.singleton_append, ← List.append_assoc] at distinct
    rw [extend_cons, set_of_not_mem absent, ih distinct, List.append_assoc, List.singleton_append]

/-- Pairs with distinct names are bound as they are listed. -/
theorem ofPairs_of_nodup {pairs : List (κ × α)} (distinct : (names pairs).Nodup) :
    ofPairs pairs = pairs :=
  extend_of_nodup distinct

theorem get?_of_mem {table : List (κ × α)} (distinct : (names table).Nodup) {name : κ} {entry : α}
    (member : (name, entry) ∈ table) : get? table name = some entry := by
  induction table with
  | nil => cases member
  | cons pair rest ih =>
    obtain ⟨key, old⟩ := pair
    obtain ⟨absent, later⟩ := List.nodup_cons.mp distinct
    rw [get?]
    rcases List.mem_cons.mp member with here | there
    · cases here
      exact if_pos rfl
    · have present : name ∈ names rest := List.mem_map.mpr ⟨_, there, rfl⟩
      have different : key ≠ name := fun same => absent (same ▸ present)
      rw [if_neg different, ih later there]

/-! ### Names in order -/

theorem names_set_of_mem {table : List (κ × α)} {name : κ} (present : name ∈ names table)
    (entry : α) : names (set table name entry) = names table := by
  induction table with
  | nil => cases present
  | cons pair rest ih =>
    obtain ⟨key, old⟩ := pair
    rw [set]
    by_cases same : key = name
    · rw [if_pos same, ← same]
      rfl
    · have later : name ∈ names rest := List.mem_of_ne_of_mem (Ne.symm same) present
      rw [if_neg same]
      exact congrArg (key :: ·) (ih later)

theorem names_set (table : List (κ × α)) (name : κ) (entry : α) :
    names (set table name entry) = if name ∈ names table then names table else names table ++ [name] := by
  split
  · rename_i present
    exact names_set_of_mem present entry
  · rename_i absent
    rw [set_of_not_mem absent, names, List.map_append]
    rfl

theorem names_prefix_extend (table pairs : List (κ × α)) : names table <+: names (extend table pairs) := by
  induction pairs generalizing table with
  | nil => exact List.prefix_rfl
  | cons pair rest ih =>
    refine List.IsPrefix.trans ?_ (ih (set table pair.1 pair.2))
    rw [names_set]
    split
    · exact List.prefix_rfl
    · exact List.prefix_append _ _

/-! ### Related tables -/

variable {β : Type} {R : α → β → Prop}

theorem rel_get?_set {table : List (κ × α)} {table' : List (κ × β)} {name x : κ} {a : α}
    {b : β} (entry : R a b) (old : name ≠ x → Option.Rel R (get? table x) (get? table' x)) :
    Option.Rel R (get? (set table name a) x) (get? (set table' name b) x) := by
  rw [get?_set, get?_set]
  split
  · exact .some entry
  · rename_i different
    exact old different

theorem rel_get?_extend {table : List (κ × α)} {table' : List (κ × β)} {names : List κ}
    {as : List α} {bs : List β} {x : κ} (entries : List.Forall₂ R as bs)
    (length : as.length = names.length)
    (old : x ∉ names → Option.Rel R (get? table x) (get? table' x)) :
    Option.Rel R (get? (extend table (names.zip as)) x) (get? (extend table' (names.zip bs)) x) := by
  induction names generalizing table table' as bs with
  | nil => exact old (by simp)
  | cons name rest ih =>
    cases entries with
    | nil => simp at length
    | cons entry entries =>
      refine ih entries (by simpa using length) fun absent => ?_
      exact rel_get?_set entry fun different => old (by simp [Ne.symm different, absent])

end Unfurl.Overlay
