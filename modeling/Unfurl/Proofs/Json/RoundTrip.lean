import Unfurl.Proofs.Json.Number
import Unfurl.Proofs.Json.Strings
import Unfurl.Proofs.Overlay

/-!
The reader spends a unit of fuel on each level of its recursion, and it has no more levels than the text has
characters.
-/

namespace Unfurl.Json

/-! ### Documents that last -/

mutual

def Lasting : Json → Prop
  | .int n => writableInt n = true
  | .float x => x.isNumber = true
  | .text s => s.Unpaired
  | .array items => AllLasting items
  | .object fields => (Overlay.names fields).Nodup ∧ FieldsLasting fields
  | _ => True

def AllLasting : List Json → Prop
  | [] => True
  | item :: rest => item.Lasting ∧ AllLasting rest

def FieldsLasting : List (Text × Json) → Prop
  | [] => True
  | (key, item) :: rest => key.Unpaired ∧ item.Lasting ∧ FieldsLasting rest

end

mutual

theorem Lasting.writable : {doc : Json} → doc.Lasting → doc.writable = true
  | .null, _ | .bool _, _ | .float _, _ | .text _, _ => rfl
  | .int _, lasting => lasting
  | .array _, lasting => AllLasting.writable lasting
  | .object _, lasting => FieldsLasting.writable lasting.2

theorem AllLasting.writable : {items : List Json} → AllLasting items → allWritable items = true
  | [], _ => rfl
  | _ :: _, lasting => Bool.and_eq_true_iff.mpr ⟨lasting.1.writable, AllLasting.writable lasting.2⟩

theorem FieldsLasting.writable : {fields : List (Text × Json)} → FieldsLasting fields →
    fieldsWritable fields = true
  | [], _ => rfl
  | (_, _) :: _, lasting =>
    Bool.and_eq_true_iff.mpr ⟨lasting.2.1.writable, FieldsLasting.writable lasting.2.2⟩

end

/-! ### Levels -/

mutual

/-- The levels of the reader's recursion on a document, in which each item is read below the one before
it. -/
def levels : Json → Nat
  | .array items => levelsItems items + 1
  | .object fields => levelsFields fields + 1
  | _ => 1

def levelsItems : List Json → Nat
  | [] => 0
  | item :: rest => max (levels item) (levelsItems rest) + 1

def levelsFields : List (Text × Json) → Nat
  | [] => 0
  | (_, item) :: rest => max (levels item) (levelsFields rest) + 1

end

theorem levels_pos (doc : Json) : 0 < doc.levels := by
  cases doc <;> simp [levels]

/-! ### Blanks -/

theorem skip_cons {c : CodePoint} (noSpace : isSpace c = false) (rest : Text) :
    skip (c :: rest) = c :: rest :=
  List.dropWhile_cons_of_neg (by rw [noSpace]; exact Bool.false_ne_true)

theorem skip_breakOnto (indent : Option Nat) (depth : Nat) (tail : Text) :
    skip (breakOnto indent depth tail) = skip tail := by
  cases indent with
  | none => rfl
  | some width =>
    have blanks : ∀ c ∈ Text.spaces (width * depth), isSpace c = true := by
      intro c mem
      rw [List.eq_of_mem_replicate mem]
      rfl
    rw [breakOnto, skip, List.dropWhile_cons_of_pos rfl, List.dropWhile_append_of_pos blanks, skip]

theorem separateOnto_eq (indent : Option Nat) (depth : Nat) (tail : Text) :
    ∃ after : Text, separateOnto indent depth tail = .char ',' :: after ∧ skip after = skip tail := by
  cases indent with
  | none => exact ⟨' ' :: tail, rfl, rfl⟩
  | some width => exact ⟨_, rfl, skip_breakOnto (some width) depth tail⟩

theorem length_breakOnto (indent : Option Nat) (depth : Nat) (tail : Text) :
    tail.length ≤ (breakOnto indent depth tail).length := by
  cases indent with
  | none => exact le_rfl
  | some width =>
    simp only [breakOnto, List.length_cons, List.length_append]
    omega

theorem length_separateOnto (indent : Option Nat) (depth : Nat) (tail : Text) :
    tail.length < (separateOnto indent depth tail).length := by
  cases indent with
  | none =>
    simp only [separateOnto, List.length_cons]
    omega
  | some width => exact Nat.lt_succ_of_le (length_breakOnto (some width) depth tail)

theorem length_writeTextOnto (s : Text) (tail : Text) :
    tail.length < (writeTextOnto s tail).length := by
  have content := length_escapeOnto s ('"' :: tail)
  simp only [writeTextOnto, List.length_cons] at content ⊢
  omega

/-! ### Where a document starts -/

def opens (c : CodePoint) : Bool :=
  isDigit c || (['"', '[', '\x7b', '-', 'n', 't', 'f', 'N', 'I'] : Text).contains c

theorem numeral_opens (n : Int) : ∃ c rest, Numeral.text n = c :: rest ∧ opens c = true := by
  obtain ⟨c, rest, cons, digit, -⟩ := Numeral.digits_eq_cons n.natAbs
  unfold Numeral.text
  split
  · exact ⟨'-', _, rfl, rfl⟩
  · exact ⟨c, rest, cons, by rw [opens, digit, Bool.true_or]⟩

theorem render_opens (x : Binary64) : ∃ c rest, x.render numberNames = c :: rest ∧ opens c = true := by
  cases x with
  | nan mark => exact ⟨'N', _, rfl, rfl⟩
  | infinite negative => cases negative <;> exact ⟨_, _, rfl, rfl⟩
  | finite negative m q canonical =>
    obtain ⟨s, proper, text, -⟩ := readMagnitude_finite canonical negative
    obtain ⟨c, rest, cons, digit⟩ := proper.starts
    cases negative with
    | true => exact ⟨'-', _, rfl, rfl⟩
    | false => exact ⟨c, rest, text.trans cons, by rw [opens, digit, Bool.true_or]⟩

theorem writeOnto_opens (indent : Option Nat) (depth : Nat) (doc : Json) (tail : Text) :
    ∃ c rest, writeOnto indent depth doc tail = c :: rest ∧ opens c = true := by
  cases doc with
  | null => exact ⟨_, _, rfl, rfl⟩
  | bool b => cases b <;> exact ⟨_, _, rfl, rfl⟩
  | int n =>
    obtain ⟨c, rest, cons, opening⟩ := numeral_opens n
    exact ⟨c, rest ++ tail, by rw [writeOnto, cons]; rfl, opening⟩
  | float x =>
    obtain ⟨c, rest, cons, opening⟩ := render_opens x
    exact ⟨c, rest ++ tail, by rw [writeOnto, cons]; rfl, opening⟩
  | text s => exact ⟨_, _, rfl, rfl⟩
  | array items => cases items <;> exact ⟨_, _, rfl, rfl⟩
  | object fields => cases fields <;> exact ⟨_, _, rfl, rfl⟩

theorem opens_ne {c x : CodePoint} (opening : opens c = true) (closed : opens x = false) : c ≠ x := by
  rintro rfl
  rw [closed] at opening
  cases opening

theorem skip_writeOnto (indent : Option Nat) (depth : Nat) (doc : Json) (tail : Text) :
    skip (writeOnto indent depth doc tail) = writeOnto indent depth doc tail := by
  obtain ⟨c, rest, cons, opening⟩ := writeOnto_opens indent depth doc tail
  have noSpace : isSpace c = false := by
    simp [isSpace, opens_ne opening (x := ' ') rfl, opens_ne opening (x := '\t') rfl,
      opens_ne opening (x := '\n') rfl, opens_ne opening (x := '\r') rfl]
  rw [cons, skip_cons noSpace]

theorem skip_writeTextOnto (s : Text) (tail : Text) :
    skip (writeTextOnto s tail) = writeTextOnto s tail :=
  skip_cons rfl _

/-- A document starts with no character that starts none. -/
theorem writeOnto_ne_cons {x : CodePoint} (closed : opens x = false) (indent : Option Nat) (depth : Nat)
    (doc : Json) (tail cs : Text) : writeOnto indent depth doc tail ≠ x :: cs := by
  obtain ⟨c, rest, cons, opening⟩ := writeOnto_opens indent depth doc tail
  rw [cons]
  rintro ⟨⟩
  exact opens_ne opening closed rfl

mutual

/-- There are no more levels than characters in the text. -/
theorem levels_le_length (indent : Option Nat) (depth : Nat) : (doc : Json) → (tail : Text) →
    doc.levels + tail.length ≤ (writeOnto indent depth doc tail).length
  | .null, tail | .bool true, tail | .bool false, tail => by
    simp only [levels, writeOnto, List.length_cons]
    omega
  | .int n, tail => by
    obtain ⟨c, rest, cons, -⟩ := numeral_opens n
    simp only [levels, writeOnto, cons, List.length_append, List.length_cons]
    omega
  | .float x, tail => by
    obtain ⟨c, rest, cons, -⟩ := render_opens x
    simp only [levels, writeOnto, cons, List.length_append, List.length_cons]
    omega
  | .text s, tail => by
    have written := length_writeTextOnto s tail
    simp only [levels, writeOnto]
    omega
  | .array [], tail | .object [], tail => by
    simp only [levels, levelsItems, levelsFields, writeOnto, List.length_cons]
    omega
  | .array (item :: rest), tail => by
    have opened := length_breakOnto indent (depth + 1) (writeOnto indent (depth + 1) item
      (writeItemsOnto indent (depth + 1) rest (breakOnto indent depth (']' :: tail))))
    have first := levels_le_length indent (depth + 1) item
      (writeItemsOnto indent (depth + 1) rest (breakOnto indent depth (']' :: tail)))
    have others := levelsItems_le_length indent (depth + 1) rest (breakOnto indent depth (']' :: tail))
    have closed := length_breakOnto indent depth (']' :: tail)
    simp only [levels, levelsItems, writeOnto, List.length_cons] at closed ⊢
    omega
  | .object ((key, item) :: rest), tail => by
    have fields := levelsFields_le_length indent (depth + 1) rest (breakOnto indent depth ('\x7d' :: tail))
    have first := levels_le_length indent (depth + 1) item
      (writeFieldsOnto indent (depth + 1) rest (breakOnto indent depth ('\x7d' :: tail)))
    have named := length_writeTextOnto key (':' :: ' ' :: writeOnto indent (depth + 1) item
      (writeFieldsOnto indent (depth + 1) rest (breakOnto indent depth ('\x7d' :: tail))))
    have opened := length_breakOnto indent (depth + 1) (writeTextOnto key (':' :: ' ' ::
      writeOnto indent (depth + 1) item
        (writeFieldsOnto indent (depth + 1) rest (breakOnto indent depth ('\x7d' :: tail)))))
    have closed := length_breakOnto indent depth ('\x7d' :: tail)
    simp only [levels, levelsFields, writeOnto, List.length_cons] at named closed ⊢
    omega

theorem levelsItems_le_length (indent : Option Nat) (depth : Nat) : (items : List Json) →
    (tail : Text) → levelsItems items + tail.length ≤ (writeItemsOnto indent depth items tail).length
  | [], tail => by simp only [levelsItems, writeItemsOnto, Nat.zero_add, le_refl]
  | item :: rest, tail => by
    have others := levelsItems_le_length indent depth rest tail
    have first := levels_le_length indent depth item (writeItemsOnto indent depth rest tail)
    have separated := length_separateOnto indent depth
      (writeOnto indent depth item (writeItemsOnto indent depth rest tail))
    rw [levelsItems, writeItemsOnto]
    omega

theorem levelsFields_le_length (indent : Option Nat) (depth : Nat) :
    (fields : List (Text × Json)) → (tail : Text) →
      levelsFields fields + tail.length ≤ (writeFieldsOnto indent depth fields tail).length
  | [], tail => by simp only [levelsFields, writeFieldsOnto, Nat.zero_add, le_refl]
  | (key, item) :: rest, tail => by
    have others := levelsFields_le_length indent depth rest tail
    have first := levels_le_length indent depth item (writeFieldsOnto indent depth rest tail)
    have named := length_writeTextOnto key
      (':' :: ' ' :: writeOnto indent depth item (writeFieldsOnto indent depth rest tail))
    have separated := length_separateOnto indent depth (writeTextOnto key
      (':' :: ' ' :: writeOnto indent depth item (writeFieldsOnto indent depth rest tail)))
    rw [levelsFields, writeFieldsOnto]
    simp only [List.length_cons] at named
    omega

end

/-! ### Rules of the reader -/

section Rules

variable {fuel : Nat} {cs rest after last : Text} {key : Text} {item : Json} {items : List Json}
  {fields : List (Text × Json)}

theorem readItems_last (first : readValue fuel cs = .ok (item, rest)) (closed : skip rest = .char ']' :: after) :
    readItems (fuel + 1) cs = .ok ([item], after) := by
  simp only [readItems, first, closed]

theorem readItems_more (first : readValue fuel cs = .ok (item, rest)) (comma : skip rest = .char ',' :: after)
    (more : readItems fuel (skip after) = .ok (items, last)) :
    readItems (fuel + 1) cs = .ok (item :: items, last) := by
  simp only [readItems, first, comma, more]

theorem readFields_last (unpaired : key.Unpaired) (tail : Text)
    (first : readValue fuel (skip tail) = .ok (item, rest)) (closed : skip rest = .char '\x7d' :: after) :
    readFields (fuel + 1) (writeTextOnto key (':' :: tail)) = .ok ([(key, item)], after) := by
  simp only [writeTextOnto, readFields, readText_written _ unpaired, skip_cons (by rfl : isSpace ':' = false),
    first, closed]

theorem readFields_more (unpaired : key.Unpaired) (tail : Text)
    (first : readValue fuel (skip tail) = .ok (item, rest)) (comma : skip rest = .char ',' :: after)
    (more : readFields fuel (skip after) = .ok (fields, last)) :
    readFields (fuel + 1) (writeTextOnto key (':' :: tail)) = .ok ((key, item) :: fields, last) := by
  simp only [writeTextOnto, readFields, readText_written _ unpaired, skip_cons (by rfl : isSpace ':' = false),
    first, comma, more]

theorem readValue_array (start : ∀ cs', skip rest ≠ .char ']' :: cs')
    (inner : readItems fuel (skip rest) = .ok (items, after)) :
    readValue (fuel + 1) ('[' :: rest) = .ok (.array items, after) := by
  rw [readValue]
  split
  · rename_i empty
    exact absurd empty (start _)
  · rw [inner]

theorem readValue_object (start : ∀ cs', skip rest ≠ .char '\x7d' :: cs')
    (inner : readFields fuel (skip rest) = .ok (fields, after))
    (distinct : (Overlay.names fields).Nodup) :
    readValue (fuel + 1) ('\x7b' :: rest) = .ok (.object fields, after) := by
  rw [readValue]
  split
  · rename_i empty
    exact absurd empty (start _)
  · rw [inner]
    dsimp only
    rw [Overlay.ofPairs_of_nodup distinct]

end Rules

/-! ### Reading what was written -/

theorem endsNumber_cons {c : CodePoint} (tail : Text)
    (ends : isDigit c = false ∧ c ≠ '.' ∧ c ≠ 'e' ∧ c ≠ 'E') : EndsNumber (c :: tail) := by
  rintro x ⟨⟩
  exact ends

theorem endsNumber_breakOnto (indent : Option Nat) (depth : Nat) {tail : Text}
    (ends : EndsNumber tail) : EndsNumber (breakOnto indent depth tail) := by
  cases indent with
  | none => exact ends
  | some width => exact endsNumber_cons _ (by decide)

theorem endsNumber_separateOnto (indent : Option Nat) (depth : Nat) (tail : Text) :
    EndsNumber (separateOnto indent depth tail) := by
  obtain ⟨after, cons, -⟩ := separateOnto_eq indent depth tail
  rw [cons]
  exact endsNumber_cons _ (by decide)

theorem endsNumber_writeItemsOnto (indent : Option Nat) (depth : Nat) (items : List Json)
    {tail : Text} (ends : EndsNumber tail) : EndsNumber (writeItemsOnto indent depth items tail) := by
  cases items with
  | nil => exact ends
  | cons item rest => exact endsNumber_separateOnto indent depth _

theorem endsNumber_writeFieldsOnto (indent : Option Nat) (depth : Nat) (fields : List (Text × Json))
    {tail : Text} (ends : EndsNumber tail) :
    EndsNumber (writeFieldsOnto indent depth fields tail) := by
  cases fields with
  | nil => exact ends
  | cons field rest => exact endsNumber_separateOnto indent depth _

/-- With this fuel the reader takes back what was written with no more levels. -/
structure ReadsBack (indent : Option Nat) (fuel : Nat) : Prop where
  value : ∀ (depth : Nat) {doc : Json} (tail : Text), doc.Lasting → doc.levels ≤ fuel →
    EndsNumber tail → readValue fuel (writeOnto indent depth doc tail) = .ok (doc, tail)
  items : ∀ (depth outer : Nat) {item : Json} {rest : List Json} (tail : Text),
    AllLasting (item :: rest) → levelsItems (item :: rest) ≤ fuel →
      readItems fuel (writeOnto indent depth item
        (writeItemsOnto indent depth rest (breakOnto indent outer (']' :: tail)))) =
          .ok (item :: rest, tail)
  fields : ∀ (depth outer : Nat) {key : Text} {item : Json} {rest : List (Text × Json)}
    (tail : Text), FieldsLasting ((key, item) :: rest) → levelsFields ((key, item) :: rest) ≤ fuel →
      readFields fuel (writeTextOnto key (':' :: ' ' :: writeOnto indent depth item
        (writeFieldsOnto indent depth rest (breakOnto indent outer ('\x7d' :: tail))))) =
          .ok ((key, item) :: rest, tail)

section Steps

variable {indent : Option Nat} {fuel : Nat} (ih : ReadsBack indent fuel)

include ih

theorem ReadsBack.items_step (depth outer : Nat) {item : Json} {rest : List Json} (tail : Text)
    (lasting : AllLasting (item :: rest)) (enough : levelsItems (item :: rest) ≤ fuel + 1) :
    readItems (fuel + 1) (writeOnto indent depth item
      (writeItemsOnto indent depth rest (breakOnto indent outer (']' :: tail)))) =
        .ok (item :: rest, tail) := by
  have closes : EndsNumber (breakOnto indent outer (']' :: tail)) :=
    endsNumber_breakOnto indent outer (endsNumber_cons _ (by decide))
  rw [levelsItems] at enough
  have first := ih.value depth _ lasting.1 (by omega) (endsNumber_writeItemsOnto indent depth rest closes)
  cases rest with
  | nil =>
    refine readItems_last first ?_
    rw [writeItemsOnto, skip_breakOnto, skip_cons rfl]
  | cons next others =>
    have more := ih.items depth outer tail lasting.2 (by omega)
    obtain ⟨after, separated, skipped⟩ := separateOnto_eq indent depth (writeOnto indent depth next
      (writeItemsOnto indent depth others (breakOnto indent outer (']' :: tail))))
    refine readItems_more first (by rw [writeItemsOnto, separated, skip_cons rfl]) ?_
    rw [skipped, skip_writeOnto, more]

theorem ReadsBack.fields_step (depth outer : Nat) {key : Text} {item : Json}
    {rest : List (Text × Json)} (tail : Text) (lasting : FieldsLasting ((key, item) :: rest))
    (enough : levelsFields ((key, item) :: rest) ≤ fuel + 1) :
    readFields (fuel + 1) (writeTextOnto key (':' :: ' ' :: writeOnto indent depth item
      (writeFieldsOnto indent depth rest (breakOnto indent outer ('\x7d' :: tail))))) =
        .ok ((key, item) :: rest, tail) := by
  have closes : EndsNumber (breakOnto indent outer ('\x7d' :: tail)) :=
    endsNumber_breakOnto indent outer (endsNumber_cons _ (by decide))
  rw [levelsFields] at enough
  obtain ⟨unpaired, itemLasting, restLasting⟩ := lasting
  have first := ih.value depth _ itemLasting (by omega) (endsNumber_writeFieldsOnto indent depth rest closes)
  rw [← skip_writeOnto] at first
  cases rest with
  | nil =>
    refine readFields_last unpaired _ first ?_
    rw [writeFieldsOnto, skip_breakOnto, skip_cons rfl]
  | cons next others =>
    obtain ⟨nextKey, nextItem⟩ := next
    have more := ih.fields depth outer tail restLasting (by omega)
    obtain ⟨after, separated, skipped⟩ := separateOnto_eq indent depth
      (writeTextOnto nextKey (':' :: ' ' :: writeOnto indent depth nextItem
        (writeFieldsOnto indent depth others (breakOnto indent outer ('\x7d' :: tail)))))
    refine readFields_more unpaired _ first (by rw [writeFieldsOnto, separated, skip_cons rfl]) ?_
    rw [skipped, skip_writeTextOnto, more]

theorem ReadsBack.value_step (depth : Nat) {doc : Json} (tail : Text) (lasting : doc.Lasting)
    (enough : doc.levels ≤ fuel + 1) (ends : EndsNumber tail) :
    readValue (fuel + 1) (writeOnto indent depth doc tail) = .ok (doc, tail) := by
  cases doc with
  | null => rfl
  | bool b => cases b <;> rfl
  | int n => exact readValue_int lasting fuel ends
  | float x => exact readValue_float lasting fuel ends
  | text s => rw [writeOnto, writeTextOnto, readValue, readText_written _ lasting]
  | array items =>
    cases items with
    | nil => rfl
    | cons item rest =>
      have inner := ih.items (depth + 1) depth tail lasting (by rw [levels] at enough; omega)
      rw [writeOnto]
      refine readValue_array ?_ ?_ <;> rw [skip_breakOnto, skip_writeOnto]
      · exact writeOnto_ne_cons rfl indent (depth + 1) item _
      · exact inner
  | object fields =>
    cases fields with
    | nil => rfl
    | cons field rest =>
      obtain ⟨key, item⟩ := field
      have inner := ih.fields (depth + 1) depth tail lasting.2 (by rw [levels] at enough; omega)
      rw [writeOnto]
      refine readValue_object ?_ ?_ lasting.1 <;> rw [skip_breakOnto, skip_writeTextOnto]
      · rintro cs ⟨⟩
      · exact inner

end Steps

theorem readsBack (indent : Option Nat) (fuel : Nat) : ReadsBack indent fuel := by
  -- On the fuel, for documents, items and fields at once, since each reader hands its fuel to the others.
  induction fuel with
  | zero =>
    refine ⟨fun _ doc _ _ enough _ => ?_, fun _ _ _ _ _ _ enough => ?_, fun _ _ _ _ _ _ _ enough => ?_⟩
    · have := levels_pos doc
      omega
    · rw [levelsItems] at enough
      omega
    · rw [levelsFields] at enough
      omega
  | succ fuel ih => exact ⟨ih.value_step, ih.items_step, ih.fields_step⟩

/-- A document that lasts is written at every indent, and its text reads back as the document. -/
theorem parse_render {doc : Json} (lasting : doc.Lasting) (indent : Option Nat) :
    ∃ text, doc.render indent = .ok text ∧ parse text = .ok doc := by
  refine ⟨_, if_pos lasting.writable, ?_⟩
  have enough : doc.levels ≤ fuelFor (write indent doc) := by
    have := levels_le_length indent 0 doc []
    rw [fuelFor, write]
    omega
  have start : skip (write indent doc) = write indent doc := skip_writeOnto indent 0 doc []
  have read : readValue (fuelFor (write indent doc)) (write indent doc) = .ok (doc, []) :=
    (readsBack indent _).value 0 [] lasting enough nofun
  have noMark : ¬(write indent doc).head? = some (.char '\uFEFF') := by
    intro marked
    obtain ⟨rest, cons⟩ := List.head?_eq_some_iff.mp marked
    exact writeOnto_ne_cons rfl indent 0 doc [] rest cons
  have whole : readAll (write indent doc) = .ok doc := by
    rw [readAll, if_neg noMark, start, read]
    rfl
  rw [parse, whole]

end Unfurl.Json
