import ByNeed.Heap.Text
import ByNeed.Proofs.Heap.Operator

set_option autoImplicit false

-- The pending pieces are written one after the other, so the text of a list of pieces is put together
-- from the texts of its parts.
namespace ByNeed

namespace Heap

variable {τ : Type}

-- All cells inside the value hold values, and so do the cells inside these.
inductive Full (heap : Heap τ) : Value → Prop
  | intro {value : Value} (inner : Ref → Value)
    (settled : ∀ ref ∈ value.refs, heap.settled? ref = some (.ok (inner ref)))
    (full : ∀ ref ∈ value.refs, heap.Full (inner ref)) : heap.Full value

-- The values in the cells inside the value lead nowhere without an end.
inductive Ends (heap : Heap τ) : Value → Prop
  | intro {value : Value}
    (inner : ∀ ref ∈ value.refs, ∀ held, heap.settled? ref = some (.ok held) → heap.Ends held) : heap.Ends value

section Writes

variable {heap : Heap τ}

def Writes (heap : Heap τ) (pieces : List Fragment) (text : String) : Prop :=
  ∃ turns, ∀ fuel rest written,
    heap.write .display (fuel + turns) (pieces ++ rest) written =
      heap.write .display fuel rest (written ++ text)

theorem writes_nil : heap.Writes [] "" :=
  ⟨0, fun fuel rest written => by simp⟩

theorem Writes.append {first second : List Fragment} {text text' : String}
    (one : heap.Writes first text) (other : heap.Writes second text') :
    heap.Writes (first ++ second) (text ++ text') := by
  obtain ⟨turns, one⟩ := one
  obtain ⟨turns', other⟩ := other
  refine ⟨turns' + turns, fun fuel rest written => ?_⟩
  rw [← Nat.add_assoc, List.append_assoc, one, other, String.append_assoc]

theorem writes_text (heap : Heap τ) (text : String) : heap.Writes [.text text] text :=
  ⟨1, fun _ _ _ => rfl⟩

theorem Writes.cons_text {pieces : List Fragment} {text' : String} (text : String)
    (writes : heap.Writes pieces text') : heap.Writes (.text text :: pieces) (text ++ text') :=
  (writes_text heap text).append writes

theorem Writes.value {value : Value} {nested : Bool} {text : String}
    (writes : heap.Writes (Style.display.value value nested) text) :
    heap.Writes [.value value nested] text := by
  obtain ⟨turns, writes⟩ := writes
  exact ⟨turns + 1, fun fuel rest written => writes fuel rest written⟩

theorem Writes.cell {ref : Ref} {text : String}
    (writes : heap.Writes (Style.display.cell (heap.settled? ref)) text) :
    heap.Writes [.cell ref] text := by
  obtain ⟨turns, writes⟩ := writes
  exact ⟨turns + 1, fun fuel rest written => writes fuel rest written⟩

theorem writes_separated {α : Type} (items : List α) (pieces : α → List Fragment)
    (text : α → String) (each : ∀ item ∈ items, heap.Writes (pieces item) (text item)) :
    heap.Writes (separated (items.map pieces)) (String.intercalate ", " (items.map text)) := by
  induction items with
  | nil => simpa [separated] using writes_nil
  | cons item rest ih =>
    have first := each item (by simp)
    have others := ih fun other member => each other (by simp [member])
    cases rest with
    | nil => simpa [separated] using first
    | cons second rest =>
      have whole := (first.append (writes_text heap ", ")).append others
      simpa [separated, List.intercalate_cons_cons] using whole

-- A cell shows its value or the mark for cells without one.
theorem display_cell_cases (outcome : Option Outcome) :
    Style.display.cell outcome = [.text "<unforced>"] ∨
      ∃ value, outcome = some (.ok value) ∧ Style.display.cell outcome = [.value value true] := by
  cases outcome with
  | none => exact .inl rfl
  | some outcome =>
    cases outcome with
    | error => exact .inl rfl
    | ok value => exact .inr ⟨value, rfl, rfl⟩

theorem Writes.display {value : Value} {text : String} (writes : heap.Writes [.value value false] text) :
    ∃ bound, ∀ fuel, bound ≤ fuel → heap.display fuel value = some text := by
  obtain ⟨turns, writes⟩ := writes
  refine ⟨turns + 1, fun fuel enough => ?_⟩
  obtain ⟨spare, rfl⟩ : ∃ spare, fuel = (spare + 1) + turns := ⟨fuel - turns - 1, by omega⟩
  simpa [Heap.display, write] using writes (spare + 1) [] ""

end Writes

section Full

variable {heap : Heap τ} {value : Value} {ref : Ref}

theorem full_of_held (held : ∀ ref ∈ value.refs, ∃ inner, heap.settled? ref = some (.ok inner) ∧ heap.Full inner) :
    heap.Full value := by
  have known (ref : Ref) : ∃ inner, ref ∈ value.refs → heap.settled? ref = some (.ok inner) ∧ heap.Full inner := by
    by_cases member : ref ∈ value.refs
    · obtain ⟨inner, settled⟩ := held ref member
      exact ⟨inner, fun _ => settled⟩
    · exact ⟨value, fun member' => absurd member' member⟩
  choose inner each using known
  exact .intro inner (fun ref member => (each ref member).1) fun ref member => (each ref member).2

theorem Full.held (full : heap.Full value) (member : ref ∈ value.refs) :
    ∃ inner, heap.settled? ref = some (.ok inner) ∧ heap.Full inner := by
  cases full with
  | intro inner settled full => exact ⟨inner ref, settled ref member, full ref member⟩

theorem Full.field {type : String} {fields : List (String × Value)} {field : String × Value}
    (full : heap.Full (.record type fields)) (member : field ∈ fields) : heap.Full field.2 :=
  full_of_held fun _ held => full.held (Value.mem_refsOfFields.mpr ⟨field, member, held⟩)

end Full

section Text

variable {heap : Heap τ} {value : Value} {nested : Bool}

theorem mem_separated {groups : List (List Fragment)} {piece : Fragment} (member : piece ∈ separated groups) :
    piece = .text ", " ∨ ∃ group ∈ groups, piece ∈ group := by
  induction groups with
  | nil => simp [separated] at member
  | cons group rest ih =>
    cases rest with
    | nil => exact .inr ⟨group, List.mem_cons_self, by simpa [separated] using member⟩
    | cons second rest =>
      simp only [separated, List.intercalate_cons_cons, List.mem_append, List.mem_singleton] at member
      rcases member with (here | comma) | later
      · exact .inr ⟨group, List.mem_cons_self, here⟩
      · exact .inl comma
      · rcases ih later with comma | ⟨other, among, here⟩
        · exact .inl comma
        · exact .inr ⟨other, List.mem_cons_of_mem _ among, here⟩

-- The pieces of a value are texts, the cells inside it and its fields.
theorem display_piece {piece : Fragment} (member : piece ∈ Style.display.value value nested) :
    (∃ text, piece = .text text) ∨ (∃ ref ∈ value.refs, piece = .cell ref) ∨
      ∃ type fields field, value = .record type fields ∧ field ∈ fields ∧ piece = .value field.2 true := by
  have bare {text : String} (is : piece = .text text) : ∃ text, piece = .text text := ⟨text, is⟩
  cases value with
  | integer value | float value | boolean value => exact .inl (bare (List.mem_singleton.mp member))
  | string text =>
    cases nested with
    | false => exact .inl (bare (List.mem_singleton.mp member))
    | true =>
      simp only [Style.display, List.mem_cons, List.not_mem_nil, or_false] at member
      rcases member with is | is | is <;> exact .inl (bare is)
  | list elements =>
    simp only [Style.display, List.cons_append, List.mem_cons, List.mem_append, List.not_mem_nil,
      or_false] at member
    rcases member with is | between | is
    · exact .inl (bare is)
    · rcases mem_separated between with is | ⟨group, among, here⟩
      · exact .inl (bare is)
      · obtain ⟨ref, isElement, rfl⟩ := List.mem_map.mp among
        exact .inr (.inl ⟨ref, isElement, List.mem_singleton.mp here⟩)
    · exact .inl (bare is)
  | record type fields =>
    cases fields with
    | nil =>
      simp only [Style.display, List.mem_cons, List.not_mem_nil, or_false] at member
      rcases member with is | is <;> exact .inl (bare is)
    | cons first rest =>
      simp only [Style.display, List.cons_append, List.mem_cons, List.mem_append, List.not_mem_nil,
        or_false] at member
      rcases member with is | is | between | is
      · exact .inl (bare is)
      · exact .inl (bare is)
      · rcases mem_separated between with is | ⟨group, among, here⟩
        · exact .inl (bare is)
        · obtain ⟨field, isField, rfl⟩ := List.mem_map.mp among
          simp only [List.mem_cons, List.not_mem_nil, or_false] at here
          rcases here with is | is | is
          · exact .inl (bare is)
          · exact .inl (bare is)
          · exact .inr (.inr ⟨type, _, field, rfl, isField, is⟩)
      · exact .inl (bare is)

def FullPiece (heap : Heap τ) : Fragment → Prop
  | .text _ => True
  | .value value _ => heap.Full value
  | .cell ref => ∃ value, heap.settled? ref = some (.ok value) ∧ heap.Full value

theorem Full.pieces (full : heap.Full value) :
    ∀ piece ∈ Style.display.value value nested, heap.FullPiece piece := by
  intro piece member
  rcases display_piece member with ⟨text, rfl⟩ | ⟨ref, held, rfl⟩ | ⟨type, fields, field, rfl, among, rfl⟩
  · trivial
  · exact full.held held
  · exact full.field among

theorem writes_pieces {pieces : List Fragment} (each : ∀ piece ∈ pieces, ∃ text, heap.Writes [piece] text) :
    ∃ text, heap.Writes pieces text := by
  induction pieces with
  | nil => exact ⟨"", writes_nil⟩
  | cons piece rest ih =>
    obtain ⟨⟨text, first⟩, others⟩ := List.forall_mem_cons.mp each
    obtain ⟨text', later⟩ := ih others
    exact ⟨text ++ text', first.append later⟩

theorem Ends.writes (ends : heap.Ends value) : ∀ nested, ∃ text, heap.Writes [.value value nested] text := by
  induction ends with
  | @intro value inner ih =>
    clear inner
    induction value using Value.fields_induction with
    | step value fields =>
      intro nested
      have pieces : ∃ text, heap.Writes (Style.display.value value nested) text := by
        refine writes_pieces fun piece member => ?_
        rcases display_piece member with ⟨text, rfl⟩ | ⟨ref, within, rfl⟩ | ⟨type, entries, field, rfl, among, rfl⟩
        · exact ⟨text, writes_text heap text⟩
        · rcases display_cell_cases (heap.settled? ref) with mark | ⟨held, settled, shown⟩
          · exact ⟨"<unforced>", .cell (by rw [mark]; exact writes_text heap "<unforced>")⟩
          · obtain ⟨text, writes⟩ := ih ref within held settled true
            exact ⟨text, .cell (by rw [shown]; exact writes)⟩
        · have inside : ∀ ref ∈ field.2.refs, ref ∈ (Value.record type entries).refs :=
            fun ref member => Value.mem_refsOfFields.mpr ⟨field, among, member⟩
          exact fields type entries rfl field among (fun ref member => ih ref (inside ref member)) true
      obtain ⟨text, writes⟩ := pieces
      exact ⟨text, writes.value⟩

theorem Full.ends (full : heap.Full value) : heap.Ends value := by
  induction full with
  | intro inner settled _ ih =>
    refine .intro fun ref member held known => ?_
    cases (settled ref member).symm.trans known
    exact ih ref member

theorem Full.display (full : heap.Full value) :
    ∃ text bound, ∀ fuel, bound ≤ fuel → heap.display fuel value = some text := by
  obtain ⟨text, writes⟩ := full.ends.writes false
  exact ⟨text, writes.display⟩

end Text

def cellText : Complete → String
  | .ok value => value.text true
  | .error _ => "<unforced>"

theorem elementTexts_eq_map (elements : List Complete) :
    Tree.elementTexts elements = elements.map cellText := by
  induction elements with
  | nil => rfl
  | cons element rest ih => cases element <;> simp [Tree.elementTexts, cellText, ih]

theorem fieldTexts_eq_map (meaning : Ref → Complete) (fields : List (String × Value)) :
    Tree.fieldTexts (Value.treesOfFields meaning fields) =
      fields.map fun field => field.1 ++ ": " ++ (field.2.tree meaning).text true := by
  induction fields with
  | nil => rfl
  | cons field rest ih => simp [Value.treesOfFields, Tree.fieldTexts, ih]

section Values

variable {heap : Heap τ} {meaning : Ref → Complete}

theorem writes_list {elements : List Ref} (nested : Bool)
    (cells : ∀ ref ∈ elements, heap.Writes [.cell ref] (cellText (meaning ref))) :
    heap.Writes [.value (.list elements) nested]
      (((Value.list elements).tree meaning).text nested) := by
  have between := writes_separated elements (fun ref => [.cell ref])
    (fun ref => cellText (meaning ref)) cells
  have whole := (between.append (writes_text heap "]")).cons_text "["
  apply Writes.value
  simpa [Style.display, Value.tree, Tree.text, elementTexts_eq_map, Function.comp_def,
    String.append_assoc] using whole

theorem writes_record {type : String} {fields : List (String × Value)} (nested : Bool)
    (each : ∀ field ∈ fields,
      heap.Writes [.value field.2 true] ((field.2.tree meaning).text true)) :
    heap.Writes [.value (.record type fields) nested]
      (((Value.record type fields).tree meaning).text nested) := by
  apply Writes.value
  cases fields with
  | nil =>
    have whole := (writes_text heap " \x7b\x7d").cons_text type
    simpa [Style.display, Value.tree, Value.treesOfFields, Tree.text] using whole
  | cons first rest =>
    have between := writes_separated (first :: rest)
      (fun field => [.text field.1, .text ": ", .value field.2 true])
      (fun field => field.1 ++ ": " ++ (field.2.tree meaning).text true)
      fun field member => by
        simpa [String.append_assoc] using ((each field member).cons_text ": ").cons_text field.1
    have whole := ((between.append (writes_text heap " \x7d")).cons_text " \x7b ").cons_text type
    have texts := fieldTexts_eq_map meaning (first :: rest)
    simp only [Value.treesOfFields] at texts
    simpa [Style.display, Value.tree, Value.treesOfFields, Tree.text, texts,
      String.append_assoc] using whole

theorem writes_value (value : Value) (cells : ∀ ref ∈ value.refs, heap.Writes [.cell ref] (cellText (meaning ref))) :
    ∀ nested, heap.Writes [.value value nested] ((value.tree meaning).text nested) := by
  induction value using Value.fields_induction with
  | step value ih =>
    intro nested
    cases value with
    | integer | float | boolean => exact (writes_text heap _).value
    | string text =>
      cases nested with
      | false => exact (writes_text heap text).value
      | true =>
        have whole := ((writes_text heap "\"").cons_text text).cons_text "\""
        apply Writes.value
        simpa [Value.tree, Tree.text, Style.display, String.append_assoc] using whole
    | list elements => exact writes_list nested cells
    | record type fields =>
      refine writes_record nested fun field member => ih type fields rfl field member (fun ref held => cells ref ?_) true
      exact Value.mem_refsOfFields.mpr ⟨field, member, held⟩

theorem Full.writes {value : Value} (full : heap.Full value)
    (settled : ∀ ref held, heap.settled? ref = some (.ok held) → meaning ref = .ok (held.tree meaning)) :
    ∀ nested, heap.Writes [.value value nested] ((value.tree meaning).text nested) := by
  induction full with
  | @intro value inner known _ ih =>
    refine writes_value value fun ref member => ?_
    apply Writes.cell
    rw [known ref member, settled ref _ (known ref member)]
    exact ih ref member true

end Values

end Heap

end ByNeed
