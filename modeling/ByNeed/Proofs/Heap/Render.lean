import ByNeed.Eval.Context
import ByNeed.Proofs.Heap.Reach

set_option autoImplicit false

-- One level of the recursion is the text of the pieces that take the place of the value, so each comes to an
-- end with the same text if the other one does.
namespace ByNeed

namespace Heap

variable {τ : Type}

def render (heap : Heap τ) : Nat → Bool → Value → Option String
  | 0, _, _ => none
  | _ + 1, _, .integer value => some (Decimal.integerText value)
  | _ + 1, _, .float value => some (Decimal.floatText value)
  | _ + 1, nested, .string text => some (if nested then "\"" ++ text ++ "\"" else text)
  | _ + 1, _, .boolean value => some (booleanSpelling value)
  | depth + 1, _, .list elements =>
    let texts := elements.mapM fun ref =>
      match heap.settled? ref with
      | some (.ok value) => render heap depth true value
      | _ => some "<unforced>"
    texts.map fun texts => "[" ++ String.intercalate ", " texts ++ "]"
  | _ + 1, _, .record type [] => some (type ++ " \x7b\x7d")
  | depth + 1, _, .record type (first :: rest) =>
    let texts := (first :: rest).mapM fun field =>
      (render heap depth true field.2).map fun text => field.1 ++ ": " ++ text
    texts.map fun texts => type ++ " \x7b " ++ String.intercalate ", " texts ++ " \x7d"

def renderPiece (heap : Heap τ) (depth : Nat) : Fragment → Option String
  | .text text => some text
  | .value value nested => heap.render depth nested value
  | .cell ref =>
    match heap.settled? ref with
    | some (.ok value) => heap.render depth true value
    | _ => some "<unforced>"

def renderPieces (heap : Heap τ) (depth : Nat) : List Fragment → Option String
  | [] => some ""
  | piece :: rest => do return (← heap.renderPiece depth piece) ++ (← heap.renderPieces depth rest)

section Pieces

variable (heap : Heap τ) (depth : Nat)

theorem renderPieces_append (first second : List Fragment) :
    heap.renderPieces depth (first ++ second) =
      (do return (← heap.renderPieces depth first) ++ (← heap.renderPieces depth second)) := by
  induction first with
  | nil => simp [renderPieces]
  | cons piece rest ih =>
    simp only [List.cons_append, renderPieces, ih, bind_assoc, pure_bind, String.append_assoc]

@[simp] theorem renderPieces_single (piece : Fragment) :
    heap.renderPieces depth [piece] = heap.renderPiece depth piece := by
  cases found : heap.renderPiece depth piece <;> simp [renderPieces, found]

@[simp] theorem renderPieces_cons_text (text : String) (rest : List Fragment) :
    heap.renderPieces depth (.text text :: rest) = (heap.renderPieces depth rest).map (text ++ ·) := by
  cases found : heap.renderPieces depth rest <;> simp [renderPieces, renderPiece, found]

theorem renderPieces_concat_text (pieces : List Fragment) (text : String) :
    heap.renderPieces depth (pieces ++ [.text text]) = (heap.renderPieces depth pieces).map (· ++ text) := by
  rw [renderPieces_append, renderPieces_single]
  cases heap.renderPieces depth pieces <;> rfl

theorem renderPieces_separated {α : Type} (items : List α) (pieces : α → List Fragment) :
    heap.renderPieces depth (separated (items.map pieces)) =
      (items.mapM fun item => heap.renderPieces depth (pieces item)).map (String.intercalate ", ") := by
  induction items with
  | nil => rfl
  | cons item rest ih =>
    cases rest with
    | nil => cases first : heap.renderPieces depth (pieces item) <;> simp [separated, first]
    | cons second rest =>
      have split : separated ((item :: second :: rest).map pieces) =
          pieces item ++ ([.text ", "] ++ separated ((second :: rest).map pieces)) := by
        simp [separated, List.intercalate_cons_cons]
      rw [split, renderPieces_append, renderPieces_append, ih]
      simp only [List.mapM_cons]
      cases heap.renderPieces depth (pieces item) <;> cases heap.renderPieces depth (pieces second) <;>
        cases rest.mapM fun item => heap.renderPieces depth (pieces item) <;>
        simp [renderPieces, renderPiece, String.append_assoc]

-- One level of the recursion is the text of the pieces for the value.
theorem render_succ (nested : Bool) (value : Value) :
    heap.render (depth + 1) nested value = heap.renderPieces depth (Style.display.value value nested) := by
  cases value with
  | integer | float | boolean => simp [render, Style.display, renderPiece]
  | string text => cases nested <;> simp [render, Style.display, renderPiece, String.append_assoc]
  | list elements =>
    simp only [Style.display, List.cons_append, renderPieces_cons_text, renderPieces_concat_text,
      renderPieces_separated, renderPieces_single, Option.map_map, Function.comp_def, ← String.append_assoc]
    rfl
  | record type fields =>
    cases fields with
    | nil => simp [render, Style.display, renderPiece]
    | cons first rest =>
      simp only [Style.display, List.cons_append, renderPieces_cons_text, renderPieces_concat_text,
        renderPieces_separated, renderPieces_single, Option.map_map, Function.comp_def, ← String.append_assoc]
      rfl

end Pieces

section Recursion

variable {heap : Heap τ} {depth depth' : Nat} {pieces : List Fragment} {nested : Bool} {value : Value}
  {text : String}

theorem renderPieces_append_iff {first second : List Fragment} :
    heap.renderPieces depth (first ++ second) = some text ↔
      ∃ front back, heap.renderPieces depth first = some front ∧ heap.renderPieces depth second = some back ∧
        text = front ++ back := by
  rw [renderPieces_append]
  cases heap.renderPieces depth first <;> cases heap.renderPieces depth second <;> simp [eq_comm]

theorem renderPieces_cons_iff {piece : Fragment} :
    heap.renderPieces depth (piece :: pieces) = some text ↔
      ∃ front back, heap.renderPiece depth piece = some front ∧ heap.renderPieces depth pieces = some back ∧
        text = front ++ back := by
  rw [← renderPieces_single, ← renderPieces_append_iff, List.singleton_append]

-- Whatever is rendered within the first depth is rendered alike within the second one.
def Deeper (heap : Heap τ) (depth depth' : Nat) : Prop :=
  ∀ nested value text, heap.render depth nested value = some text → heap.render depth' nested value = some text

theorem Deeper.renderPiece (deeper : heap.Deeper depth depth') {piece : Fragment}
    (rendered : heap.renderPiece depth piece = some text) : heap.renderPiece depth' piece = some text := by
  cases piece with
  | text => exact rendered
  | value value nested => exact deeper nested value text rendered
  | cell ref =>
    simp only [Heap.renderPiece] at rendered ⊢
    split at rendered
    · exact deeper true _ text rendered
    · exact rendered

theorem Deeper.renderPieces (deeper : heap.Deeper depth depth')
    (rendered : heap.renderPieces depth pieces = some text) : heap.renderPieces depth' pieces = some text := by
  induction pieces generalizing text with
  | nil => exact rendered
  | cons piece rest ih =>
    obtain ⟨front, back, here, later, rfl⟩ := renderPieces_cons_iff.mp rendered
    exact renderPieces_cons_iff.mpr ⟨front, back, deeper.renderPiece here, ih later, rfl⟩

theorem deeper_succ (heap : Heap τ) (depth : Nat) : heap.Deeper depth (depth + 1) := by
  induction depth with
  | zero => exact fun _ _ _ rendered => by cases rendered
  | succ depth ih =>
    intro nested value text rendered
    rw [render_succ] at rendered ⊢
    exact ih.renderPieces rendered

theorem deeper_of_le (heap : Heap τ) (less : depth ≤ depth') : heap.Deeper depth depth' := by
  induction less with
  | refl => exact fun _ _ _ rendered => rendered
  | step _ ih =>
    intro nested value text rendered
    exact deeper_succ heap _ nested value text (ih nested value text rendered)

theorem renderPiece_cell (heap : Heap τ) (depth : Nat) (ref : Ref) :
    heap.renderPiece depth (.cell ref) = heap.renderPieces depth (Style.display.cell (heap.settled? ref)) := by
  cases settled : heap.settled? ref with
  | none => simp [renderPiece, settled, Style.display]
  | some outcome => cases outcome <;> simp [renderPiece, settled, Style.display]

-- What the recursion puts together is what the loop writes.
theorem writes_of_renderPiece
    (values : ∀ nested value text, heap.render depth nested value = some text →
      heap.Writes [.value value nested] text)
    {piece : Fragment} (rendered : heap.renderPiece depth piece = some text) : heap.Writes [piece] text := by
  cases piece with
  | text =>
    cases rendered
    exact writes_text heap text
  | value value nested => exact values nested value text rendered
  | cell ref =>
    apply Writes.cell
    rw [renderPiece_cell] at rendered
    rcases display_cell_cases (heap.settled? ref) with mark | ⟨value, _, held⟩
    · rw [mark, renderPieces_single] at rendered
      cases rendered
      rw [mark]
      exact writes_text heap "<unforced>"
    · rw [held, renderPieces_single] at rendered
      rw [held]
      exact values true value text rendered

theorem writes_of_renderPieces
    (values : ∀ nested value text, heap.render depth nested value = some text →
      heap.Writes [.value value nested] text)
    (rendered : heap.renderPieces depth pieces = some text) : heap.Writes pieces text := by
  induction pieces generalizing text with
  | nil =>
    cases rendered
    exact writes_nil
  | cons piece rest ih =>
    obtain ⟨front, back, here, later, rfl⟩ := renderPieces_cons_iff.mp rendered
    exact (writes_of_renderPiece values here).append (ih later)

theorem writes_of_render (rendered : heap.render depth nested value = some text) :
    heap.Writes [.value value nested] text := by
  induction depth generalizing nested value text with
  | zero => cases rendered
  | succ depth ih =>
    rw [render_succ] at rendered
    exact (writes_of_renderPieces (fun _ _ _ => ih) rendered).value

-- A piece may have been replaced by others that are one level down.
theorem renderPieces_of_replaced {piece : Fragment} {replaced : List Fragment}
    (level : ∀ front, heap.renderPieces depth replaced = some front →
      heap.renderPiece (depth + 1) piece = some front)
    (rendered : heap.renderPieces depth (replaced ++ pieces) = some text) :
    heap.renderPieces (depth + 1) (piece :: pieces) = some text := by
  obtain ⟨front, back, here, later, rfl⟩ := renderPieces_append_iff.mp rendered
  have later := (deeper_succ heap depth).renderPieces later
  exact renderPieces_cons_iff.mpr ⟨front, back, level front here, later, rfl⟩

-- What the loop writes is what the recursion puts together. Each turn goes down at most one level.
theorem renderPieces_of_write {fuel : Nat} {written : String}
    (wrote : heap.write .display fuel pieces written = some text) :
    ∃ added, heap.renderPieces fuel pieces = some added ∧ text = written ++ added := by
  induction fuel generalizing pieces written with
  | zero => cases wrote
  | succ fuel ih =>
    cases pieces with
    | nil =>
      cases wrote
      exact ⟨"", rfl, by simp⟩
    | cons piece rest =>
      cases piece with
      | text front =>
        obtain ⟨added, rendered, rfl⟩ := ih wrote
        have rendered := (deeper_succ heap fuel).renderPieces rendered
        exact ⟨front ++ added, by simp [rendered], String.append_assoc ..⟩
      | value value nested =>
        obtain ⟨added, rendered, rfl⟩ := ih wrote
        refine ⟨added, renderPieces_of_replaced (fun front here => ?_) rendered, rfl⟩
        rwa [renderPiece, render_succ]
      | cell ref =>
        obtain ⟨added, rendered, rfl⟩ := ih wrote
        refine ⟨added, renderPieces_of_replaced (fun front here => ?_) rendered, rfl⟩
        rw [renderPiece_cell]
        exact (deeper_succ heap fuel).renderPieces here

theorem render_of_display {fuel : Nat} (displayed : heap.display fuel value = some text) :
    heap.render fuel false value = some text := by
  obtain ⟨added, rendered, rfl⟩ := renderPieces_of_write displayed
  simpa [renderPiece] using rendered

end Recursion

section Finite

variable {heap : Heap τ} {value : Value}

def Contains (heap : Heap τ) (ref other : Ref) : Prop :=
  ∃ value, heap.settled? ref = some (.ok value) ∧ other ∈ value.refs

theorem ends_of_no_circle (noCircle : ∀ ref, ¬ Relation.TransGen heap.Contains ref ref) (value : Value) :
    heap.Ends value := by
  have wellFounded := Reading.wellFounded_of_no_circle heap.cells.size noCircle
  have inside {ref : Nat} {held : Value} (settled : heap.settled? ref = some (.ok held)) :
      ref < heap.cells.size := by
    apply inside_of_get_ne
    intro outside
    simp [settled?, outside, Cell.settled?] at settled
  have cells (place : Fin heap.cells.size) (held : Value) (settled : heap.settled? place.val = some (.ok held)) :
      heap.Ends held := by
    induction place using wellFounded.induction generalizing held with
    | _ place ih =>
      refine .intro fun ref member inner settled' => ?_
      exact ih ⟨ref, inside settled'⟩ (.single ⟨held, settled, member⟩) inner settled'
  exact .intro fun ref _ held settled => cells ⟨ref, inside settled⟩ held settled

end Finite

end Heap

/-- The text of a value is that of the recursion, and writing it changes nothing. If the values in the cells
inside it lead nowhere without an end, and so if the values in cells are inside each other in no circle, there
is such a text. -/
theorem Eval.display_recursive (value : Value) (context : Context) :
    (∀ text, (∃ fuel, Eval.display fuel value context = .ok text context) ↔
      ∃ depth, context.heap.render depth false value = some text) ∧
    (context.heap.Ends value → ∃ text bound, ∀ fuel, bound ≤ fuel →
      Eval.display fuel value context = .ok text context ∧ context.heap.render fuel false value = some text) ∧
    ((∀ ref, ¬ Relation.TransGen context.heap.Contains ref ref) → context.heap.Ends value) ∧
    ∀ fuel, (∃ text, Eval.display fuel value context = .ok text context) ∨
      Eval.display fuel value context = .error .exhausted context := by
  have ok_iff (fuel : Nat) (text : String) :
      Eval.display fuel value context = .ok text context ↔ context.heap.display fuel value = some text := by
    cases displayed : context.heap.display fuel value <;> simp [Eval.display, displayed]
  refine ⟨fun text => ⟨?_, ?_⟩, fun ends => ?_, fun noCircle => ?_, fun fuel => ?_⟩
  · rintro ⟨fuel, displayed⟩
    exact ⟨fuel, Heap.render_of_display ((ok_iff fuel text).mp displayed)⟩
  · rintro ⟨depth, rendered⟩
    obtain ⟨bound, displayed⟩ := (Heap.writes_of_render rendered).display
    exact ⟨bound, (ok_iff bound text).mpr (displayed bound (Nat.le_refl bound))⟩
  · obtain ⟨text, writes⟩ := ends.writes false
    obtain ⟨bound, displayed⟩ := writes.display
    refine ⟨text, bound, fun fuel enough => ⟨(ok_iff fuel text).mpr (displayed fuel enough), ?_⟩⟩
    exact Heap.render_of_display (displayed fuel enough)
  · exact Heap.ends_of_no_circle noCircle value
  · cases displayed : context.heap.display fuel value with
    | none => exact .inr (by simp [Eval.display, displayed])
    | some text => exact .inl ⟨text, (ok_iff fuel text).mpr displayed⟩

-- The last cell holds a list of the other ones: two with a value, one that failed, one that waits and one
-- that is settled by another.
def Heap.assorted : Heap Task where
  cells := #[.forced (.integer 1), .forced (.string "a"), .failed .divisionByZero, .pending [0] (.unary .minus),
    .delegated 0, .forced (.list [0, 1, 2, 3, 4])]

theorem Heap.assorted_no_circle (ref : Ref) : ¬ Relation.TransGen Heap.assorted.Contains ref ref := by
  have older {ref other : Nat} (inside : Heap.assorted.Contains ref other) : other < ref := by
    obtain ⟨value, settled, member⟩ := inside
    have within : ref < Heap.assorted.cells.size := Heap.inside_of_settled (by simp [isSettled, settled])
    have few : Heap.assorted.cells.size = 6 := rfl
    rw [few] at within
    interval_cases ref <;> cases settled <;> revert other <;> decide
  have less {ref other : Nat} (path : Relation.TransGen Heap.assorted.Contains ref other) : other < ref := by
    induction path with
    | single step => exact older step
    | tail _ step ih => exact Nat.lt_trans (older step) ih
  exact fun circle => Nat.lt_irrefl ref (less circle)

def Value.assorted : Value :=
  .record "Box" [("items", .list [5, 1]), ("name", .string "b"), ("inner", .record "Unit" [])]

theorem Eval.display_recursive_assorted :
    (∀ ref, ¬ Relation.TransGen Heap.assorted.Contains ref ref) ∧ Heap.assorted.Ends .assorted ∧
    ∃ bound, ∀ fuel, bound ≤ fuel → Eval.display fuel .assorted { heap := .assorted } =
      .ok ("Box \x7b items: [[1, \"a\", <unforced>, <unforced>, <unforced>], \"a\"], " ++
        "name: \"b\", inner: Unit \x7b\x7d \x7d") { heap := .assorted } := by
  obtain ⟨_, total, ends, _⟩ := Eval.display_recursive .assorted { heap := .assorted }
  have ends := ends Heap.assorted_no_circle
  obtain ⟨text, bound, shown⟩ := total ends
  have rendered : Heap.assorted.render 4 false .assorted =
      some ("Box \x7b items: [[1, \"a\", <unforced>, <unforced>, <unforced>], \"a\"], " ++
        "name: \"b\", inner: Unit \x7b\x7d \x7d") := by decide +kernel
  have deep := Heap.deeper_of_le _ (Nat.le_max_right bound 4) false _ _ rendered
  have same := (shown _ (Nat.le_max_left bound 4)).2.symm.trans deep
  cases same
  exact ⟨Heap.assorted_no_circle, ends, bound, fun fuel enough => (shown fuel enough).1⟩

end ByNeed
