import ByNeed.Proofs.Rendering.Expression

set_option autoImplicit false

-- At top level a line of the program may be cut at the line feeds of its strings; joining the pieces puts the
-- line feeds back. In a block every line gets an indentation, which changes nothing if no line has been cut.
namespace ByNeed

open Token (Scans IsName continuesWord)

inductive Rendered (nested : Bool) : List String → List Token.Kind → Prop
  | nil : Rendered nested [] []
  | cons {text : String} {lines : List String} {found kinds : List Token.Kind}
    (inline : Inline nested text.toList) (scans : Scans text.toList found (· = '\n'))
    (rest : Rendered nested lines kinds) :
    Rendered nested (Text.pieces text ++ lines) (found ++ .lineBreak :: kinds)

theorem Text.pieces_of_unbroken {text : String} (unbroken : '\n' ∉ text.toList) :
    Text.pieces text = [text] := by
  simp [Text.pieces, List.splitOn_eq_singleton unbroken]

theorem Text.pieces_ne_nil (text : String) : Text.pieces text ≠ [] := by
  simp [Text.pieces, List.splitOn_ne_nil]

-- The characters of lines with a line feed after each.
def closedChars (lines : List String) : List Char :=
  lines.flatMap fun line => line.toList ++ ['\n']

theorem closedChars_append (lines lines' : List String) :
    closedChars (lines ++ lines') = closedChars lines ++ closedChars lines' :=
  List.flatMap_append

theorem closedChars_eq_intercalate {lines : List String} (filled : lines ≠ []) :
    closedChars lines = (String.intercalate "\n" lines).toList ++ ['\n'] := by
  induction lines with
  | nil => exact absurd rfl filled
  | cons first rest ih =>
    cases rest with
    | nil => simp [closedChars]
    | cons second rest =>
      have later := ih (List.cons_ne_nil second rest)
      rw [String.toList_intercalate] at later ⊢
      simpa [closedChars] using later

theorem closedChars_pieces (text : String) :
    closedChars (Text.pieces text) = text.toList ++ ['\n'] := by
  rw [closedChars_eq_intercalate (Text.pieces_ne_nil text), Text.intercalate_pieces]

theorem toList_headed (keyword : Keyword) (text : String) :
    (keyword.spelling ++ " " ++ text).toList = keyword.spelling.toList ++ ' ' :: text.toList := by
  simp [String.toList_append]

theorem Inline.headed {nested : Bool} {text : String} (inline : Inline nested text.toList)
    (keyword : Keyword) (filled : text.toList ≠ []) :
    Inline nested (keyword.spelling ++ " " ++ text).toList := by
  have word : Inline nested keyword.spelling.toList := .of_word (Token.isWord_spelling keyword)
  rw [toList_headed, List.append_cons]
  refine .append ?_ inline filled
  intro deep
  simpa using word.unbroken deep

theorem scans_headed (keyword : Keyword) {text : String} {kinds : List Token.Kind}
    {allowed : Char → Prop} (scans : Scans text.toList kinds allowed) :
    Scans (keyword.spelling ++ " " ++ text).toList (.keyword keyword :: kinds) allowed := by
  rw [toList_headed]
  exact (Token.scans_keyword keyword).append scans.space (by decide)

theorem Inline.indentedLine_eq {nested : Bool} {text : String} (inline : Inline nested text.toList) :
    indentedLine text = "  " ++ text := by
  rw [indentedLine, ← String.toList_inj, String.toList_append, String.toList_append,
    Text.toList_withoutReturn, if_neg inline.ending]

namespace Rendered

variable {nested : Bool} {lines lines' : List String} {kinds kinds' : List Token.Kind}

theorem append (first : Rendered nested lines kinds) (second : Rendered nested lines' kinds') :
    Rendered nested (lines ++ lines') (kinds ++ kinds') := by
  induction first with
  | nil => exact second
  | cons inline scans _ ih => simpa using Rendered.cons inline scans ih

theorem mono (rendered : Rendered true lines kinds) : Rendered nested lines kinds := by
  induction rendered with
  | nil => exact .nil
  | cons inline scans _ ih => exact .cons ⟨inline.ending, fun _ => inline.unbroken rfl⟩ scans ih

theorem indent (rendered : Rendered true lines kinds) :
    Rendered true (lines.map indentedLine) kinds := by
  induction rendered with
  | nil => exact .nil
  | @cons text lines found kinds inline scans rest ih =>
    have unbroken := inline.unbroken rfl
    have kept := inline.indentedLine_eq
    have unbroken' : '\n' ∉ (indentedLine text).toList := by
      simpa [kept, String.toList_append] using unbroken
    have ending : (indentedLine text).toList.getLast? ≠ some '\r' := by
      rw [kept, String.toList_append, List.getLast?_append]
      cases last : text.toList.getLast? with
      | none => decide
      | some c =>
        rw [Option.some_or, ← last]
        exact inline.ending
    have inline' : Inline true (indentedLine text).toList := ⟨ending, fun _ => unbroken'⟩
    have scans' : Scans (indentedLine text).toList found (· = '\n') := by
      rw [kept, String.toList_append]
      exact scans.space.space
    simpa [Text.pieces_of_unbroken unbroken, Text.pieces_of_unbroken unbroken'] using
      Rendered.cons inline' scans' ih

-- The lines with a line feed after each are scanned for themselves.
theorem kinds_closedChars (rendered : Rendered nested lines kinds) (rest : List Char) :
    Token.kinds (closedChars lines ++ rest) = kinds ++ Token.kinds rest := by
  induction rendered with
  | nil => rfl
  | @cons text lines found kinds _ scans _ ih =>
    have lineBreak : Token.kinds ('\n' :: (closedChars lines ++ rest)) =
        .lineBreak :: Token.kinds (closedChars lines ++ rest) :=
      Token.kinds_mark (by decide) rfl (by cases (closedChars lines ++ rest).head? <;> rfl)
    rw [closedChars_append, closedChars_pieces, List.append_assoc, List.append_assoc,
      List.singleton_append, scans '\n' _ rfl, lineBreak, ih, List.append_assoc, List.cons_append]

theorem one {text : String} (inline : Inline nested text.toList)
    (scans : Scans text.toList kinds (· = '\n')) :
    Rendered nested (Text.pieces text) (kinds ++ [.lineBreak]) := by
  simpa using Rendered.cons inline scans .nil

theorem line {text : String} (inline : Inline true text.toList)
    (scans : Scans text.toList kinds (· = '\n')) :
    Rendered nested [text] (kinds ++ [.lineBreak]) := by
  simpa [Text.pieces_of_unbroken (inline.unbroken rfl)] using (one inline scans).mono

theorem keyword (keyword : Keyword) :
    Rendered nested [keyword.spelling] [.keyword keyword, .lineBreak] :=
  line (.of_word (Token.isWord_spelling keyword))
    ((Token.scans_keyword keyword).mono Token.continuesWord_lineFeed)

theorem headed (keyword : Keyword) {text : String} (inline : Inline nested text.toList)
    (filled : text.toList ≠ []) (scans : Scans text.toList kinds (· = '\n')) :
    Rendered nested (Text.pieces (keyword.spelling ++ " " ++ text))
      (.keyword keyword :: kinds ++ [.lineBreak]) :=
  one (inline.headed keyword filled) (scans_headed keyword scans)

-- A keyword and a name.
theorem titled (keyword : Keyword) {id : String} (name : IsName id) :
    Rendered true [keyword.spelling ++ " " ++ id] [.keyword keyword, .name id, .lineBreak] :=
  line ((Inline.of_word name.1).headed keyword name.toList_ne_nil)
    (scans_headed keyword (name.scans.mono Token.continuesWord_lineFeed))

-- A text between keywords.
theorem enclosed (first last : Keyword) {text : String} {allowed : Char → Prop}
    (unbroken : nested = true → '\n' ∉ text.toList) (scans : Scans text.toList kinds allowed)
    (follows : allowed ' ') :
    Rendered nested (Text.pieces (first.spelling ++ " " ++ text ++ " " ++ last.spelling))
      (.keyword first :: (kinds ++ [.keyword last]) ++ [.lineBreak]) := by
  have chars : (text ++ " " ++ last.spelling).toList =
      text.toList ++ ' ' :: last.spelling.toList := by
    simp [String.toList_append]
  have whole : first.spelling ++ " " ++ text ++ " " ++ last.spelling =
      first.spelling ++ " " ++ (text ++ " " ++ last.spelling) := by
    simp [String.append_assoc]
  have inline : Inline nested (text ++ " " ++ last.spelling).toList := by
    rw [chars, List.append_cons]
    refine .append ?_ (.of_word (Token.isWord_spelling last)) (by cases last <;> decide)
    intro deep
    simpa using unbroken deep
  rw [whole]
  refine headed first inline (by simp [chars]) ?_
  rw [chars]
  exact scans.append ((Token.scans_keyword last).mono Token.continuesWord_lineFeed).space follows

end Rendered

end ByNeed
