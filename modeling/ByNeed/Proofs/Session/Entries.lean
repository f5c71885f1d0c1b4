import ByNeed.Proofs.Grammar.Boundaries
import ByNeed.Proofs.Rendering.Layout
import ByNeed.Session.Repl

set_option autoImplicit false

-- Lines are collected as long as more of them are needed, and they are never wrong in another way, because
-- what they have is the beginning of a program.
namespace ByNeed

open ByNeed.Parser (breaks)

-- Lines that are collected into entries, from the lines collected before on, and the statements of all
-- entries.
inductive Entries : String → List String → List Statement → Prop
  | done : Entries "" [] []
  | more {entry line : String} {rest : List String} {statements : List Statement}
    {expected : Expected}
    (ended : Program.parse (entry ++ line ++ "\n") = .error (.endOfInput expected))
    (later : Entries (entry ++ line ++ "\n") rest statements) :
    Entries entry (line :: rest) statements
  | complete {entry line : String} {rest : List String} {program : Program}
    {statements : List Statement} (parsed : Program.parse (entry ++ line ++ "\n") = .ok program)
    (later : Entries "" rest statements) :
    Entries entry (line :: rest) (program.statements ++ statements)

section Lines

def Shut (line : String) : Prop :=
  Token.unterminated ∉ Token.kinds line.toList

def lineKinds (lines : List String) : List Token.Kind :=
  lines.flatMap fun line => Token.kinds line.toList ++ [.lineBreak]

theorem kinds_lines {lines : List String} (shut : ∀ line ∈ lines, Shut line) :
    Token.kinds (closedChars lines) = lineKinds lines := by
  induction lines with
  | nil => rfl
  | cons line rest ih =>
    have here := Token.kindsFrom_lineFeed line.toList (closedChars rest) (Nat.zero_le _)
      (shut line List.mem_cons_self)
    have later := ih fun other member => shut other (List.mem_cons_of_mem _ member)
    simp only [closedChars, lineKinds, List.flatMap_cons, List.append_assoc,
      List.singleton_append] at here later ⊢
    rw [← later]
    exact here

theorem Text.lines_of_unbroken {text : String} (unbroken : '\n' ∉ text.toList) :
    Text.lines text = if text.isEmpty then [] else [text] := by
  simp only [Text.lines, Text.pieces_of_unbroken unbroken, List.dropLast_singleton, List.map_nil,
    List.nil_append, List.getLast?_singleton]
  cases empty : text.isEmpty <;> simp [Option.filter, empty]

theorem Text.lines_cons {piece rest : String} (unbroken : '\n' ∉ piece.toList) :
    Text.lines (piece ++ "\n" ++ rest) = Text.withoutReturn piece :: Text.lines rest := by
  have split : Text.pieces (piece ++ "\n" ++ rest) = piece :: Text.pieces rest := by
    have chars : (piece ++ "\n" ++ rest).toList = piece.toList ++ '\n' :: rest.toList := by simp
    rw [Text.pieces, chars, List.splitOn_append_cons_self_of_not_mem unbroken]
    simp [Text.pieces]
  have filled := Text.pieces_ne_nil rest
  simp only [Text.lines, split, List.dropLast_cons_of_ne_nil filled, List.map_cons, List.cons_append,
    List.getLast?_cons_of_ne_nil filled]

theorem kinds_withoutReturn {piece : String} (unbroken : '\n' ∉ piece.toList) (shut : Shut piece) :
    Token.kinds (Text.withoutReturn piece).toList = Token.kinds piece.toList := by
  rw [Text.toList_withoutReturn]
  by_cases closed : piece.toList.getLast? = some '\r'
  · obtain ⟨text, spelled⟩ := List.getLast?_eq_some_iff.mp closed
    rw [if_pos closed, spelled, List.dropLast_concat]
    rw [Shut, spelled] at shut
    rw [spelled] at unbroken
    have unbroken' : '\n' ∉ text := fun member => unbroken (List.mem_append_left _ member)
    exact (Token.kindsFrom_return unbroken' (Nat.zero_le _) shut).symm
  · rw [if_neg closed]

-- No string goes over the end of a line.
def Inside (text : String) : Prop :=
  ∀ string, .string string ∈ Token.kinds text.toList → '\n' ∉ string.toList

-- A line feed outside strings cuts the text.
theorem Shut.cut {piece rest : String} (shut : Shut (piece ++ "\n" ++ rest))
    (inside : Inside (piece ++ "\n" ++ rest)) :
    Shut piece ∧ Shut rest ∧ Inside rest ∧ Token.kinds (piece ++ "\n" ++ rest).toList =
      Token.kinds piece.toList ++ .lineBreak :: Token.kinds rest.toList := by
  have chars : (piece ++ "\n" ++ rest).toList = piece.toList ++ '\n' :: rest.toList := by simp
  rw [Shut, chars] at shut
  rw [Inside, chars] at inside
  have closed : Shut piece := by
    intro open'
    obtain ⟨quote, more, quoted, absent, member⟩ := Token.exists_open open' rest.toList
    rcases Token.Lexeme.kind_open quoted absent with same | ⟨-, string, same, broken⟩
    · exact shut (same ▸ member)
    · exact inside string (same ▸ member) broken
  have cut := Token.kindsFrom_lineFeed piece.toList rest.toList (Nat.zero_le _) closed
  have later {kind : Token.Kind} (member : kind ∈ Token.kinds rest.toList) :
      kind ∈ Token.kinds (piece.toList ++ '\n' :: rest.toList) := by
    rw [Token.kinds, cut]
    exact List.mem_append_right _ (List.mem_cons_of_mem _ member)
  exact ⟨closed, fun member => shut (later member), fun string member => inside string (later member),
    chars ▸ cut⟩

theorem exists_piece {text : String} (broken : '\n' ∈ text.toList) :
    ∃ piece rest : String, text = piece ++ "\n" ++ rest ∧ '\n' ∉ piece.toList ∧
      rest.toList.length < text.toList.length := by
  obtain ⟨piece, rest, spelled, unbroken⟩ := List.eq_append_cons_of_mem broken
  refine ⟨String.ofList piece, String.ofList rest, ?_, by simpa using unbroken, ?_⟩
  · apply String.toList_injective
    simp [spelled]
  · simp [spelled]
    omega

-- The lines of a text have its tokens between them. The induction is on the size of the text.
theorem lineKinds_lines (text : String) (shut : Shut text) (inside : Inside text) :
    (∀ line ∈ Text.lines text, Shut line) ∧
      ∃ count, lineKinds (Text.lines text) = Token.kinds text.toList ++ breaks count := by
  induction size : text.toList.length using Nat.strong_induction_on generalizing text with
  | _ _ ih =>
    subst size
    by_cases broken : '\n' ∈ text.toList
    · obtain ⟨piece, rest, rfl, unbroken, shorter⟩ := exists_piece broken
      obtain ⟨closed, shut', inside', cut⟩ := shut.cut inside
      obtain ⟨later, count, same⟩ := ih _ shorter rest shut' inside' rfl
      have kinds := kinds_withoutReturn unbroken closed
      have here : Shut (Text.withoutReturn piece) := by
        rw [Shut, kinds]
        exact closed
      rw [Text.lines_cons unbroken]
      refine ⟨List.forall_mem_cons.mpr ⟨here, later⟩, count, ?_⟩
      rw [lineKinds] at same ⊢
      rw [List.flatMap_cons, kinds, cut, same]
      simp
    · rw [Text.lines_of_unbroken broken]
      by_cases empty : text.isEmpty = true
      · obtain rfl := String.isEmpty_iff.mp empty
        exact ⟨by simp, 0, rfl⟩
      · rw [if_neg empty]
        exact ⟨by simpa using shut, 1, by simp [lineKinds, breaks]⟩

end Lines

section Reading

-- The beginning of a program is a program, or more tokens are needed.
theorem Program.ofTokens_front {front rest : List Token} {program : Program} (legible : Legible front)
    (parsed : Program.ofTokens (front ++ rest) = .ok program) :
    (∃ first, Program.ofTokens front = .ok first) ∨
      ∃ expected, Program.ofTokens front = .error (.endOfInput expected) := by
  have predicts := @Parser.predicts_statements (front.length + 1) _ Nat.le_refl []
  cases predicts.verdict front (Nat.lt_succ_self _) legible with
  | reads split takes onward =>
    rw [split]
    exact .inl ⟨_, Parser.ofTokens_of_gives (onward _ rfl)⟩
  | ends fails viable => exact .inr ⟨_, Parser.ofTokens_of_failsWith fails⟩
  | fails split about always viable =>
    rw [split, List.append_assoc, List.cons_append,
      Parser.ofTokens_of_failsWith (always _)] at parsed
    cases parsed

theorem toList_unlines (lines : List String) : (Repl.unlines lines).toList = closedChars lines := by
  simp [Repl.unlines, closedChars, String.toList_join, List.flatMap_map]

theorem unlines_concat (lines : List String) (line : String) :
    Repl.unlines lines ++ line ++ "\n" = Repl.unlines (lines ++ [line]) := by
  apply String.toList_injective
  simp [toList_unlines, closedChars]

theorem map_kind_scan_unlines {lines : List String} (shut : ∀ line ∈ lines, Shut line) :
    (Token.scan (Repl.unlines lines)).map Token.kind = lineKinds lines := by
  rw [Token.map_kind_scan, toList_unlines, kinds_lines shut]

section Split

variable {front rest : List String} {program : Program}

theorem ofTokens_unlines (shut : ∀ line ∈ front ++ rest, Shut line)
    (derives : program.Derives (lineKinds (front ++ rest))) :
    Program.ofTokens (Token.scan (Repl.unlines front) ++ Token.scan (Repl.unlines rest)) =
      .ok program := by
  apply Program.ofTokens_of_derives
  rw [List.map_append,
    map_kind_scan_unlines fun line member => shut line (List.mem_append_left _ member),
    map_kind_scan_unlines fun line member => shut line (List.mem_append_right _ member)]
  rwa [lineKinds, List.flatMap_append] at derives

-- The first lines of a program are a program, or more lines are needed.
theorem parse_front (shut : ∀ line ∈ front ++ rest, Shut line)
    (derives : program.Derives (lineKinds (front ++ rest))) :
    (∃ first, Program.parse (Repl.unlines front) = .ok first) ∨
      ∃ expected, Program.parse (Repl.unlines front) = .error (.endOfInput expected) :=
  Program.ofTokens_front (legible_scan _) (ofTokens_unlines shut derives)

-- The lines after lines that are a program are one too.
theorem derives_rest (shut : ∀ line ∈ front ++ rest, Shut line)
    (derives : program.Derives (lineKinds (front ++ rest))) (filled : front ≠ []) {first : Program}
    (read : Program.parse (Repl.unlines front) = .ok first) :
    ∃ later : Program, later.Derives (lineKinds rest) ∧
      program.statements = first.statements ++ later.statements := by
  have broken : ((Token.scan (Repl.unlines front)).map Token.kind).getLast? = some .lineBreak := by
    rw [map_kind_scan_unlines fun line member => shut line (List.mem_append_left _ member)]
    obtain ⟨held, line, rfl⟩ := List.eq_nil_or_concat front |>.resolve_left filled
    simp [lineKinds]
  have whole := ofTokens_unlines shut derives
  rw [Program.ofTokens_append read broken (legible_scan _)] at whole
  cases parsed : Program.ofTokens (Token.scan (Repl.unlines rest)) with
  | error error =>
    rw [parsed] at whole
    cases whole
  | ok later =>
    rw [parsed] at whole
    cases whole
    have derives' := Program.derives_of_ofTokens parsed
    rw [map_kind_scan_unlines fun line member => shut line (List.mem_append_right _ member)] at derives'
    exact ⟨later, derives', rfl⟩

end Split

-- `held` are the lines of an entry that is not complete.
theorem entries_of_derives {lines : List String} (held : List String) {program : Program}
    (shut : ∀ line ∈ held ++ lines, Shut line) (derives : program.Derives (lineKinds (held ++ lines)))
    (incomplete : held = [] ∨ ∀ first, Program.parse (Repl.unlines held) ≠ .ok first) :
    Entries (Repl.unlines held) lines program.statements := by
  induction lines generalizing held program with
  | nil =>
    rw [← map_kind_scan_unlines shut, List.append_nil] at derives
    have parsed := Program.ofTokens_of_derives derives
    rcases incomplete with rfl | incomplete
    · cases parsed
      exact .done
    · exact absurd parsed (incomplete program)
  | cons line rest ih =>
    have joined : held ++ line :: rest = held ++ [line] ++ rest := by simp
    rw [joined] at shut derives
    have source := unlines_concat held line
    rcases parse_front shut derives with ⟨first, read⟩ | ⟨expected, ended⟩
    · obtain ⟨later, derives', same⟩ := derives_rest shut derives (by simp) read
      have shut' : ∀ other ∈ rest, Shut other :=
        fun other member => shut other (List.mem_append_right _ member)
      rw [same]
      exact .complete (source ▸ read) (ih [] shut' derives' (.inl rfl))
    · have unread : ∀ first, Program.parse (Repl.unlines (held ++ [line])) ≠ .ok first := by
        simp [ended]
      have entries := ih _ shut derives (.inr unread)
      exact .more (source ▸ ended) (source ▸ entries)

theorem entries_of_parse {source : String} {program : Program}
    (parsed : Program.parse source = .ok program) (inside : Inside source) :
    Entries "" (Text.lines source) program.statements := by
  obtain ⟨shut, count, same⟩ := lineKinds_lines source (Program.closed_of_parse parsed) inside
  obtain ⟨parts, statements, lines, each⟩ := Program.derives_of_ofTokens parsed
  rw [Token.map_kind_scan] at lines
  have derives : program.Derives (lineKinds (Text.lines source)) :=
    ⟨parts, statements, same ▸ lines.append_breaks count, each⟩
  exact entries_of_derives [] shut derives (.inl rfl)

end Reading

end ByNeed
