import ByNeed.Proofs.Grammar.Statement
import ByNeed.Proofs.Rendering.Layout

set_option autoImplicit false

-- The induction is on the derivation by which a statement was read: it holds the names and patterns as the
-- scan found them.
namespace ByNeed

open ByNeed.Parser (breaks)
open Token (Scans IsName continuesWord)

structure Statement.Reread (nested : Bool) (statement : Statement) (kinds : List Token.Kind)
    (statement' : Statement) : Prop where
  rendered : Rendered nested statement.lines (kinds ++ [.lineBreak])
  derives : Form.whole.Derives kinds statement'
  same : statement.same statement' = true

def Statement.ReadsBack (statement : Statement) : Prop :=
  ∀ nested, statement.isPlain nested = true →
    ∃ kinds statement', statement.Reread nested kinds statement'

structure Block.Reread (nested : Bool) (block : Block) (parts : List Part)
    (kinds : List Token.Kind) : Prop where
  rendered : Rendered nested (block.flatMap Statement.lines) kinds
  lines : Lines (parts.map Prod.fst) kinds
  inside : ∀ part ∈ parts, Form.whole.Derives part.1 part.2
  same : Statement.sameBlocks block (parts.map Prod.snd) = true

theorem Lines.cons_line {parts : List (List Token.Kind)} {kinds : List Token.Kind}
    (lines : Lines parts kinds) (part : List Token.Kind) :
    Lines (part :: parts) (part ++ [.lineBreak] ++ kinds) := by
  have apart : Lines (part :: parts) (breaks 0 ++ part ++ .lineBreak :: kinds) :=
    .cons 0 lines.break_cons fun _ => rfl
  simpa [Parser.breaks] using apart

theorem Block.exists_reread {nested : Bool} {block : Block}
    (each : ∀ statement ∈ block, ∃ kinds statement',
      Statement.Reread nested statement kinds statement') :
    ∃ parts kinds, Block.Reread nested block parts kinds := by
  induction block with
  | nil => exact ⟨[], [], .nil, .none 0, nofun, rfl⟩
  | cons first rest ih =>
    obtain ⟨kinds, first', reread⟩ := each first List.mem_cons_self
    obtain ⟨parts, kinds', later⟩ :=
      ih fun statement member => each statement (List.mem_cons_of_mem _ member)
    refine ⟨(kinds, first') :: parts, kinds ++ [.lineBreak] ++ kinds', ?_⟩
    constructor
    case rendered => exact reread.rendered.append later.rendered
    case lines => exact later.lines.cons_line kinds
    case inside => simpa using ⟨reread.derives, fun _ _ => later.inside _⟩
    case same => simpa [Statement.sameBlocks, reread.same] using later.same

theorem Statement.blockLines_eq (block : Block) :
    Statement.blockLines block = (block.flatMap Statement.lines).map indentedLine := by
  induction block with
  | nil => rfl
  | cons first rest ih => simp [Statement.blockLines, ih]

theorem Block.Reread.indent {nested : Bool} {block : Block} {parts : List Part}
    {kinds : List Token.Kind} (reread : Block.Reread true block parts kinds) :
    Rendered nested (Statement.blockLines block) kinds := by
  rw [Statement.blockLines_eq]
  exact reread.rendered.indent.mono

structure CasesReread (nested : Bool) (cases : List (Pattern × Block))
    (cases' : List (Pattern × List Part)) (kinds : List Token.Kind) : Prop where
  rendered : Rendered nested (Statement.casesLines cases) kinds
  layout : Cases (cases'.map fun case => (case.1, case.2.map Prod.fst)) kinds
  inside : ∀ case ∈ cases', ∀ part ∈ case.2, Form.whole.Derives part.1 part.2
  same : Statement.sameCases cases (cases'.map fun case => (case.1, case.2.map Prod.snd)) = true

theorem exists_casesReread {nested : Bool} {cases : List (Pattern × Block)}
    (each : ∀ case ∈ cases, case.1.ReadsBack nested ∧
      ∃ parts kinds, Block.Reread true case.2 parts kinds) :
    ∃ cases' kinds, CasesReread nested cases cases' kinds := by
  induction cases with
  | nil => exact ⟨[], [], .nil, .none, nofun, rfl⟩
  | cons first rest ih =>
    obtain ⟨pattern, block⟩ := first
    obtain ⟨⟨shape, pattern', scans, header, same, inline⟩, parts, kinds, body⟩ :=
      each (pattern, block) List.mem_cons_self
    obtain ⟨cases', kinds', later⟩ := ih fun case member => each case (List.mem_cons_of_mem _ member)
    refine ⟨(pattern', parts) :: cases', .keyword .option ::
      (shape ++ .keyword .consequence :: (.lineBreak :: kinds ++ kinds')), ?_⟩
    constructor
    case rendered =>
      have header := Rendered.enclosed .option .consequence inline.unbroken scans rfl
      simpa [Statement.casesLines, Statement.caseHeader] using
        (header.append body.indent).append later.rendered
    case layout => exact .cons header (.lines body.lines) later.layout
    case inside => exact List.forall_mem_cons.mpr ⟨body.inside, later.inside⟩
    case same => simpa [Statement.sameCases, same, body.same] using later.same

theorem CasesReread.ne_nil {nested : Bool} {cases : List (Pattern × Block)}
    {cases' : List (Pattern × List Part)} {kinds : List Token.Kind}
    (reread : CasesReread nested cases cases' kinds) (nonempty : cases ≠ []) : cases' ≠ [] := by
  rintro rfl
  cases cases with
  | nil => exact nonempty rfl
  | cons first rest => cases reread.same

theorem Expr.Reread.scans_line {nested : Bool} {expr expr' : Expr} {kinds : List Token.Kind}
    (reread : expr.Reread nested kinds expr') : Scans expr.text.toList kinds (· = '\n') := by
  apply reread.scans.mono
  rintro c rfl
  exact Expr.mayPrecede_of_ne (by decide) (by decide)

theorem Expr.Reread.text_ne_nil {nested : Bool} {expr expr' : Expr} {kinds : List Token.Kind}
    (reread : expr.Reread nested kinds expr') : expr.text.toList ≠ [] := by
  obtain ⟨first, rest, spelled, -⟩ := reread.opening
  simp [spelled]

theorem Expr.Reread.loose {nested : Bool} {expr expr' : Expr} {kinds : List Token.Kind}
    (reread : expr.Reread nested kinds expr') : Layer.disjunction.Derives kinds expr' :=
  .loosen (by decide) reread.derives

namespace Statement.Reread

variable {nested : Bool} {value value' : Expr} {source kinds kinds' : List Token.Kind}
  {body body' : Block} {parts parts' : List Part}

theorem assign {id : String} (name : IsName id) (reread : value.Reread nested kinds value') :
    Reread nested (.assign id value) (.name id :: .symbol .assign :: kinds) (.assign id value') := by
  have chars : (id ++ " = " ++ value.text).toList =
      id.toList ++ ' ' :: '=' :: ' ' :: value.text.toList := by
    simp [String.toList_append]
  constructor
  case rendered =>
    apply Rendered.one
    · have split : (id ++ " = " ++ value.text).toList =
          id.toList ++ [' ', '=', ' '] ++ value.text.toList := by
        simp [chars]
      rw [split]
      refine .append ?_ reread.inline reread.text_ne_nil
      intro deep
      simpa using (Inline.of_word name.1).unbroken deep
    · rw [chars]
      have equals := (Expr.Reread.scans_spaced (show Symbol.assign ≠ .dot by decide)).append
        reread.scans_line.space rfl
      exact name.scans.append equals.space (by decide)
  case derives => exact .assign id reread.loose
  case same => simp [Statement.same, reread.same]

theorem print (reread : value.Reread nested kinds value') :
    Reread nested (.print value) (.keyword .print :: kinds) (.print value') where
  rendered := .headed .print reread.inline reread.text_ne_nil reread.scans_line
  derives := .print reread.loose
  same := reread.same

theorem evaluate (reread : value.Reread nested kinds value') :
    Reread nested (.evaluate value) kinds (.evaluate value') where
  rendered := .one reread.inline reread.scans_line
  derives := .evaluate reread.loose
  same := reread.same

theorem rendered_branchHeader (reread : value.Reread nested source value') :
    Rendered nested (Statement.branchHeader value)
      (.keyword .branch :: (source ++ [.keyword .consequence]) ++ [.lineBreak]) :=
  .enclosed .branch .consequence reread.inline.unbroken reread.scans
    (Expr.mayPrecede_of_ne (by decide) (by decide))

theorem branch (reread : value.Reread nested source value')
    (inside : Block.Reread true body parts kinds) :
    Reread nested (.branch value body none)
      (.keyword .branch ::
        (source ++ .keyword .consequence :: .lineBreak :: kinds ++ [.keyword .finish]))
      (.branch value' (parts.map Prod.snd) none) where
  rendered := by
    simpa [Statement.lines] using
      ((rendered_branchHeader reread).append inside.indent).append (.keyword .finish)
  derives := .branch (.consequence reread.loose inside.lines inside.inside)
  same := by simp [Statement.same, reread.same, inside.same]

theorem branchOtherwise (reread : value.Reread nested source value')
    (inside : Block.Reread true body parts kinds) (inside' : Block.Reread true body' parts' kinds') :
    Reread nested (.branch value body (some body'))
      (.keyword .branch :: (source ++ .keyword .consequence :: .lineBreak ::
        (kinds ++ .keyword .otherwise :: .lineBreak :: kinds') ++ [.keyword .finish]))
      (.branch value' (parts.map Prod.snd) (some (parts'.map Prod.snd))) where
  rendered := by
    simpa [Statement.lines] using
      ((rendered_branchHeader reread).append inside.indent).append
        ((Rendered.keyword .otherwise).append (inside'.indent.append (.keyword .finish)))
  derives := .branch (.otherwise reread.loose inside.lines inside.inside inside'.lines inside'.inside)
  same := by simp [Statement.same, reread.same, inside.same, inside'.same]

theorem iterate {id : String} (name : IsName id) (reread : value.Reread nested source value')
    (inside : Block.Reread true body parts kinds) :
    Reread nested (.iterate id value body)
      (.keyword .iterate :: .name id :: .keyword .among ::
        (source ++ .lineBreak :: (kinds ++ [.keyword .finish])))
      (.iterate id value' (parts.map Prod.snd)) := by
  -- After its keyword the header is one text, from the name to the end of the items.
  have header : Rendered nested
      (Text.pieces (Keyword.iterate.spelling ++ " " ++
        (id ++ " " ++ Keyword.among.spelling ++ " " ++ value.text)))
      (.keyword .iterate :: (.name id :: .keyword .among :: source) ++ [.lineBreak]) := by
    have chars : (id ++ " " ++ Keyword.among.spelling ++ " " ++ value.text).toList =
        id.toList ++ ' ' :: (Keyword.among.spelling.toList ++ ' ' :: value.text.toList) := by
      simp [String.toList_append]
    have split : (id ++ " " ++ Keyword.among.spelling ++ " " ++ value.text).toList =
        id.toList ++ ' ' :: (Keyword.among.spelling.toList ++ [' ']) ++ value.text.toList := by
      simp [chars]
    refine .headed .iterate ?_ (by simp [chars]) ?_
    · rw [split]
      refine .append ?_ reread.inline reread.text_ne_nil
      intro deep
      have among : '\n' ∉ Keyword.among.spelling.toList := by decide
      simpa using ⟨(Inline.of_word name.1).unbroken deep, among⟩
    · rw [chars]
      have items := (Token.scans_keyword .among).append reread.scans_line.space (by decide)
      exact name.scans.append items.space (by decide)
  constructor
  case rendered =>
    simpa [Statement.lines, String.append_assoc] using
      (header.append inside.indent).append (.keyword .finish)
  case derives => exact .iterate id reread.loose inside.lines inside.inside
  case same => simp [Statement.same, reread.same, inside.same]

theorem rendered_selectHeader (reread : value.Reread nested source value') :
    Rendered nested (Statement.selectHeader value)
      (.keyword .select :: source ++ [.lineBreak]) :=
  .headed .select reread.inline reread.text_ne_nil reread.scans_line

variable {cases : List (Pattern × Block)} {cases' : List (Pattern × List Part)}

theorem select (reread : value.Reread nested source value')
    (inside : CasesReread nested cases cases' kinds) (nonempty : cases ≠ []) :
    Reread nested (.select value cases none)
      (.keyword .select :: (source ++ .lineBreak :: (breaks 0 ++ (kinds ++ [.keyword .finish]))))
      (.select value' (cases'.map fun case => (case.1, case.2.map Prod.snd)) none) where
  rendered := by
    simpa [Statement.lines, Parser.breaks] using
      ((rendered_selectHeader reread).append inside.rendered).append (.keyword .finish)
  derives := .select reread.loose 0 (inside.ne_nil nonempty) inside.layout inside.inside
  same := by simp [Statement.same, reread.same, inside.same]

theorem selectOtherwise (reread : value.Reread nested source value')
    (inside : CasesReread nested cases cases' kinds) (nonempty : cases ≠ [])
    (inside' : Block.Reread true body parts kinds') :
    Reread nested (.select value cases (some body))
      (.keyword .select :: (source ++ .lineBreak ::
        (breaks 0 ++ (kinds ++ .keyword .otherwise :: (.lineBreak :: kinds' ++ [.keyword .finish])))))
      (.select value' (cases'.map fun case => (case.1, case.2.map Prod.snd))
        (some (parts.map Prod.snd))) where
  rendered := by
    simpa [Statement.lines, Parser.breaks] using
      ((rendered_selectHeader reread).append inside.rendered).append
        ((Rendered.keyword .otherwise).append (inside'.indent.append (.keyword .finish)))
  derives := .selectOtherwise reread.loose 0 (inside.ne_nil nonempty) inside.layout inside.inside
    (.lines inside'.lines) inside'.inside
  same := by simp [Statement.same, reread.same, inside.same, inside'.same]

theorem exists_fields {names : List String} (named : ∀ name ∈ names, IsName name) :
    ∃ kinds, Lines (names.map fieldKinds) kinds ∧
      Rendered nested (names.map fun name => "  " ++ Keyword.field.spelling ++ " " ++ name) kinds := by
  induction names with
  | nil => exact ⟨[], .none 0, .nil⟩
  | cons first rest ih =>
    obtain ⟨kinds, lines, rendered⟩ := ih (List.forall_mem_cons.mp named).2
    have name := (List.forall_mem_cons.mp named).1
    have inline : Inline true (Keyword.field.spelling ++ " " ++ first).toList :=
      (Inline.of_word name.1).headed .field name.toList_ne_nil
    have field : Rendered nested ["  " ++ Keyword.field.spelling ++ " " ++ first]
        (fieldKinds first ++ [.lineBreak]) := by
      have indented := (Rendered.titled .field name).indent
      rw [List.map_singleton, inline.indentedLine_eq] at indented
      simpa [fieldKinds, String.append_assoc] using indented.mono
    exact ⟨_, lines.cons_line _, field.append rendered⟩

theorem define {type : String} {names : List String} (name : IsName type)
    (lines : Lines (names.map fieldKinds) kinds)
    (fields : Rendered nested (names.map fun name => "  " ++ Keyword.field.spelling ++ " " ++ name)
      kinds) :
    Reread nested (.define type names)
      (.keyword .record :: .name type :: .lineBreak :: (kinds ++ [.keyword .finish]))
      (.define type names) where
  rendered := by
    simpa [Statement.lines] using
      ((Rendered.titled .record name).mono.append fields).append (.keyword .finish)
  derives := .define type lines
  same := by simp [Statement.same]

end Statement.Reread

-- The statements of a block stand somewhere among the tokens of the whole, so their names were
-- scanned with it.
theorem Block.exists_reread_of_parts {parts : List Part} {kinds : List Token.Kind}
    (among : ∀ part ∈ parts, part.1 ⊆ kinds)
    (each : ∀ part ∈ parts, (∀ kind ∈ part.1, kind.Named) → part.2.ReadsBack)
    (named : ∀ kind ∈ kinds, kind.Named)
    (plain : Statement.blockIsPlain (parts.map Prod.snd) = true) :
    ∃ parts' kinds', Block.Reread true (parts.map Prod.snd) parts' kinds' := by
  apply Block.exists_reread
  intro statement member
  have plain := Statement.blockIsPlain_iff.mp plain statement member
  obtain ⟨part, inside, rfl⟩ := List.mem_map.mp member
  exact each part inside (fun kind here => named kind (among part inside here)) true plain

theorem Lines.exists_reread {parts : List Part} {kinds : List Token.Kind}
    (lines : Lines (parts.map Prod.fst) kinds)
    (each : ∀ part ∈ parts, (∀ kind ∈ part.1, kind.Named) → part.2.ReadsBack)
    (named : ∀ kind ∈ kinds, kind.Named)
    (plain : Statement.blockIsPlain (parts.map Prod.snd) = true) :
    ∃ parts' kinds', Block.Reread true (parts.map Prod.snd) parts' kinds' :=
  Block.exists_reread_of_parts (fun _ inside => lines.subset (List.mem_map_of_mem inside)) each named
    plain

theorem Body.exists_reread {parts : List Part} {kinds : List Token.Kind}
    (body : Body (parts.map Prod.fst) kinds)
    (each : ∀ part ∈ parts, (∀ kind ∈ part.1, kind.Named) → part.2.ReadsBack)
    (named : ∀ kind ∈ kinds, kind.Named)
    (plain : Statement.blockIsPlain (parts.map Prod.snd) = true) :
    ∃ parts' kinds', Block.Reread true (parts.map Prod.snd) parts' kinds' :=
  Block.exists_reread_of_parts (fun _ inside => body.subset (List.mem_map_of_mem inside)) each named
    plain

theorem Cases.exists_reread {nested : Bool} {cases : List (Pattern × List Part)}
    {kinds : List Token.Kind}
    (layout : Cases (cases.map fun case => (case.1, case.2.map Prod.fst)) kinds)
    (each : ∀ case ∈ cases, ∀ part ∈ case.2, (∀ kind ∈ part.1, kind.Named) → part.2.ReadsBack)
    (named : ∀ kind ∈ kinds, kind.Named)
    (plain : Statement.casesArePlain nested
      (cases.map fun case => (case.1, case.2.map Prod.snd)) = true) :
    ∃ cases' kinds', CasesReread nested (cases.map fun case => (case.1, case.2.map Prod.snd)) cases'
      kinds' := by
  apply exists_casesReread
  intro case member
  have plain := Statement.casesArePlain_iff.mp plain case member
  obtain ⟨case, inside, rfl⟩ := List.mem_map.mp member
  obtain ⟨⟨shape, within, header⟩, among⟩ := layout.subset (List.mem_map_of_mem inside)
  constructor
  · exact header.reads_back (fun kind here => named kind (within here)) plain.1
  · have among : ∀ part ∈ case.2, part.1 ⊆ kinds :=
      fun part here => among _ (List.mem_map_of_mem here)
    exact Block.exists_reread_of_parts among (each case inside) named plain.2

theorem Form.Derives.reads_back {form : Form} {kinds : List Token.Kind} {statement : Statement}
    (derives : form.Derives kinds statement) (named : ∀ kind ∈ kinds, kind.Named) :
    statement.ReadsBack := by
  induction derives with
  | assign id derives =>
    intro nested plain
    rw [List.forall_mem_cons, List.forall_mem_cons] at named
    obtain ⟨_, _, value⟩ := derives.reads_back named.2.2 plain
    exact ⟨_, _, .assign named.1 value⟩
  | print derives =>
    intro nested plain
    obtain ⟨_, _, value⟩ := derives.reads_back (List.forall_mem_cons.mp named).2 plain
    exact ⟨_, _, .print value⟩
  | evaluate derives =>
    intro nested plain
    obtain ⟨_, _, value⟩ := derives.reads_back named plain
    exact ⟨_, _, .evaluate value⟩
  | branch _ ih =>
    rw [List.forall_mem_cons, List.forall_mem_append] at named
    exact ih named.2.1
  | define type fields =>
    intro nested _
    simp only [List.forall_mem_cons, List.forall_mem_append] at named
    have names : ∀ name ∈ _, IsName name := fun name member =>
      named.2.2.2.1 (.name name) (fields.subset (List.mem_map_of_mem member) (by simp [fieldKinds]))
    obtain ⟨kinds, lines, rendered⟩ := Statement.Reread.exists_fields names
    exact ⟨_, _, .define named.2.1 lines rendered⟩
  | iterate id derives layout _ ih =>
    intro nested plain
    simp only [List.forall_mem_cons, List.forall_mem_append] at named
    rw [Statement.isPlain, Bool.and_eq_true] at plain
    obtain ⟨_, _, items⟩ := derives.reads_back named.2.2.2.1 plain.1
    obtain ⟨_, _, body⟩ := layout.exists_reread ih named.2.2.2.2.2.1 plain.2
    exact ⟨_, _, .iterate named.2.1 items body⟩
  | consequence derives layout _ ih =>
    intro nested plain
    simp only [List.forall_mem_cons, List.forall_mem_append] at named
    rw [Statement.isPlain, Bool.and_eq_true] at plain
    obtain ⟨_, _, condition⟩ := derives.reads_back named.1 plain.1
    obtain ⟨_, _, body⟩ := layout.exists_reread ih named.2.2.2 plain.2
    exact ⟨_, _, .branch condition body⟩
  | @elseBranch _ _ nestedKinds _ _ statement derives layout _ further ih ih' =>
    intro nested plain
    simp only [List.forall_mem_cons, List.forall_mem_append] at named
    rw [Statement.isPlain, Bool.and_eq_true, Bool.and_eq_true] at plain
    obtain ⟨_, _, condition⟩ := derives.reads_back named.1 plain.1.1
    obtain ⟨_, _, body⟩ := layout.exists_reread ih named.2.2.2.1 plain.1.2
    -- The further branch is written as the only statement of an alternative.
    have alone : ∀ part ∈ [(nestedKinds, statement)], part.1 ⊆ nestedKinds := by simp
    obtain ⟨_, _, alternative⟩ :=
      Block.exists_reread_of_parts alone (by simpa using ih') named.2.2.2.2.2 plain.2
    exact ⟨_, _, .branchOtherwise condition body alternative⟩
  | otherwise derives layout _ layout' _ ih ih' =>
    intro nested plain
    simp only [List.forall_mem_cons, List.forall_mem_append] at named
    rw [Statement.isPlain, Bool.and_eq_true, Bool.and_eq_true] at plain
    obtain ⟨_, _, condition⟩ := derives.reads_back named.1 plain.1.1
    obtain ⟨_, _, body⟩ := layout.exists_reread ih named.2.2.2.1 plain.1.2
    obtain ⟨_, _, alternative⟩ := layout'.exists_reread ih' named.2.2.2.2.2.2 plain.2
    exact ⟨_, _, .branchOtherwise condition body alternative⟩
  | select derives before nonempty layout _ ih =>
    intro nested plain
    simp only [List.forall_mem_cons, List.forall_mem_append] at named
    rw [Statement.isPlain, Bool.and_eq_true] at plain
    obtain ⟨_, _, scrutinee⟩ := derives.reads_back named.2.1 plain.1
    obtain ⟨_, _, inside⟩ := layout.exists_reread ih named.2.2.2.2.1 plain.2
    exact ⟨_, _, .select scrutinee inside (by simpa using nonempty)⟩
  | selectOtherwise derives before nonempty layout _ layout' _ ih ih' =>
    intro nested plain
    simp only [List.forall_mem_cons, List.forall_mem_append] at named
    rw [Statement.isPlain, Bool.and_eq_true, Bool.and_eq_true] at plain
    obtain ⟨_, _, scrutinee⟩ := derives.reads_back named.2.1 plain.1.1
    obtain ⟨_, _, inside⟩ := layout.exists_reread ih named.2.2.2.2.1 plain.1.2
    obtain ⟨_, _, alternative⟩ := layout'.exists_reread ih' named.2.2.2.2.2.2.1 plain.2
    exact ⟨_, _, .selectOtherwise scrutinee inside (by simpa using nonempty) alternative⟩

theorem Statement.lines_ne_nil (statement : Statement) : statement.lines ≠ [] := by
  cases statement with
  | branch condition body alternative | select condition body alternative =>
    cases alternative <;> simp [Statement.lines]
  | _ => simp [Statement.lines, Text.pieces_ne_nil]

theorem Program.toList_text (program : Program) :
    program.text.toList = closedChars (program.statements.flatMap Statement.lines) := by
  have statement (statement : Statement) :
      (statement.text ++ "\n").toList = closedChars statement.lines := by
    rw [closedChars_eq_intercalate statement.lines_ne_nil, String.toList_append]
    rfl
  have whole : closedChars (program.statements.flatMap Statement.lines) =
      program.statements.flatMap fun statement => closedChars statement.lines :=
    List.flatMap_assoc
  rw [whole, Program.text, String.toList_join, List.flatMap_map]
  simp only [statement]

theorem parse_text_same {source : String} {program : Program}
    (parsed : Program.parse source = .ok program) (plain : program.isPlain = true) :
    ∃ program', Program.parse program.text = .ok program' ∧ program.same program' = true := by
  have named : ∀ kind ∈ (Token.scan source).map Token.kind, kind.Named := by
    rw [Token.map_kind_scan]
    exact Token.named_of_mem_kindsFrom _ 0
  obtain ⟨parts, statements, lines, inside⟩ := Program.derives_of_ofTokens parsed
  have each : ∀ statement ∈ program.statements, ∃ kinds statement',
      Statement.Reread false statement kinds statement' := by
    intro statement member
    have plain : statement.isPlain false = true := List.all_eq_true.mp plain statement member
    rw [statements] at member
    obtain ⟨part, here, rfl⟩ := List.mem_map.mp member
    have among := lines.subset (List.mem_map_of_mem here)
    exact (inside part here).reads_back (fun kind found => named kind (among found)) false plain
  obtain ⟨parts', kinds, reread⟩ := Block.exists_reread each
  have scanned : (Token.scan program.text).map Token.kind = kinds := by
    rw [Token.map_kind_scan, Program.toList_text]
    simpa using reread.rendered.kinds_closedChars []
  have derives : Program.Derives kinds ⟨parts'.map Prod.snd⟩ :=
    ⟨parts', rfl, reread.lines, reread.inside⟩
  rw [← scanned] at derives
  exact ⟨_, Program.ofTokens_of_derives derives, reread.same⟩

-- A string over two lines at top level, a signed pattern, and inside a block a further branch, which
-- moves into an alternative.
theorem parse_text_same_selection :
    ∃ program program',
      Program.parse
        "s = 'a\nb'\natchmerb s\nasecerb -2.5 henterb\nif s henterb\nutifberb s.w henterb\nndeerb\nndeerb" =
          .ok program ∧
      program.isPlain = true ∧
      Program.parse program.text = .ok program' ∧ program.same program' = true := by
  have read : (Program.parse
      "s = 'a\nb'\natchmerb s\nasecerb -2.5 henterb\nif s henterb\nutifberb s.w henterb\nndeerb\nndeerb"
      ).toOption.any Program.isPlain = true := by decide +kernel
  cases parsed : Program.parse
      "s = 'a\nb'\natchmerb s\nasecerb -2.5 henterb\nif s henterb\nutifberb s.w henterb\nndeerb\nndeerb" with
  | error _ =>
    rw [parsed] at read
    cases read
  | ok program =>
    rw [parsed] at read
    obtain ⟨program', parsed', same⟩ := parse_text_same parsed read
    exact ⟨program, program', rfl, read, parsed', same⟩

end ByNeed
