import ByNeed.Proofs.Token.Spelling

set_option autoImplicit false

-- The scan is cut into tokens first, in characters; what this means for places, which count bytes, follows
-- from where each piece stands in the text.
namespace ByNeed

def Span.text (span : Span) (source : String) : String :=
  String.Pos.Raw.extract source ⟨span.start⟩ ⟨span.stop⟩

namespace Token

def IsComment (text : List Char) : Prop :=
  ∃ body, text = '^' :: '^' :: body ∧ '\n' ∉ body

/-- Blanks and comments before some text. A comment goes on until a line feed or the end. -/
inductive Layout : List Char → List Char → Prop
  | nil {after : List Char} : Layout [] after
  | blank {c : Char} {gap after : List Char} (blank : isGap c = true) (layout : Layout gap after) :
    Layout (c :: gap) after
  | comment {comment gap after : List Char} (comments : IsComment comment)
    (ends : ∀ next ∈ (gap ++ after).head?, next = '\n') (layout : Layout gap after) :
    Layout (comment ++ gap) after

def gaps (start stop : Nat) : List Token → List Span
  | [] => [⟨start, stop⟩]
  | token :: rest => ⟨start, token.span.start⟩ :: gaps token.span.stop stop rest

structure Tiling (source : String) (tokens : List Token) : Prop where
  filled : ∀ token ∈ tokens, token.span.start < token.span.stop
  apart : tokens.Pairwise fun earlier later => earlier.span.stop ≤ later.span.start
  inside : ∀ token ∈ tokens, token.span.stop ≤ source.utf8ByteSize
  -- Tokens begin and end between two characters.
  whole : ∀ token ∈ tokens, String.Pos.Raw.IsValid source ⟨token.span.start⟩ ∧
    String.Pos.Raw.IsValid source ⟨token.span.stop⟩
  layout : ∀ gap ∈ gaps 0 source.utf8ByteSize tokens,
    Layout (gap.text source).toList (Span.text ⟨gap.stop, source.utf8ByteSize⟩ source).toList
  spelled : ∀ token ∈ tokens, ∀ kind, Spells (token.span.text source) kind ↔ kind = token.kind
  -- The quotation marks around the text of a string take one byte each.
  quoted : ∀ token ∈ tokens, ∀ text, token.kind = .string text →
    String.Pos.Raw.IsValid source ⟨token.span.start + 1⟩ ∧
      String.Pos.Raw.IsValid source ⟨token.span.stop - 1⟩ ∧
      Span.text ⟨token.span.start + 1, token.span.stop - 1⟩ source = text
  opened : ∀ token ∈ tokens, token.kind = unterminated → token.span.stop = source.utf8ByteSize
  longest : ∀ token ∈ tokens, ∀ stop, token.span.stop < stop → String.Pos.Raw.IsValid source ⟨stop⟩ →
    (∀ kind, ¬ Spells (Span.text ⟨token.span.start, stop⟩ source) kind) ∧
      ¬ IsComment (Span.text ⟨token.span.start, stop⟩ source).toList

section Places

@[simp] theorem byteSize_nil : byteSize [] = 0 :=
  rfl

@[simp] theorem byteSize_cons (c : Char) (text : List Char) :
    byteSize (c :: text) = c.utf8Size + byteSize text :=
  rfl

@[simp] theorem byteSize_append (text text' : List Char) :
    byteSize (text ++ text') = byteSize text + byteSize text' := by
  induction text with
  | nil => simp
  | cons c text ih => rw [List.cons_append, byteSize_cons, byteSize_cons, ih, Nat.add_assoc]

theorem byteSize_pos (c : Char) (text : List Char) : 0 < byteSize (c :: text) := by
  have := c.utf8Size_pos
  rw [byteSize_cons]
  omega

theorem byteSize_eq_utf8Len (text : List Char) : byteSize text = String.utf8Len text := by
  rw [← String.utf8ByteSize_ofList, ← byteSize_toList, String.toList_ofList]

variable {source : String} {front middle rest : List Char}

theorem text_of_split (split : source.toList = front ++ middle ++ rest) :
    Span.text ⟨byteSize front, byteSize front + byteSize middle⟩ source = String.ofList middle := by
  rw [Span.text, ← String.ofList_toList (s := source), split, byteSize_eq_utf8Len, byteSize_eq_utf8Len]
  exact String.extract_of_valid front middle rest

theorem valid_of_split (split : source.toList = front ++ rest) :
    String.Pos.Raw.IsValid source ⟨byteSize front⟩ := by
  rw [String.Pos.Raw.isValid_iff_exists_append]
  refine ⟨String.ofList front, String.ofList rest, ?_, ?_⟩
  · rw [← String.ofList_append, ← split, String.ofList_toList]
  · rw [String.rawEndPos_ofList, byteSize_eq_utf8Len]

theorem exists_split_of_valid {place : Nat} (valid : String.Pos.Raw.IsValid source ⟨place⟩) :
    ∃ front rest, source.toList = front ++ rest ∧ byteSize front = place := by
  obtain ⟨first, second, rfl, same⟩ := String.Pos.Raw.isValid_iff_exists_append.mp valid
  refine ⟨first.toList, second.toList, String.toList_append, ?_⟩
  rw [byteSize_toList]
  exact (congrArg String.Pos.Raw.byteIdx same).symm

end Places

inductive Tiles : Nat → List Char → List Token → Prop
  | nil {offset : Nat} {gap : List Char} (layout : Layout gap []) : Tiles offset gap []
  | cons {offset : Nat} {gap more rest : List Char} {first : Char} {token : Token} {tokens : List Token}
    (layout : Layout gap (first :: (more ++ rest))) (lexed : Lexed token.kind first more rest)
    (start : token.span.start = offset + byteSize gap)
    (stop : token.span.stop = token.span.start + byteSize (first :: more))
    (tiles : Tiles token.span.stop rest tokens) :
    Tiles offset (gap ++ first :: (more ++ rest)) (token :: tokens)

section Scan

variable {offset : Nat} {chars : List Char} {tokens : List Token}

theorem Tiles.blank {c : Char} (gap : isGap c = true) (tiles : Tiles (offset + c.utf8Size) chars tokens) :
    Tiles offset (c :: chars) tokens := by
  cases tiles with
  | nil layout => exact .nil (.blank gap layout)
  | cons layout lexed start stop tiles =>
    rw [← List.cons_append]
    exact .cons (.blank gap layout) lexed (by rw [start, byteSize_cons]; omega) stop tiles

theorem Tiles.comment {comment : List Char} (comments : IsComment comment)
    (ends : ∀ next ∈ chars.head?, next = '\n')
    (tiles : Tiles (offset + byteSize comment) chars tokens) :
    Tiles offset (comment ++ chars) tokens := by
  cases tiles with
  | nil layout => exact .nil (.comment comments (by simpa using ends) layout)
  | cons layout lexed start stop tiles =>
    rw [← List.append_assoc]
    exact .cons (.comment comments ends layout) lexed (by rw [start, byteSize_append]; omega) stop tiles

theorem comment_of_extra {c : Char} {rest : List Char} {extra : Nat}
    (comment : commentExtra? c rest = some extra) :
    IsComment (c :: rest.take extra) ∧ ∀ next ∈ (rest.drop extra).head?, next = '\n' := by
  unfold commentExtra? at comment
  split at comment
  case isFalse => cases comment
  case isTrue opens =>
    cases comment
    simp only [Bool.and_eq_true, decide_eq_true_eq] at opens
    obtain ⟨rfl, head⟩ := opens
    obtain ⟨body, rfl⟩ := List.head?_eq_some_iff.mp head
    rw [take_length_takeWhile, List.takeWhile_cons_of_pos (by decide)]
    constructor
    · refine ⟨_, rfl, fun member => ?_⟩
      simpa using List.mem_takeWhile_imp member
    · intro next first
      by_cases shorter : (body.takeWhile (· ≠ '\n')).length < body.length
      · obtain ⟨rest, spelled⟩ := exists_closing shorter
        rw [List.length_cons, List.drop_succ_cons] at first
        nth_rewrite 2 [spelled] at first
        simpa using first.symm
      · have empty := List.drop_of_length_le (Nat.le_of_not_lt shorter)
        rw [List.length_cons, List.drop_succ_cons, empty] at first
        cases first

-- The characters to be skipped belong to a token or comment that is accounted for.
theorem tiles_scanFrom (chars : List Char) (skip offset : Nat) :
    Tiles (offset + byteSize (chars.take skip)) (chars.drop skip)
      (scanFrom chars skip offset #[]).toList := by
  induction chars generalizing skip offset with
  | nil =>
    rw [List.drop_nil]
    exact .nil .nil
  | cons c rest ih =>
    cases skip with
    | succ skip =>
      rw [List.take_succ_cons, byteSize_cons, ← Nat.add_assoc]
      exact ih skip (offset + c.utf8Size)
    | zero =>
      rw [scanFrom]
      by_cases gap : isGap c = true
      · simp only [gap, if_true]
        exact .blank gap (ih 0 (offset + c.utf8Size))
      · simp only [gap, if_false, Bool.false_eq_true]
        cases comment : commentExtra? c rest with
        | some extra =>
          obtain ⟨comments, ends⟩ := comment_of_extra comment
          have later := ih extra (offset + c.utf8Size)
          rw [Nat.add_assoc, ← byteSize_cons] at later
          have tiles := Tiles.comment comments ends later
          rwa [List.cons_append, List.take_append_drop] at tiles
        | none =>
          have spelled := List.take_append_drop (Lexeme.of c rest).extra rest
          have lexed : Lexed (Lexeme.of c rest).kind c (rest.take (Lexeme.of c rest).extra)
              (rest.drop (Lexeme.of c rest).extra) := by
            refine ⟨by simpa using gap, by rw [spelled, comment], ?_⟩
            rw [spelled, List.length_take_of_le Lexeme.extra_le]
          have later := ih (Lexeme.of c rest).extra (offset + c.utf8Size)
          simp only
          rw [scanFrom_found, Array.toList_append]
          have tiles := @Tiles.cons offset [] _ _ c
            ⟨(Lexeme.of c rest).kind, ⟨offset, offset + c.utf8Size + byteSize _⟩⟩ _ .nil lexed rfl
            (Nat.add_assoc _ _ _) later
          rwa [spelled] at tiles

theorem tiles_scan (source : String) : Tiles 0 source.toList (scan source) :=
  tiles_scanFrom source.toList 0 0

end Scan

inductive Stands (text : List Char) (token : Token) : Prop
  | intro {front more rest : List Char} {first : Char}
    (split : text = front ++ (first :: more) ++ rest) (lexed : Lexed token.kind first more rest)
    (place : token.span = ⟨byteSize front, byteSize front + byteSize (first :: more)⟩)

section Tiles

variable {chars : List Char} {offset : Nat} {tokens : List Token} (tiles : Tiles offset chars tokens)
include tiles

theorem Tiles.stands (front : List Char) (size : byteSize front = offset) :
    ∀ token ∈ tokens, Stands (front ++ chars) token := by
  induction tiles generalizing front with
  | nil => exact nofun
  | @cons offset gap more rest first token tokens layout lexed start stop tiles ih =>
    have here : token.span.start = byteSize (front ++ gap) := by rw [start, byteSize_append, size]
    rw [List.forall_mem_cons]
    constructor
    · refine @Stands.intro _ _ (front ++ gap) more rest first (by simp) lexed ?_
      rw [← here, ← stop]
    · have later := ih (front ++ gap ++ first :: more) (by rw [stop, here, byteSize_append])
      simpa using later

theorem Tiles.start_le : ∀ token ∈ tokens, offset ≤ token.span.start := by
  induction tiles with
  | nil => exact nofun
  | cons layout lexed start stop tiles ih =>
    rw [List.forall_mem_cons]
    constructor
    · omega
    · intro token member
      have := ih token member
      omega

theorem Tiles.apart : tokens.Pairwise fun earlier later => earlier.span.stop ≤ later.span.start := by
  induction tiles with
  | nil => exact .nil
  | cons layout lexed start stop tiles ih => exact .cons tiles.start_le ih

theorem Tiles.layout (front : List Char) (size : byteSize front = offset) {gap : Span}
    (member : gap ∈ gaps offset (byteSize (front ++ chars)) tokens) :
    ∃ before middle after, front ++ chars = before ++ middle ++ after ∧
      gap = ⟨byteSize before, byteSize before + byteSize middle⟩ ∧ Layout middle after := by
  induction tiles generalizing front with
  | @nil offset chars layout =>
    refine ⟨front, chars, [], by simp, ?_, layout⟩
    rw [← byteSize_append]
    simpa [gaps, size] using member
  | @cons offset blanks more rest first token tokens layout lexed start stop tiles ih =>
    rcases List.mem_cons.mp member with rfl | later
    · exact ⟨front, blanks, _, by simp, by rw [start, size], layout⟩
    · have here : byteSize (front ++ blanks ++ first :: more) = token.span.stop := by
        rw [stop, start, byteSize_append, byteSize_append, size]
      have found := ih (front ++ blanks ++ first :: more) here
      simp only [List.append_assoc, List.cons_append] at found later
      simpa using found later

end Tiles

section Stands

variable {source : String} {token : Token} (stands : Stands source.toList token)
include stands

theorem Stands.filled : token.span.start < token.span.stop := by
  obtain ⟨split, lexed, place⟩ := stands
  rw [place]
  exact Nat.lt_add_of_pos_right (byteSize_pos _ _)

theorem Stands.inside : token.span.stop ≤ source.utf8ByteSize := by
  obtain ⟨split, lexed, place⟩ := stands
  rw [place, ← byteSize_toList, split, byteSize_append, byteSize_append]
  exact Nat.le_add_right _ _

theorem Stands.whole : String.Pos.Raw.IsValid source ⟨token.span.start⟩ ∧
    String.Pos.Raw.IsValid source ⟨token.span.stop⟩ := by
  obtain ⟨split, lexed, place⟩ := stands
  rw [place, ← byteSize_append]
  constructor
  · exact valid_of_split (by rw [split, List.append_assoc])
  · exact valid_of_split split

theorem Stands.spelled (kind : Kind) : Spells (token.span.text source) kind ↔ kind = token.kind := by
  obtain ⟨split, lexed, place⟩ := stands
  rw [place, text_of_split split]
  constructor
  · intro spells
    exact spells.kind_eq lexed.spells
  · rintro rfl
    exact lexed.spells

theorem Stands.quoted {text : String} (string : token.kind = .string text) :
    String.Pos.Raw.IsValid source ⟨token.span.start + 1⟩ ∧
      String.Pos.Raw.IsValid source ⟨token.span.stop - 1⟩ ∧
      Span.text ⟨token.span.start + 1, token.span.stop - 1⟩ source = text := by
  obtain @⟨front, more, rest, first, split, lexed, place⟩ := stands
  obtain ⟨quote, quotes, spelled⟩ := (string ▸ lexed.spells).quotes
  obtain ⟨rfl, rfl⟩ := List.cons_eq_cons.mp (String.ofList_injective spelled)
  obtain ⟨-, -, single⟩ := quote_solid quotes
  have inner : source.toList = (front ++ [first]) ++ text.toList ++ (first :: rest) := by simpa using split
  have before : byteSize (front ++ [first]) = byteSize front + 1 := by simp [single]
  have after : byteSize front + byteSize (first :: (text.toList ++ [first])) - 1 =
      byteSize (front ++ [first]) + byteSize text.toList := by
    simp only [byteSize_cons, byteSize_append, byteSize_nil, single]
    omega
  rw [place]
  simp only
  rw [after, ← before]
  refine ⟨valid_of_split (by rw [inner, List.append_assoc]), ?_, ?_⟩
  · rw [← byteSize_append]
    exact valid_of_split inner
  · rw [text_of_split inner, String.ofList_toList]

theorem Stands.opened (open_ : token.kind = unterminated) : token.span.stop = source.utf8ByteSize := by
  obtain ⟨split, lexed, place⟩ := stands
  rw [open_] at lexed
  cases lexed.rest_eq_nil
  rw [place, ← byteSize_toList, split, List.append_nil, byteSize_append]

theorem Stands.longest {stop : Nat} (longer : token.span.stop < stop)
    (valid : String.Pos.Raw.IsValid source ⟨stop⟩) :
    (∀ kind, ¬ Spells (Span.text ⟨token.span.start, stop⟩ source) kind) ∧
      ¬ IsComment (Span.text ⟨token.span.start, stop⟩ source).toList := by
  obtain @⟨front, more, rest, first, split, lexed, place⟩ := stands
  obtain ⟨before, after, cut, rfl⟩ := exists_split_of_valid valid
  rw [place] at longer ⊢
  -- The cut comes after the token, so that it falls into what stands behind it.
  have behind : front ++ (first :: more) <+: before := by
    rcases List.prefix_or_prefix_of_prefix ⟨rest, split.symm⟩ ⟨after, cut.symm⟩ with behind | ahead
    · exact behind
    · obtain ⟨piece, same⟩ := ahead
      have := congrArg byteSize same
      simp only [byteSize_append] at this longer
      omega
  obtain ⟨piece, rfl⟩ := behind
  have following : rest = piece ++ after := by
    rw [split, List.append_assoc (front ++ first :: more)] at cut
    exact List.append_cancel_left cut
  have text : Span.text ⟨byteSize front, byteSize (front ++ (first :: more) ++ piece)⟩ source =
      String.ofList (first :: (more ++ piece)) := by
    rw [List.append_assoc, byteSize_append]
    exact text_of_split (by simpa using cut)
  simp only at longer ⊢
  rw [text]
  rw [following] at lexed
  constructor
  · intro kind spells
    cases lexed.length_le spells
    simp at longer
  · rintro ⟨body, comment, -⟩
    rw [String.toList_ofList] at comment
    obtain ⟨rfl, same⟩ := List.cons_eq_cons.mp comment
    have plain := lexed.plain
    rw [← List.append_assoc, same] at plain
    cases plain

end Stands

section Source

variable {source : String}

theorem stands_scan {token : Token} (member : token ∈ scan source) : Stands source.toList token :=
  (tiles_scan source).stands [] rfl token member

theorem layout_scan {gap : Span} (member : gap ∈ gaps 0 source.utf8ByteSize (scan source)) :
    Layout (gap.text source).toList (Span.text ⟨gap.stop, source.utf8ByteSize⟩ source).toList := by
  rw [← byteSize_toList] at member ⊢
  obtain ⟨before, middle, after, split, rfl, layout⟩ := (tiles_scan source).layout [] rfl member
  rw [List.nil_append] at split
  have remaining : source.toList = (before ++ middle) ++ after ++ [] := by rw [List.append_nil, split]
  rw [text_of_split split, split, ← byteSize_append, byteSize_append (before ++ middle),
    text_of_split remaining, String.toList_ofList, String.toList_ofList]
  exact layout

/-- The tokens of a source text tile it. -/
theorem scan_tiling (source : String) : Tiling source (scan source) where
  filled _ member := (stands_scan member).filled
  apart := (tiles_scan source).apart
  inside _ member := (stands_scan member).inside
  whole _ member := (stands_scan member).whole
  layout _ member := layout_scan member
  spelled _ member := (stands_scan member).spelled
  quoted _ member _ := (stands_scan member).quoted
  opened _ member := (stands_scan member).opened
  longest _ member _ := (stands_scan member).longest

end Source

end Token

end ByNeed
