import ByNeed.Token.Lexer
import Mathlib

set_option autoImplicit false

-- The scan of a text splits where a token ends, if the character after it does not belong to its last token.
namespace ByNeed.Token

def kindsFrom : List Char → Nat → List Kind
  | [], _ => []
  | _ :: rest, skip + 1 => kindsFrom rest skip
  | c :: rest, 0 =>
    if isGap c then kindsFrom rest 0
    else
      match commentExtra? c rest with
      | some extra => kindsFrom rest extra
      | none => (Lexeme.of c rest).kind :: kindsFrom rest (Lexeme.of c rest).extra

theorem map_kind_scanFrom (chars : List Char) (skip offset : Nat) (found : Array Token) :
    (scanFrom chars skip offset found).toList.map Token.kind =
      found.toList.map Token.kind ++ kindsFrom chars skip := by
  induction chars generalizing skip offset found with
  | nil => simp [scanFrom, kindsFrom]
  | cons c rest ih =>
    cases skip with
    | succ skip => simp [scanFrom, kindsFrom, ih]
    | zero =>
      by_cases gap : isGap c = true
      · simp [scanFrom, kindsFrom, gap, ih]
      · cases comment : commentExtra? c rest <;> simp [scanFrom, kindsFrom, gap, comment, ih]

def kinds (chars : List Char) : List Kind :=
  kindsFrom chars 0

theorem map_kind_scan (source : String) : (scan source).map Token.kind = kinds source.toList := by
  simp [scan, map_kind_scanFrom, kinds]

@[simp] theorem kinds_nil : kinds [] = [] := rfl

theorem kindsFrom_append (text rest : List Char) :
    kindsFrom (text ++ rest) text.length = kinds rest := by
  induction text with
  | nil => rfl
  | cons c text ih => simpa [kindsFrom] using ih

theorem kinds_gap {c : Char} (gap : isGap c = true) (rest : List Char) :
    kinds (c :: rest) = kinds rest := by
  simp [kinds, kindsFrom, gap]

theorem kinds_token {first : Char} {more rest : List Char} {kind : Kind}
    (solid : isGap first = false) (plain : first ≠ '^')
    (lexeme : Lexeme.of first (more ++ rest) = ⟨kind, more.length⟩) :
    kinds (first :: more ++ rest) = kind :: kinds rest := by
  simp [kinds, kindsFrom, solid, commentExtra?, plain, lexeme, kindsFrom_append]

theorem isDigit_bounds {c : Char} (digit : c.isDigit = true) : 48 ≤ c.toNat ∧ c.toNat ≤ 57 := by
  simp only [Char.isDigit, Bool.and_eq_true, decide_eq_true_eq, UInt32.le_iff_toNat_le,
    ge_iff_le] at digit
  exact digit

theorem startsWord_bounds {c : Char} (starts : startsWord c = true) :
    65 ≤ c.toNat ∧ c.toNat ≤ 122 := by
  simp only [startsWord, Char.isAlpha, Char.isUpper, Char.isLower, Bool.or_eq_true,
    Bool.and_eq_true, decide_eq_true_eq, UInt32.le_iff_toNat_le, ge_iff_le] at starts
  change ((65 ≤ c.toNat ∧ c.toNat ≤ 90) ∨ (97 ≤ c.toNat ∧ c.toNat ≤ 122)) ∨ c = '_' at starts
  rcases starts with (upper | lower) | rfl
  · omega
  · omega
  · decide

-- The visible characters of the first half of the table are no blanks.
theorem isGap_eq_false {c : Char} (low : 33 ≤ c.toNat) (high : c.toNat ≤ 126) :
    isGap c = false := by
  simp only [isGap, Text.isBlank, Bool.and_eq_false_iff, Bool.or_eq_false_iff, decide_eq_false_iff_not,
    beq_eq_false_iff_ne]
  omega

theorem continuesWord_space (c : Char) (space : c = ' ') : continuesWord c = false := by
  rw [space]
  decide

theorem continuesWord_lineFeed (c : Char) (lineFeed : c = '\n') : continuesWord c = false := by
  rw [lineFeed]
  decide

theorem continuesNumber_space (c : Char) (space : c = ' ') : continuesNumber c = false := by
  rw [space]
  decide

theorem takeWhile_append_stop {accepts : Char → Bool} {text rest : List Char} {next : Char}
    (all : text.all accepts = true) (stops : accepts next = false) :
    (text ++ next :: rest).takeWhile accepts = text := by
  rw [List.takeWhile_append_of_pos (by simpa using all)]
  simp [stops]

def Scans (text : List Char) (found : List Kind) (allowed : Char → Prop) : Prop :=
  ∀ next rest, allowed next → kinds (text ++ next :: rest) = found ++ kinds (next :: rest)

namespace Scans

variable {text text' : List Char} {found found' : List Kind} {allowed allowed' : Char → Prop}

theorem nil : Scans [] [] allowed :=
  fun _ _ _ => rfl

-- One text after another, if the second begins with a character that may follow the first.
theorem append {first : Char} (scans : Scans text found allowed)
    (scans' : Scans (first :: text') found' allowed') (follows : allowed first) :
    Scans (text ++ first :: text') (found ++ found') allowed' := by
  intro next rest permitted
  rw [List.append_assoc, List.cons_append, scans first _ follows, ← List.cons_append,
    scans' next rest permitted, List.append_assoc]

theorem mono (scans : Scans text found allowed) (weaker : ∀ c, allowed' c → allowed c) :
    Scans text found allowed' :=
  fun next rest permitted => scans next rest (weaker next permitted)

end Scans

def isMark (c : Char) : Bool :=
  !isQuote c && !startsWord c && !c.isDigit && !isGap c && c ≠ '.' && c ≠ '^'

theorem isMark_iff {c : Char} :
    isMark c = true ↔
      isQuote c = false ∧ startsWord c = false ∧ c.isDigit = false ∧ isGap c = false ∧ c ≠ '.' ∧
        c ≠ '^' := by
  simp [isMark, and_assoc]

theorem kinds_mark {c : Char} {kind : Kind} {rest : List Char} (mark : isMark c = true)
    (symbol : Kind.ofSymbol? c = some kind)
    (alone : rest.head?.bind (Kind.ofSymbolPair? c) = none) :
    kinds (c :: rest) = kind :: kinds rest := by
  obtain ⟨quote, word, digit, gap, dot, caret⟩ := isMark_iff.mp mark
  have lexeme : Lexeme.of c ([] ++ rest) = ⟨kind, ([] : List Char).length⟩ := by
    simp [Lexeme.of, quote, word, digit, dot, Lexeme.symbol, alone, symbol]
  exact kinds_token gap caret lexeme

theorem kinds_pair {first second : Char} {kind : Kind} {rest : List Char}
    (mark : isMark first = true) (pair : Kind.ofSymbolPair? first second = some kind) :
    kinds (first :: second :: rest) = kind :: kinds rest := by
  obtain ⟨quote, word, digit, gap, dot, caret⟩ := isMark_iff.mp mark
  have lexeme : Lexeme.of first ([second] ++ rest) = ⟨kind, [second].length⟩ := by
    simp [Lexeme.of, quote, word, digit, dot, Lexeme.symbol, pair]
  exact kinds_token gap caret lexeme

namespace Scans

variable {text : List Char} {found : List Kind} {allowed : Char → Prop}

theorem space (scans : Scans text found allowed) : Scans (' ' :: text) found allowed := by
  intro next rest permitted
  rw [List.cons_append, kinds_gap (by decide), scans next rest permitted]

-- A mark that no other character extends.
theorem mark {c : Char} {kind : Kind} (mark : isMark c = true)
    (symbol : Kind.ofSymbol? c = some kind) (alone : ∀ next, Kind.ofSymbolPair? c next = none)
    (scans : Scans text found allowed) : Scans (c :: text) (kind :: found) allowed := by
  intro next rest permitted
  have unpaired : (text ++ next :: rest).head?.bind (Kind.ofSymbolPair? c) = none := by
    cases (text ++ next :: rest).head? with
    | none => rfl
    | some following => exact alone following
  rw [List.cons_append, kinds_mark mark symbol unpaired, scans next rest permitted,
    List.cons_append]

-- A mark before a character with which it makes no pair.
theorem lone {c : Char} {kind : Kind} (mark : isMark c = true)
    (symbol : Kind.ofSymbol? c = some kind) :
    Scans [c] [kind] fun next => Kind.ofSymbolPair? c next = none := by
  intro next rest alone
  exact kinds_mark mark symbol (by simpa using alone)

theorem pair {first second : Char} {kind : Kind} (mark : isMark first = true)
    (pair : Kind.ofSymbolPair? first second = some kind) (scans : Scans text found allowed) :
    Scans (first :: second :: text) (kind :: found) allowed := by
  intro next rest permitted
  rw [List.cons_append, List.cons_append, kinds_pair mark pair, scans next rest permitted,
    List.cons_append]

-- A point is a mark unless a digit follows.
theorem dot : Scans ['.'] [.symbol .dot] fun next => next.isDigit = false := by
  intro next rest plain
  have lexeme : Lexeme.of '.' ([] ++ next :: rest) = ⟨.symbol .dot, ([] : List Char).length⟩ := by
    simp [Lexeme.of, isQuote, startsWord, Text.singleQuote, Text.doubleQuote, plain, Lexeme.symbol,
      Kind.ofSymbolPair?, Kind.ofSymbol?]
  exact kinds_token (by decide) (by decide) lexeme

end Scans

def isWord (text : String) : Bool :=
  match text.toList with
  | [] => false
  | first :: more => startsWord first && more.all continuesWord

theorem isWord_iff {text : String} :
    isWord text = true ↔ ∃ first more, text.toList = first :: more ∧ startsWord first = true ∧
      more.all continuesWord = true := by
  unfold isWord
  cases text.toList <;> simp [and_assoc]

theorem isWord_spelling (keyword : Keyword) : isWord keyword.spelling = true := by
  cases keyword <;> decide

theorem startsWord_solid {c : Char} (starts : startsWord c = true) :
    isQuote c = false ∧ isGap c = false ∧ c ≠ '^' := by
  have bounds := startsWord_bounds starts
  refine ⟨?_, isGap_eq_false (by omega) (by omega), ?_⟩
  · simp only [isQuote, Bool.or_eq_false_iff, decide_eq_false_iff_not]
    constructor <;> (rintro rfl; revert bounds; decide)
  · rintro rfl
    exact absurd starts (by decide)

theorem Lexeme.of_word {first : Char} (starts : startsWord first = true) (following : List Char) :
    Lexeme.of first following = .word first following := by
  simp [Lexeme.of, startsWord_solid starts, starts]

theorem scans_word {text : String} (word : isWord text = true) :
    Scans text.toList [Kind.ofWord text] fun next => continuesWord next = false := by
  intro next rest stops
  obtain ⟨first, more, spelled, starts, continues⟩ := isWord_iff.mp word
  obtain ⟨-, gap, caret⟩ := startsWord_solid starts
  have lexeme : Lexeme.of first (more ++ next :: rest) = ⟨.ofWord text, more.length⟩ := by
    simp [Lexeme.of_word starts, Lexeme.word, takeWhile_append_stop continues stops, ← spelled]
  rw [spelled]
  exact kinds_token gap caret lexeme

def IsName (text : String) : Prop :=
  isWord text = true ∧ Kind.ofWord text = .name text

theorem IsName.scans {text : String} (name : IsName text) :
    Scans text.toList [.name text] fun next => continuesWord next = false := by
  simpa [name.2] using scans_word name.1

theorem IsName.toList_ne_nil {text : String} (name : IsName text) : text.toList ≠ [] := by
  obtain ⟨first, more, spelled, -⟩ := isWord_iff.mp name.1
  simp [spelled]

theorem scans_keyword (keyword : Keyword) :
    Scans keyword.spelling.toList [.keyword keyword] fun next => continuesWord next = false := by
  have read : Kind.ofWord keyword.spelling = .keyword keyword := by
    simp [Kind.ofWord, Keyword.ofSpelling?_spelling]
  simpa [read] using scans_word (isWord_spelling keyword)

theorem continuesNumber_bounds {c : Char} (continues : continuesNumber c = true) :
    46 ≤ c.toNat ∧ c.toNat ≤ 57 := by
  simp only [continuesNumber, Bool.or_eq_true, decide_eq_true_eq] at continues
  rcases continues with digit | rfl
  · have bounds := isDigit_bounds digit
    omega
  · decide

theorem continuesNumber_solid {c : Char} (continues : continuesNumber c = true) :
    isQuote c = false ∧ startsWord c = false ∧ isGap c = false ∧ c ≠ '^' := by
  have bounds := continuesNumber_bounds continues
  refine ⟨?_, ?_, isGap_eq_false (by omega) (by omega), ?_⟩
  · simp only [isQuote, Bool.or_eq_false_iff, decide_eq_false_iff_not]
    constructor <;> (rintro rfl; revert bounds; decide)
  · rw [← Bool.not_eq_true]
    intro starts
    have := startsWord_bounds starts
    omega
  · rintro rfl
    revert bounds
    decide

def startsNumber (first : Char) (following : List Char) : Bool :=
  first.isDigit || (first = '.' && following.head?.any Char.isDigit)

theorem continuesNumber_of_startsNumber {first : Char} {following : List Char}
    (starts : startsNumber first following = true) : continuesNumber first = true := by
  simp only [startsNumber, Bool.or_eq_true, Bool.and_eq_true, decide_eq_true_eq] at starts
  rcases starts with digit | ⟨rfl, -⟩ <;> simp [continuesNumber, *]

theorem Lexeme.of_number {first : Char} {following : List Char}
    (starts : startsNumber first following = true) :
    Lexeme.of first following = .number first following := by
  obtain ⟨quote, word, -⟩ := continuesNumber_solid (continuesNumber_of_startsNumber starts)
  rw [startsNumber] at starts
  simp only [Lexeme.of, quote, word, starts]
  rfl

-- Digits with or without a point; a point at the beginning has a digit after it.
theorem scans_number {first : Char} {more : List Char} (all : more.all continuesNumber = true)
    (starts : first.isDigit = true ∨ first = '.' ∧ more.head?.any Char.isDigit = true) :
    Scans (first :: more) [Kind.ofNumber (first :: more)] fun next => continuesNumber next = false := by
  intro next rest stops
  have reads : startsNumber first (more ++ next :: rest) = true := by
    rcases starts with digit | ⟨rfl, digit⟩
    · simp [startsNumber, digit]
    · cases more <;> simp_all [startsNumber]
  obtain ⟨-, -, gap, caret⟩ := continuesNumber_solid (continuesNumber_of_startsNumber reads)
  have lexeme : Lexeme.of first (more ++ next :: rest) = ⟨.ofNumber (first :: more), more.length⟩ := by
    rw [Lexeme.of_number reads, Lexeme.number, takeWhile_append_stop all stops]
  exact kinds_token gap caret lexeme

theorem scans_string {text : String} {allowed : Char → Prop}
    (unquoted : Text.doubleQuote ∉ text.toList) :
    Scans ("\"" ++ text ++ "\"").toList [.string text] allowed := by
  intro next rest _
  have stops : (text.toList ++ Text.doubleQuote :: next :: rest).takeWhile (· ≠ Text.doubleQuote) =
      text.toList := by
    apply takeWhile_append_stop
    · simp only [List.all_eq_true, decide_eq_true_eq]
      rintro c member rfl
      exact unquoted member
    · simp
  have lexeme : Lexeme.of Text.doubleQuote ((text.toList ++ [Text.doubleQuote]) ++ next :: rest) =
      ⟨.string text, (text.toList ++ [Text.doubleQuote]).length⟩ := by
    simp only [Lexeme.of, isQuote, Lexeme.string, List.append_assoc, List.singleton_append, stops]
    simp
  have spelled : ("\"" ++ text ++ "\"").toList =
      Text.doubleQuote :: (text.toList ++ [Text.doubleQuote]) := by
    simp [String.toList_append, Text.doubleQuote]
  rw [spelled]
  exact kinds_token (by decide) (by decide) lexeme

def Kind.Named : Kind → Prop
  | .name text => IsName text
  | _ => True

theorem Kind.named_ofWord {word : String} (spelled : isWord word = true) :
    (Kind.ofWord word).Named := by
  cases kind : Kind.ofWord word with
  | name text =>
    have same : text = word := by
      unfold Kind.ofWord at kind
      split at kind
      · cases kind
      · split at kind <;> cases kind
        rfl
    subst same
    exact ⟨spelled, kind⟩
  | _ => trivial

theorem Kind.named_ofNumber (text : List Char) : (Kind.ofNumber text).Named := by
  unfold Kind.ofNumber
  split <;> trivial

theorem Lexeme.named_string (quote : Char) (following : List Char) :
    (Lexeme.string quote following).kind.Named := by
  simp only [Lexeme.string]
  split <;> trivial

theorem Lexeme.symbol_cases (first : Char) (following : List Char) :
    (Lexeme.symbol first following).kind = .lineBreak ∨
      (∃ mark, (Lexeme.symbol first following).kind = .symbol mark) ∨
        ∃ error, (Lexeme.symbol first following).kind = .illegal error := by
  have pairs {next : Char} {kind : Kind} (pair : Kind.ofSymbolPair? first next = some kind) :
      ∃ mark, kind = .symbol mark := by
    unfold Kind.ofSymbolPair? at pair
    split at pair <;> cases pair <;> exact ⟨_, rfl⟩
  have marks {kind : Kind} (mark : Kind.ofSymbol? first = some kind) :
      kind = .lineBreak ∨ ∃ mark, kind = .symbol mark := by
    unfold Kind.ofSymbol? at mark
    split at mark <;> cases mark <;> first | exact .inl rfl | exact .inr ⟨_, rfl⟩
  simp only [Lexeme.symbol]
  split
  case h_1 kind pair =>
    obtain ⟨next, -, pair⟩ := Option.bind_eq_some_iff.mp pair
    exact .inr (.inl (pairs pair))
  case h_2 =>
    cases mark : Kind.ofSymbol? first with
    | none => exact .inr (.inr ⟨_, rfl⟩)
    | some kind => exact (marks mark).imp_right .inl

theorem Lexeme.named_symbol (first : Char) (following : List Char) :
    (Lexeme.symbol first following).kind.Named := by
  rcases symbol_cases first following with found | ⟨_, found⟩ | ⟨_, found⟩ <;> rw [found] <;> trivial

theorem Lexeme.named_of (first : Char) (following : List Char) :
    (Lexeme.of first following).kind.Named := by
  unfold Lexeme.of
  split
  · exact Lexeme.named_string first following
  · split
    case isTrue starts =>
      refine Kind.named_ofWord (isWord_iff.mpr ⟨first, _, String.toList_ofList, starts, ?_⟩)
      exact List.all_takeWhile
    case isFalse =>
      split
      · exact Kind.named_ofNumber _
      · exact Lexeme.named_symbol first following

theorem exists_of_mem_kindsFrom {chars : List Char} {skip : Nat} {kind : Kind}
    (member : kind ∈ kindsFrom chars skip) :
    ∃ first following, (Lexeme.of first following).kind = kind := by
  induction chars generalizing skip with
  | nil => simp [kindsFrom] at member
  | cons c rest ih =>
    cases skip with
    | succ skip => exact ih member
    | zero =>
      unfold kindsFrom at member
      split at member
      · exact ih member
      · split at member
        · exact ih member
        · rcases List.mem_cons.mp member with rfl | later
          · exact ⟨c, rest, rfl⟩
          · exact ih later

theorem named_of_mem_kindsFrom (chars : List Char) (skip : Nat) :
    ∀ kind ∈ kindsFrom chars skip, kind.Named := by
  intro kind member
  obtain ⟨first, following, rfl⟩ := exists_of_mem_kindsFrom member
  exact Lexeme.named_of first following

end ByNeed.Token
