import ByNeed.Proofs.Token.Lines

set_option autoImplicit false

-- Which texts are tokens is said without the scan.
namespace ByNeed.Token

def isNumeral : List Char → Bool
  | [] => false
  | first :: more => startsNumber first more && more.all continuesNumber

-- A character with which no token of the language begins and that is no mark of its own.
structure Strange (c : Char) : Prop where
  gap : isGap c = false
  quote : isQuote c = false
  word : startsWord c = false
  digit : c.isDigit = false
  lineFeed : c ≠ '\n'
  symbol : ∀ mark : Symbol, mark.spelling ≠ String.singleton c

inductive Spells : String → Kind → Prop
  | name {text : String} (word : isWord text = true)
    (unreserved : ∀ keyword : Keyword, keyword.spelling ≠ text)
    (plain : ∀ value, booleanSpelling value ≠ text) : Spells text (.name text)
  | keyword (word : Keyword) : Spells word.spelling (.keyword word)
  | boolean (value : Bool) : Spells (booleanSpelling value) (.boolean value)
  | integer {text : String} (numeral : isNumeral text.toList = true)
    (points : text.toList.count '.' = 0) : Spells text (.integer text)
  | decimal {text : String} (numeral : isNumeral text.toList = true)
    (points : text.toList.count '.' = 1) : Spells text (.decimal text)
  | malformed {text : String} (numeral : isNumeral text.toList = true)
    (points : 2 ≤ text.toList.count '.') : Spells text (.illegal (.malformedNumber text))
  | string {quote : Char} {text : String} (quotes : isQuote quote = true)
    (inside : quote ∉ text.toList) :
    Spells (String.ofList (quote :: (text.toList ++ [quote]))) (.string text)
  | unterminated {quote : Char} {text : List Char} (quotes : isQuote quote = true)
    (inside : quote ∉ text) : Spells (String.ofList (quote :: text)) unterminated
  | symbol (mark : Symbol) : Spells mark.spelling (.symbol mark)
  | lineBreak : Spells "\n" .lineBreak
  | unknown {c : Char} (strange : Strange c) :
    Spells (String.singleton c) (.illegal (.unknownCharacter c))

structure Lexed (kind : Kind) (first : Char) (more rest : List Char) : Prop where
  solid : isGap first = false
  plain : commentExtra? first (more ++ rest) = none
  lexeme : Lexeme.of first (more ++ rest) = ⟨kind, more.length⟩

section Words

theorem takeWhile_of_all {accepts : Char → Bool} {text : List Char} (all : text.all accepts = true) :
    text.takeWhile accepts = text :=
  List.takeWhile_eq_self_iff.mpr (List.all_eq_true.mp all)

theorem lexed_word {text : String} (word : isWord text = true) :
    ∃ first more, text.toList = first :: more ∧ Lexed (Kind.ofWord text) first more [] := by
  obtain ⟨first, more, spelled, starts, continues⟩ := isWord_iff.mp word
  obtain ⟨-, gap, caret⟩ := startsWord_solid starts
  refine ⟨first, more, spelled, gap, by simp [commentExtra?, caret], ?_⟩
  rw [List.append_nil, Lexeme.of_word starts, Lexeme.word, takeWhile_of_all continues, ← spelled,
    String.ofList_toList]

theorem ofWord_booleanSpelling (value : Bool) :
    isWord (booleanSpelling value) = true ∧ Kind.ofWord (booleanSpelling value) = .boolean value := by
  cases value <;> decide

theorem spells_ofWord {text : String} (word : isWord text = true) : Spells text (Kind.ofWord text) := by
  unfold Kind.ofWord
  cases reserved : Keyword.ofSpelling? text with
  | some keyword =>
    rw [← Keyword.spelling_of_ofSpelling? reserved]
    exact .keyword keyword
  | none =>
    have unreserved : ∀ keyword : Keyword, keyword.spelling ≠ text := by
      intro keyword
      simpa using List.find?_eq_none.mp reserved keyword keyword.mem_all
    cases boolean : booleanOfSpelling? text with
    | some value =>
      have spelled : booleanSpelling value = text := by simpa using List.find?_some boolean
      rw [← spelled]
      exact .boolean value
    | none =>
      have plain : ∀ value, booleanSpelling value ≠ text := by
        intro value
        simpa using List.find?_eq_none.mp boolean value (by cases value <;> decide)
      exact .name word unreserved plain

theorem ofWord_eq_name {text : String} (unreserved : ∀ keyword : Keyword, keyword.spelling ≠ text)
    (plain : ∀ value, booleanSpelling value ≠ text) : Kind.ofWord text = .name text := by
  have reserved : Keyword.ofSpelling? text = none := by
    simpa [Keyword.ofSpelling?] using fun keyword _ => unreserved keyword
  have boolean : booleanOfSpelling? text = none := by
    simpa [booleanOfSpelling?] using ⟨plain false, plain true⟩
  simp [Kind.ofWord, reserved, boolean]

end Words

section Numbers

theorem lexed_numeral {text : List Char} (numeral : isNumeral text = true) :
    ∃ first more, text = first :: more ∧ Lexed (Kind.ofNumber text) first more [] := by
  cases text with
  | nil => cases numeral
  | cons first more =>
    rw [isNumeral, Bool.and_eq_true] at numeral
    obtain ⟨starts, all⟩ := numeral
    obtain ⟨-, -, gap, caret⟩ := continuesNumber_solid (continuesNumber_of_startsNumber starts)
    refine ⟨first, more, rfl, gap, by simp [commentExtra?, caret], ?_⟩
    rw [List.append_nil, Lexeme.of_number starts, Lexeme.number, takeWhile_of_all all]

theorem spells_ofNumber {text : String} (numeral : isNumeral text.toList = true) :
    Spells text (Kind.ofNumber text.toList) := by
  unfold Kind.ofNumber
  rw [String.ofList_toList]
  cases points : text.toList.count '.' with
  | zero => exact .integer numeral points
  | succ count =>
    cases count with
    | zero => exact .decimal numeral points
    | succ count => exact .malformed numeral (by omega)

end Numbers

section Symbols

theorem spells_ofSymbolPair? {first second : Char} {kind : Kind}
    (pair : Kind.ofSymbolPair? first second = some kind) :
    Spells (String.ofList [first, second]) kind := by
  unfold Kind.ofSymbolPair? at pair
  split at pair <;> cases pair
  · exact .symbol .equal
  · exact .symbol .notEqual
  · exact .symbol .increment
  · exact .symbol .decrement

theorem ofSymbol?_eq_some {c : Char} {kind : Kind} (mark : Kind.ofSymbol? c = some kind) :
    (c = '\n' ∧ kind = .lineBreak) ∨
      ∃ mark : Symbol, kind = .symbol mark ∧ mark.spelling = String.singleton c := by
  unfold Kind.ofSymbol? at mark
  split at mark <;> cases mark
  · exact .inl ⟨rfl, rfl⟩
  all_goals exact .inr ⟨_, rfl, by decide⟩

theorem ofSymbol?_eq_none_iff {c : Char} :
    Kind.ofSymbol? c = none ↔ c ≠ '\n' ∧ ∀ mark : Symbol, mark.spelling ≠ String.singleton c := by
  constructor
  · intro none
    constructor
    · rintro rfl
      cases none
    · intro mark same
      have spelled := congrArg String.toList same
      rw [String.toList_singleton] at spelled
      cases mark <;> cases spelled <;> cases none
  · rintro ⟨lineFeed, symbol⟩
    cases found : Kind.ofSymbol? c with
    | none => rfl
    | some kind =>
      rcases ofSymbol?_eq_some found with ⟨same, -⟩ | ⟨mark, -, same⟩
      · exact absurd same lineFeed
      · exact absurd same (symbol mark)

theorem lexed_symbol (mark : Symbol) :
    ∃ first more, mark.spelling.toList = first :: more ∧ Lexed (.symbol mark) first more [] := by
  cases mark <;> exact ⟨_, _, rfl, by decide, by decide, by decide⟩

theorem lexed_strange {c : Char} (strange : Strange c) :
    Lexed (.illegal (.unknownCharacter c)) c [] [] := by
  have mark : Kind.ofSymbol? c = none := ofSymbol?_eq_none_iff.mpr ⟨strange.lineFeed, strange.symbol⟩
  have dot : c ≠ '.' := by
    rintro rfl
    cases mark
  refine ⟨strange.gap, by simp [commentExtra?], ?_⟩
  simp [Lexeme.of, strange.quote, strange.word, strange.digit, dot, Lexeme.symbol, mark]

end Symbols

section Strings

theorem quote_solid {quote : Char} (quotes : isQuote quote = true) :
    isGap quote = false ∧ quote ≠ '^' ∧ quote.utf8Size = 1 := by
  simp only [isQuote, Bool.or_eq_true, decide_eq_true_eq] at quotes
  rcases quotes with rfl | rfl <;> decide

theorem lexed_string {quote : Char} {text : String} (quotes : isQuote quote = true)
    (inside : quote ∉ text.toList) : Lexed (.string text) quote (text.toList ++ [quote]) [] := by
  obtain ⟨gap, caret, -⟩ := quote_solid quotes
  refine ⟨gap, by simp [commentExtra?, caret], ?_⟩
  have stops : (text.toList ++ [quote]).takeWhile (· ≠ quote) = text.toList := by
    apply takeWhile_append_stop
    · exact List.all_eq_true.mpr (accepts_of_absent inside)
    · simp
  rw [List.append_nil, Lexeme.of, if_pos quotes, Lexeme.string, stops]
  simp

theorem lexed_unterminated {quote : Char} {text : List Char} (quotes : isQuote quote = true)
    (inside : quote ∉ text) : Lexed unterminated quote text [] := by
  obtain ⟨gap, caret, -⟩ := quote_solid quotes
  refine ⟨gap, by simp [commentExtra?, caret], ?_⟩
  rw [List.append_nil, Lexeme.of_open quotes inside]

end Strings

theorem Spells.lexed {text : String} {kind : Kind} (spells : Spells text kind) :
    ∃ first more, text.toList = first :: more ∧ Lexed kind first more [] := by
  cases spells with
  | name word unreserved plain => simpa [ofWord_eq_name unreserved plain] using lexed_word word
  | keyword word =>
    have read : Kind.ofWord word.spelling = .keyword word := by
      simp [Kind.ofWord, Keyword.ofSpelling?_spelling]
    simpa [read] using lexed_word (isWord_spelling word)
  | boolean value =>
    obtain ⟨word, read⟩ := ofWord_booleanSpelling value
    simpa [read] using lexed_word word
  | integer numeral points => simpa [Kind.ofNumber, points] using lexed_numeral numeral
  | decimal numeral points => simpa [Kind.ofNumber, points] using lexed_numeral numeral
  | malformed numeral points =>
    have read : Kind.ofNumber text.toList = .illegal (.malformedNumber text) := by
      unfold Kind.ofNumber
      split
      · omega
      · omega
      · rw [String.ofList_toList]
    simpa [read] using lexed_numeral numeral
  | string quotes inside => exact ⟨_, _, String.toList_ofList, lexed_string quotes inside⟩
  | unterminated quotes inside => exact ⟨_, _, String.toList_ofList, lexed_unterminated quotes inside⟩
  | symbol mark => exact lexed_symbol mark
  | lineBreak => exact ⟨'\n', [], rfl, by decide, by decide, lexeme_lineFeed []⟩
  | unknown strange => exact ⟨_, [], String.toList_singleton _, lexed_strange strange⟩

theorem Spells.lexed_of_eq {first : Char} {more : List Char} {kind : Kind}
    (spells : Spells (String.ofList (first :: more)) kind) : Lexed kind first more [] := by
  obtain ⟨first', more', spelled, lexed⟩ := spells.lexed
  rw [String.toList_ofList] at spelled
  cases spelled
  exact lexed

theorem Spells.kind_eq {first : Char} {more : List Char} {kind kind' : Kind}
    (spells : Spells (String.ofList (first :: more)) kind)
    (spells' : Spells (String.ofList (first :: more)) kind') : kind = kind' := by
  have same := spells.lexed_of_eq.lexeme.symm.trans spells'.lexed_of_eq.lexeme
  exact congrArg Lexeme.kind same

theorem Spells.quotes {spelled text : String} (spells : Spells spelled (.string text)) :
    ∃ quote, isQuote quote = true ∧ spelled = String.ofList (quote :: (text.toList ++ [quote])) := by
  cases spells with
  | string quotes inside => exact ⟨_, quotes, rfl⟩

section Found

variable {first : Char} {following : List Char}

theorem take_length_takeWhile (accepts : Char → Bool) (text : List Char) :
    text.take (text.takeWhile accepts).length = text.takeWhile accepts :=
  (List.prefix_iff_eq_take.mp (List.takeWhile_prefix accepts)).symm

theorem exists_closing (shorter : (following.takeWhile (· ≠ first)).length < following.length) :
    ∃ rest, following = following.takeWhile (· ≠ first) ++ first :: rest := by
  induction following with
  | nil => cases shorter
  | cons c following ih =>
    by_cases same : c = first
    · exact ⟨following, by simp [same]⟩
    · simp only [same, ne_eq, not_false_eq_true, decide_true, List.takeWhile_cons_of_pos,
        List.length_cons, Nat.add_lt_add_iff_right] at shorter ⊢
      obtain ⟨rest, spelled⟩ := ih shorter
      exact ⟨rest, by rw [List.cons_append, ← spelled]⟩

theorem Lexeme.spells_string (quotes : isQuote first = true) :
    Spells (String.ofList (first :: following.take (Lexeme.string first following).extra))
      (Lexeme.string first following).kind := by
  have absent : first ∉ following.takeWhile (· ≠ first) := by
    intro member
    simpa using List.mem_takeWhile_imp member
  by_cases closed : (following.takeWhile (· ≠ first)).length < following.length
  · obtain ⟨rest, spelled⟩ := exists_closing closed
    have closing : following.take ((following.takeWhile (· ≠ first)).length + 1) =
        following.takeWhile (· ≠ first) ++ [first] := by
      nth_rewrite 2 [spelled]
      simp [List.take_append]
    simp only [Lexeme.string, closed, if_true, closing]
    have spells := @Spells.string first (String.ofList (following.takeWhile (· ≠ first))) quotes
      (by rwa [String.toList_ofList])
    rwa [String.toList_ofList] at spells
  · simp only [Lexeme.string, closed, if_false, take_length_takeWhile]
    exact .unterminated quotes absent

theorem Lexeme.of_symbol (quotes : ¬ isQuote first = true) (starts : ¬ startsWord first = true)
    (number : ¬ startsNumber first following = true) :
    Lexeme.of first following = .symbol first following := by
  rw [startsNumber] at number
  simp only [Lexeme.of, quotes, starts, number, if_false, Bool.false_eq_true]

theorem Lexeme.spells_symbol (gap : isGap first = false) (quote : isQuote first = false)
    (word : startsWord first = false) (digit : first.isDigit = false) :
    Spells (String.ofList (first :: following.take (Lexeme.symbol first following).extra))
      (Lexeme.symbol first following).kind := by
  unfold Lexeme.symbol
  cases pair : following.head?.bind (Kind.ofSymbolPair? first) with
  | some kind =>
    obtain ⟨second, head, found⟩ := Option.bind_eq_some_iff.mp pair
    obtain ⟨rest, rfl⟩ := List.head?_eq_some_iff.mp head
    exact spells_ofSymbolPair? found
  | none =>
    simp only [List.take_zero]
    cases mark : Kind.ofSymbol? first with
    | some kind =>
      rcases ofSymbol?_eq_some mark with ⟨rfl, rfl⟩ | ⟨symbol, rfl, spelled⟩
      · exact .lineBreak
      · have spells := Spells.symbol symbol
        rwa [spelled, String.singleton_eq_ofList] at spells
    | none =>
      obtain ⟨lineFeed, symbol⟩ := ofSymbol?_eq_none_iff.mp mark
      exact .unknown ⟨gap, quote, word, digit, lineFeed, symbol⟩

theorem isNumeral_takeWhile (starts : startsNumber first following = true) :
    isNumeral (first :: following.takeWhile continuesNumber) = true := by
  rw [isNumeral, List.all_takeWhile, Bool.and_true]
  cases following with
  | nil => exact starts
  | cons next following =>
    by_cases digit : next.isDigit = true
    · have continues : continuesNumber next = true := by simp [continuesNumber, digit]
      simp only [startsNumber, List.head?_cons, Option.any_some, digit, Bool.and_true] at starts
      simp [startsNumber, continues, digit, starts]
    · simp only [startsNumber, List.head?_cons, Option.any_some, digit, Bool.and_false,
        Bool.or_false] at starts
      simp [startsNumber, starts]

theorem Lexeme.spells_of (gap : isGap first = false) :
    Spells (String.ofList (first :: following.take (Lexeme.of first following).extra))
      (Lexeme.of first following).kind := by
  by_cases quotes : isQuote first = true
  · simp only [Lexeme.of, quotes, if_true]
    exact spells_string quotes
  by_cases starts : startsWord first = true
  · rw [of_word starts]
    simp only [Lexeme.word, take_length_takeWhile]
    apply spells_ofWord
    exact isWord_iff.mpr ⟨first, _, String.toList_ofList, starts, List.all_takeWhile⟩
  by_cases number : startsNumber first following = true
  · rw [of_number number]
    simp only [Lexeme.number, take_length_takeWhile]
    have spells := @spells_ofNumber (String.ofList (first :: following.takeWhile continuesNumber))
      (by rw [String.toList_ofList, isNumeral_takeWhile number])
    rwa [String.toList_ofList] at spells
  · rw [of_symbol quotes starts number]
    simp only [startsNumber, Bool.or_eq_true, not_or, Bool.not_eq_true] at number quotes starts
    exact spells_symbol gap quotes starts number.1

theorem Lexeme.extra_le : (Lexeme.of first following).extra ≤ following.length := by
  by_cases closed : (Lexeme.of first following).kind = unterminated
  · obtain ⟨quotes, absent⟩ := Lexeme.quote_of_unterminated closed
    rw [Lexeme.of_open quotes absent]
  · exact (Lexeme.of_stop (show separates ' ' = true by decide) closed []).2

section Longer

variable {text : List Char} (rest : List Char)

theorem length_le_takeWhile {accepts : Char → Bool} (all : text.length ≤ (text.takeWhile accepts).length) :
    text.length ≤ ((text ++ rest).takeWhile accepts).length := by
  have same := (List.takeWhile_prefix accepts).eq_of_length_le all
  rw [List.takeWhile_append_of_pos (List.takeWhile_eq_self_iff.mp same), List.length_append]
  omega

theorem Lexeme.length_le_string (whole : text.length ≤ (Lexeme.string first text).extra) :
    text.length ≤ (Lexeme.string first (text ++ rest)).extra := by
  by_cases shorter : (text.takeWhile (· ≠ first)).length < text.length
  · have closed : (Lexeme.string first text).kind ≠ unterminated := by
      simp only [Lexeme.string, shorter, if_true]
      intro same
      cases same
    rwa [(Lexeme.string_append closed rest).1]
  · have longer := length_le_takeWhile rest (Nat.le_of_not_lt shorter)
    simp only [Lexeme.string]
    split
    · exact Nat.le_succ_of_le longer
    · exact longer

theorem Lexeme.length_le_symbol (whole : text.length ≤ (Lexeme.symbol first text).extra) :
    text.length ≤ (Lexeme.symbol first (text ++ rest)).extra := by
  cases text with
  | nil => exact Nat.zero_le _
  | cons next text =>
    cases pair : Kind.ofSymbolPair? first next with
    | none => simp [Lexeme.symbol, pair] at whole
    | some kind =>
      simp only [Lexeme.symbol, List.head?_cons, Option.bind_some, pair] at whole
      simpa [Lexeme.symbol, pair] using whole

-- A token that takes a whole text takes at least as much when the text goes on.
theorem Lexeme.length_le_extra (whole : text.length ≤ (Lexeme.of first text).extra) :
    text.length ≤ (Lexeme.of first (text ++ rest)).extra := by
  by_cases quotes : isQuote first = true
  · simp only [Lexeme.of, quotes, if_true] at whole ⊢
    exact length_le_string rest whole
  by_cases starts : startsWord first = true
  · rw [of_word starts] at whole ⊢
    exact length_le_takeWhile rest whole
  cases text with
  | nil => exact Nat.zero_le _
  | cons next text =>
    have head : startsNumber first (next :: text ++ rest) = startsNumber first (next :: text) := rfl
    by_cases number : startsNumber first (next :: text) = true
    · rw [of_number number] at whole
      rw [of_number (head.trans number)]
      exact length_le_takeWhile rest whole
    · rw [of_symbol quotes starts number] at whole
      rw [of_symbol quotes starts (head ▸ number)]
      exact length_le_symbol rest whole

end Longer

end Found

section Longest

variable {kind kind' : Kind} {first : Char} {more longer rest : List Char}

theorem Lexed.spells (lexed : Lexed kind first more rest) :
    Spells (String.ofList (first :: more)) kind := by
  have spells := @Lexeme.spells_of first (more ++ rest) lexed.solid
  rwa [lexed.lexeme, List.take_left] at spells

-- The scan takes the longest piece that spells a token.
theorem Lexed.length_le (lexed : Lexed kind first more (longer ++ rest))
    (spells : Spells (String.ofList (first :: (more ++ longer))) kind') : longer = [] := by
  have whole : (more ++ longer).length ≤ (Lexeme.of first (more ++ longer)).extra := by
    have alone := spells.lexed_of_eq.lexeme
    rw [List.append_nil] at alone
    rw [alone]
  have most := Lexeme.length_le_extra rest whole
  simp only [List.append_assoc, lexed.lexeme, List.length_append] at most
  exact List.length_eq_zero_iff.mp (by omega)

-- A string that is not closed takes all that is left.
theorem Lexed.rest_eq_nil (lexed : Lexed unterminated first more rest) : rest = [] := by
  have found : (Lexeme.of first (more ++ rest)).kind = unterminated := by rw [lexed.lexeme]
  obtain ⟨quotes, absent⟩ := Lexeme.quote_of_unterminated found
  have extra := congrArg Lexeme.extra (lexed.lexeme.symm.trans (Lexeme.of_open quotes absent))
  rw [List.length_append] at extra
  exact List.length_eq_zero_iff.mp (by simpa using extra)

end Longest

end ByNeed.Token
