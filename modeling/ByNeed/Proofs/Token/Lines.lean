import ByNeed.Proofs.Grammar.Places
import ByNeed.Proofs.Rendering.Scan

set_option autoImplicit false

-- No token but a string goes beyond a line feed, and a line feed is a token of its own.
namespace ByNeed

def Span.shift (size : Nat) (span : Span) : Span :=
  ⟨span.start + size, span.stop + size⟩

namespace Token

def endsLine (c : Char) : Bool :=
  c = '\n' || c = '\r'

def separates (c : Char) : Bool :=
  c = ' ' || endsLine c

section Lexemes

variable {stop : Char} (apart : separates stop = true)
include apart

theorem eq_of_separates : stop = ' ' ∨ stop = '\n' ∨ stop = '\r' := by
  simpa [separates, endsLine] using apart

-- A character that separates belongs to no word, number or pair.
theorem continues_eq_false : continuesWord stop = false ∧ continuesNumber stop = false ∧
    stop.isDigit = false ∧ isQuote stop = false := by
  rcases eq_of_separates apart with rfl | rfl | rfl <;> decide

theorem ofSymbolPair?_stop (first : Char) : Kind.ofSymbolPair? first stop = none := by
  rcases eq_of_separates apart with rfl | rfl | rfl <;>
    (unfold Kind.ofSymbolPair?; split <;> simp_all)

end Lexemes

theorem takeWhile_stop {accepts : Char → Bool} {stop : Char} (stops : accepts stop = false)
    (text rest : List Char) : (text ++ stop :: rest).takeWhile accepts = text.takeWhile accepts := by
  induction text with
  | nil => simp [stops]
  | cons c text ih => by_cases accepted : accepts c = true <;> simp [accepted, ih]

def unterminated : Kind :=
  .illegal .unterminatedString

-- A string that is closed takes nothing of what comes after it.
theorem Lexeme.string_append {quote : Char} {text : List Char}
    (closed : (Lexeme.string quote text).kind ≠ unterminated) (rest : List Char) :
    Lexeme.string quote (text ++ rest) = Lexeme.string quote text ∧
      (Lexeme.string quote text).extra ≤ text.length := by
  by_cases shorter : (text.takeWhile (· ≠ quote)).length < text.length
  · have same : (text ++ rest).takeWhile (· ≠ quote) = text.takeWhile (· ≠ quote) := by
      rw [List.takeWhile_append, if_neg (Nat.ne_of_lt shorter)]
    have shorter' : (text.takeWhile (· ≠ quote)).length < (text ++ rest).length := by
      rw [List.length_append]
      omega
    simp only [Lexeme.string, same, shorter, shorter', if_true, true_and]
    exact shorter
  · simp only [Lexeme.string, shorter, if_false] at closed
    exact absurd rfl closed

-- What comes after a character that separates does not matter to a token before it.
theorem Lexeme.of_stop {stop : Char} (apart : separates stop = true) {first : Char}
    {text : List Char} (closed : (Lexeme.of first text).kind ≠ unterminated) (rest : List Char) :
    Lexeme.of first (text ++ stop :: rest) = Lexeme.of first text ∧
      (Lexeme.of first text).extra ≤ text.length := by
  obtain ⟨word, number, digit, -⟩ := continues_eq_false apart
  have shorter (accepts : Char → Bool) : (text.takeWhile accepts).length ≤ text.length :=
    (List.takeWhile_prefix accepts).length_le
  have pair : (text ++ stop :: rest).head?.bind (Kind.ofSymbolPair? first) =
      text.head?.bind (Kind.ofSymbolPair? first) := by
    cases text <;> simp [ofSymbolPair?_stop apart]
  have point : (text ++ stop :: rest).head?.any Char.isDigit = text.head?.any Char.isDigit := by
    cases text <;> simp [digit]
  unfold Lexeme.of at *
  rw [point]
  split
  case isTrue quoted =>
    rw [if_pos quoted] at closed
    exact Lexeme.string_append closed (stop :: rest)
  case isFalse =>
    split
    · simp only [Lexeme.word, takeWhile_stop word, true_and]
      exact shorter _
    · split
      · simp only [Lexeme.number, takeWhile_stop number, true_and]
        exact shorter _
      · simp only [Lexeme.symbol, pair, true_and]
        cases text with
        | nil => simp
        | cons next text => split <;> simp

theorem commentExtra?_lineFeed (first : Char) (text rest : List Char) :
    commentExtra? first (text ++ '\n' :: rest) = commentExtra? first text := by
  have head : (text ++ '\n' :: rest).head? = some '^' ↔ text.head? = some '^' := by
    cases text <;> simp
  have comment : (text ++ '\n' :: rest).takeWhile (· ≠ '\n') = text.takeWhile (· ≠ '\n') :=
    takeWhile_stop (by simp) text rest
  simp only [commentExtra?, head, comment]

theorem commentExtra?_le {first : Char} {text : List Char} {extra : Nat}
    (comment : commentExtra? first text = some extra) : extra ≤ text.length := by
  unfold commentExtra? at comment
  split at comment
  · cases comment
    exact (List.takeWhile_prefix _).length_le
  · cases comment

theorem lexeme_lineFeed (rest : List Char) : Lexeme.of '\n' rest = ⟨.lineBreak, 0⟩ := by
  have alone : rest.head?.bind (Kind.ofSymbolPair? '\n') = none := by
    cases rest <;> rfl
  simp [Lexeme.of, isQuote, Text.singleQuote, Text.doubleQuote, startsWord, Lexeme.symbol, alone,
    Kind.ofSymbol?]

-- The induction is on the text before the line feed; the characters to be skipped lie inside it.
theorem scanFrom_lineFeed (text rest : List Char) (skip offset : Nat) (found : Array Token)
    (inside : skip ≤ text.length) (closed : unterminated ∉ kindsFrom text skip) :
    scanFrom (text ++ '\n' :: rest) skip offset found =
      scanFrom rest 0 (offset + byteSize text + 1) ((scanFrom text skip offset found).push
        ⟨.lineBreak, ⟨offset + byteSize text, offset + byteSize text + 1⟩⟩) := by
  induction text generalizing skip offset found with
  | nil =>
    obtain rfl := Nat.le_zero.mp inside
    have solid : isGap '\n' = false := by decide
    have plain : commentExtra? '\n' rest = none := rfl
    simp only [List.nil_append, scanFrom, solid, plain, lexeme_lineFeed, if_false, Bool.false_eq_true,
      List.take_zero]
    rfl
  | cons c text ih =>
    have size : byteSize (c :: text) = c.utf8Size + byteSize text := rfl
    rw [size, ← Nat.add_assoc]
    cases skip with
    | succ skip => exact ih skip _ found (Nat.le_of_succ_le_succ inside) closed
    | zero =>
      rw [List.cons_append, scanFrom, scanFrom, commentExtra?_lineFeed]
      rw [kindsFrom] at closed
      by_cases gap : isGap c = true
      · simp only [gap, if_true] at closed ⊢
        exact ih 0 _ found (Nat.zero_le _) closed
      · simp only [gap, if_false, Bool.false_eq_true] at closed ⊢
        cases comment : commentExtra? c text with
        | some extra =>
          simp only [comment] at closed ⊢
          exact ih extra _ found (commentExtra?_le comment) closed
        | none =>
          simp only [comment, List.mem_cons, not_or] at closed ⊢
          obtain ⟨same, within⟩ := Lexeme.of_stop (show separates '\n' = true by decide)
            (Ne.symm closed.1) rest
          rw [same, List.take_append_of_le_length within]
          exact ih _ _ _ within closed.2

theorem kindsFrom_lineFeed (text rest : List Char) {skip : Nat} (inside : skip ≤ text.length)
    (closed : unterminated ∉ kindsFrom text skip) :
    kindsFrom (text ++ '\n' :: rest) skip = kindsFrom text skip ++ .lineBreak :: kinds rest := by
  have scanned := congrArg (fun tokens => tokens.toList.map Token.kind)
    (scanFrom_lineFeed text rest skip 0 #[] inside closed)
  simpa [map_kind_scanFrom, kinds] using scanned

section Strings

variable {first : Char} {text rest : List Char}

theorem accepts_of_absent (absent : first ∉ text) : ∀ c ∈ text, decide (c ≠ first) = true := by
  intro c member
  have different : c ≠ first := by
    rintro rfl
    exact absent member
  simpa using different

theorem Lexeme.quote_of_unterminated (found : (Lexeme.of first text).kind = unterminated) :
    isQuote first = true ∧ first ∉ text := by
  unfold Lexeme.of at found
  split at found
  case isTrue quoted =>
    refine ⟨quoted, fun member => ?_⟩
    have shorter : (text.takeWhile (· ≠ first)).length < text.length := by
      by_contra whole
      have all := (List.takeWhile_prefix (· ≠ first)).eq_of_length_le (Nat.le_of_not_lt whole)
      simpa using List.takeWhile_eq_self_iff.mp all first member
    simp only [Lexeme.string, shorter, if_true] at found
    cases found
  case isFalse =>
    split at found
    · simp only [Lexeme.word, Kind.ofWord] at found
      split at found
      · cases found
      · split at found <;> cases found
    · split at found
      · simp only [Lexeme.number, Kind.ofNumber] at found
        split at found <;> cases found
      · simp only [Lexeme.symbol] at found
        split at found
        case h_1 pair =>
          obtain ⟨next, -, pair⟩ := Option.bind_eq_some_iff.mp pair
          unfold Kind.ofSymbolPair? at pair
          split at pair <;> cases pair <;> cases found
        case h_2 =>
          unfold Kind.ofSymbol? at found
          split at found <;> cases found

theorem Lexeme.of_open (quoted : isQuote first = true) (absent : first ∉ text) :
    Lexeme.of first text = ⟨unterminated, text.length⟩ := by
  have all : text.takeWhile (· ≠ first) = text :=
    List.takeWhile_eq_self_iff.mpr (accepts_of_absent absent)
  simp only [Lexeme.of, quoted, if_true, Lexeme.string, all, Nat.lt_irrefl, if_false]
  rfl

-- A string that is open at the end of a line is open at the end of the text, or it has a line break.
theorem Lexeme.kind_open (quoted : isQuote first = true) (absent : first ∉ text) :
    (Lexeme.of first (text ++ '\n' :: rest)).kind = unterminated ∨
      rest ≠ [] ∧ ∃ string, (Lexeme.of first (text ++ '\n' :: rest)).kind = .string string ∧
        '\n' ∈ string.toList := by
  have other : first ≠ '\n' := by
    rintro rfl
    cases quoted
  have spelled : (text ++ '\n' :: rest).takeWhile (· ≠ first) =
      text ++ '\n' :: rest.takeWhile (· ≠ first) := by
    rw [List.takeWhile_append_of_pos (accepts_of_absent absent), List.takeWhile_cons_of_pos]
    simpa using other.symm
  simp only [Lexeme.of, quoted, if_true, Lexeme.string, spelled]
  split
  case isFalse => exact .inl rfl
  case isTrue shorter =>
    refine .inr ⟨?_, _, rfl, by simp⟩
    rintro rfl
    simp at shorter

-- A string that is open at the end of the text takes all that follows.
theorem last_of_unterminated {skip : Nat} (found : unterminated ∈ kindsFrom text skip) :
    (kindsFrom text skip).getLast? = some unterminated := by
  induction text generalizing skip with
  | nil => cases found
  | cons c text ih =>
    cases skip with
    | succ skip => exact ih found
    | zero =>
      unfold kindsFrom at found ⊢
      split at found
      case isTrue gap =>
        rw [if_pos gap]
        exact ih found
      case isFalse gap =>
        rw [if_neg gap]
        split at found
        · exact ih found
        · by_cases here : (Lexeme.of c text).kind = unterminated
          · have rest : kindsFrom text (Lexeme.of c text).extra = [] := by
              obtain ⟨quoted, absent⟩ := Lexeme.quote_of_unterminated here
              rw [Lexeme.of_open quoted absent]
              simpa using kindsFrom_append text []
            simp [here, rest]
          · have later : unterminated ∈ kindsFrom text (Lexeme.of c text).extra := by
              simpa [Ne.symm here] using found
            simp [List.getLast?_cons, ih later]

-- The first string that is open at the end of the line starts the same token in a longer text.
theorem exists_open {skip : Nat} (open' : unterminated ∈ kindsFrom text skip) (rest : List Char) :
    ∃ quote more, isQuote quote = true ∧ quote ∉ more ∧
      (Lexeme.of quote (more ++ '\n' :: rest)).kind ∈ kindsFrom (text ++ '\n' :: rest) skip := by
  induction text generalizing skip with
  | nil => cases open'
  | cons c text ih =>
    cases skip with
    | succ skip => exact ih open'
    | zero =>
      rw [List.cons_append]
      unfold kindsFrom at open' ⊢
      rw [commentExtra?_lineFeed]
      split at open'
      case isTrue gap =>
        rw [if_pos gap]
        exact ih open'
      case isFalse gap =>
        rw [if_neg gap]
        split at open'
        · exact ih open'
        · by_cases here : (Lexeme.of c text).kind = unterminated
          · obtain ⟨quoted, absent⟩ := Lexeme.quote_of_unterminated here
            exact ⟨c, text, quoted, absent, List.mem_cons_self⟩
          · obtain ⟨same, -⟩ := Lexeme.of_stop (show separates '\n' = true by decide) here rest
            have later : unterminated ∈ kindsFrom text (Lexeme.of c text).extra := by
              simpa [Ne.symm here] using open'
            obtain ⟨quote, more, quoted, absent, member⟩ := ih later
            rw [same]
            exact ⟨quote, more, quoted, absent, List.mem_cons_of_mem _ member⟩

-- A comment goes to the end of its line.
theorem commentExtra?_unbroken (unbroken : '\n' ∉ text) :
    commentExtra? first text =
      if first = '^' && text.head? = some '^' then some text.length else none := by
  have all : text.takeWhile (· ≠ '\n') = text :=
    List.takeWhile_eq_self_iff.mpr (accepts_of_absent unbroken)
  rw [commentExtra?, all]

theorem kindsFrom_length (text : List Char) : kindsFrom text text.length = [] := by
  have none := kindsFrom_append text []
  rwa [List.append_nil] at none

theorem Lexeme.closed_of_return {c : Char}
    (closed : (Lexeme.of c (text ++ ['\r'])).kind ≠ unterminated) :
    (Lexeme.of c text).kind ≠ unterminated := by
  intro found
  obtain ⟨quoted, absent⟩ := Lexeme.quote_of_unterminated found
  have absent' : c ∉ text ++ ['\r'] := by
    rw [List.mem_append, List.mem_singleton]
    rintro (member | rfl)
    · exact absent member
    · cases quoted
  exact closed (by rw [Lexeme.of_open quoted absent'])

-- A carriage return at the end of a line is no part of a token.
theorem kindsFrom_return {skip : Nat} (unbroken : '\n' ∉ text) (inside : skip ≤ text.length)
    (closed : unterminated ∉ kindsFrom (text ++ ['\r']) skip) :
    kindsFrom (text ++ ['\r']) skip = kindsFrom text skip := by
  induction text generalizing skip with
  | nil =>
    obtain rfl := Nat.le_zero.mp inside
    rfl
  | cons c text ih =>
    have unbroken' : '\n' ∉ text := fun member => unbroken (List.mem_cons_of_mem c member)
    cases skip with
    | succ skip => exact ih unbroken' (Nat.le_of_succ_le_succ inside) closed
    | zero =>
      rw [List.cons_append] at closed ⊢
      unfold kindsFrom at closed ⊢
      split at closed
      case isTrue gap =>
        rw [if_pos gap, if_pos gap]
        exact ih unbroken' (Nat.zero_le _) closed
      case isFalse gap =>
        have head : (text ++ ['\r']).head? = some '^' ↔ text.head? = some '^' := by
          cases text <;> simp
        have unbroken'' : '\n' ∉ text ++ ['\r'] := by simpa using unbroken'
        rw [commentExtra?_unbroken unbroken''] at closed
        rw [if_neg gap, if_neg gap, commentExtra?_unbroken unbroken'', commentExtra?_unbroken unbroken']
        simp only [head] at closed ⊢
        by_cases comment : (decide (c = '^') && decide (text.head? = some '^')) = true
        · simp only [comment, if_true, kindsFrom_length]
        · simp only [comment, if_false, Bool.false_eq_true, List.mem_cons, not_or] at closed ⊢
          have closed' := Lexeme.closed_of_return (Ne.symm closed.1)
          obtain ⟨same, within⟩ := Lexeme.of_stop (show separates '\r' = true by decide) closed' []
          rw [same] at closed ⊢
          rw [ih unbroken' within closed.2]

end Strings

theorem scanFrom_found (text : List Char) (skip offset : Nat) (found : Array Token) :
    scanFrom text skip offset found = found ++ scanFrom text skip offset #[] := by
  induction text generalizing skip offset found with
  | nil => simp [scanFrom]
  | cons c text ih =>
    cases skip with
    | succ skip => exact ih skip _ found
    | zero =>
      rw [scanFrom, scanFrom]
      split
      · exact ih 0 _ found
      · split
        · exact ih _ _ found
        · rw [ih _ _ (found.push _), ih _ _ (#[].push _)]
          simp

theorem scanFrom_shift (size : Nat) (text : List Char) (skip offset : Nat) (found : Array Token) :
    scanFrom text skip (offset + size) (found.map (Token.move (Span.shift size))) =
      (scanFrom text skip offset found).map (Token.move (Span.shift size)) := by
  induction text generalizing skip offset found with
  | nil => rfl
  | cons c text ih =>
    have further : offset + size + c.utf8Size = offset + c.utf8Size + size := by omega
    cases skip with
    | succ skip =>
      rw [scanFrom, scanFrom, further]
      exact ih skip _ found
    | zero =>
      rw [scanFrom, scanFrom, further]
      split
      · exact ih 0 _ found
      · split
        · exact ih _ _ found
        · have stop := Nat.add_right_comm (offset + c.utf8Size) size
            (byteSize (text.take (Lexeme.of c text).extra))
          rw [← ih, Array.map_push]
          simp only [stop]
          rfl

theorem byteSize_toList (text : String) : byteSize text.toList = text.utf8ByteSize := by
  have sizes (chars : List Char) : byteSize chars = (String.ofList chars).utf8ByteSize := by
    induction chars with
    | nil => rfl
    | cons c chars ih =>
      rw [String.ofList_cons, String.utf8ByteSize_append, String.utf8ByteSize_singleton, ← ih]
      rfl
  simpa using sizes text.toList

theorem scan_append {front : String} (broken : front.toList.getLast? = some '\n')
    (closed : unterminated ∉ kinds front.toList) (rest : String) :
    scan (front ++ rest) =
      scan front ++ (scan rest).map (Token.move (Span.shift front.utf8ByteSize)) ∧
    (kinds front.toList).getLast? = some .lineBreak := by
  obtain ⟨text, spelled⟩ := List.getLast?_eq_some_iff.mp broken
  have closed' : unterminated ∉ kindsFrom text 0 := by
    intro open'
    obtain ⟨quote, more, quoted, absent, member⟩ := exists_open open' []
    rcases Lexeme.kind_open quoted absent with same | ⟨none, _⟩
    · rw [same, ← spelled] at member
      exact closed member
    · exact none rfl
  have size : 0 + byteSize text + 1 = front.utf8ByteSize := by
    have spelled' : front = String.ofList text ++ "\n" := by
      apply String.toList_injective
      simp [spelled]
    rw [spelled', String.utf8ByteSize_append, ← byteSize_toList, String.toList_ofList, Nat.zero_add]
    rfl
  constructor
  · have alone := scanFrom_lineFeed text [] 0 0 #[] (Nat.zero_le _) closed'
    have whole := scanFrom_lineFeed text rest.toList 0 0 #[] (Nat.zero_le _) closed'
    have later := scanFrom_shift front.utf8ByteSize rest.toList 0 0 #[]
    rw [size] at whole
    rw [scanFrom, size] at alone
    rw [Nat.zero_add, Array.map_empty] at later
    rw [scan, scan, scan, String.toList_append, spelled, List.append_assoc, List.singleton_append, whole,
      ← alone, scanFrom_found, later]
    simp
  · rw [kinds, spelled, kindsFrom_lineFeed text [] (Nat.zero_le _) closed']
    simp

end Token

end ByNeed
