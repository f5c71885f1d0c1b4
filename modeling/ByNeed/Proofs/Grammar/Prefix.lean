import ByNeed.Grammar.Expr
import ByNeed.Proofs.Grammar.Reading

set_option autoImplicit false

-- If a predictive parser reads a part of some tokens, it reads that part before anything that may follow it.
-- If it misses something at the end, there is something to add. If it reports a token, then what stands
-- before that token can still be completed, but no longer together with the token.
namespace ByNeed

/-- The error is about the token: it carries the token or its place, or the token is an integer that
is out of range. -/
def SyntaxError.About : SyntaxError → Token → Prop
  | .unexpected _ token, found | .notAnExpression token, found | .notAPattern token, found =>
    token = found
  | .lexical error span, found => found = ⟨.illegal error, span⟩
  | .integerOutOfRange negative, found => ∃ digits, found.kind = .integer digits ∧
    (if negative then Decimal.negativeInteger? digits else Decimal.integer? digits) = none
  | .endOfInput _, _ | .malformedFloat, _ => False

theorem SyntaxError.mismatch_about (expected : Expected) (token : Token) :
    (SyntaxError.mismatch expected (some token)).About token := by
  obtain ⟨kind, span⟩ := token
  cases kind <;> rfl

-- Every decimal number among the tokens can be read.
def Legible (tokens : List Token) : Prop :=
  ∀ token ∈ tokens, ∀ text, token.kind = .decimal text → Decimal.float? text ≠ none

theorem Legible.tail {token : Token} {rest : List Token} (legible : Legible (token :: rest)) :
    Legible rest :=
  fun other member => legible other (List.mem_cons_of_mem token member)

theorem Legible.later {front rest : List Token} (legible : Legible (front ++ rest)) : Legible rest :=
  fun token member => legible token (List.mem_append_right front member)

namespace Parser

variable {α β : Type}

section

variable (parser : Nat → Parser α) (follow : List Token → Prop)

def Gives (tokens : List Token) (result : EStateM.Result SyntaxError (List Token) α) : Prop :=
  ∀ fuel, tokens.length < fuel → parser fuel tokens = result

def FailsWith (tokens : List Token) (error : SyntaxError) : Prop :=
  ∀ fuel, tokens.length < fuel → ∃ left, parser fuel tokens = .error error left

-- The parser reads exactly these tokens before anything that may follow.
def Takes (tokens : List Token) (value : α) : Prop :=
  ∀ rest, follow rest → Gives parser (tokens ++ rest) (.ok value rest)

def Viable (tokens : List Token) : Prop :=
  ∃ more value, Takes parser follow (tokens ++ more) value

inductive Verdict (tokens : List Token) : Prop
  | reads {front rest : List Token} {value : α} (split : tokens = front ++ rest)
    (takes : Takes parser follow front value)
    (onward : ∀ rest', rest'.head? = rest.head? → Gives parser (front ++ rest') (.ok value rest'))
  | ends {expected : Expected} (fails : FailsWith parser tokens (.endOfInput expected))
    (viable : Viable parser follow tokens)
  | fails {front rest : List Token} {token : Token} {error : SyntaxError}
    (split : tokens = front ++ token :: rest) (about : error.About token)
    (always : ∀ rest', FailsWith parser (front ++ token :: rest') error)
    (viable : Viable parser follow front)

def Starts (before : List Token → Prop) : Prop :=
  ∃ tokens value, Takes parser follow tokens value ∧ ∀ rest, follow rest → before (tokens ++ rest)

-- The parser can start, and it is predictive on fewer tokens than the limit.
structure Predicts (before : List Token → Prop) (limit : Nat) : Prop where
  starts : Starts parser follow before
  verdict : ∀ tokens, tokens.length < limit → Legible tokens → Verdict parser follow tokens

end

variable {parser parser' : Nat → Parser α} {next : α → Nat → Parser β}
  {before middle follow follow' : List Token → Prop} {tokens front rest : List Token} {value : α}
  {limit : Nat}

def Any (_ : List Token) : Prop := True

theorem Starts.loosen (starts : Starts parser follow before) {before' : List Token → Prop}
    (more : ∀ rest, before rest → before' rest) : Starts parser follow before' := by
  obtain ⟨tokens, value, takes, apart⟩ := starts
  exact ⟨tokens, value, takes, fun rest allowed => more _ (apart rest allowed)⟩

theorem Starts.viable (starts : Starts parser follow before) : Viable parser follow [] := by
  obtain ⟨tokens, value, takes, _⟩ := starts
  exact ⟨tokens, value, takes⟩

theorem Viable.of_takes (takes : Takes parser follow tokens value) : Viable parser follow tokens :=
  ⟨[], value, by simpa using takes⟩

section Sequences

variable {shift : Nat}

theorem Gives.bind_eq (first : Gives parser (front ++ rest) (.ok value rest))
    (consumed : shift ≤ front.length) {fuel : Nat} (enough : (front ++ rest).length < fuel) :
    (parser fuel >>= fun value => next value (fuel - shift)) (front ++ rest) =
        next value (fuel - shift) rest ∧ rest.length < fuel - shift := by
  have ran := first fuel enough
  rw [List.length_append] at enough
  exact ⟨by simp only [Bind.bind, EStateM.bind, ran], by omega⟩

theorem Gives.bind {result : EStateM.Result SyntaxError (List Token) β}
    (first : Gives parser (front ++ rest) (.ok value rest)) (consumed : shift ≤ front.length)
    (second : Gives (next value) rest result) :
    Gives (fun fuel => parser fuel >>= fun value => next value (fuel - shift)) (front ++ rest)
      result := by
  intro fuel enough
  obtain ⟨same, enough'⟩ := first.bind_eq consumed enough
  exact same.trans (second (fuel - shift) enough')

theorem Gives.bind_fails {error : SyntaxError}
    (first : Gives parser (front ++ rest) (.ok value rest)) (consumed : shift ≤ front.length)
    (second : FailsWith (next value) rest error) :
    FailsWith (fun fuel => parser fuel >>= fun value => next value (fuel - shift)) (front ++ rest)
      error := by
  intro fuel enough
  obtain ⟨same, enough'⟩ := first.bind_eq consumed enough
  obtain ⟨left, failed⟩ := second (fuel - shift) enough'
  exact ⟨left, same.trans failed⟩

theorem FailsWith.bind {error : SyntaxError} {next : Nat → α → Parser β}
    (first : FailsWith parser tokens error) :
    FailsWith (fun fuel => parser fuel >>= next fuel) tokens error := by
  intro fuel enough
  obtain ⟨left, ran⟩ := first fuel enough
  exact ⟨left, by simp only [Bind.bind, EStateM.bind, ran]⟩

theorem Takes.bind {tokens' : List Token} {value' : β} (first : Takes parser middle tokens value)
    (consumed : shift ≤ tokens.length) (second : Takes (next value) follow tokens' value')
    (apart : ∀ rest, follow rest → middle (tokens' ++ rest)) :
    Takes (fun fuel => parser fuel >>= fun value => next value (fuel - shift)) follow
      (tokens ++ tokens') value' := by
  intro rest allowed
  rw [List.append_assoc]
  exact (first _ (apart rest allowed)).bind consumed (second rest allowed)

theorem Starts.bind_shift (first : Starts parser middle before)
    (consumes : ∀ tokens value, Takes parser middle tokens value → shift ≤ tokens.length)
    (second : ∀ value, Starts (next value) follow middle) :
    Starts (fun fuel => parser fuel >>= fun value => next value (fuel - shift)) follow before := by
  obtain ⟨tokens, value, takes, apart⟩ := first
  obtain ⟨tokens', value', takes', apart'⟩ := second value
  refine ⟨tokens ++ tokens', value', takes.bind (consumes tokens value takes) takes' apart', ?_⟩
  intro rest allowed
  rw [List.append_assoc]
  exact apart _ (apart' rest allowed)

theorem Starts.bind (first : Starts parser middle before)
    (second : ∀ value, Starts (next value) follow middle) :
    Starts (fun fuel => parser fuel >>= fun value => next value fuel) follow before :=
  @bind_shift _ _ _ _ _ _ _ 0 first (fun _ _ _ => Nat.zero_le _) second

-- After a part that was read for certain, what begins like the rest may stand without further
-- conditions. Only if nothing is added, what may follow the whole has to be able to follow the part.
theorem Takes.bind_onward {tokens' : List Token} {value' : β}
    (takes : Takes parser middle front value)
    (onward : ∀ rest', rest'.head? = rest.head? → Gives parser (front ++ rest') (.ok value rest'))
    (consumed : shift ≤ front.length) (second : Takes (next value) follow tokens' value')
    (same : tokens' ≠ [] → tokens'.head? = rest.head?)
    (empty : tokens' = [] → ∀ rest, follow rest → middle rest) :
    Takes (fun fuel => parser fuel >>= fun value => next value (fuel - shift)) follow
      (front ++ tokens') value' := by
  intro rest' allowed
  rw [List.append_assoc]
  refine Gives.bind ?_ consumed (second rest' allowed)
  cases tokens' with
  | nil => exact takes rest' (empty rfl rest' allowed)
  | cons token tokens' => exact onward _ (by simpa using same (by simp))

theorem Verdict.bind (first : Verdict parser middle tokens)
    (consumes : ∀ tokens value, Takes parser middle tokens value → shift ≤ tokens.length)
    (starts : ∀ value, Starts (next value) follow middle)
    (empty : ∀ value value', Takes (next value) follow [] value' → ∀ rest, follow rest → middle rest)
    (second : ∀ value front rest, tokens = front ++ rest → shift ≤ front.length →
      Verdict (next value) follow rest) :
    Verdict (fun fuel => parser fuel >>= fun value => next value (fuel - shift)) follow tokens := by
  have completes {front : List Token} (viable : Viable parser middle front) :
      Viable (fun fuel => parser fuel >>= fun value => next value (fuel - shift)) follow front := by
    obtain ⟨more, value, takes⟩ := viable
    obtain ⟨tokens', value', later, apart⟩ := starts value
    refine ⟨more ++ tokens', value', ?_⟩
    rw [← List.append_assoc]
    exact takes.bind (consumes _ _ takes) later apart
  cases first with
  | ends fails viable => exact .ends fails.bind (completes viable)
  | fails split about always viable =>
    exact .fails split about (fun rest' => (always rest').bind) (completes viable)
  | @reads front rest value split takes onward =>
    have consumed := consumes front value takes
    have viable {front' more : List Token} {value' : β} (same : front' ≠ [] → front'.head? = rest.head?)
        (later : Takes (next value) follow (front' ++ more) value') :
        Viable (fun fuel => parser fuel >>= fun value => next value (fuel - shift)) follow
          (front ++ front') := by
      cases front' with
      | nil =>
        rw [List.append_nil]
        exact completes (.of_takes takes)
      | cons token front' =>
        refine ⟨more, value', ?_⟩
        rw [List.append_assoc]
        exact takes.bind_onward onward consumed later (fun _ => by simpa using same (by simp)) (by simp)
    subst split
    cases second value front rest rfl consumed with
    | @reads front' rest' value' split' takes' onward' =>
      subst split'
      refine .reads (List.append_assoc front front' rest').symm
        (takes.bind_onward onward consumed takes' (fun other => ?_) ?_) fun rest'' same => ?_
      · simp [List.head?_append_of_ne_nil _ other]
      · rintro rfl
        exact empty value value' takes'
      · rw [List.append_assoc]
        exact (onward _ (by simp [List.head?_append, same])).bind consumed (onward' rest'' same)
    | ends fails viable' =>
      obtain ⟨more, value', later⟩ := viable'
      exact .ends ((onward rest rfl).bind_fails consumed fails) (viable (fun _ => rfl) later)
    | @fails front' rest' token error split' about always viable' =>
      subst split'
      obtain ⟨more, value', later⟩ := viable'
      refine .fails (List.append_assoc front front' _).symm about (fun rest'' => ?_)
        (viable (fun other => ?_) later)
      · rw [List.append_assoc]
        exact (onward _ (by simp [List.head?_append])).bind_fails consumed (always rest'')
      · simp [List.head?_append_of_ne_nil _ other]

end Sequences

def Ample (turns : Nat → Nat) : Prop :=
  ∀ fuel, fuel ≤ turns fuel

section Ample

variable {turns : Nat → Nat} (ample : Ample turns)
include ample

theorem Ample.positive (fuel : Nat) : turns (fuel + 1) = turns (fuel + 1) - 1 + 1 := by
  have := ample (fuel + 1)
  omega

theorem Ample.less : Ample fun fuel => turns (fuel + 1) - 1 :=
  fun fuel => Nat.le_sub_one_of_lt (ample (fuel + 1))

theorem Ample.more : Ample fun fuel => turns (fuel + 1) :=
  fun fuel => Nat.le_trans (Nat.le_succ fuel) (ample (fuel + 1))

end Ample

theorem not_takes_nil (allowed : follow rest) {error : SyntaxError}
    (fails : FailsWith parser rest error) : ¬ Takes parser follow [] value := by
  intro takes
  obtain ⟨left, failed⟩ := fails (rest.length + 1) (Nat.lt_succ_self _)
  have ran := takes rest allowed (rest.length + 1) (Nat.lt_succ_self _)
  rw [List.nil_append, failed] at ran
  cases ran

theorem one_le_length (consumes : ∀ value, ¬ Takes parser follow [] value) :
    ∀ tokens value, Takes parser follow tokens value → 1 ≤ tokens.length := by
  intro tokens value takes
  refine List.length_pos_iff.mpr ?_
  rintro rfl
  exact consumes value takes

theorem Starts.bind_next (first : Starts parser middle before)
    (consumes : ∀ value, ¬ Takes parser middle [] value)
    (second : ∀ value, Starts (next value) follow middle) :
    Starts (fun fuel => parser fuel >>= fun value => next value (fuel - 1)) follow before :=
  first.bind_shift (one_le_length consumes) second

theorem Starts.predicts_zero (starts : Starts parser follow before) :
    Predicts parser follow before 0 :=
  ⟨starts, fun _ short => absurd short (Nat.not_lt_zero _)⟩

namespace Predicts

theorem bind_shift {shift : Nat} (first : Predicts parser middle before (limit + shift))
    (consumes : ∀ tokens value, Takes parser middle tokens value → shift ≤ tokens.length)
    (second : ∀ value, Predicts (next value) follow middle limit)
    (empty : ∀ value value', Takes (next value) follow [] value' → ∀ rest, follow rest → middle rest) :
    Predicts (fun fuel => parser fuel >>= fun value => next value (fuel - shift)) follow before
      (limit + shift) where
  starts := first.starts.bind_shift consumes fun value => (second value).starts
  verdict tokens short legible := by
    apply (first.verdict tokens short legible).bind consumes (fun value => (second value).starts) empty
    rintro value front rest rfl consumed
    rw [List.length_append] at short
    exact (second value).verdict rest (by omega) legible.later

theorem bind (first : Predicts parser middle before limit)
    (second : ∀ value, Predicts (next value) follow middle limit)
    (within : ∀ rest, follow rest → middle rest) :
    Predicts (fun fuel => parser fuel >>= fun value => next value fuel) follow before limit :=
  @bind_shift _ _ _ _ _ _ _ _ 0 first (fun _ _ _ => Nat.zero_le _) second fun _ _ _ => within

theorem bind_needy (first : Predicts parser middle before limit)
    (second : ∀ value, Predicts (next value) follow middle limit) (allowed : follow [])
    (needs : ∀ value, ∃ error, FailsWith (next value) [] error) :
    Predicts (fun fuel => parser fuel >>= fun value => next value fuel) follow before limit := by
  refine @bind_shift _ _ _ _ _ _ _ _ 0 first (fun _ _ _ => Nat.zero_le _) second ?_
  intro value value' takes
  obtain ⟨error, fails⟩ := needs value
  exact absurd takes (not_takes_nil allowed fails)

theorem bind_next (first : Predicts parser middle before (limit + 1))
    (consumes : ∀ value, ¬ Takes parser middle [] value)
    (second : ∀ value, Predicts (next value) follow middle limit)
    (within : ∀ rest, follow rest → middle rest) :
    Predicts (fun fuel => parser fuel >>= fun value => next value (fuel - 1)) follow before
      (limit + 1) :=
  first.bind_shift (one_le_length consumes) second fun _ _ _ => within

theorem loosen (predicts : Predicts parser follow before limit) {before' : List Token → Prop}
    (more : ∀ rest, before rest → before' rest) : Predicts parser follow before' limit where
  starts := predicts.starts.loosen more
  verdict := predicts.verdict

theorem mono (predicts : Predicts parser follow before limit) {limit' : Nat} (less : limit' ≤ limit) :
    Predicts parser follow before limit' where
  starts := predicts.starts
  verdict tokens short legible := predicts.verdict tokens (by omega) legible

end Predicts

theorem Takes.restrict (takes : Takes parser follow tokens value)
    (fewer : ∀ rest, follow' rest → follow rest) : Takes parser follow' tokens value :=
  fun rest allowed => takes rest (fewer rest allowed)

theorem Viable.restrict (viable : Viable parser follow tokens)
    (fewer : ∀ rest, follow' rest → follow rest) : Viable parser follow' tokens := by
  obtain ⟨more, value, takes⟩ := viable
  exact ⟨more, value, takes.restrict fewer⟩

theorem Verdict.restrict (verdict : Verdict parser follow tokens)
    (fewer : ∀ rest, follow' rest → follow rest) : Verdict parser follow' tokens := by
  cases verdict with
  | reads split takes onward => exact .reads split (takes.restrict fewer) onward
  | ends fails viable => exact .ends fails (viable.restrict fewer)
  | fails split about always viable => exact .fails split about always (viable.restrict fewer)

theorem Starts.restrict (starts : Starts parser follow before)
    (fewer : ∀ rest, follow' rest → follow rest) : Starts parser follow' before := by
  obtain ⟨tokens, value, takes, apart⟩ := starts
  exact ⟨tokens, value, takes.restrict fewer, fun rest allowed => apart rest (fewer rest allowed)⟩

theorem Predicts.restrict (predicts : Predicts parser follow before limit)
    (fewer : ∀ rest, follow' rest → follow rest) : Predicts parser follow' before limit where
  starts := predicts.starts.restrict fewer
  verdict tokens short legible := (predicts.verdict tokens short legible).restrict fewer

def Follows (parser parser' : Nat → Parser α) : Prop :=
  ∀ fuel tokens, tokens.length < fuel →
    ∃ fuel', tokens.length < fuel' ∧ parser fuel tokens = parser' fuel' tokens

namespace Follows

theorem of_succ (same : ∀ fuel, parser (fuel + 1) = parser' (fuel + 1)) : Follows parser parser' := by
  intro fuel tokens enough
  cases fuel with
  | zero => cases enough
  | succ fuel => exact ⟨fuel + 1, enough, by rw [same]⟩

theorem of_eq (same : ∀ fuel, parser fuel = parser' fuel) : Follows parser parser' :=
  fun fuel _ enough => ⟨fuel, enough, by rw [same]⟩

theorem more (parser : Nat → Parser α) : Follows (fun fuel => parser (fuel + 1)) parser :=
  fun fuel _ enough => ⟨fuel + 1, Nat.lt_succ_of_lt enough, rfl⟩

theorem ample (parser : Nat → Parser α) {turns : Nat → Nat} (ample : Ample turns) :
    Follows (fun fuel => parser (turns fuel)) parser :=
  fun fuel _ enough => ⟨turns fuel, Nat.lt_of_lt_of_le enough (ample fuel), rfl⟩

variable (follows : Follows parser parser')
include follows

theorem gives {result : EStateM.Result SyntaxError (List Token) α}
    (gives : Gives parser' tokens result) : Gives parser tokens result := by
  intro fuel enough
  obtain ⟨fuel', enough', same⟩ := follows fuel tokens enough
  rw [same]
  exact gives fuel' enough'

theorem failsWith {error : SyntaxError} (fails : FailsWith parser' tokens error) :
    FailsWith parser tokens error := by
  intro fuel enough
  obtain ⟨fuel', enough', same⟩ := follows fuel tokens enough
  rw [same]
  exact fails fuel' enough'

theorem takes (takes : Takes parser' follow tokens value) : Takes parser follow tokens value :=
  fun rest allowed => follows.gives (takes rest allowed)

theorem viable (viable : Viable parser' follow tokens) : Viable parser follow tokens := by
  obtain ⟨more, value, takes⟩ := viable
  exact ⟨more, value, follows.takes takes⟩

theorem verdict (verdict : Verdict parser' follow tokens) : Verdict parser follow tokens := by
  cases verdict with
  | reads split takes onward =>
    exact .reads split (follows.takes takes) fun rest same => follows.gives (onward rest same)
  | ends fails viable => exact .ends (follows.failsWith fails) (follows.viable viable)
  | fails split about always viable =>
    exact .fails split about (fun rest => follows.failsWith (always rest)) (follows.viable viable)

theorem starts (starts : Starts parser' follow before) : Starts parser follow before := by
  obtain ⟨tokens, value, takes, apart⟩ := starts
  exact ⟨tokens, value, follows.takes takes, apart⟩

theorem predicts (predicts : Predicts parser' follow before limit) :
    Predicts parser follow before limit where
  starts := follows.starts predicts.starts
  verdict tokens short legible := follows.verdict (predicts.verdict tokens short legible)

end Follows

section Heads

section Prepend

-- After the tokens in front, one parser goes on as the other one.
variable (nonempty : front ≠ [])
  (same : ∀ fuel rest, parser (fuel + 1) (front ++ rest) = parser' fuel rest)
include nonempty same

theorem prepend_eq {fuel : Nat} (enough : (front ++ rest).length < fuel) :
    parser fuel (front ++ rest) = parser' (fuel - 1) rest ∧ rest.length < fuel - 1 := by
  have positive := List.length_pos_iff.mpr nonempty
  rw [List.length_append] at enough
  refine ⟨?_, by omega⟩
  rw [← same, Nat.sub_add_cancel (by omega)]

theorem Gives.prepend {result : EStateM.Result SyntaxError (List Token) α}
    (gives : Gives parser' rest result) : Gives parser (front ++ rest) result := by
  intro fuel enough
  obtain ⟨equal, enough'⟩ := prepend_eq nonempty same enough
  exact equal.trans (gives (fuel - 1) enough')

theorem FailsWith.prepend {error : SyntaxError} (fails : FailsWith parser' rest error) :
    FailsWith parser (front ++ rest) error := by
  intro fuel enough
  obtain ⟨equal, enough'⟩ := prepend_eq nonempty same enough
  obtain ⟨left, failed⟩ := fails (fuel - 1) enough'
  exact ⟨left, equal.trans failed⟩

theorem Takes.prepend (takes : Takes parser' follow tokens value) :
    Takes parser follow (front ++ tokens) value := by
  intro rest allowed
  rw [List.append_assoc]
  exact (takes rest allowed).prepend nonempty same

theorem Viable.prepend (viable : Viable parser' follow tokens) :
    Viable parser follow (front ++ tokens) := by
  obtain ⟨more, value, takes⟩ := viable
  refine ⟨more, value, ?_⟩
  rw [List.append_assoc]
  exact takes.prepend nonempty same

theorem Verdict.prepend (verdict : Verdict parser' follow tokens) :
    Verdict parser follow (front ++ tokens) := by
  cases verdict with
  | ends fails viable => exact .ends (fails.prepend nonempty same) (viable.prepend nonempty same)
  | @fails front' rest token error split about always viable =>
    subst split
    refine .fails (List.append_assoc front front' _).symm about (fun rest' => ?_)
      (viable.prepend nonempty same)
    rw [List.append_assoc]
    exact (always rest').prepend nonempty same
  | @reads front' rest value split takes onward =>
    subst split
    refine .reads (List.append_assoc front front' rest).symm (takes.prepend nonempty same) ?_
    intro rest' like
    rw [List.append_assoc]
    exact (onward rest' like).prepend nonempty same

end Prepend

theorem Takes.cons {token : Token}
    (same : ∀ fuel rest, parser (fuel + 1) (token :: rest) = parser' fuel rest)
    (takes : Takes parser' follow tokens value) : Takes parser follow (token :: tokens) value :=
  takes.prepend (List.cons_ne_nil token []) same

theorem Verdict.cons {token : Token}
    (same : ∀ fuel rest, parser (fuel + 1) (token :: rest) = parser' fuel rest)
    (verdict : Verdict parser' follow tokens) : Verdict parser follow (token :: tokens) :=
  verdict.prepend (List.cons_ne_nil token []) same

theorem Gives.congr (same : ∀ fuel, parser (fuel + 1) tokens = parser' (fuel + 1) tokens)
    {result : EStateM.Result SyntaxError (List Token) α} (gives : Gives parser' tokens result) :
    Gives parser tokens result := by
  intro fuel enough
  cases fuel with
  | zero => cases enough
  | succ fuel => exact (same fuel).trans (gives (fuel + 1) enough)

theorem FailsWith.congr (same : ∀ fuel, parser (fuel + 1) tokens = parser' (fuel + 1) tokens)
    {error : SyntaxError} (fails : FailsWith parser' tokens error) :
    FailsWith parser tokens error := by
  intro fuel enough
  cases fuel with
  | zero => cases enough
  | succ fuel =>
    obtain ⟨left, failed⟩ := fails (fuel + 1) enough
    exact ⟨left, (same fuel).trans failed⟩

-- The one parser does what the other one does, on tokens that begin like these.
theorem Verdict.of_head
    (same : ∀ fuel tokens', tokens'.head? = tokens.head? →
      parser (fuel + 1) tokens' = parser' (fuel + 1) tokens')
    (empty : ∀ value, Takes parser' follow [] value → Takes parser follow [] value)
    (viable : Viable parser follow []) (verdict : Verdict parser' follow tokens) :
    Verdict parser follow tokens := by
  have gives {tokens' : List Token} {result : EStateM.Result SyntaxError (List Token) α}
      (like : tokens'.head? = tokens.head?) (gives : Gives parser' tokens' result) :
      Gives parser tokens' result := gives.congr fun fuel => same fuel tokens' like
  have failsWith {tokens' : List Token} {error : SyntaxError} (like : tokens'.head? = tokens.head?)
      (fails : FailsWith parser' tokens' error) : FailsWith parser tokens' error :=
    fails.congr fun fuel => same fuel tokens' like
  have possible {front : List Token} (like : front ≠ [] → front.head? = tokens.head?)
      (viable' : Viable parser' follow front) : Viable parser follow front := by
    cases front with
    | nil => exact viable
    | cons token front =>
      obtain ⟨more, value, takes⟩ := viable'
      exact ⟨more, value, fun rest allowed => gives (by simpa using like (by simp)) (takes rest allowed)⟩
  cases verdict with
  | ends fails viable' => exact .ends (failsWith rfl fails) (possible (fun _ => rfl) viable')
  | fails split about always viable' =>
    subst split
    exact .fails rfl about (fun rest' => failsWith (by simp [List.head?_append]) (always rest'))
      (possible (fun other => by simp [List.head?_append_of_ne_nil _ other]) viable')
  | @reads front rest value split takes onward =>
    subst split
    refine .reads rfl ?_ fun rest' like => gives (by simp [List.head?_append, like]) (onward rest' like)
    cases front with
    | nil => exact empty value takes
    | cons token front => exact fun rest' allowed => gives (by simp) (takes rest' allowed)

theorem Verdict.refuse {token : Token} (error : SyntaxError) (about : error.About token)
    (always : ∀ rest', FailsWith parser (token :: rest') error) (viable : Viable parser follow []) :
    Verdict parser follow (token :: rest) :=
  .fails (List.nil_append _).symm about always viable

theorem Verdict.stay (takes : Takes parser follow [] value)
    (onward : ∀ rest', rest'.head? = tokens.head? → Gives parser rest' (.ok value rest')) :
    Verdict parser follow tokens :=
  .reads (List.nil_append tokens).symm takes onward

theorem Verdict.single {token : Token} (value : α) (takes : Takes parser Any [token] value) :
    Verdict parser Any (token :: rest) :=
  .reads (List.singleton_append).symm takes fun rest' _ => takes rest' trivial

end Heads

def Heads (kind : Token.Kind) (tokens : List Token) : Prop :=
  tokens.head?.map Token.kind = some kind

def sample (kind : Token.Kind) : Token :=
  ⟨kind, ⟨0, 0⟩⟩

def Unbroken (tokens : List Token) : Prop :=
  tokens.head?.map Token.kind ≠ some .lineBreak

theorem Heads.unbroken {kind : Token.Kind} (heads : Heads kind tokens) (other : kind ≠ .lineBreak) :
    Unbroken tokens := by
  intro broken
  rw [Heads, broken] at heads
  exact other (Option.some.inj heads).symm

section Primitives

theorem predicts_pure (value : α) (more : ∀ rest, follow rest → before rest) :
    Predicts (fun _ => pure value) follow before limit where
  starts := ⟨[], value, fun _ _ _ _ => rfl, more⟩
  verdict tokens _ _ := .reads (List.nil_append tokens).symm (fun _ _ _ _ => rfl) fun _ _ _ _ => rfl

theorem Predicts.map (predicts : Predicts parser follow before limit) (change : α → β) :
    Predicts (fun fuel => parser fuel >>= fun value => pure (change value)) follow before limit :=
  predicts.bind (fun value => predicts_pure (change value) fun _ allowed => allowed)
    fun _ allowed => allowed

theorem predicts_expect (kind : Token.Kind) :
    Predicts (fun _ => expect kind) Any (Heads kind) limit := by
  have takes {token : Token} (same : token.kind = kind) :
      Takes (fun _ => expect kind) Any [token] () :=
    fun rest _ _ _ => by simp [expect, same]
  have viable : Viable (fun _ => expect kind) Any [] := ⟨[sample kind], (), takes rfl⟩
  refine ⟨⟨[sample kind], (), takes rfl, fun _ _ => rfl⟩, fun tokens _ _ => ?_⟩
  cases tokens with
  | nil => exact .ends (fun _ _ => ⟨_, rfl⟩) viable
  | cons token rest =>
    by_cases same : token.kind = kind
    · exact .single () (takes same)
    · exact .refuse _ (SyntaxError.mismatch_about (.token kind) token)
        (fun rest' _ _ => ⟨rest', by simp [expect, same]⟩) viable

theorem expect_needs (kind : Token.Kind) :
    FailsWith (fun _ => expect kind) [] (.endOfInput (.token kind)) :=
  fun _ _ => ⟨[], rfl⟩

theorem predicts_identifier : Predicts (fun _ => identifier) Any (Heads (.name "x")) limit := by
  have takes (id : String) (span : Span) : Takes (fun _ => identifier) Any [⟨.name id, span⟩] id :=
    fun _ _ _ _ => rfl
  have viable : Viable (fun _ => identifier) Any [] := ⟨_, _, takes "x" ⟨0, 0⟩⟩
  refine ⟨⟨[sample (.name "x")], "x", takes _ _, fun _ _ => rfl⟩, fun tokens _ _ => ?_⟩
  match tokens with
  | [] => exact .ends (fun _ _ => ⟨_, rfl⟩) viable
  | ⟨.name id, span⟩ :: rest => exact .single id (takes id span)
  | ⟨.illegal _, _⟩ :: _ | ⟨.integer _, _⟩ :: _ | ⟨.decimal _, _⟩ :: _ | ⟨.string _, _⟩ :: _
  | ⟨.boolean _, _⟩ :: _ | ⟨.keyword _, _⟩ :: _ | ⟨.symbol _, _⟩ :: _ | ⟨.lineBreak, _⟩ :: _ =>
    exact .refuse _ (SyntaxError.mismatch_about _ _) (fun rest' _ _ => ⟨rest', rfl⟩) viable

section Choice

variable {kind : Token.Kind} {yes no : Nat → Parser α}

theorem gives_accepted {token : Token} {result : EStateM.Result SyntaxError (List Token) α}
    (same : token.kind = kind) (gives : Gives yes rest result) :
    Gives (fun fuel => accept kind >>= fun found => if found then yes fuel else no fuel)
      (token :: rest) result := by
  intro fuel enough
  have ran := gives fuel (Nat.lt_of_succ_lt enough)
  simpa [Bind.bind, EStateM.bind, accept, same] using ran

theorem refused_eq (other : ¬ Heads kind tokens) (fuel : Nat) :
    (accept kind >>= fun found => if found then yes fuel else no fuel) tokens = no fuel tokens := by
  have refused : accept kind tokens = .ok false tokens := accept_eq_ok.mpr (.inr ⟨rfl, rfl, other⟩)
  simp [Bind.bind, EStateM.bind, refused]

theorem gives_refused {result : EStateM.Result SyntaxError (List Token) α}
    (other : ¬ Heads kind rest) (gives : Gives no rest result) :
    Gives (fun fuel => accept kind >>= fun found => if found then yes fuel else no fuel) rest
      result :=
  fun fuel enough => (refused_eq other fuel).trans (gives fuel enough)

theorem predicts_choice
    (starts : Starts (fun fuel => accept kind >>= fun found => if found then yes fuel else no fuel)
      follow before)
    (accepted : Predicts yes follow Any limit) (refused : Predicts no follow before limit)
    (empty : ∀ value, Takes no follow [] value → ∀ rest, follow rest → ¬ Heads kind rest) :
    Predicts (fun fuel => accept kind >>= fun found => if found then yes fuel else no fuel) follow
      before limit := by
  refine ⟨starts, fun tokens short legible => ?_⟩
  by_cases heads : Heads kind tokens
  · obtain ⟨token, rest, rfl, same⟩ := eq_cons_of_head? heads
    have verdict := accepted.verdict rest (Nat.lt_of_succ_lt short) legible.tail
    refine .cons (fun fuel rest => ?_) ((Follows.more yes).verdict verdict)
    simp [Bind.bind, EStateM.bind, accept, same]
  · refine .of_head (fun fuel tokens' like => ?_) (fun value takes => ?_) starts.viable
      (refused.verdict tokens short legible)
    · rw [Heads, ← like] at heads
      exact refused_eq heads (fuel + 1)
    · exact fun rest allowed => gives_refused (empty value takes rest allowed) (takes rest allowed)

end Choice

theorem takes_breaks (breaks : ∀ token ∈ front, token.kind = .lineBreak) :
    Takes (fun _ => skipBreaks) Unbroken front () := by
  intro rest stops _ _
  have stopped : rest.dropWhile (fun token => token.kind = .lineBreak) = rest := by
    cases rest with
    | nil => rfl
    | cons token rest =>
      have other : token.kind ≠ .lineBreak := by simpa [Unbroken] using stops
      simp [other]
  simp only [skipBreaks]
  rw [List.dropWhile_append_of_pos (by simpa using breaks), stopped]

theorem predicts_skipBreaks : Predicts (fun _ => skipBreaks) Unbroken Unbroken limit := by
  refine ⟨⟨[], (), takes_breaks nofun, fun _ stops => stops⟩, fun tokens _ _ => ?_⟩
  have breaks : ∀ token ∈ tokens.takeWhile (fun token => token.kind = .lineBreak),
      token.kind = .lineBreak := by
    intro token member
    simpa using List.mem_takeWhile_imp member
  have skipped : skipBreaks tokens = .ok () (tokens.dropWhile fun token => token.kind = .lineBreak) := rfl
  have stops := (skipBreaks_eq_ok.mp skipped).2
  refine .reads (List.takeWhile_append_dropWhile).symm (takes_breaks breaks) fun rest' like => ?_
  apply takes_breaks breaks
  rw [Unbroken, like]
  exact stops

theorem Starts.after_breaks (starts : Starts parser follow before)
    (unbroken : ∀ rest, before rest → Unbroken rest) :
    Starts (fun fuel => skipBreaks >>= fun _ => parser fuel) follow before := by
  obtain ⟨tokens, value, takes, apart⟩ := starts
  have none : Takes (fun _ => skipBreaks) Unbroken [] () := takes_breaks nofun
  refine ⟨tokens, value, ?_, apart⟩
  exact @Takes.bind _ _ _ (fun _ => parser) _ _ _ _ 0 _ _ none (Nat.zero_le _) takes
    fun rest allowed => unbroken _ (apart rest allowed)

theorem Predicts.after_breaks (predicts : Predicts parser follow before limit)
    (unbroken : ∀ rest, before rest → Unbroken rest) (within : ∀ rest, follow rest → Unbroken rest) :
    Predicts (fun fuel => skipBreaks >>= fun _ => parser fuel) follow before limit where
  starts := predicts.starts.after_breaks unbroken
  verdict := (predicts_skipBreaks.bind (fun _ => predicts.loosen unbroken) within).verdict

theorem Predicts.after_breaks_needy (predicts : Predicts parser follow before limit)
    (unbroken : ∀ rest, before rest → Unbroken rest) (allowed : follow []) {error : SyntaxError}
    (needs : FailsWith parser [] error) :
    Predicts (fun fuel => skipBreaks >>= fun _ => parser fuel) follow before limit where
  starts := predicts.starts.after_breaks unbroken
  verdict :=
    (predicts_skipBreaks.bind_needy (fun _ => predicts.loosen unbroken) allowed
      fun _ => ⟨error, needs⟩).verdict

theorem FailsWith.after_breaks {error : SyntaxError} (fails : FailsWith parser [] error) :
    FailsWith (fun fuel => skipBreaks >>= fun _ => parser fuel) [] error :=
  fun fuel enough => fails fuel enough

end Primitives

end Parser

end ByNeed
