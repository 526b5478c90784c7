import Mathlib.Data.List.Basic
import RecordSchema.Proofs.Text

/-!
# Tokens of C expressions

The text of an expression is read character by character. What belongs to one operand (a member reached
through `.`, `->` or `::`, and the arguments of a call) is one token and is not looked into. Every other token
ends where it is read, so texts that are put side by side with an operator between them are read one after
the other.
-/

set_option autoImplicit false

namespace RecordSchema.Cpp

open Text

inductive Operator where
  | times
  | plus
  | minus
  | shift
  | conjunction
  | disjunction
deriving DecidableEq

inductive Token where
  /-- A name, a number, a member or a call. -/
  | atom (text : String)
  | operator (operator : Operator)
  /-- A minus sign before an operand rather than between two. -/
  | negative
  | opening
  | closing
  /-- The signs of a choice. -/
  | ask
  | otherwise
deriving DecidableEq

/-- Whether an operand may end with a token. -/
def Token.endsOperand : Token → Bool
  | atom _ => true
  | closing => true
  | _ => false

/-- What has been read of a token that is not complete. -/
inductive Pending where
  | nothing
  /-- A minus sign that is a token already; another one would make it a decrement. -/
  | dash
  /-- Half of a shift. -/
  | angle
  | word (text : List Char)
  /-- A call that is complete. -/
  | called (text : List Char)
  /-- An operand with a connector, after which a name has to follow. -/
  | joined (text : List Char)
  /-- An operand with a sign behind it that may be half of a connector. -/
  | arrow (text : List Char)
  | colon (text : List Char)
  /-- A call whose arguments are being read, within so many parentheses of their own. -/
  | arguments (text : List Char) (depth : Nat)
deriving DecidableEq

/-- Tokens that are complete, the last one first, and what has been read since. -/
structure Reading where
  tokens : List Token
  pending : Pending
deriving DecidableEq

namespace Reading

def endsOperand (tokens : List Token) : Bool :=
  (tokens.head?.map Token.endsOperand).getD false

/-- The minus sign after some tokens. -/
def minusAfter (tokens : List Token) : Token :=
  if endsOperand tokens then .operator .minus else .negative

/-- The signs that are tokens by themselves. -/
def sign? : Char → Option Token
  | '(' => some .opening
  | ')' => some .closing
  | '+' => some (.operator .plus)
  | '*' => some (.operator .times)
  | '&' => some (.operator .conjunction)
  | '|' => some (.operator .disjunction)
  | '?' => some .ask
  | ':' => some .otherwise
  | _ => none

/-- Reads a character after complete tokens. -/
def first (tokens : List Token) (character : Char) : Option Reading :=
  if isWordChar character then some ⟨tokens, .word [character]⟩
  else if isBlank character then some ⟨tokens, .nothing⟩
  else if character = '-' then some ⟨minusAfter tokens :: tokens, .dash⟩
  else if character = '<' then some ⟨tokens, .angle⟩
  else (sign? character).map fun sign => ⟨sign :: tokens, .nothing⟩

/-- Reads a character after an operand that may be extended. -/
def extend (tokens : List Token) (text : List Char) (character : Char) : Option Reading :=
  if character = '.' then some ⟨tokens, .joined (text ++ ['.'])⟩
  else if character = '-' then some ⟨tokens, .arrow text⟩
  else if character = ':' then some ⟨tokens, .colon text⟩
  else if character = '(' then some ⟨tokens, .arguments (text ++ ['(']) 0⟩
  else first (.atom (String.ofList text) :: tokens) character

def step (reading : Reading) (character : Char) : Option Reading :=
  let tokens := reading.tokens
  match reading.pending with
  | .nothing => first tokens character
  | .dash => if character = '-' then none else first tokens character
  | .angle => if character = '<' then some ⟨.operator .shift :: tokens, .nothing⟩ else none
  | .word text =>
    if isWordChar character then some ⟨tokens, .word (text ++ [character])⟩
    else extend tokens text character
  | .called text => if isWordChar character then none else extend tokens text character
  | .joined text =>
    if isWordChar character then some ⟨tokens, .word (text ++ [character])⟩ else none
  | .arrow text =>
    if character = '>' then some ⟨tokens, .joined (text ++ ['-', '>'])⟩
    else if character = '-' then none
    else first (.operator .minus :: .atom (String.ofList text) :: tokens) character
  | .colon text =>
    if character = ':' then some ⟨tokens, .joined (text ++ [':', ':'])⟩
    else first (.otherwise :: .atom (String.ofList text) :: tokens) character
  | .arguments text depth =>
    let read := text ++ [character]
    if character = '(' then some ⟨tokens, .arguments read (depth + 1)⟩
    else if character = ')' then
      match depth with
      | 0 => some ⟨tokens, .called read⟩
      | outer + 1 => some ⟨tokens, .arguments read outer⟩
    else some ⟨tokens, .arguments read depth⟩

/-- The tokens if nothing is left open. -/
def finish (reading : Reading) : Option (List Token) :=
  match reading.pending with
  | .nothing => some reading.tokens
  | .dash => some reading.tokens
  | .word text => some (.atom (String.ofList text) :: reading.tokens)
  | .called text => some (.atom (String.ofList text) :: reading.tokens)
  | .arrow text => some (.operator .minus :: .atom (String.ofList text) :: reading.tokens)
  | .colon text => some (.otherwise :: .atom (String.ofList text) :: reading.tokens)
  | .angle => none
  | .joined _ => none
  | .arguments _ _ => none

def start : Reading :=
  ⟨[], .nothing⟩

end Reading

/-- The tokens of a text, if it is made of tokens. -/
def tokenize (text : String) : Option (List Token) :=
  ((text.toList.foldlM Reading.step Reading.start).bind Reading.finish).map List.reverse

example : tokenize "this->n(cfg, 0) & 3" =
    some [.atom "this->n(cfg, 0)", .operator .conjunction, .atom "3"] := by decide

namespace Reading

/-!
## Texts side by side
-/

/-- A reading after some tokens more. -/
def behind (before : List Token) (reading : Reading) : Reading :=
  ⟨reading.tokens ++ before, reading.pending⟩

section Behind

variable {before : List Token} (open_ : endsOperand before = false)

include open_

private theorem endsOperand_append (tokens : List Token) :
    endsOperand (tokens ++ before) = endsOperand tokens := by
  cases tokens with
  | nil => exact open_
  | cons => rfl

private theorem first_behind (tokens : List Token) (character : Char) :
    first (tokens ++ before) character = (first tokens character).map (behind before) := by
  unfold first
  simp only [minusAfter, endsOperand_append open_]
  split
  · rfl
  · split
    · rfl
    · split
      · rfl
      · split
        · rfl
        · cases sign? character <;> rfl

private theorem extend_behind (tokens : List Token) (text : List Char) (character : Char) :
    extend (tokens ++ before) text character = (extend tokens text character).map (behind before) := by
  unfold extend
  rw [← List.cons_append, first_behind open_]
  repeat' split
  all_goals rfl

/-- What comes before an operand makes no difference to reading it. -/
theorem step_behind (reading : Reading) (character : Char) :
    step (behind before reading) character = (step reading character).map (behind before) := by
  obtain ⟨tokens, pending⟩ := reading
  cases pending with
  | nothing => exact first_behind open_ tokens character
  | dash | angle | joined | word | called | arrow | colon =>
    simp only [step, behind, ← List.cons_append, first_behind open_, extend_behind open_]
    repeat' split
    all_goals rfl
  | arguments text depth =>
    cases depth <;>
    · simp only [step, behind]
      repeat' split
      all_goals rfl

private theorem foldlM_behind (characters : List Char) (reading : Reading) :
    characters.foldlM step (behind before reading) =
      (characters.foldlM step reading).map (behind before) := by
  induction characters generalizing reading with
  | nil => rfl
  | cons character rest ih =>
    rw [List.foldlM_cons, List.foldlM_cons, step_behind open_]
    cases step reading character with
    | none => rfl
    | some next => exact ih next

end Behind

/-- The signs that end whatever token has been read before them. -/
def breaks : List (Char × Token) :=
  [(')', .closing), ('+', .operator .plus), ('*', .operator .times)]

private theorem step_break {reading : Reading} {tokens : List Token}
    (finished : finish reading = some tokens)
    {character : Char} {sign : Token} (listed : (character, sign) ∈ breaks) :
    step reading character = some ⟨sign :: tokens, .nothing⟩ := by
  obtain ⟨before, pending⟩ := reading
  simp only [breaks, List.mem_cons, Prod.mk.injEq, List.not_mem_nil, or_false] at listed
  rcases listed with ⟨rfl, rfl⟩ | ⟨rfl, rfl⟩ | ⟨rfl, rfl⟩ <;> cases pending <;> cases finished <;> rfl

private theorem exists_reading {text : String} {tokens : List Token} (read : tokenize text = some tokens) :
    ∃ reading, text.toList.foldlM step start = some reading ∧ finish reading = some tokens.reverse := by
  obtain ⟨last, finished, rfl⟩ := Option.map_eq_some_iff.mp read
  obtain ⟨reading, reached, finished⟩ := Option.bind_eq_some_iff.mp finished
  exact ⟨reading, reached, by rw [finished, List.reverse_reverse]⟩

/-- A text behind complete tokens that leave an operand to come. -/
theorem exists_reading_behind {text : String} {tokens before : List Token}
    (read : tokenize text = some tokens) (open_ : endsOperand before = false) :
    ∃ reading, text.toList.foldlM step ⟨before, .nothing⟩ = some reading ∧
      finish reading = some (tokens.reverse ++ before) := by
  obtain ⟨⟨last, pending⟩, reached, finished⟩ := exists_reading read
  have shifted := foldlM_behind open_ text.toList start
  rw [reached] at shifted
  refine ⟨_, shifted, ?_⟩
  cases pending with
  | angle | joined | arguments => cases finished
  | nothing | dash | word | called | arrow | colon =>
    have same := Option.some.inj finished
    simp only [behind, finish, ← same, List.cons_append]

private theorem tokenize_eq {text : String} {reading : Reading} {tokens : List Token}
    (reached : text.toList.foldlM step start = some reading) (finished : finish reading = some tokens) :
    tokenize text = some tokens.reverse := by
  rw [tokenize, reached, Option.bind_some, finished, Option.map_some]

end Reading

open Reading

section Pieces

variable {left right : String} {leftTokens rightTokens : List Token}

/-- The tokens of two operands with a sign between them. -/
theorem tokenize_between (one : tokenize left = some leftTokens) (other : tokenize right = some rightTokens)
    {separator : String} {character : Char} (alone : separator.toList = [character]) {sign : Token}
    (listed : (character, sign) ∈ breaks) (open_ : sign.endsOperand = false) :
    tokenize (left ++ separator ++ right) = some (leftTokens ++ sign :: rightTokens) := by
  obtain ⟨reading, reached, finished⟩ := exists_reading one
  obtain ⟨last, continued, ended⟩ := @exists_reading_behind right rightTokens
    (sign :: leftTokens.reverse) other open_
  have whole : (left ++ separator ++ right).toList.foldlM step start = some last := by
    simp only [String.toList_append, alone, List.foldlM_append, reached,
      List.foldlM_cons, List.foldlM_nil, Option.bind_eq_bind, Option.bind_some, step_break finished listed,
      Option.pure_def]
    exact continued
  rw [tokenize_eq whole ended]
  simp

theorem tokenize_plus (one : tokenize left = some leftTokens) (other : tokenize right = some rightTokens) :
    tokenize (left ++ "+" ++ right) = some (leftTokens ++ .operator .plus :: rightTokens) := by
  have sign : ('+', Token.operator .plus) ∈ breaks := by simp [breaks]
  exact tokenize_between one other rfl sign rfl

theorem tokenize_times (one : tokenize left = some leftTokens)
    (other : tokenize right = some rightTokens) :
    tokenize (left ++ "*" ++ right) = some (leftTokens ++ .operator .times :: rightTokens) := by
  have sign : ('*', Token.operator .times) ∈ breaks := by simp [breaks]
  exact tokenize_between one other rfl sign rfl

theorem tokenize_enclosed (one : tokenize left = some leftTokens) :
    tokenize ("(" ++ left ++ ")") = some (.opening :: (leftTokens ++ [.closing])) := by
  obtain ⟨reading, reached, finished⟩ := @exists_reading_behind left leftTokens [.opening] one rfl
  have whole : ("(" ++ left ++ ")").toList.foldlM step start =
      some ⟨.closing :: (leftTokens.reverse ++ [.opening]), .nothing⟩ := by
    have opened : step start '(' = some ⟨[.opening], .nothing⟩ := rfl
    have closed := step_break finished (show (')', Token.closing) ∈ breaks from List.mem_cons_self)
    simp only [String.toList_append, List.foldlM_append]
    rw [show "(".toList = ['('] from rfl, show ")".toList = [')'] from rfl]
    simp only [List.foldlM_cons, List.foldlM_nil, opened, Option.bind_eq_bind, Option.bind_some,
      Option.pure_def, reached, closed]
  rw [tokenize_eq whole rfl]
  simp

end Pieces

/-!
## Names and numbers
-/

private theorem foldlM_word {characters : List Char}
    (word : ∀ character ∈ characters, isWordChar character = true)
    (tokens : List Token) (text : List Char) :
    characters.foldlM step ⟨tokens, .word text⟩ = some ⟨tokens, .word (text ++ characters)⟩ := by
  induction characters generalizing text with
  | nil => simp
  | cons character rest ih =>
    obtain ⟨here, later⟩ := List.forall_mem_cons.mp word
    have next : step ⟨tokens, .word text⟩ character = some ⟨tokens, .word (text ++ [character])⟩ :=
      if_pos here
    rw [List.foldlM_cons, next, Option.bind_eq_bind, Option.bind_some, ih later, List.append_assoc]
    rfl

/-- A word after a sign or at the beginning. -/
theorem foldlM_word_after {text : String} (some_ : text.toList ≠ [])
    (word : ∀ character ∈ text.toList, isWordChar character = true) {pending : Pending}
    (sign : pending = .nothing ∨ pending = .dash) (tokens : List Token) :
    text.toList.foldlM step ⟨tokens, pending⟩ = some ⟨tokens, .word text.toList⟩ := by
  obtain ⟨character, rest, characters⟩ := List.exists_cons_of_ne_nil some_
  rw [characters] at word ⊢
  obtain ⟨here, later⟩ := List.forall_mem_cons.mp word
  have read : first tokens character = some ⟨tokens, .word [character]⟩ := if_pos here
  have next : step ⟨tokens, pending⟩ character = some ⟨tokens, .word [character]⟩ := by
    rcases sign with rfl | rfl
    · exact read
    · have other : character ≠ '-' := by
        rintro rfl
        cases here
      exact (if_neg other).trans read
  rw [List.foldlM_cons, next, Option.bind_eq_bind, Option.bind_some, foldlM_word later]
  rfl

theorem tokenize_word {text : String} (some_ : text.toList ≠ [])
    (word : ∀ character ∈ text.toList, isWordChar character = true) :
    tokenize text = some [.atom text] := by
  rw [tokenize_eq (foldlM_word_after some_ word (.inl rfl) []) rfl, String.ofList_toList]
  rfl

private theorem word_toString (number : Nat) : (toString number).toList ≠ [] ∧
    ∀ character ∈ (toString number).toList, isWordChar character = true := by
  have digits : (toString number).toList = Nat.toDigits 10 number := Nat.toList_repr
  rw [digits]
  refine ⟨Nat.toDigits_ne_nil, fun character listed => ?_⟩
  have digit : character.isDigit = true := Nat.isDigit_of_mem_toDigits (by decide) (by decide) listed
  simp [isWordChar, Char.isAlphanum, digit]

/-- A number is one token, with a minus sign before it if it is negative. -/
theorem tokenize_toString (number : Int) : tokenize (toString number) =
    some ((if number < 0 then [.negative] else []) ++ [.atom (toString number.natAbs)]) := by
  cases number with
  | ofNat number =>
    obtain ⟨some_, word⟩ := word_toString number
    exact tokenize_word some_ word
  | negSucc number =>
    obtain ⟨some_, word⟩ := word_toString (number + 1)
    have whole : ("-" ++ toString (number + 1)).toList.foldlM step start =
        some ⟨[.negative], .word (toString (number + 1)).toList⟩ := by
      rw [String.toList_append, List.foldlM_append]
      exact foldlM_word_after some_ word (.inr rfl) [.negative]
    have read := tokenize_eq whole rfl
    rw [String.ofList_toList] at read
    rw [if_pos (Int.negSucc_lt_zero number)]
    exact read

end RecordSchema.Cpp
