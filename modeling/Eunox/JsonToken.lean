import Eunox.JsonRoundTrip

/-! The tokens of a JSON stream, as Go's `Decoder.Token` gives them. A container is two tokens and a
scalar is one; colons and commas are passed over where the state allows them. The end of the input is
no error, also inside a container. -/
namespace JsonText
open ByteString

inductive TokenState where
  | topValue
  | arrayStart
  | arrayValue
  | arrayComma
  | objectStart
  | objectKey
  | objectColon
  | objectValue
  | objectComma
  deriving DecidableEq, Repr

def TokenState.valueAllowed : TokenState → Bool
  | .topValue | .arrayStart | .arrayValue | .objectValue => true
  | _ => false

/-- The state after a value. -/
def TokenState.valueEnd : TokenState → TokenState
  | .arrayStart | .arrayValue => .arrayComma
  | .objectValue => .objectComma
  | state => state

/-- The state after an opening bracket. -/
def Bracket.start : Bracket → TokenState
  | .square => .arrayStart
  | .curly => .objectStart

/-- Where a closing bracket may stand. -/
def Bracket.closable : Bracket → TokenState → Bool
  | .square, state => state = .arrayStart || state = .arrayComma
  | .curly, state => state = .objectStart || state = .objectComma

structure Decoder where
  rest : Bytes
  state : TokenState
  stack : List TokenState

inductive Token where
  | opening (bracket : Bracket)
  | closing (bracket : Bracket)
  | scalar (text : Text)

inductive Next where
  | eof
  | error
  | token (found : Token) (decoder : Decoder)

/-- One scalar from the front. -/
def readScalar (s : Bytes) (next : TokenState) (stack : List TokenState) : Next :=
  match readValue (2 * s.length) 0 s with
  | some (text, rest) => .token (.scalar text) ⟨rest, next, stack⟩
  | none => .error

def openToken (bracket : Bracket) (state : TokenState) (stack : List TokenState) (s : Bytes) : Next :=
  if state.valueAllowed && stack.length < maxNestingDepth then .token (.opening bracket) ⟨s, bracket.start, state :: stack⟩
  else .error

def closeToken (bracket : Bracket) (state : TokenState) (stack : List TokenState) (s : Bytes) : Next :=
  match bracket.closable state, stack with
  | true, outer :: stack => .token (.closing bracket) ⟨s, outer.valueEnd, stack⟩
  | _, _ => .error

/-- The token that starts with this byte. -/
def singleToken (state : TokenState) (stack : List TokenState) (c : UInt8) (s : Bytes) : Next :=
  if c = 91 then openToken .square state stack s
  else if c = 93 then closeToken .square state stack s
  else if c = 123 then openToken .curly state stack s
  else if c = 125 then closeToken .curly state stack s
  else if c = 58 || c = 44 then .error
  else if c = 34 && (state = .objectStart || state = .objectKey) then readScalar (c :: s) .objectColon stack
  else if state.valueAllowed then readScalar (c :: s) state.valueEnd stack
  else .error

def firstToken (state : TokenState) (stack : List TokenState) : Bytes → Next
  | [] => .eof
  | c :: s => singleToken state stack c s

/-- Past a colon or a comma that may stand here. -/
def punctuation (state : TokenState) (c : UInt8) : Option TokenState :=
  if c = 58 && state = .objectColon then some .objectValue
  else if c = 44 && state = .arrayComma then some .arrayValue
  else if c = 44 && state = .objectComma then some .objectKey
  else none

/-- The loop of the code goes round once at most: past a colon or a comma neither may stand. -/
def Decoder.token (d : Decoder) : Next :=
  match (readSpace d.rest).2 with
  | [] => .eof
  | c :: s =>
    match punctuation d.state c with
    | some state => firstToken state d.stack (readSpace s).2
    | none => singleToken d.state d.stack c s

/-! Where a token starts. -/

/-- Behind space that no colon or comma may follow. -/
theorem token_first (space : AllSpace gap)
    (ahead : NoSpaceAhead s) (plain : ∀ c ∈ s.head?, punctuation state c = none) :
    Decoder.token ⟨gap ++ s, state, stack⟩ = firstToken state stack s := by
  rw [Decoder.token, readSpace_eq space ahead]
  cases s with
  | nil => rfl
  | cons c s => simp [firstToken, plain c rfl]

/-- Past a colon or a comma. -/
theorem token_past
    (space : AllSpace gap) (space' : AllSpace gap') (ahead : NoSpaceAhead s) (solid : isSpace c = false)
    (past : punctuation state c = some state') :
    Decoder.token ⟨gap ++ c :: (gap' ++ s), state, stack⟩ = firstToken state' stack s := by
  have spaced : readSpace (gap ++ c :: (gap' ++ s)) = (gap, c :: (gap' ++ s)) := by
    refine readSpace_eq space fun byte head => ?_
    obtain rfl : c = byte := by simpa using head
    exact solid
  simp [Decoder.token, spaced, past, readSpace_eq space' ahead]

/-- A scalar is one token. -/
theorem firstToken_scalar
    (legal : text.WellFormed) (flat : text.depth = 0) (ends : ∀ literal, text = .number literal → Delimited rest)
    (allowed : state.valueAllowed = true) :
    firstToken state stack (text.print ++ rest) = .token (.scalar text) ⟨rest, state.valueEnd, stack⟩ := by
  have read := (read_complete (2 * (text.print ++ rest).length)).1 0 text rest legal (by omega) (by simp) ends
  have head : ∃ c s, text.print = c :: s ∧ c ≠ 91 ∧ c ≠ 93 ∧ c ≠ 123 ∧ c ≠ 125 ∧ c ≠ 58 ∧ c ≠ 44 :=
    legal.first (by decide +kernel) fun deep => absurd flat deep.ne'
  obtain ⟨c, s, printed, square, square', curly, curly', colon, comma⟩ := head
  have key : state ≠ .objectStart ∧ state ≠ .objectKey := by
    constructor
    · rintro rfl
      cases allowed
    · rintro rfl
      cases allowed
  rw [printed, List.cons_append] at read ⊢
  rw [firstToken, singleToken, if_neg square, if_neg square', if_neg curly, if_neg curly',
    if_neg (by simp [colon, comma]), if_neg (by simp [key]), if_pos allowed, readScalar, read]

end JsonText
