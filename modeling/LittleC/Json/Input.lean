/-! Text that is being read as JSON, with the place where reading stands. Places
count lines and bytes, and an error names either the place reached or the one
after the next byte. `Parsed` is a step of reading that takes at least one
character, which is why the loops over elements and members end. -/
namespace LittleC.Json

/-- A place in a text: the line, counted from one, and the bytes since its start. -/
structure Mark where
  line : Nat
  column : Nat
  deriving DecidableEq, Repr

namespace Mark

def start : Mark := ⟨1, 0⟩

/-- The place after a character. -/
def after (m : Mark) (c : Char) : Mark :=
  if c = '\n' then ⟨m.line + 1, 0⟩ else ⟨m.line, m.column + c.utf8Size⟩

/-- The place after the first byte of a character. -/
def afterByte (m : Mark) (c : Char) : Mark :=
  if c = '\n' then ⟨m.line + 1, 0⟩ else ⟨m.line, m.column + 1⟩

/-- The place after as many bytes of a text. -/
def afterBytes (m : Mark) (n : Nat) : List Char → Mark
  | [] => m
  | c :: rest =>
    if n < c.utf8Size then ⟨m.line, m.column + n⟩
    else (m.after c).afterBytes (n - c.utf8Size) rest

/-- The place after as many bytes of the same line. -/
def shift (m : Mark) (n : Nat) : Mark :=
  ⟨m.line, m.column + n⟩

end Mark

/-- Why a text is not JSON. -/
inductive Fault where
  | valueEnds
  | stringEnds
  | arrayEnds
  | objectEnds
  | valueExpected
  | keywordExpected
  | invalidNumber
  | numberOutOfRange
  | controlCharacter
  | invalidEscape
  | unpairedSurrogate
  | pairUnfinished
  | trailingComma
  | commaOrBracketExpected
  | commaOrBraceExpected
  | colonExpected
  | keyNotString
  | tooDeep
  | trailingText
  deriving DecidableEq, Repr

def Fault.message : Fault → String
  | valueEnds => "EOF while parsing a value"
  | stringEnds => "EOF while parsing a string"
  | arrayEnds => "EOF while parsing a list"
  | objectEnds => "EOF while parsing an object"
  | valueExpected => "expected value"
  | keywordExpected => "expected ident"
  | invalidNumber => "invalid number"
  | numberOutOfRange => "number out of range"
  | controlCharacter => "control character (\\u0000-\\u001F) found while parsing a string"
  | invalidEscape => "invalid escape"
  | unpairedSurrogate => "lone leading surrogate in hex escape"
  | pairUnfinished => "unexpected end of hex escape"
  | trailingComma => "trailing comma"
  | commaOrBracketExpected => "expected `,` or `]`"
  | commaOrBraceExpected => "expected `,` or `\x7d`"
  | colonExpected => "expected `:`"
  | keyNotString => "key must be a string"
  | tooDeep => "recursion limit exceeded"
  | trailingText => "trailing characters"

/-- A fault and its place. -/
structure ReadError where
  fault : Fault
  mark : Mark
  deriving DecidableEq, Repr

def ReadError.message (e : ReadError) : String :=
  e.fault.message ++ " at line " ++ toString e.mark.line ++ " column " ++ toString e.mark.column

/-- The text still to be read. -/
structure Input where
  rest : List Char
  mark : Mark

namespace Input

def ofString (s : String) : Input :=
  ⟨s.toList, .start⟩

def size (i : Input) : Nat :=
  i.rest.length

/-- One character less. -/
theorem size_tail_lt (c : Char) (r : List Char) (m m' : Mark) :
    (Input.mk r m').size < (Input.mk (c :: r) m).size :=
  Nat.lt_succ_self r.length

/-- The place after the next byte; at the end of the text, that end. -/
def next (i : Input) : Mark :=
  match i.rest with
  | [] => i.mark
  | c :: _ => i.mark.afterByte c

/-- Blanks between the parts of a value. -/
def isGap (c : Char) : Bool :=
  c == ' ' || c == '\n' || c == '\t' || c == '\r'

/-- The input from the next character that is not a blank. -/
def trimFrom (m : Mark) : List Char → Input
  | [] => ⟨[], m⟩
  | c :: rest => if isGap c then trimFrom (m.after c) rest else ⟨c :: rest, m⟩

def trim (i : Input) : Input :=
  trimFrom i.mark i.rest

theorem size_trimFrom_le (m : Mark) (cs : List Char) : (trimFrom m cs).size ≤ cs.length := by
  induction cs generalizing m with
  | nil => exact Nat.le_refl 0
  | cons c rest ih =>
    simp only [trimFrom]
    split
    · exact Nat.le_succ_of_le (ih _)
    · exact Nat.le_refl _

theorem size_trim_le (i : Input) : i.trim.size ≤ i.size :=
  size_trimFrom_le i.mark i.rest

/-- What follows the first character that is not a blank. -/
theorem length_lt_of_trim {i : Input} {c : Char} {r : List Char} {m : Mark}
    (h : i.trim = ⟨c :: r, m⟩) : r.length < i.size := by
  have := i.size_trim_le
  rw [h] at this
  exact this

end Input

/-- A value read from `i` and what is left, which is shorter; or the error met. -/
abbrev Parsed (α : Type) (i : Input) :=
  Except ReadError (α × { j : Input // j.size < i.size })

namespace Parsed

def fail {α : Type} {i : Input} (fault : Fault) (mark : Mark) : Parsed α i :=
  .error ⟨fault, mark⟩

/-- Reads on from where the first step ended. -/
def andThen {α β : Type} {i : Input} (x : Parsed α i)
    (f : α → (j : Input) → j.size < i.size → Parsed β i) : Parsed β i :=
  match x with
  | .error e => .error e
  | .ok (a, ⟨j, h⟩) => f a j h

def map {α β : Type} {i : Input} (g : α → β) (x : Parsed α i) : Parsed β i :=
  match x with
  | .error e => .error e
  | .ok (a, j) => .ok (g a, j)

/-- The same step, taken from an input that is at least as long. -/
def widen {α : Type} {i j : Input} (x : Parsed α j) (h : j.size ≤ i.size) : Parsed α i :=
  match x with
  | .error e => .error e
  | .ok (a, ⟨k, hk⟩) => .ok (a, ⟨k, Nat.lt_of_lt_of_le hk h⟩)

end Parsed
end LittleC.Json
