/-! Lines of a text, and what stands at a byte offset. A line includes the line break at
its end; only the last one may lack it, and a text that ends with a line break has no
line after it. -/
namespace LittleC.Text

/-- How many bytes characters take in a text. -/
def byteLength : List Char → Nat
  | [] => 0
  | c :: rest => c.utf8Size + byteLength rest

theorem byteLength_append (a b : List Char) : byteLength (a ++ b) = byteLength a + byteLength b := by
  induction a with
  | nil => exact (Nat.zero_add _).symm
  | cons c rest ih =>
    show c.utf8Size + byteLength (rest ++ b) = c.utf8Size + byteLength rest + byteLength b
    rw [ih, Nat.add_assoc]

/-- The lines of a text, each with its line break. -/
def lines : List Char → List (List Char)
  | [] => []
  | c :: rest =>
    if c = '\n' then [c] :: lines rest
    else
      match lines rest with
      | [] => [[c]]
      | line :: others => (c :: line) :: others

/-- A line as it is shown: without the line break, and without the carriage return
before it. -/
def bare (line : List Char) : List Char :=
  match line.reverse with
  | '\n' :: '\r' :: rest => rest.reverse
  | '\n' :: rest => rest.reverse
  | _ => line

/-- A place in a text: the number of the line, counted from one, the line itself, and
the byte offset in it. -/
structure LinePlace where
  number : Nat
  line : List Char
  offset : Nat
  deriving DecidableEq, Repr

/-- The place at an offset from the start of lines, the first of which has this number.
The end of the text is on the last line if that line is open, and otherwise on an empty
line after it. -/
def placeIn (number offset : Nat) : List (List Char) → LinePlace
  | [] => ⟨number, [], offset⟩
  | line :: rest =>
    if offset < byteLength line ∨ rest.isEmpty ∧ line.getLast? ≠ some '\n' then
      ⟨number, line, offset⟩
    else placeIn (number + 1) (offset - byteLength line) rest

/-- The place at a byte offset, which may be at most the length of the text. -/
def placeAt (cs : List Char) (offset : Nat) : Option LinePlace :=
  if offset ≤ byteLength cs then some (placeIn 1 offset (lines cs)) else none

/-- How many characters the first bytes of a text make up, if they end between two
characters. -/
def charsBefore? : List Char → Nat → Option Nat
  | _, 0 => some 0
  | [], _ + 1 => none
  | c :: rest, offset =>
    if c.utf8Size ≤ offset then (charsBefore? rest (offset - c.utf8Size)).map (· + 1) else none

/-- Every character of the text is in its lines, once and in order. -/
theorem flatten_lines (cs : List Char) : (lines cs).flatten = cs := by
  induction cs with
  | nil => rfl
  | cons c rest ih =>
    rw [lines]
    split
    · simp [ih]
    · split
      · next h => rw [h] at ih; simp at ih; simp [ih]
      · next h => rw [h] at ih; simp at ih; simp [ih]

end LittleC.Text
