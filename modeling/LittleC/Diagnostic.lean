import LittleC.Error
import LittleC.Text.Lines

/-! Diagnostics: an error as it is shown on a terminal. The first line names the error
and gives its tip. If the error has a position in the source, the lines around it follow
with their numbers, a caret under the place; otherwise the message does. -/
namespace LittleC.Diagnostic

/-- Lines shown before and after the line of the error. -/
def contextLines : Nat := 3

/-! ### Colours -/

/-- How to show parts of a diagnostic that stand out. -/
inductive Emphasis where
  | red
  | redBold
  deriving DecidableEq, Repr

def Emphasis.start : Emphasis → String
  | red => "\x1b[31m"
  | redBold => "\x1b[1;31m"

/-- The sequence that ends all emphasis. -/
def resetSequence : String := "\x1b[0m"

/-- Text with emphasis, if colours are on. Where the text itself ends all emphasis, this
one starts again. -/
def paint (colour : Bool) (emphasis : Emphasis) (text : String) : String :=
  if colour then
    emphasis.start ++ text.replace resetSequence (resetSequence ++ emphasis.start) ++ resetSequence
  else text

/-! ### Layout -/

/-- Text moved to the right end of a column. -/
def rightAlign (width : Nat) (text : String) : String :=
  String.ofList (List.replicate (width - text.length) ' ') ++ text

def header (error : Error) : String :=
  match error.cause.tip? with
  | some tip => "Error: " ++ error.cause.name ++ " (" ++ tip ++ ")"
  | none => "Error: " ++ error.cause.name

/-- The numbers of the lines shown around a line of a source with so many lines. -/
def window (line count : Nat) : List Nat :=
  let first := max 1 (line - contextLines)
  let last := max line (min (line + contextLines) count)
  List.range' first (last + 1 - first)

/-- How far to the right the caret stands: by characters, or by bytes if the place is
inside a character. -/
def caretColumn (place : Text.LinePlace) : Nat :=
  (Text.charsBefore? place.line place.offset).getD place.offset

/-- One shown line: the marked one has a caret line below it. -/
def excerptLine (colour : Bool) (width : Nat) (place : Text.LinePlace) (number : Nat) (text : String) :
    List String :=
  let label := rightAlign width (toString number)
  if number = place.number then
    [label ++ " " ++ paint colour .redBold ">" ++ " " ++ text,
     rightAlign (width + 2) "|" ++ " " ++ String.ofList (List.replicate (caretColumn place) '-') ++
       paint colour .red "^"]
  else [label ++ " | " ++ text]

/-- The lines around a place, under the name of the file. -/
def excerpt (colour : Bool) (source : String) (file : String) (place : Text.LinePlace) : List String :=
  let texts := (Text.lines source.toList).map fun line => String.ofList (Text.bare line)
  let shown := window place.number texts.length
  let width := (toString (shown.getLast?.getD 0)).length
  ("-> " ++ file) :: rightAlign (width + 2) "|" ::
    shown.flatMap fun number => excerptLine colour width place number (texts[number - 1]?.getD "")

/-- The place of an error in a source. -/
def place? (error : Error) (source : String) : Option Text.LinePlace :=
  error.position.bind fun p => Text.placeAt source.toList p.offset

/-- An error as it is shown, all lines ended. -/
def render (colour : Bool) (error : Error) (source file : String) : String :=
  let body :=
    match place? error source with
    | some place => excerpt colour source file place
    | none => ["  " ++ error.cause.message]
  String.intercalate "\n" (paint colour .redBold (header error) :: body) ++ "\n"

end LittleC.Diagnostic
