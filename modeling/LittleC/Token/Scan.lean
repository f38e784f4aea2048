import LittleC.Error
import LittleC.Text.Blank
import LittleC.Text.Lines
import LittleC.Token.Basic

/-! Scanning: from a source text to its tokens. A rule says how many characters at the
start of a text it matches; at every position the first rule of the list that matches
takes its match, which becomes a token or is skipped. The list puts a longer operator
before the shorter one it begins with. -/
namespace LittleC

/-- A way for a token, or for text between tokens, to begin. -/
structure ScanRule where
  /-- How many characters at the start of the text match, if any do. -/
  length? : List Char → Option Nat
  /-- The kind and value of the token with this text; `none` for text that is skipped. -/
  token? : List Char → Option (TokenKind × String)

namespace ScanRule

/-! ### Matching -/

def isWordStart (c : Char) : Bool :=
  c.isAlpha || c == '_'

def isWordPart (c : Char) : Bool :=
  c.isAlphanum || c == '_'

/-- A letter or underscore, then letters, digits and underscores. -/
def wordLength? : List Char → Option Nat
  | c :: rest => if isWordStart c then some (1 + (rest.takeWhile isWordPart).length) else none
  | [] => none

/-- A fraction after the whole part: a point, digits, and perhaps the suffix `f`. A
point without digits is none. -/
def fractionLength : List Char → Nat
  | '.' :: rest =>
    let digits := (rest.takeWhile Char.isDigit).length
    if digits = 0 then 0
    else if (rest.drop digits).head? = some 'f' then digits + 2
    else digits + 1
  | _ => 0

/-- Digits, then perhaps a fraction. -/
def numberLength? (cs : List Char) : Option Nat :=
  let digits := (cs.takeWhile Char.isDigit).length
  if digits = 0 then none else some (digits + fractionLength (cs.drop digits))

def blankLength? (cs : List Char) : Option Nat :=
  let blanks := (cs.takeWhile Text.isBlank).length
  if blanks = 0 then none else some blanks

/-- The rest of a string through its closing quote. A backslash goes with the character
after it, which is not a line break. -/
def stringTail? : List Char → Option Nat
  | [] => none
  | '"' :: _ => some 1
  | '\\' :: [] => none
  | '\\' :: c :: rest => if c = '\n' then none else (stringTail? rest).map (· + 2)
  | _ :: rest => (stringTail? rest).map (· + 1)

def stringLength? : List Char → Option Nat
  | '"' :: rest => (stringTail? rest).map (· + 1)
  | _ => none

/-- Raw text ends at the next backtick. -/
def rawTail? : List Char → Option Nat
  | [] => none
  | '\x60' :: _ => some 1
  | _ :: rest => (rawTail? rest).map (· + 1)

def rawLength? : List Char → Option Nat
  | '\x60' :: rest => (rawTail? rest).map (· + 1)
  | _ => none

/-- Two slashes and the rest of the line. -/
def commentLength? : List Char → Option Nat
  | '/' :: '/' :: rest => some (2 + (rest.takeWhile (· != '\n')).length)
  | _ => none

def fixedLength? (text : List Char) (cs : List Char) : Option Nat :=
  if text.isPrefixOf cs then some text.length else none

/-! ### The rules -/

/-- A word is a reserved one or an identifier. -/
def word : ScanRule :=
  ⟨wordLength?, fun cs =>
    let value := String.ofList cs
    some ((TokenKind.reserved? value).getD .identifier, value)⟩

def number : ScanRule :=
  ⟨numberLength?, fun cs => some (.number, String.ofList cs)⟩

def blanks : ScanRule :=
  ⟨blankLength?, fun _ => none⟩

def string : ScanRule :=
  ⟨stringLength?, fun cs => some (.string, String.ofList (cs.drop 1).dropLast)⟩

def raw : ScanRule :=
  ⟨rawLength?, fun cs => some (.rawCode, String.ofList (cs.drop 1).dropLast)⟩

def comment : ScanRule :=
  ⟨commentLength?, fun _ => none⟩

def fixed (kind : TokenKind) (text : String) : ScanRule :=
  ⟨fixedLength? text.toList, fun cs => some (kind, String.ofList cs)⟩

def all : List ScanRule :=
  [word, number, blanks, string, raw, comment,
   fixed .openCurly "\x7b", fixed .closeCurly "\x7d", fixed .openParen "(", fixed .closeParen ")",
   fixed .equals "==", fixed .assignment "=", fixed .less "<", fixed .greater ">",
   fixed .semicolon ";", fixed .colon ":", fixed .comma ",", fixed .arrow "->",
   fixed .plus "+", fixed .dash "-", fixed .slash "/", fixed .star "*"]

/-- The first rule that matches, with the length of its match. -/
def first? (cs : List Char) : Option (ScanRule × Nat) :=
  all.findSome? fun rule => (rule.length? cs).map (Prod.mk rule)

end ScanRule

/-! ### Scanning a source -/

/-- The end-of-file token at an offset. -/
def Token.endOfFile (offset : Nat) (file : String) : Token :=
  ⟨.eof, "EOF", ⟨offset, offset, file⟩⟩

/-- The tokens of a text that stands at an offset of its source. -/
def scanFrom (file : String) (offset : Nat) (cs : List Char) : Except Error (List Token) :=
  match cs with
  | [] => .ok [Token.endOfFile offset file]
  | c :: rest =>
    match ScanRule.first? (c :: rest) with
    | none => .error (.located (.unrecognisedToken c.toString) ⟨offset, file⟩)
    | some (rule, n) =>
      let lexeme := (c :: rest).take n
      let stop := offset + Text.byteLength lexeme
      match scanFrom file stop (rest.drop (n - 1)) with
      | .error e => .error e
      | .ok tokens =>
        match rule.token? lexeme with
        | some (kind, value) => .ok (⟨kind, value, ⟨offset, stop, file⟩⟩ :: tokens)
        | none => .ok tokens
termination_by cs.length
decreasing_by
  simp only [List.length_drop, List.length_cons]
  omega

/-- The tokens of a source, the end of file last. -/
def scan (source file : String) : Except Error (List Token) :=
  scanFrom file 0 source.toList

end LittleC
