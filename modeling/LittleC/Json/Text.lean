import LittleC.Json.Basic

/-! JSON text: `compact` without any blank, and `pretty` with a line for every
element and member, indented by two spaces. Inside strings only quotes,
backslashes and control characters are escaped. -/
namespace LittleC.Json

/-- One lower-case hexadecimal digit. -/
def hexDigit (n : Nat) : Char :=
  Nat.digitChar (n % 16)

/-- One character inside a string. -/
def escapeChar (c : Char) : List Char :=
  if c = '"' then ['\\', '"']
  else if c = '\\' then ['\\', '\\']
  else if c = '\x08' then ['\\', 'b']
  else if c = '\x0c' then ['\\', 'f']
  else if c = '\n' then ['\\', 'n']
  else if c = '\r' then ['\\', 'r']
  else if c = '\t' then ['\\', 't']
  else if c.toNat < 0x20 then
    ['\\', 'u', '0', '0', hexDigit (c.toNat / 16), hexDigit c.toNat]
  else [c]

/-- A string with its quotes. -/
def stringText (s : String) : String :=
  "\"" ++ String.ofList (s.toList.flatMap escapeChar) ++ "\""

def boolText (b : Bool) : String :=
  if b then "true" else "false"

/-! ### Compact -/

mutual
def compact : Json → String
  | null => "null"
  | bool b => boolText b
  | number n => n.text
  | string s => stringText s
  | array elements => "[" ++ String.intercalate "," (compactAll elements) ++ "]"
  | object members => "\x7b" ++ String.intercalate "," (compactMembers members) ++ "\x7d"

def compactAll : List Json → List String
  | [] => []
  | v :: rest => compact v :: compactAll rest

def compactMembers : List (String × Json) → List String
  | [] => []
  | (k, v) :: rest => (stringText k ++ ":" ++ compact v) :: compactMembers rest
end

/-! ### Pretty -/

/-- Items between brackets on lines of their own; no items leave the brackets alone. -/
def spread (opening closing indent : String) (items : List String) : String :=
  if items.isEmpty then opening ++ closing
  else
    let inner := indent ++ "  "
    opening ++ "\n" ++ inner ++ String.intercalate (",\n" ++ inner) items ++ "\n" ++ indent ++ closing

mutual
def prettyAt (indent : String) : Json → String
  | null => "null"
  | bool b => boolText b
  | number n => n.text
  | string s => stringText s
  | array elements => spread "[" "]" indent (prettyAll (indent ++ "  ") elements)
  | object members => spread "\x7b" "\x7d" indent (prettyMembers (indent ++ "  ") members)

def prettyAll (indent : String) : List Json → List String
  | [] => []
  | v :: rest => prettyAt indent v :: prettyAll indent rest

def prettyMembers (indent : String) : List (String × Json) → List String
  | [] => []
  | (k, v) :: rest => (stringText k ++ ": " ++ prettyAt indent v) :: prettyMembers indent rest
end

def pretty (v : Json) : String :=
  prettyAt "" v

end LittleC.Json
