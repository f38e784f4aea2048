import LittleC.Text.Hidden

/-! Quoted text, the way messages show a name or a token: between double quotes,
with quotes, backslashes and hidden characters escaped, so that whatever the text
holds can be read off the terminal. -/
namespace LittleC.Text

/-- The number of a character in lower-case hexadecimal, without leading zeros. -/
def hexNumber (c : Char) : String :=
  String.ofList (Nat.toDigits 16 c.toNat)

/-- One character inside quotes. -/
def escapeChar (c : Char) : String :=
  if c = '"' then "\\\""
  else if c = '\\' then "\\\\"
  else if c = '\n' then "\\n"
  else if c = '\r' then "\\r"
  else if c = '\t' then "\\t"
  else if c = '\x00' then "\\0"
  else if isHidden c then "\\u\x7b" ++ hexNumber c ++ "\x7d"
  else c.toString

/-- A text between quotes. -/
def quote (s : String) : String :=
  "\"" ++ String.join (s.toList.map escapeChar) ++ "\""

end LittleC.Text
