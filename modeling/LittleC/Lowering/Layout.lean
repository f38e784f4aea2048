/-! The layout of emitted C: blocks in braces, their statements indented by two spaces
more than the line that opens them, one fragment after the other. -/
namespace LittleC.Layout

/-- The indentation of a block inside a statement at this one. -/
def nested (indent : String) : String :=
  indent ++ "  "

/-- A block after its header: the body on lines of its own, the closing brace under the
header. -/
def braced (indent body : String) : String :=
  " \x7b\n" ++ body ++ "\n" ++ indent ++ "\x7d"

/-- Fragments on lines of their own. An empty one takes no line. -/
def joinLines (fragments : List String) : String :=
  String.intercalate "\n" (fragments.filter (· != ""))

/-- Items of a list in C. -/
def commaList (items : List String) : String :=
  String.intercalate ", " items

end LittleC.Layout
