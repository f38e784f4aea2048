/-! Names in paths: the last part of a path, and the extension after its last dot. A dot
at the start of a name makes the file hidden and begins no extension. -/
namespace LittleC.Command.Path

/-- The characters of a path after its last slash, and those up to it. -/
def splitName (path : List Char) : List Char × List Char :=
  let reversed := path.reverse
  ((reversed.dropWhile (· != '/')).reverse, (reversed.takeWhile (· != '/')).reverse)

/-- A name up to its last dot, and after it. -/
def splitDot? (name : List Char) : Option (List Char × List Char) :=
  let reversed := name.reverse
  match reversed.dropWhile (· != '.') with
  | [] => none
  | [_] => none
  | _ :: stem => some (stem.reverse, (reversed.takeWhile (· != '.')).reverse)

/-- The name of the file at a path. -/
def fileName (path : String) : String :=
  String.ofList (splitName path.toList).2

def extension? (path : String) : Option String :=
  (splitDot? (splitName path.toList).2).map fun parts => String.ofList parts.2

/-- A name with another extension. Without its extension a name such as `..a` is the
parent directory, which takes none. -/
def renameExtension (name extension : List Char) : List Char :=
  let kept :=
    match splitDot? name with
    | some (stem, _) => stem ++ ['.']
    | none => name
  if kept = ['.', '.'] then kept
  else
    match splitDot? kept with
    | some (stem, _) => stem ++ '.' :: extension
    | none => kept ++ '.' :: extension

/-- The path of the file beside this one with another extension. -/
def withExtension (path extension : String) : String :=
  let (folder, name) := splitName path.toList
  String.ofList (folder ++ renameExtension name extension.toList)

end LittleC.Command.Path
