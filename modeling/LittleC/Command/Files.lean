import LittleC.Assoc

/-! Reading and writing files: what a run needs of the world around it, and a disk to run
on that is a value. -/
namespace LittleC.Command

/-- Why a file cannot be read or written. -/
inductive FileFault where
  | missing
  | notDirectory
  | isDirectory
  | nameTooLong
  | notText
  /-- Anything else, in the words of the system. -/
  | other (text : String)
  deriving DecidableEq, Repr

def FileFault.message : FileFault → String
  | missing => "No such file or directory (os error 2)"
  | notDirectory => "Not a directory (os error 20)"
  | isDirectory => "Is a directory (os error 21)"
  | nameTooLong => "File name too long (os error 36)"
  | notText => "stream did not contain valid UTF-8"
  | other text => text

/-- Access to files by their paths. A write replaces the whole file or fails. -/
structure Files (m : Type → Type) where
  read : String → m (Except FileFault ByteArray)
  write : String → ByteArray → m (Except FileFault Unit)

/-- A disk: the files by their places. A place is a path without empty parts and dots.
It starts from the working directory, and then has `..` only at its start, or with a
slash from the root of the system. The directories are those on the way to a file, the
ones above the working directory, and the ones that every system has. -/
structure Disk where
  files : List (String × ByteArray)

namespace Disk

/-- The path with these parts. -/
def joined (parts : List String) : String :=
  String.intercalate "/" parts

/-- The root of the system, before the first slash. -/
def root : List String := [""]

/-- The directories that every system has, the root first. -/
def systemDirectories : List String :=
  ["", "/bin", "/boot", "/dev", "/etc", "/home", "/lib", "/media", "/mnt", "/opt", "/proc", "/root",
   "/run", "/sbin", "/srv", "/sys", "/tmp", "/usr", "/var"]

/-- The files that every system has. -/
def systemFiles : List (String × ByteArray) :=
  [("/dev/null", ByteArray.empty)]

/-- The longest name of a file or directory, in bytes. -/
def longestName : Nat := 255

def file? (disk : Disk) (place : List String) : Option ByteArray :=
  disk.files.lookup (joined place)

def hasDirectory (disk : Disk) (place : List String) : Bool :=
  place.all (· == "..") || systemDirectories.contains (joined place) ||
    disk.files.any fun entry => (joined place ++ "/").isPrefixOf entry.1

/-- The parent of a place. The root is its own. -/
def parent (place : List String) : List String :=
  match place.getLast? with
  | none | some ".." => place ++ [".."]
  | some "" => place
  | some _ => place.dropLast

/-- One part of a path further, from a directory. -/
def descend (place : List String) (part : String) : List String :=
  if part = "" ∨ part = "." then place
  else if part = ".." then parent place
  else place ++ [part]

/-- One part further, if its name is not too long. -/
def step (place : List String) (part : String) : Except FileFault (List String) :=
  if longestName < part.utf8ByteSize then .error .nameTooLong else .ok (descend place part)

/-- Follows parts of a path, which have to be directories. -/
def walk (disk : Disk) (place : List String) : List String → Except FileFault (List String)
  | [] => .ok place
  | part :: rest => do
    let next ← step place part
    if disk.hasDirectory next then walk disk next rest
    else if (disk.file? next).isSome then .error .notDirectory
    else .error .missing

/-- The directory that all parts but the last lead to. An empty first part is the root,
and an empty path leads nowhere. -/
def folder (disk : Disk) (parts : List String) : Except FileFault (List String) :=
  match parts with
  | [""] => .error .missing
  | "" :: rest => disk.walk root rest.dropLast
  | _ => disk.walk [] parts.dropLast

/-- The content of the file at a path. -/
def read (disk : Disk) (path : String) : Except FileFault ByteArray := do
  let parts := path.splitOn "/"
  let place ← step (← disk.folder parts) (parts.getLast?.getD "")
  match disk.file? place with
  | some content => .ok content
  | none => if disk.hasDirectory place then .error .isDirectory else .error .missing

/-- The disk after the file at a path has got this content. A path with a slash at its
end can only be a directory's. -/
def write (disk : Disk) (path : String) (content : ByteArray) : Except FileFault Disk := do
  let parts := path.splitOn "/"
  let named := (parts.reverse.dropWhile (· == "")).reverse
  let folder ← disk.folder named
  if named.length < parts.length then .error .isDirectory
  else
    let place ← step folder (named.getLast?.getD "")
    if disk.hasDirectory place then .error .isDirectory
    else .ok ⟨Assoc.insert (joined place) content disk.files⟩

/-- A disk with these files in the working directory and below. -/
def ofFiles (files : List (String × ByteArray)) : Disk :=
  let placed := files.map fun entry => (joined ((entry.1.splitOn "/").foldl descend []), entry.2)
  ⟨Assoc.ofPairs (systemFiles ++ placed)⟩

/-- The files in the working directory and below, in the order of their paths. -/
def listing (disk : Disk) : List (String × ByteArray) :=
  disk.files.filter fun entry => !("../".isPrefixOf entry.1 || "/".isPrefixOf entry.1)

/-- Access to the files of a disk. -/
def access : Files (StateM Disk) where
  read path := fun disk => (disk.read path, disk)
  write path content := fun disk =>
    match disk.write path content with
    | .ok written => (.ok (), written)
    | .error fault => (.error fault, disk)

end Disk
end LittleC.Command
