import LittleC.Command.Files
import LittleC.Command.Options
import LittleC.Command.Path
import LittleC.Diagnostic
import LittleC.Remark

/-! A run of the compiler on a file: read the input, load the program, write the tree if
it is wanted, lower, and put the C text where it belongs. The first step that fails ends
the run, and the C text is put in its place only after all other steps are done. -/
namespace LittleC.Command

/-- What a run leaves behind besides files. -/
structure Outcome where
  exitCode : Nat
  stdout : String
  stderr : String
  remarks : List Remark
  deriving DecidableEq, Repr

/-- The input is a tree and no source text. -/
def Options.readsTree (o : Options) : Bool :=
  o.fromJson || Path.extension? o.input == some "json"

/-- The file for the C text. -/
def Options.target (o : Options) : String :=
  o.output.getD (Path.withExtension o.input "c")

/-- The program of the input's text. -/
def Options.load (o : Options) (source : String) : Except Error Program :=
  if o.readsTree then Program.load source else parseSource source (Path.fileName o.input)

/-- What there is to remark on the input's text. -/
def Options.remarks (o : Options) (source : String) : List Remark :=
  if o.readsTree then treeRemarks source else sourceRemarks source (Path.fileName o.input)

def readFailure (path : String) (fault : FileFault) : String :=
  "Error reading file '" ++ path ++ "': " ++ fault.message ++ "\n"

def writeFailure (path : String) (fault : FileFault) : String :=
  "Error writing file '" ++ path ++ "': " ++ fault.message ++ "\n"

/-- The text of a file's content. -/
def textOf (content : Except FileFault ByteArray) : Except FileFault String :=
  match content with
  | .error fault => .error fault
  | .ok bytes =>
    match String.fromUTF8? bytes with
    | some text => .ok text
    | none => .error .notText

section
variable {m : Type → Type} [Monad m] (files : Files m)

/-- Writes a text; the message if that fails. -/
def writeText (path text : String) : m (Except String Unit) := do
  match ← files.write path text.toUTF8 with
  | .ok () => return .ok ()
  | .error fault => return .error (writeFailure path fault)

/-- Writes the tree of the program, if it is wanted. -/
def emitTree (o : Options) (p : Program) : m (Except String Unit) :=
  match o.emitAst with
  | some path => writeText files path p.toJson.pretty
  | none => return .ok ()

/-- Puts the C text in its one place; what is printed. -/
def deliver (o : Options) (code : String) : m (Except String String) := do
  if o.toStdout then return .ok code
  match ← writeText files o.target code with
  | .ok () => return .ok ""
  | .error message => return .error message

/-- The steps after reading; what is printed, or the message of the step that failed. -/
def compileText (o : Options) (source : String) : m (Except String String) := do
  let shown (e : Error) := Diagnostic.render false e source (Path.fileName o.input)
  match o.load source with
  | .error e => return .error (shown e)
  | .ok program =>
    match ← emitTree files o program with
    | .error message => return .error message
    | .ok () =>
      match program.lower with
      | .error e => return .error (shown e)
      | .ok code => deliver files o code

def run (o : Options) : m Outcome := do
  match textOf (← files.read o.input) with
  | .error fault => return ⟨1, "", readFailure o.input fault, []⟩
  | .ok source =>
    match ← compileText files o source with
    | .error message => return ⟨1, "", message, o.remarks source⟩
    | .ok printed => return ⟨0, printed, "", o.remarks source⟩

end

/-- A run on a disk: what it leaves behind, and the disk after it. -/
def runOn (disk : Disk) (o : Options) : Outcome × Disk :=
  (run Disk.access o).run disk

end LittleC.Command
