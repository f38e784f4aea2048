import LittleC.Command.Run

/-! The command line program. -/
namespace LittleC.Command

/-- The fault behind an error of the system. -/
def FileFault.ofError : IO.Error → FileFault
  | .noFileOrDirectory .. => .missing
  | .inappropriateType _ code _ => if code = 21 then .isDirectory else .notDirectory
  | e => .other (toString e)

def attempt (action : IO α) : IO (Except FileFault α) := do
  try return .ok (← action)
  catch e => return .error (.ofError e)

/-- Access to the files of the system. -/
def systemFiles : Files IO where
  read path := attempt (IO.FS.readBinFile path)
  write path content := attempt (IO.FS.writeBinFile path content)

def usage : String :=
  String.intercalate "\n"
    ["Lowers a small typed language to C source",
     "",
     "Usage: littlec [OPTIONS] <INPUT>",
     "",
     "Arguments:",
     "  <INPUT>  Source file, or a JSON AST when it ends in `.json`",
     "",
     "Options:",
     "  -o, --output <OUTPUT>      Where to write the C output (default: input with a `.c` extension)",
     "      --from-json            Treat the input as a JSON AST regardless of its extension",
     "      --emit-ast <EMIT_AST>  Also write the parsed AST as JSON to this path",
     "      --stdout               Print the C output instead of writing a file",
     "  -v, --verbose...           Increase log verbosity (-v debug, -vv trace)",
     "  -h, --help                 Print help",
     ""]

/-- Whether remarks of a level are shown when verbosity was asked for so many times. -/
def showsLevel (verbosity : Nat) : Level → Bool
  | .warn => true
  | .debug => 1 ≤ verbosity
  | .trace => 2 ≤ verbosity

end LittleC.Command

open LittleC.Command in
def main (arguments : List String) : IO UInt32 := do
  match Options.ofArguments arguments with
  | .error .help =>
    IO.print usage
    return 0
  | .error (.usage e) =>
    IO.eprint ("error: " ++ e.message ++ "\n\n" ++ usage)
    return 2
  | .ok options =>
    let outcome ← run systemFiles options
    for remark in outcome.remarks do
      if showsLevel options.verbosity remark.level then
        IO.eprintln ("[" ++ remark.level.name ++ "] " ++ remark.text)
    IO.print outcome.stdout
    IO.eprint outcome.stderr
    return UInt32.ofNat outcome.exitCode
