/-! The command line: one input, and options before or after it. Arguments are taken
from left to right, and the first that does not fit ends the reading. An option's value
is in the same argument or is the next one; flags of one letter may share an argument.
After `--` every argument is an input, whatever it looks like. -/
namespace LittleC.Command

/-- What a run is asked to do. -/
structure Options where
  input : String
  /-- Where the C text goes, if not beside the input. -/
  output : Option String
  /-- Where the tree goes, if it is wanted. -/
  emitAst : Option String
  /-- Read the input as a tree, whatever its name. -/
  fromJson : Bool
  /-- Print the C text and write no file for it. -/
  toStdout : Bool
  verbosity : Nat
  deriving DecidableEq, Repr

/-- Options that take a value. -/
inductive Setting where
  | output
  | emitAst
  deriving DecidableEq, Repr

/-- Options that take none. -/
inductive Flag where
  | fromJson
  | toStdout
  | verbose
  | help
  deriving DecidableEq, Repr

def Setting.name : Setting → String
  | output => "output"
  | emitAst => "emit-ast"

def Flag.name : Flag → String
  | fromJson => "from-json"
  | toStdout => "stdout"
  | verbose => "verbose"
  | help => "help"

inductive UsageError where
  | unknownOption (text : String)
  | secondInput (text : String)
  | missingInput
  | emptyInput
  | missingValue (setting : Setting)
  | emptyValue (setting : Setting)
  | unexpectedValue (flag : Flag)
  | repeatedSetting (setting : Setting)
  | repeatedFlag (flag : Flag)
  deriving DecidableEq, Repr

def UsageError.message : UsageError → String
  | unknownOption text => "unknown option '" ++ text ++ "'"
  | secondInput text => "unexpected argument '" ++ text ++ "'"
  | missingInput => "no input given"
  | emptyInput => "the input may not be empty"
  | missingValue s => "option '--" ++ s.name ++ "' needs a value"
  | emptyValue s => "the value of option '--" ++ s.name ++ "' may not be empty"
  | unexpectedValue f => "option '--" ++ f.name ++ "' takes no value"
  | repeatedSetting s => "option '--" ++ s.name ++ "' is given twice"
  | repeatedFlag f => "option '--" ++ f.name ++ "' is given twice"

/-- Why there is nothing to run. -/
inductive Ending where
  | help
  | usage (error : UsageError)
  deriving DecidableEq, Repr

/-! ### Arguments -/

/-- An option as it is written, or a part of an argument that holds several. -/
inductive Piece where
  | setting (s : Setting) (value : Option String)
  | flag (f : Flag)
  | flagWithValue (f : Flag)
  | unknown (text : String)
  deriving DecidableEq, Repr

inductive Argument where
  | separator
  | plain (text : String)
  | options (pieces : List Piece)
  deriving DecidableEq, Repr

/-- An option by its long name, with the value after an equals sign. -/
def Piece.long (name : String) (value : Option String) : Piece :=
  match [Setting.output, .emitAst].find? (·.name == name) with
  | some s => .setting s value
  | none =>
    match [Flag.fromJson, .toStdout, .verbose, .help].find? (·.name == name), value with
    | some f, none => .flag f
    | some f, some _ => .flagWithValue f
    | none, _ => .unknown ("--" ++ name)

/-- The value of a one-letter option in the rest of its argument, where an equals sign
may come first. -/
def attachedValue : List Char → Option String
  | [] => none
  | '=' :: rest => some (String.ofList rest)
  | rest => some (String.ofList rest)

/-- The options of an argument that holds one-letter options. -/
def Piece.short : List Char → List Piece
  | [] => []
  | 'o' :: rest => [.setting .output (attachedValue rest)]
  | 'v' :: rest => .flag .verbose :: Piece.short rest
  | 'h' :: rest => .flag .help :: Piece.short rest
  | c :: _ => [.unknown (String.ofList ['-', c])]

/-- The text before the first equals sign, and the text after it. -/
def splitEquals (cs : List Char) : String × Option String :=
  (String.ofList (cs.takeWhile (· != '=')),
    match cs.dropWhile (· != '=') with
    | [] => none
    | _ :: value => some (String.ofList value))

def Argument.ofString (text : String) : Argument :=
  match text.toList with
  | ['-', '-'] => .separator
  | '-' :: '-' :: rest => .options [Piece.long (splitEquals rest).1 (splitEquals rest).2]
  | ['-'] => .plain text
  | '-' :: rest => .options (Piece.short rest)
  | _ => .plain text

/-! ### Reading -/

/-- What the arguments so far have said. -/
structure Draft where
  input : Option String
  output : Option String
  emitAst : Option String
  fromJson : Bool
  toStdout : Bool
  verbosity : Nat
  /-- An option whose value is the next argument. -/
  awaiting : Option Setting
  /-- Only inputs follow. -/
  literal : Bool
  deriving DecidableEq, Repr

namespace Draft

def empty : Draft :=
  ⟨none, none, none, false, false, 0, none, false⟩

/-- An option that awaits its value does not get one. -/
def settled (d : Draft) : Except Ending Draft :=
  match d.awaiting with
  | some s => .error (.usage (.missingValue s))
  | none => .ok d

def value? (d : Draft) : Setting → Option String
  | .output => d.output
  | .emitAst => d.emitAst

def set (d : Draft) (s : Setting) (value : String) : Except Ending Draft :=
  if (d.value? s).isSome then .error (.usage (.repeatedSetting s))
  else if value.isEmpty then .error (.usage (.emptyValue s))
  else
    match s with
    | .output => .ok { d with output := some value, awaiting := none }
    | .emitAst => .ok { d with emitAst := some value, awaiting := none }

def raise (d : Draft) : Flag → Except Ending Draft
  | .fromJson =>
    if d.fromJson then .error (.usage (.repeatedFlag .fromJson)) else .ok { d with fromJson := true }
  | .toStdout =>
    if d.toStdout then .error (.usage (.repeatedFlag .toStdout)) else .ok { d with toStdout := true }
  | .verbose => .ok { d with verbosity := d.verbosity + 1 }
  | .help => .error .help

def setInput (d : Draft) (text : String) : Except Ending Draft :=
  if d.input.isSome then .error (.usage (.secondInput text))
  else if text.isEmpty then .error (.usage .emptyInput)
  else .ok { d with input := some text }

def takePiece (d : Draft) (piece : Piece) : Except Ending Draft := do
  let d ← d.settled
  match piece with
  | .setting s (some value) => d.set s value
  | .setting s none => .ok { d with awaiting := some s }
  | .flag f => d.raise f
  | .flagWithValue f => .error (.usage (.unexpectedValue f))
  | .unknown text => .error (.usage (.unknownOption text))

def take (d : Draft) (text : String) : Except Ending Draft :=
  match d.literal, Argument.ofString text with
  | false, .separator => .ok { d with literal := true }
  | false, .options pieces => pieces.foldlM takePiece d
  | false, .plain value =>
    match d.awaiting with
    | some s => d.set s value
    | none => d.setInput value
  | true, _ => do
    let d ← d.settled
    d.setInput text

def finish (d : Draft) : Except Ending Options := do
  let d ← d.settled
  match d.input with
  | some input => .ok ⟨input, d.output, d.emitAst, d.fromJson, d.toStdout, d.verbosity⟩
  | none => .error (.usage .missingInput)

end Draft

/-- What a command line asks for. -/
def Options.ofArguments (arguments : List String) : Except Ending Options := do
  let d ← arguments.foldlM Draft.take .empty
  d.finish

end LittleC.Command
