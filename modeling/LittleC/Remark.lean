import LittleC.Ast.Decoding
import LittleC.Lowering.Trace

/-! Remarks: what is worth saying about a compilation that is no error, such as nodes
that could not be read and conditions that are no truth values. The remarks made before a
failure stay. -/
namespace LittleC

inductive Level where
  | warn
  | debug
  | trace
  deriving DecidableEq, Repr

def Level.name : Level → String
  | warn => "WARN"
  | debug => "DEBUG"
  | trace => "TRACE"

structure Remark where
  level : Level
  text : String
  deriving DecidableEq, Repr

/-- What there is to say about one thing that lowering came to. -/
def Visit.remark? : Visit → Option Remark
  | expr _ (.unrecognized node) =>
    some ⟨.warn, "Unrecognized expression node: " ++ node.compact⟩
  | stmt _ (.unrecognized node) =>
    some ⟨.warn, "Unrecognized statement node: " ++ node.compact⟩
  | stmt _ (.prototype name _) => some ⟨.debug, "Registered prototype for `" ++ name ++ "`"⟩
  | condition c =>
    if c.type.compatible .bool then none
    else some ⟨.debug, "Condition `" ++ c.code ++ "` has type " ++ c.type.name ++ ", not Bool"⟩
  | _ => none

/-- Remarks on lowering a program. -/
def Program.remarks (p : Program) : List Remark :=
  (Stmt.traceAll .root p).filterMap Visit.remark?

/-- Remarks on compiling a source text. -/
def sourceRemarks (source file : String) : List Remark :=
  match scan source file with
  | .error _ => []
  | .ok tokens =>
    ⟨.trace, "Produced " ++ toString tokens.length ++ " tokens"⟩ ::
      match parse tokens file with
      | .error _ => []
      | .ok p =>
        ⟨.trace, "Parsed " ++ toString p.length ++ " top-level statements"⟩ :: Program.remarks p

/-- Remarks on compiling the text of a tree. -/
def treeRemarks (text : String) : List Remark :=
  match Program.load text with
  | .error _ => []
  | .ok p => Program.remarks p

end LittleC
