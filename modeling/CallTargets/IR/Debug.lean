import CallTargets.ByteString

/-!
# Debug records

What the source positions need of the metadata attached to instructions and functions: positions
with the file of their scope, and subprograms with their file and line.
-/
namespace CallTargets.IR

/-- A metadata node. `scopeFile` is the file a position's scope names, empty when it names none. -/
inductive DebugNode where
  | location (line : Int) (scopeFile : ByteString)
  | subprogram (file : Option ByteString) (line : Int)
  | other
deriving DecidableEq, Repr, Inhabited

/-- A metadata node attached under a name such as `dbg`. -/
structure Attachment where
  name : ByteString
  node : DebugNode
deriving DecidableEq, Repr, Inhabited

/-- The node attached first under the name `dbg`. -/
def debugNode? (as : List Attachment) : Option DebugNode :=
  (as.find? fun a => a.name == ("dbg" : ByteString)).map Attachment.node

end CallTargets.IR
