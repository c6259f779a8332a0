import CallTargets.IR.Reader.Constants

/-!
# Reading metadata

Of a metadata node only the fields that give positions matter: the line, the file, the scope and
the file name. Nodes are first read as they are written and then resolved through the numbered
nodes of the module.
-/
namespace CallTargets.IR

/-- Metadata as it is written: the number of a node, a node with its class and fields, or what a
field may hold besides. -/
inductive Metadata where
  | ref (id : Nat)
  | node (kind : String) (fields : List (String × Metadata))
  | text (s : ByteString)
  | int (n : Int)
  | other
deriving Repr, Inhabited

abbrev MetadataNodes := List (Nat × Metadata)

namespace Metadata

/-- Metadata with a number replaced by the node that has it. -/
def follow (nodes : MetadataNodes) : Metadata → Metadata
  | .ref i => (nodes.lookup i).getD .other
  | m => m

/-- The field of a node, numbers followed; the last of its name counts. -/
def field (nodes : MetadataNodes) (name : String) : Metadata → Metadata
  | .node _ fields => ((fields.reverse.lookup name).getD .other).follow nodes
  | _ => .other

def kind : Metadata → String
  | .node kind _ => kind
  | _ => ""

private def fileName (nodes : MetadataNodes) (m : Metadata) : ByteString :=
  match m.field nodes "filename" with
  | .text s => s
  | _ => ""

private def fileOf (nodes : MetadataNodes) (m : Metadata) : Option ByteString :=
  let file := m.field nodes "file"
  if file.kind == "DIFile" then some (file.fileName nodes) else none

private def line (nodes : MetadataNodes) (m : Metadata) : Int :=
  match m.field nodes "line" with
  | .int n => n
  | _ => 0

/-- The file a scope names: its own for a file, else the one it refers to. -/
private def scopeFile (nodes : MetadataNodes) (m : Metadata) : ByteString :=
  match m.kind with
  | "DIFile" => m.fileName nodes
  | "DISubprogram" | "DILexicalBlock" | "DILexicalBlockFile" => (m.fileOf nodes).getD ""
  | _ => ""

def resolve (nodes : MetadataNodes) (m : Metadata) : DebugNode :=
  let node := m.follow nodes
  match node.kind with
  | "DILocation" => .location (node.line nodes) ((node.field nodes "scope").scopeFile nodes)
  | "DISubprogram" => .subprogram (node.fileOf nodes) (node.line nodes)
  | _ => .other

end Metadata

/-! ### The fields of nodes -/

inductive FieldForm where
  | number
  | text
  | truth
  /-- A word of the debug format, or its number. -/
  | symbol
  /-- Words or numbers joined by bars. -/
  | flags
  | metadata
deriving DecidableEq, Repr, Inhabited

def positionNodes : List (String × List (String × FieldForm)) :=
  [("DILocation", [("line", .number), ("column", .number), ("scope", .metadata),
      ("inlinedAt", .metadata), ("isImplicitCode", .truth)]),
   ("DIFile", [("filename", .text), ("directory", .text), ("checksumkind", .symbol),
      ("checksum", .text), ("source", .text)]),
   ("DILexicalBlock", [("scope", .metadata), ("file", .metadata), ("line", .number),
      ("column", .number)]),
   ("DILexicalBlockFile", [("scope", .metadata), ("file", .metadata),
      ("discriminator", .number)]),
   ("DISubprogram", [("scope", .metadata), ("name", .text), ("linkageName", .text),
      ("file", .metadata), ("line", .number), ("type", .metadata), ("isLocal", .truth),
      ("isDefinition", .truth), ("scopeLine", .number), ("containingType", .metadata),
      ("virtuality", .symbol), ("virtualIndex", .number), ("thisAdjustment", .number),
      ("flags", .flags), ("spFlags", .flags), ("isOptimized", .truth), ("unit", .metadata),
      ("templateParams", .metadata), ("declaration", .metadata), ("retainedNodes", .metadata),
      ("thrownTypes", .metadata), ("annotations", .metadata), ("targetFuncName", .text)]),
   ("DICompileUnit", [("language", .symbol), ("file", .metadata), ("producer", .text),
      ("isOptimized", .truth), ("flags", .text), ("runtimeVersion", .number),
      ("splitDebugFilename", .text), ("emissionKind", .symbol), ("enums", .metadata),
      ("retainedTypes", .metadata), ("globals", .metadata), ("imports", .metadata),
      ("macros", .metadata), ("dwoId", .number), ("splitDebugInlining", .truth),
      ("debugInfoForProfiling", .truth), ("nameTableKind", .symbol),
      ("debugBaseAddress", .truth), ("rangesBaseAddress", .truth), ("sysroot", .text),
      ("sdk", .text)])]

/-- The classes of the other nodes. Their fields say nothing about positions. -/
def otherNodes : List String :=
  ["DIArgList", "DIBasicType", "DICommonBlock", "DICompositeType", "DIDerivedType",
   "DIEnumerator", "DIExpression", "DIGenericSubrange", "DIGlobalVariable",
   "DIGlobalVariableExpression", "DIImportedEntity", "DILabel", "DILocalVariable", "DIMacro",
   "DIMacroFile", "DIModule", "DINamespace", "DIObjCProperty", "DIStringType", "DISubrange",
   "DISubroutineType", "DITemplateTypeParameter", "DITemplateValueParameter", "GenericDINode"]

namespace Reader

/-- Fields whose numbers are positions, which have to fit a signed word. -/
private def positionFields : List String := ["line", "column", "scopeLine"]

/-- The rest of a field's value up to the comma or bracket behind it. -/
private def skipValue : Nat → Reader Unit
  | 0 => failure
  | n + 1 => do
    match ← peek with
    | some (.sym ',') | some (.sym ')') => return
    | some (.sym '(') | some (.sym '{') | some (.sym '[') => skip; skipBalanced; skipValue n
    | some _ => skip; skipValue n
    | none => failure

/-- A value or constant inside metadata. Locals are allowed where the names have them. -/
private def wrappedValue (names : Names) : Reader Unit := do
  let t ← type
  match ← peek with
  | some (.loc i) => skip; unless (names.loc i).isSome do failure
  | _ => let _ ← constant names t

/-- A number of a field, which has to fit a signed word where it is a position. -/
private def fieldNumber (name : String) : Reader Metadata := do
  let v : Int ← match ← next with
    | .int v => pure v
    | .hexInt _ v => pure v
    | _ => failure
  if positionFields.contains name && !Text.fitsInt64 v then failure
  return .int v

private def fieldSymbol : Reader Unit := do
  match ← next with
  | .word _ => return
  | .int _ => return
  | _ => failure

private def fieldFlags : Nat → Reader Unit
  | 0 => failure
  | n + 1 => do
    fieldSymbol
    if ← acceptSym '|' then fieldFlags n

private def fieldTruth : Reader Unit := do
  match ← oneOf ["true", "false"] with
  | some _ => return
  | none => failure

mutual

private def writtenNode (names : Names) : Nat → Reader Metadata
  | 0 => failure
  | n + 1 => do
    match ← next with
    | .metaName kind =>
      expectSym '('
      match positionNodes.lookup kind.text with
      | some fields => return .node kind.text (← listUntil ')' (knownField names fields n))
      | none =>
        unless otherNodes.contains kind.text do failure
        return .node kind.text (← listUntil ')' (otherField names n))
    | .sym '!' =>
      expectSym '{'
      let _ ← listUntil '}' (item names n)
      return .node "" []
    | _ => failure

/-- Metadata inside metadata: nothing, a number of a node, a node, a text, or a value. -/
private def item (names : Names) : Nat → Reader Metadata
  | 0 => failure
  | n + 1 => do
    match ← peek, ← peekSecond with
    | some (.word "null"), _ => skip; return .other
    | some (.metaId i), _ => skip; return .ref i
    | some (.sym '!'), some (.str _) => skip; skip; return .other
    | some (.metaName _), _ | some (.sym '!'), _ => writtenNode names n
    | _, _ => wrappedValue names; return .other

private def knownField (names : Names) (fields : List (String × FieldForm)) :
    Nat → Reader (String × Metadata)
  | 0 => failure
  | n + 1 => do
    match ← next with
    | .label (.named label) =>
      let name := label.text
      match fields.lookup name with
      | some .number => return (name, ← fieldNumber name)
      | some .text => return (name, .text (← quotedText))
      | some .truth => fieldTruth; return (name, .other)
      | some .symbol => fieldSymbol; return (name, .other)
      | some .flags => fieldFlags (← budget); return (name, .other)
      | some .metadata => return (name, ← item names n)
      | none => failure
    | _ => failure

/-- A field of another node; some have no name. -/
private def otherField (names : Names) : Nat → Reader (String × Metadata)
  | 0 => failure
  | n + 1 => do
    let name ← match ← peek with
      | some (.label (.named name)) => skip; pure name.text
      | _ => pure ""
    match ← peek with
    | some (.sym ',') | some (.sym ')') => failure
    | some (.metaId _) | some (.metaName _) | some (.sym '!') => let _ ← item names n
    | some (.int v) => skip; if positionFields.contains name && !Text.fitsInt64 v then failure
    | _ => pure ()
    skipValue (← budget)
    return (name, .other)

end

/-- A node as it is attached: by its number or written out. -/
def attached (names : Names) : Reader Metadata := do
  match ← peek with
  | some (.metaId i) => skip; return .ref i
  | _ => writtenNode names (← budget)

def numberedNode (names : Names) : Reader Metadata := do
  let _ ← acceptWord "distinct"
  writtenNode names (← budget)

/-- A member of metadata with a name: the number of a node, or an expression. -/
def namedMember (names : Names) : Reader Unit := do
  match ← peek with
  | some (.metaId _) => skip
  | some (.metaName kind) =>
    unless kind.text = "DIExpression" do failure
    let _ ← writtenNode names (← budget)
  | _ => failure

/-- Metadata as an operand: a node, a text, or a value behind its type. -/
def metadataOperand (names : Names) : Reader Unit := do
  if (← peek) = some (.word "null") then failure
  let _ ← item names (← budget)

private def attachedNode (names : Names) (nodes : MetadataNodes) : Reader DebugNode := do
  return (← attached names).resolve nodes

/-- Attachments of a function: a name and a node, repeated. -/
def attachments (names : Names) (nodes : MetadataNodes) : Reader (List Attachment) :=
  manyWhile do
    match ← peek with
    | some (.metaName name) => skip; return some ⟨name, ← attachedNode names nodes⟩
    | _ => return none

/-- Attachments of an instruction, each behind a comma. -/
def trailingAttachments (names : Names) (nodes : MetadataNodes) : Reader (List Attachment) :=
  manyWhile do
    match ← peek, ← peekSecond with
    | some (.sym ','), some (.metaName name) =>
      skip
      skip
      return some ⟨name, ← attachedNode names nodes⟩
    | _, _ => return none

end Reader
end CallTargets.IR
