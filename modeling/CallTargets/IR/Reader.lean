import CallTargets.IR.Reader.Instructions
import CallTargets.Sorting
import CallTargets.Text.NaturalOrder
import Std.Data.TreeMap

/-!
# Reading a module

Names may be used before they are defined, so the text is gone through several times: for the type
names, for the type definitions, for the metadata nodes, for the symbols, and then for the
contents. A function body is read twice, first for the names it defines and then for its operands.
-/
namespace CallTargets.IR

private def readAt {α : Type} (c : Cursor) (tokens : List Token) (r : Reader α) :
    Option (α × Cursor) :=
  r { c with tokens }

/-! ### Type definitions -/

private def typeNames : List Token → List ByteString
  | .loc i :: .sym '=' :: .word "type" :: rest => i.name :: typeNames rest
  | _ :: rest => typeNames rest
  | [] => []

/-- A type as the definition of a name: a struct written there is the struct of that name. -/
private def Ty.asDefinition (name : ByteString) : Ty → Ty
  | .struct (.literal _) packed fields => .struct (.named name) packed fields
  | t => t

/-- The definition of a type name. A vector of unknown length cannot have one. -/
private def typeBody (name : ByteString) : Reader Ty := do
  if ← Reader.acceptWord "opaque" then return .incomplete name
  match ← Reader.type with
  | .vector true _ _ => failure
  | t => return t.asDefinition name

/-- Adds a definition. Only a struct without a body may be defined again. -/
private def addDefinition (defs : TypeDefs) (name : ByteString) (t : Ty) : Option TypeDefs :=
  match defs.lookup name with
  | none => some (defs ++ [(name, t)])
  | some (.incomplete _) => some (defs.map fun (n, old) => if n == name then (n, t) else (n, old))
  | some _ => none

private def readTypeDefs : List Token → Cursor → TypeDefs → Option (TypeDefs × Cursor)
  | .loc i :: .sym '=' :: .word "type" :: rest, c, defs =>
    match readAt c rest (typeBody i.name) with
    | some (t, c) =>
      match addDefinition defs i.name t with
      | some defs => readTypeDefs rest c defs
      | none => none
    | none => none
  | _ :: rest, c, defs => readTypeDefs rest c defs
  | [], c, defs => some (sortBy (fun a b => Text.naturalLT a.1 b.1) defs, c)

/-! ### Metadata nodes -/

/-- Names before anything is known of the symbols: any of them will do. -/
private def anyNames (defs : TypeDefs) : Names :=
  ⟨defs, fun _ => some (.func 0), fun _ => none, fun _ => false⟩

private def readNodes (defs : TypeDefs) :
    List Token → Cursor → MetadataNodes → Option MetadataNodes
  | .metaId n :: .sym '=' :: rest, c, nodes =>
    match readAt c rest (Reader.numberedNode (anyNames defs)) with
    | some (node, _) =>
      if (nodes.lookup n).isSome then none else readNodes defs rest c ((n, node) :: nodes)
    | none => none
  | _ :: rest, c, nodes => readNodes defs rest c nodes
  | [], _, nodes => some nodes

private def nodesDefined (nodes : MetadataNodes) (tokens : List Token) : Bool :=
  let defined := Std.TreeMap.ofList (nodes.map fun (n, _) => (n, ()))
  tokens.all fun
    | .metaId n => defined.contains n
    | _ => true

/-! ### Symbols -/

private inductive SymbolKind where
  | func
  | global
  | aliasRef
  | resolved

private def kindOfWords : List Token → Option SymbolKind
  | .word "global" :: _ | .word "constant" :: _ => some .global
  | .word "alias" :: _ => some .aliasRef
  | .word "ifunc" :: _ => some .resolved
  | .word _ :: rest | .sym '(' :: rest | .sym ')' :: rest | .int _ :: rest => kindOfWords rest
  | _ => none

/-- The name of a function stands before its parameters; metadata may name other symbols first. -/
private def declaredName : List Token → Option Ident
  | .global i :: .sym '(' :: _ => some i
  | _ :: rest => declaredName rest
  | [] => none

private def symbolKinds : List Token → List (Ident × SymbolKind)
  | .global i :: .sym '=' :: rest =>
    ((kindOfWords rest).map fun k => (i, k)).toList ++ symbolKinds rest
  | .word w :: rest =>
    (if w == "define" || w == "declare" then
      ((declaredName rest).map fun i => (i, SymbolKind.func)).toList
    else []) ++ symbolKinds rest
  | _ :: rest => symbolKinds rest
  | [] => []

/-- How many functions, globals, aliases and resolved symbols were met. -/
private structure Counts where
  funcs : Nat
  globals : Nat
  aliases : Nat
  resolved : Nat

/-- Each symbol with its position among its kind; none when one is defined twice. -/
private def numberSymbols : List (Ident × SymbolKind) → Counts → Std.TreeMap Ident Const →
    Option (Std.TreeMap Ident Const)
  | [], _, table => some table
  | (i, kind) :: rest, n, table =>
    if table.contains i then none
    else match kind with
      | .func => numberSymbols rest { n with funcs := n.funcs + 1 } (table.insert i (.func n.funcs))
      | .global =>
        numberSymbols rest { n with globals := n.globals + 1 } (table.insert i (.global n.globals))
      | .aliasRef =>
        numberSymbols rest { n with aliases := n.aliases + 1 }
          (table.insert i (.aliasRef n.aliases))
      | .resolved =>
        numberSymbols rest { n with resolved := n.resolved + 1 }
          (table.insert i (.resolved n.resolved))

/-- The names of the comdats of a module; none when one is defined twice. -/
private def comdatNames : List Token → List ByteString → Option (List ByteString)
  | .comdat name :: .sym '=' :: rest, known =>
    if known.contains name then none else comdatNames rest (name :: known)
  | _ :: rest, known => comdatNames rest known
  | [], known => some known

/-! ### Locals -/

/-- The locals of a function while they are numbered: the names taken, and what the identifiers
stand for. -/
private structure Locals where
  nextId : Int
  taken : Std.TreeMap ByteString Unit
  values : Std.TreeMap Ident Value
  blocks : Std.TreeMap Ident Unit

/-- Finds the identifier of the next local: unnamed ones are numbered, and a number that is
written has to be the next one unless it is zero. No name is used twice. -/
private def Locals.reserve (l : Locals) (written : Option Ident) : Option (Ident × Locals) :=
  match written.getD (.numbered 0) with
  | .numbered k =>
    if k ≠ 0 ∧ k ≠ l.nextId then none
    else some (.numbered l.nextId, { l with nextId := l.nextId + 1 })
  | .named s =>
    let name := (Ident.named s).name
    if l.taken.contains name then none
    else some (.named s, { l with taken := l.taken.insert name () })

private def Locals.addParam (l : Locals) (written : Option Ident) (v : Value) : Option Locals :=
  (l.reserve written).map fun (i, l) => { l with values := l.values.insert i v }

/-- Adds the result of an instruction, which is found by the name it is shown with. -/
private def Locals.addResult (l : Locals) (written : Option Ident) (v : Value) : Option Locals :=
  (l.reserve written).map fun (i, l) =>
    let key := match i with
      | .numbered n => .numbered n
      | .named s => .named (Ident.named s).name
    { l with values := l.values.insert key v }

private def Locals.addBlock (l : Locals) (written : Option Ident) : Option Locals :=
  (l.reserve written).map fun (i, l) => { l with
    values := l.values.insert i (.untracked .label)
    blocks := l.blocks.insert i () }

private def isVoidTy (defs : TypeDefs) (t : Ty) : Bool :=
  match defs.expand t with
  | .void => true
  | _ => false

private def Locals.addInsts (defs : TypeDefs) (b : Nat) :
    Nat → List Reader.NamedInst → Locals → Option Locals
  | _, [], l => some l
  | n, i :: rest, l =>
    if isVoidTy defs i.inst.type then Locals.addInsts defs b (n + 1) rest l
    else match l.addResult i.result (.inst b n) with
      | some l => Locals.addInsts defs b (n + 1) rest l
      | none => none

private def Locals.addBlocks (defs : TypeDefs) :
    Nat → List Reader.WrittenBlock → Locals → Option Locals
  | _, [], l => some l
  | n, b :: rest, l => do
    let l ← l.addBlock b.label
    let l ← Locals.addInsts defs n 0 b.insts l
    let l ← if isVoidTy defs b.termType then some l
      else l.addResult b.termResult (.untracked b.termType)
    Locals.addBlocks defs (n + 1) rest l

private def Locals.addParams : Nat → List (Ty × Option Ident) → Locals → Option Locals
  | _, [], l => some l
  | n, (_, i) :: rest, l =>
    match l.addParam i (.param n) with
    | some l => Locals.addParams (n + 1) rest l
    | none => none

/-! ### Top-level entities -/

/-- What the contents are read with. -/
private structure Tables where
  defs : TypeDefs
  nodes : MetadataNodes
  symbols : Std.TreeMap Ident Const
  comdats : List ByteString

private def Tables.names (t : Tables) (loc : Ident → Option Value) (block : Ident → Bool) : Names :=
  ⟨t.defs, fun i => t.symbols[i]?, loc, block⟩

/-- Names outside of functions, where there are no locals. -/
private def Tables.outer (t : Tables) : Names :=
  t.names (fun _ => none) (fun _ => false)

private def parameter : Reader (Ty × Option Ident) := do
  let t ← Reader.type
  Reader.skipParameterAttributes
  match ← Reader.peek with
  | some (.loc i) => Reader.skip; return (t, some i)
  | _ => return (t, none)

/-- The blocks of a function, and the identifiers they have. -/
private def functionBody (t : Tables) (params : List (Ty × Option Ident)) :
    Reader (List Block × List Ident) := do
  let start ← get
  let written ← Reader.body (t.names (fun _ => some (.untracked .void)) (fun _ => true)) t.nodes
  let named : Option Locals := do
    let l ← Locals.addParams 0 params ⟨0, {}, {}, {}⟩
    Locals.addBlocks t.defs 0 written l
  match named with
  | none => failure
  | some l =>
    set start
    let blocks ← Reader.body
      (t.names (fun i => l.values[i]?) (fun i => l.blocks.contains i)) t.nodes
    return (blocks.map fun b => ⟨b.insts.map Reader.NamedInst.inst, b.term⟩, l.blocks.keys)

private def linkage : Reader Linkage := do
  match ← Reader.peek with
  | some (.word w) =>
    match Linkage.ofKeyword? w with
    | some l => Reader.skip; return l
    | none => return .unspecified
  | _ => return .unspecified

/-- What the names of symbols begin with: the linkage, and how the symbol is seen elsewhere. -/
private def symbolHead : Reader Linkage := do
  let l ← linkage
  let _ ← Reader.oneOf ["dso_local", "dso_preemptable"]
  let _ ← Reader.oneOf ["default", "hidden", "protected"]
  let _ ← Reader.oneOf ["dllimport", "dllexport"]
  return l

private def addressSignificance : Reader Unit := do
  let _ ← Reader.oneOf ["unnamed_addr", "local_unnamed_addr"]

/-- What follows the word `comdat` of a symbol: the name of one that is defined, by default that of
the symbol. -/
private def comdatOf (t : Tables) (symbol : Ident) : Reader Unit := do
  let name ← if ← Reader.acceptSym '(' then
      match ← Reader.next with
      | .comdat name => Reader.expectSym ')'; pure name
      | _ => failure
    else pure symbol.name
  unless t.comdats.contains name do failure

private def functionProperty (t : Tables) (ident : Ident) : Reader (Option Unit) := do
  match ← Reader.peek with
  | some (.word w) =>
    if w = "section" ∨ w = "partition" ∨ w = "gc" then
      Reader.skip
      let _ ← Reader.quotedText
      return some ()
    else if w = "comdat" then
      Reader.skip
      comdatOf t ident
      return some ()
    else if w = "prefix" ∨ w = "prologue" ∨ w = "personality" then
      Reader.skip
      let _ ← Reader.typedConstant t.outer
      return some ()
    else if Reader.functionAttributes.contains w then
      Reader.skipFunctionAttributes
      return some ()
    else return none
  | some (.attrGroup _) | some (.str _) => Reader.skipFunctionAttributes; return some ()
  | _ => return none

private def function (t : Tables) (defined : Bool) : Reader (Func × List Ident) := do
  let before ← if defined then pure [] else Reader.attachments t.outer t.nodes
  let linkage ← symbolHead
  Reader.skipBeforeType
  let ret ← Reader.type
  match ← Reader.next with
  | .global ident =>
    Reader.expectSym '('
    let (params, variadic) ← Reader.parameters parameter
    addressSignificance
    let space ← Reader.addressSpace
    let _ ← Reader.manyWhile (functionProperty t ident)
    let after ← if defined then Reader.attachments t.outer t.nodes else pure []
    let (blocks, labels) ← if defined then do
        Reader.expectSym '{'
        functionBody t params
      else pure ([], [])
    return (⟨ident, linkage, space, ret, params.map Prod.fst, variadic, blocks,
      before ++ after⟩, labels)
  | _ => failure

private def threadModel : Reader Unit := do
  if ← Reader.acceptWord "thread_local" then
    if ← Reader.acceptSym '(' then
      match ← Reader.oneOf ["localdynamic", "initialexec", "localexec"] with
      | some _ => Reader.expectSym ')'
      | none => failure

/-- The linkage and the address space between `=` and the kind of a global. -/
private def globalHead : Reader (Linkage × Nat) := do
  let l ← symbolHead
  threadModel
  addressSignificance
  let space ← Reader.addressSpace
  let _ ← Reader.acceptWord "externally_initialized"
  return (l, space)

private def globalProperty (t : Tables) (ident : Ident) : Reader (Option Unit) := do
  match ← Reader.peek, ← Reader.peekSecond with
  | some (.sym ','), some (.metaName _) =>
    Reader.skip
    Reader.skip
    let _ ← Reader.attached t.outer
    return some ()
  | some (.sym ','), some (.word w) =>
    Reader.skip
    Reader.skip
    if w = "align" then let _ ← Reader.number
    else if w = "comdat" then comdatOf t ident
    else if w = "section" ∨ w = "partition" then let _ ← Reader.quotedText
    else failure
    return some ()
  | some (.attrGroup _), _ => Reader.skip; return some ()
  | _, _ => return none

private inductive Entity where
  | layout (text : String)
  | global (g : Global)
  | aliasOf (a : Alias)
  | resolved (a : Alias)
  | func (f : Func) (labels : List Ident)
  | other

private def spaceOf (defs : TypeDefs) (t : Ty) : Nat :=
  match defs.expand t with
  | .ptr space _ => space
  | _ => 0

private def aliasParts (t : Tables) (ident : Ident) : Reader Alias := do
  let content ← Reader.type
  Reader.expectSym ','
  let (target, _) ← Reader.aliasTarget t.outer
  let _ ← Reader.manyWhile (globalProperty t ident)
  return ⟨ident, spaceOf t.defs target, content⟩

private def symbol (t : Tables) (ident : Ident) : Reader Entity := do
  Reader.expectSym '='
  let (linkage, space) ← globalHead
  match ← Reader.next with
  | .word "global" | .word "constant" =>
    let content ← Reader.type
    let init ← if linkage = .external ∨ linkage = .externWeak then pure none
      else some <$> Reader.constant t.outer content
    let _ ← Reader.manyWhile (globalProperty t ident)
    return .global ⟨ident, linkage, space, content, init⟩
  | .word "alias" =>
    let a ← aliasParts t ident
    return .aliasOf a
  | .word "ifunc" =>
    let a ← aliasParts t ident
    return .resolved a
  | _ => failure

private def comdatKinds : List String :=
  ["any", "exactmatch", "largest", "nodeduplicate", "noduplicates", "samesize"]

private def entity (t : Tables) : Reader Entity := do
  match ← Reader.next with
  | .global i => symbol t i
  | .word "define" =>
    let (f, labels) ← function t true
    return .func f labels
  | .word "declare" =>
    let (f, labels) ← function t false
    return .func f labels
  | .loc i =>
    Reader.expectSym '='
    Reader.expectWord "type"
    let _ ← typeBody i.name
    return .other
  | .word "target" =>
    match ← Reader.next with
    | .word "datalayout" => Reader.expectSym '='; return .layout (← Reader.quotedText).text
    | .word "triple" => Reader.expectSym '='; let _ ← Reader.quotedText; return .other
    | _ => failure
  | .word "source_filename" =>
    Reader.expectSym '='
    let _ ← Reader.quotedText
    return .other
  | .word "module" =>
    Reader.expectWord "asm"
    let _ ← Reader.quotedText
    return .other
  | .word "attributes" =>
    match ← Reader.next with
    | .attrGroup _ =>
      Reader.expectSym '='
      Reader.expectSym '{'
      Reader.skipFunctionAttributes
      Reader.expectSym '}'
      return .other
    | _ => failure
  | .metaName _ =>
    Reader.expectSym '='
    Reader.expectSym '!'
    Reader.expectSym '{'
    let _ ← Reader.listUntil '}' (Reader.namedMember t.outer)
    return .other
  | .metaId _ =>
    Reader.expectSym '='
    let _ ← Reader.numberedNode t.outer
    return .other
  | .comdat _ =>
    Reader.expectSym '='
    Reader.expectWord "comdat"
    match ← Reader.next with
    | .word w => if comdatKinds.contains w then return .other else failure
    | _ => failure
  | .word "uselistorder" =>
    let _ ← Reader.typedConstant t.outer
    Reader.useOrder
    return .other
  | .word "uselistorder_bb" =>
    Reader.blockOrder t.outer
    return .other
  | _ => failure

private def entities (t : Tables) : Reader (List Entity) :=
  Reader.manyWhile do
    match ← Reader.peek with
    | some _ => return some (← entity t)
    | none => return none

/-! ### Modules -/

/-- A call whose callee has no type of its own and whose written type is only that of the result:
the callee is a pointer to the function type made from the arguments. -/
private def Module.completeCall (m : Module) (f : Func) (c : Call) : Call :=
  let complete (t : Ty) : Ty :=
    match m.typeDefs.expand t with
    | .ptr space w =>
      match m.typeDefs.expand w with
      | .func _ _ _ => t
      | _ => .ptr space (.func w (c.args.map (m.valueType f)) false)
    | _ => t
  match c.callee with
  | some (.asm t) => { c with callee := some (.asm (complete t)) }
  | some (.const (.plain t)) => { c with callee := some (.const (.plain (complete t))) }
  | _ => c

private def Module.completeCalls (m : Module) : Module :=
  { m with funcs := m.funcs.map fun f =>
      { f with blocks := f.blocks.map fun b =>
          { b with insts := b.insts.map fun i =>
              match i.op with
              | .call c => { i with op := .call (m.completeCall f c) }
              | _ => i } } }

private def Module.ofEntities (defs : TypeDefs) (es : List Entity) : Module :=
  Module.completeCalls {
    dataLayout := (es.reverse.findSome? fun | .layout s => some s | _ => none).getD ""
    typeDefs := defs
    globals := es.filterMap fun | .global g => some g | _ => none
    aliases := es.filterMap fun | .aliasOf a => some a | _ => none
    resolved := es.filterMap fun | .resolved a => some a | _ => none
    funcs := es.filterMap fun | .func f _ => some f | _ => none }

private def blocksExist (es : List Entity) (addresses : List (Ident × Ident)) : Bool :=
  addresses.all fun (f, b) => es.any fun
    | .func g labels => g.ident == f && labels.contains b
    | _ => false

/-- Whether the functions stand where the table of the symbols has them. -/
private def funcsInPlace (symbols : Std.TreeMap Ident Const) (m : Module) : Bool :=
  m.funcs.zipIdx.all fun (f, n) =>
    match symbols[f.ident]? with
    | some (.func k) => k == n
    | _ => false

private def readModule (s : ByteString) : Option (Module × Cursor) := do
  let tokens := Token.ofBytes s
  let known := Std.TreeMap.ofList ((typeNames tokens).map fun n => (n, ()))
  let start : Cursor := ⟨tokens, tokens.length + 1, 0, [], [], fun n => known.contains n⟩
  let (defs, c) ← readTypeDefs tokens start []
  let nodes ← readNodes defs tokens c []
  guard (nodesDefined nodes tokens)
  let symbols ← numberSymbols (symbolKinds tokens) ⟨0, 0, 0, 0⟩ {}
  let comdats ← comdatNames tokens []
  let (es, c) ← readAt c tokens (entities ⟨defs, nodes, symbols, comdats⟩)
  guard (blocksExist es c.blockAddresses)
  let m := Module.ofEntities defs es
  guard (funcsInPlace symbols m)
  guard (c.expressions.all fun (t, e) => m.typeDefs.same t (m.constType e))
  return (m, c)

/-- The module a text describes, if it describes one. -/
def Module.ofBytes? (s : ByteString) : Option Module :=
  (readModule s).map Prod.fst

private theorem readModule_inPlace {s : ByteString} {m : Module} {c : Cursor}
    (h : readModule s = some (m, c)) : ∃ symbols, funcsInPlace symbols m = true := by
  -- One step for each line of the reader, up to the guard in question.
  obtain ⟨⟨defs, _⟩, -, h⟩ := Option.bind_eq_some_iff.mp h
  obtain ⟨nodes, -, h⟩ := Option.bind_eq_some_iff.mp h
  obtain ⟨_, -, h⟩ := Option.bind_eq_some_iff.mp h
  obtain ⟨symbols, -, h⟩ := Option.bind_eq_some_iff.mp h
  obtain ⟨comdats, -, h⟩ := Option.bind_eq_some_iff.mp h
  obtain ⟨⟨es, _⟩, -, h⟩ := Option.bind_eq_some_iff.mp h
  obtain ⟨_, -, h⟩ := Option.bind_eq_some_iff.mp h
  obtain ⟨_, hplaces, h⟩ := Option.bind_eq_some_iff.mp h
  obtain ⟨_, -, h⟩ := Option.bind_eq_some_iff.mp h
  cases h
  refine ⟨symbols, ?_⟩
  unfold guard at hplaces
  split at hplaces
  · assumption
  · cases hplaces

/-- No two functions of a module have the same identifier. -/
theorem Module.nodup_of_ofBytes? {s : ByteString} {m : Module} (h : Module.ofBytes? s = some m) :
    (m.funcs.map Func.ident).Nodup := by
  obtain ⟨⟨m, c⟩, hread, rfl⟩ := Option.map_eq_some_iff.mp h
  obtain ⟨symbols, hplaces⟩ := readModule_inPlace hread
  have hfunc (n : Nat) (hn : n < m.funcs.length) : symbols[m.funcs[n].ident]? = some (.func n) := by
    have hplace := List.all_eq_true.mp hplaces (m.funcs[n], n)
      (List.mem_zipIdx_iff_getElem?.mpr (List.getElem?_eq_getElem hn))
    dsimp only at hplace
    split at hplace
    · next k hk => rw [hk, eq_of_beq hplace]
    · cases hplace
  rw [List.Nodup, List.pairwise_iff_getElem]
  intro i j hi hj hlt heq
  rw [List.length_map] at hi hj
  rw [List.getElem_map, List.getElem_map] at heq
  have hsame := (hfunc i hi).symm.trans (heq ▸ hfunc j hj)
  cases hsame
  exact Nat.lt_irrefl i hlt

private def readTypesFrom : List String → Cursor → Option (List Ty)
  | [], _ => some []
  | s :: rest, c => do
    let tokens := Token.ofBytes s
    let (t, c) ← readAt { c with bound := tokens.length + 1 } tokens Reader.type
    guard c.tokens.isEmpty
    return t :: (← readTypesFrom rest c)

/-- Types written one by one behind the text of a module, whose definitions they may use. -/
def readTypes? (module : String) (types : List String) : Option (TypeDefs × List Ty) := do
  let (m, c) ← readModule module
  return (m.typeDefs, ← readTypesFrom types c)

end CallTargets.IR
