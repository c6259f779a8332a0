import CallTargets.Analysis.Context
import CallTargets.CallGraph.Scan
import CallTargets.CallGraph.Visible
import CallTargets.Program

/-!
# Resolving indirect calls

First every module is prepared: its types become visible and it is scanned for functions whose
address is taken and for indirect calls. Then the calls of each module are matched against the
functions. Every step says whether it changed anything.

A candidate for a call is a function of the called signature. Where modules are told apart, a
local function of another module is a candidate only if its address escaped, or a struct it was
stored into is visible to the calling module, or that module refers to an exported global that
holds it. If the callee was loaded from a struct field, the candidates stored into that field are
preferred, provided there is one.
-/
namespace CallTargets

open IR

/-- The state of the pass. A data layout belongs to a path; the layouts of structs belong to a
module. -/
structure PassState where
  context : Context
  layouts : Assoc ByteString DataLayout
  caches : Assoc Nat LayoutCache
  discovered : List ByteString
  finished : Bool
  /-- A scan came to a search without an end. -/
  endless : Bool
deriving Repr, Inhabited

/-- The program under analysis and the names of its structs. -/
structure Pass where
  program : Program
  names : StructNames
deriving Inhabited

namespace Pass

def id : String := "CallGraph"

def ofProgram (p : Program) : Pass := ⟨p, .ofModules p.contents⟩

def start (pass : Pass) (config : Config) : PassState :=
  ⟨.start config pass.program.symbols, [], [], [], false, false⟩

/-! ### Recording facts -/

/-- The function that stands for a function of a module. -/
def canonical? (pass : Pass) (c : Context) (module func : Nat) : Option Symbol :=
  (pass.program.symbol? ⟨module, func⟩).map c.canonical

/-- Registers a function, if it is new, and its escape. -/
def recordTaken (pass : Pass) (c : Context) (s : Symbol) (how : Escapes) : Bool × Context :=
  let (added, c) := match c.info? s.id, pass.program.func? s.id with
    | none, some f =>
      let (added, _, c) := c.addTaken (.ofSymbol s (pass.program.path s.id.module) (.ofFunc f))
      (added, c)
    | _, _ => (false, c)
  let (marked, c) := c.updateInfo s.id fun fi => fi.markEscape how
  (added || marked, c)

/-- Records a fact found in a module and says whether it was new. -/
def recordFact (pass : Pass) (module : Nat) (c : Context) : Fact → Bool × Context
  | .taken f how =>
    match pass.canonical? c module f with
    | some s => pass.recordTaken c s how
    | none => (false, c)
  | .evidence f owner field =>
    match pass.canonical? c module f with
    | some s => c.updateInfo s.id fun fi => fi.addEvidence owner (Int64.ofNat field)
    | none => (false, c)
  | .published f global =>
    match pass.canonical? c module f with
    | some s => c.updateInfo s.id fun fi => fi.publish global
    | none => (false, c)
  | .call site =>
    let (added, _, c) := c.addCall site
    (added, c)

def recordFacts (pass : Pass) (module : Nat) (c : Context) (facts : List Fact) : Bool × Context :=
  facts.foldl (fun (changed, c) fact =>
    let (new, c) := pass.recordFact module c fact
    (changed || new, c)) (false, c)

/-! ### Discovery -/

/-- Records the struct types and exported globals of a module. -/
def registerVisible (pass : Pass) (path : ByteString) (m : Module) (c : Context) : Bool × Context :=
  let view : TypeView := ⟨pass.names, m.typeDefs⟩
  let (types, c) := m.structTypes.foldl (fun (changed, c) st =>
    let (new, c) := c.markVisible ((view.signature st.toTy).salted path)
    (changed || new, c)) (false, c)
  m.exportedGlobals.foldl (fun (changed, c) g =>
    let (new, c) := c.markReferenced path g
    (changed || new, c)) (types, c)

/-- Scans a module unless its path was scanned to the end before. -/
def discover (pass : Pass) (module : Nat) (path : ByteString) (m : Module) (s : PassState) :
    Bool × Option NoSignature × PassState :=
  if path ∈ s.discovered then (false, none, s)
  else
    let data := (s.layouts.get? path).getD (.ofText m.dataLayout)
    let scanner : Scanner := ⟨module, path, m, ⟨pass.names, m.typeDefs⟩, ⟨data, m.typeDefs⟩⟩
    let (scan, memory) := scanner.scan ⟨(s.caches.get? module).getD [], false⟩
    let (changed, c) := pass.recordFacts module s.context scan.facts
    let s := { s with
      layouts := s.layouts.put path data
      caches := s.caches.put module memory.layouts
      endless := s.endless || memory.endless
      context := c }
    match scan.failure with
    | some (facts, e) =>
      -- The facts of the call that fails are recorded, but they do not count as a change.
      let (_, c) := pass.recordFacts module s.context facts
      (changed, some e, { s with context := c })
    | none => (changed, none, { s with discovered := s.discovered ++ [path] })

/-! ### Matching -/

/-- Whether a function can be the target of a call in a module. -/
def reachable (c : Context) (module : ByteString) (fi : FuncInfo) : Bool :=
  !fi.isLocal || fi.module == module || fi.escapesModule ||
    fi.owners.any (fun owner => c.visibleIn module owner) ||
    fi.published.any (fun g => c.references module g)

/-- The candidates for a call by its signature and its module. -/
def firstLayer (c : Context) (cs : CallSite) : List FuncInfo :=
  let funcs := c.funcsBySig cs.sig
  if c.config.byModule then funcs.filter (reachable c cs.module) else funcs

/-- The candidates that were stored into a field. -/
def secondLayer (candidates : List FuncInfo) (disc : Signature) : List FuncInfo :=
  candidates.filter fun fi => fi.hasEvidence disc

/-- The candidates for a call and the layer they come from. -/
def candidates (c : Context) (cs : CallSite) : Layer × List FuncInfo :=
  let first := firstLayer c cs
  match cs.provenance with
  | some p =>
    let narrowed := secondLayer first p.disc
    -- A field that none of the candidates was stored into tells nothing.
    if c.config.byField && !narrowed.isEmpty then (.field, narrowed) else (.signature, first)
  | none => (.signature, first)

/-- Finds the targets of a call anew and says whether they changed. -/
def resolveCall (c : Context) (cs : CallSite) : Bool × Context :=
  let (layer, found) := candidates c cs
  let (changed, cs) := { cs with layer := layer }.setCallees (found.map FuncInfo.target)
  (changed, c.putSite cs)

/-! ### The steps -/

/-- Makes the types of a module visible and scans it. -/
def prepare (pass : Pass) (module : Nat) (s : PassState) : Bool × PassState :=
  match pass.program[module]? with
  | some ⟨path, some m⟩ =>
    let (seen, c) := pass.registerVisible path m s.context
    -- That the scan fails shows only when the module is matched.
    let (found, _, s) := pass.discover module path m { s with context := c }
    (seen || found, s)
  | _ => (false, s)

def analyze (pass : Pass) (module : Nat) (s : PassState) : Except NoSignature Bool × PassState :=
  match pass.program[module]? with
  | some ⟨path, some m⟩ =>
    match pass.discover module path m s with
    | (_, some e, s) => (.error e, s)
    | (found, none, s) =>
      let (changed, c) := (s.context.callSitesIn path).foldl (fun (changed, c) cs =>
        let (new, c) := resolveCall c cs
        (changed || new, c)) (found, s.context)
      (.ok changed, { s with context := c })
  | _ => (.ok false, s)

def finish (s : PassState) : Bool × PassState :=
  if s.finished then (false, s)
  else (false, { s with finished := true, context := s.context.recordStats })

end Pass
end CallTargets
