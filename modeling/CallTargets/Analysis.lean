import CallTargets.Analysis.DisplayName
import CallTargets.CallGraph.Pass
import CallTargets.Fixpoint
import CallTargets.Source.Lines

/-!
# Analyses

An analysis of a program: the pass is driven to its fixpoint, and the calls are read back in the
order of discovery, with display names and source positions.
-/
namespace CallTargets

open IR

structure AnalysisOptions where
  config : Config
  /-- Where the source files are. -/
  sourceRoot : ByteString
deriving Repr, Inhabited

/-- Why an analysis gives no result. One that comes to a search without an end never returns and
says nothing. -/
inductive AnalysisError where
  | noModules
  | endless
  | run (e : RunError NoSignature)
deriving DecidableEq, Repr, Inhabited

def AnalysisError.message : AnalysisError → String
  | .noModules => "no modules provided"
  | .endless => ""
  | .run e => "call graph analysis: " ++ e.message NoSignature.message

/-- An indirect call with its targets, as it is reported. -/
structure CallResult where
  caller : ByteString
  module : ByteString
  location : Location
  /-- The file of the position below the source root. -/
  path : ByteString
  source : String
  layer : Layer
  callees : List ByteString
  /-- The positions of the targets that have one, by their names. -/
  definitions : Assoc ByteString Location
deriving DecidableEq, Repr, Inhabited

structure AnalysisResult where
  stats : Stats
  report : RunReport
  types : StructNames.Stats
  calls : List CallResult
  context : Context
  progress : List Progress
deriving Inhabited

/-- The pass in the form in which it is driven: modules are given by their numbers. -/
def Pass.modulePass (pass : Pass) : ModulePass PassState Nat NoSignature where
  prepare := pass.prepare
  analyze := pass.analyze
  finish := fun _ => Pass.finish

/-- The driver of a program's pass. An analysis is never cancelled. -/
def Pass.driver (pass : Pass) (config : Config) : Driver PassState Nat NoSignature where
  pass := pass.modulePass
  path := pass.program.path
  maxPhases := config.phases
  cancelled := fun _ => false

/-- What reading back the calls remembers: display names and source files. -/
structure Readback where
  names : DisplayNames
  source : Source

def Program.call? (p : Program) (id : CallId) : Option Inst :=
  p.func? ⟨id.module, id.func⟩ >>= fun f => f.inst? id.block id.inst

/-- The name of a function shown in a module; a function that is not known has none. -/
def Readback.nameOf (r : Readback) (p : Program) (id : FuncId) (module : ByteString) :
    ByteString × Readback :=
  match p.symbol? id with
  | some s =>
    let (name, names) := r.names.nameOf s module
    (name, { r with names := names })
  | none => ("", r)

def CallResult.addTarget (p : Program) (r : Readback) (c : CallResult) (t : Target) :
    Readback × CallResult :=
  let (name, r) := r.nameOf p t.id t.module
  let c := { c with callees := c.callees ++ [name] }
  match (p.func? t.id).bind Location.ofFunc? with
  | some l => (r, { c with definitions := c.definitions.put name l })
  | none => (r, c)

def readCall (p : Program) (fs : Files) (r : Readback) (cs : CallSite) : Readback × CallResult :=
  let (caller, r) := match cs.caller with
    | some f => r.nameOf p f cs.module
    | none => ("", r)
  let c : CallResult := ⟨caller, cs.module, .unknown, "", "", cs.layer, [], []⟩
  let (r, c) := match (p.call? cs.id).bind Location.ofInst? with
    | some l =>
      let (text, source) := r.source.line fs l
      ({ r with source := source },
        { c with location := l, path := r.source.path l, source := text.getD "" })
    | none => (r, c)
  cs.callees.foldl (fun (r, c) t => c.addTarget p r t) (r, c)

def readCalls (p : Program) (fs : Files) : Readback → List CallSite → List CallResult
  | _, [] => []
  | r, cs :: rest =>
    let (r, c) := readCall p fs r cs
    c :: readCalls p fs r rest

/-- Resolves the indirect calls of a program. Source lines are read from `fs`. -/
def analyze (options : AnalysisOptions) (fs : Files) (p : Program) :
    Except AnalysisError AnalysisResult :=
  if p.isEmpty then .error .noModules
  else
    let pass := Pass.ofProgram p
    let out := (pass.driver options.config).run (List.range p.length) (pass.start options.config)
    if out.state.endless then .error .endless
    else match out.error with
    | some e => .error (.run e)
    | none =>
      let context := { out.state.context with
        stats := out.state.context.stats.setPhases out.report.phases }
      .ok {
        stats := context.stats
        report := out.report
        types := pass.names.stats
        calls := readCalls p fs ⟨[], .ofRoot options.sourceRoot⟩ context.callSites
        context := context
        progress := out.progress }

end CallTargets
