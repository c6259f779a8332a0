import CallTargets.Command.Run

/-!
# The paths of a run

Which paths a run looks at depends on files it reads: settings, lists of modules, and the modules
themselves. Given the files that are known so far, the paths that can be told are listed.
-/
namespace CallTargets.Command

open IR

/-- The source files that the positions in a module name. -/
def sourcePaths (root : ByteString) (m : Module) : List ByteString :=
  m.funcs.flatMap fun f => f.blocks.flatMap fun b => b.insts.filterMap fun i =>
    (Location.ofInst? i).map fun l => Path.below root l.file

def Plan.paths (p : Plan) (fs : Files) : List ByteString :=
  let output := if p.output.isEmpty then []
    else [p.output, Path.ofRoute (Path.route p.output).dropLast]
  let list := if p.listFile.isEmpty then [] else [p.listFile]
  let profiles : List ByteString := if p.profile then [profileNames.1, profileNames.2] else []
  let loaded := match loadModules fs p.inputs p.listFile false with
    | .ok l => l.modules.map ModuleFile.path ++ l.errors.map LoadError.path ++
        if p.dump then l.modules.flatMap fun m =>
          (m.content.map (sourcePaths p.options.sourceRoot)).getD []
        else []
    | .error _ => []
  output ++ list ++ profiles ++ loaded

/-- The paths that a run looks at, as far as the known files tell. -/
def paths (fs : Files) (args : List String) : List ByteString :=
  match Arguments.read args with
  | .error _ => []
  | .ok a =>
    let config := a.values.text .config
    let first : List ByteString := if config.isEmpty then [] else [config]
    first ++ match a.values.withFile fs with
      | .error _ => []
      | .ok vs =>
        match plan vs a.files with
        | .ok p => p.paths fs
        | .error _ => []

/-- The files that a run has left and that were not there before, with their paths. -/
def changedFiles (before after : Files) : List (ByteString × List UInt8) :=
  after.entries.filterMap fun (route, e) =>
    match e with
    | .file bytes =>
      if before.entries.get? route = some (.file bytes) then none
      else some (Path.ofRoute route, bytes)
    | .directory => none

end CallTargets.Command
