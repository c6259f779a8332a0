import CallTargets.Command.Paths
import CallTargets.Report.Timestamp
import Std.Time.DateTime.Timestamp

/-!
# The command line

Reads the files that a run looks at, runs, and writes what the run leaves.
-/
namespace CallTargets.Command

/-- What stands at a path, if anything. Paths that are no text cannot be asked for. -/
def readEntry? (path : ByteString) : IO (Option FileEntry) := do
  try
    return some (.file (← IO.FS.readBinFile path.text).toList)
  catch
    | .inappropriateType _ _ _ => return some .directory
    | _ => return none

def addPaths (known : List ByteString) (fs : Files) :
    List ByteString → IO (List ByteString × Files)
  | [] => return (known, fs)
  | path :: rest => do
    if known.contains path then addPaths known fs rest
    else
      match ← readEntry? path with
      | some e => addPaths (path :: known) ⟨fs.entries.put (Path.route path) e⟩ rest
      | none => addPaths (path :: known) fs rest

/-- How often newly read files may lead to further ones: settings, a list, modules, sources. -/
def readingRounds : Nat := 4

def gather (args : List String) : Nat → List ByteString → Files → IO Files
  | 0, _, fs => return fs
  | rounds + 1, known, fs => do
    let (known, fs) ← addPaths known fs (paths fs args)
    gather args rounds known fs

end CallTargets.Command

open CallTargets CallTargets.Command in
def main (args : List String) : IO UInt32 := do
  let files ← gather args readingRounds [] .empty
  let now ← Std.Time.Timestamp.now
  let stdout ← IO.getStdout
  let timestamp := timestampText now.toSecondsSinceUnixEpoch.val.toNat
  let some out := run ⟨files, timestamp, ← stdout.isTty⟩ args
    | repeat IO.sleep 1000
      return 0
  for (path, bytes) in changedFiles files out.files do
    IO.FS.writeBinFile path.text bytes.toByteArray
  stdout.putStr (out.printed ++ out.results)
  (← IO.getStderr).putStr out.errors
  return out.code.toUInt32
