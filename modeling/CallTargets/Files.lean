import CallTargets.Assoc
import CallTargets.Path

/-!
# Files

The part of a file system that a run looks at: files with their bytes, and directories. A
directory exists when it is listed or when something below it is. A path is followed name by name,
so every directory on the way has to exist, also one that is left again at once.
-/
namespace CallTargets

inductive FileEntry where
  | file (bytes : List UInt8)
  | directory
deriving DecidableEq, Repr, Inhabited

/-- Files and directories by their routes. -/
structure Files where
  entries : Assoc (List ByteString) FileEntry
deriving Repr, Inhabited

inductive FileError where
  | notFound
  | notDirectory
  | isDirectory
  | nameTooLong
  | invalidName
deriving DecidableEq, Repr, Inhabited

def FileError.text : FileError → String
  | .notFound => "no such file or directory"
  | .notDirectory => "not a directory"
  | .isDirectory => "is a directory"
  | .nameTooLong => "file name too long"
  | .invalidName => "invalid argument"

/-- A step that failed on a path, such as `open` or `read`. -/
structure PathError where
  step : String
  path : ByteString
  cause : FileError
deriving DecidableEq, Repr, Inhabited

def PathError.message (e : PathError) : String :=
  e.step ++ " " ++ e.path.text ++ ": " ++ e.cause.text

def maxNameLength : Nat := 255

def maxPathLength : Nat := 4095

namespace Files

def empty : Files := ⟨[]⟩

/-- What stands at a route. The places where routes begin are directories. -/
def entry? (fs : Files) (route : List ByteString) : Option FileEntry :=
  match fs.entries.get? route with
  | some e => some e
  | none =>
    if route.all (fun name => name.isEmpty || name == Path.up) ||
      fs.entries.any (fun e => route.isPrefixOf e.1)
    then some .directory
    else none

/-- Follows names from a directory to a route. Only the last of them may lead to a file. -/
def walk (fs : Files) : List ByteString → List ByteString → Except FileError (List ByteString)
  | route, [] => .ok route
  | route, name :: rest =>
    if maxNameLength < name.length then .error .nameTooLong
    else
      let next := Path.step route name
      match fs.entry? next with
      | some .directory => fs.walk next rest
      | some (.file _) => if rest.isEmpty then .ok next else .error .notDirectory
      | none => .error .notFound

/-- Paths that are refused whatever files there are. -/
def refused? (path : ByteString) : Option FileError :=
  if path.isEmpty then some .notFound
  else if path.bytes.contains 0 then some .invalidName
  else if maxPathLength < path.length then some .nameTooLong
  else none

def find (fs : Files) (path : ByteString) : Except FileError (List ByteString) :=
  match refused? path with
  | some e => .error e
  | none => fs.walk (Path.origin path) (Path.names path)

def openEntry (fs : Files) (path : ByteString) : Except PathError FileEntry :=
  match fs.find path with
  | .error e => .error ⟨"open", path, e⟩
  | .ok route =>
    match fs.entry? route with
    | some e => .ok e
    | none => .error ⟨"open", path, .notFound⟩

/-- The bytes of a file. A directory can be opened but not read. -/
def read (fs : Files) (path : ByteString) : Except PathError (List UInt8) :=
  match fs.openEntry path with
  | .error e => .error e
  | .ok (.file bytes) => .ok bytes
  | .ok .directory => .error ⟨"read", path, .isDirectory⟩

def write (fs : Files) (route : List ByteString) (bytes : List UInt8) : Files :=
  ⟨fs.entries.put route (.file bytes)⟩

/-- The route at which a file can be made: its directory exists, and it is no directory itself. -/
def place (fs : Files) (path : ByteString) : Except FileError (List ByteString) :=
  match refused? path with
  | some e => .error e
  | none =>
    let names := Path.names path
    let trimmed := (names.reverse.dropWhile ByteString.isEmpty).reverse
    match trimmed.getLast? with
    | none => .error .isDirectory
    | some last =>
      match fs.walk (Path.origin path) trimmed.dropLast with
      | .error e => .error e
      | .ok dir =>
        match fs.entry? dir with
        | some (.file _) => .error .notDirectory
        | _ =>
          if last = Path.here ∨ last = Path.up ∨ trimmed.length < names.length then
            .error .isDirectory
          else if maxNameLength < last.length then .error .nameTooLong
          else match fs.entry? (dir ++ [last]) with
            | some .directory => .error .isDirectory
            | _ => .ok (dir ++ [last])

/-- Makes a file empty, creating it if its directory exists, and tells its route. -/
def create (fs : Files) (path : ByteString) : Except PathError (List ByteString × Files) :=
  match fs.place path with
  | .error e => .error ⟨"open", path, e⟩
  | .ok route => .ok (route, fs.write route [])

def filesIn (fs : Files) (dir : List ByteString) : List ByteString :=
  fs.entries.filterMap fun (route, e) =>
    match e, dir.isPrefixOf route, route.drop dir.length with
    | .file _, true, [name] => some name
    | _, _, _ => none

end Files
end CallTargets
