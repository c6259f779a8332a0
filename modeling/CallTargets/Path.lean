import CallTargets.ByteString

/-!
# Paths

A path is a byte string with slashes between the names on the way. Its route is what is left of it
when names are cancelled against `..` without looking at any file.
-/
namespace CallTargets.Path

def slash : UInt8 := 0x2F

def isAbsolute (path : ByteString) : Bool :=
  path.bytes.head? == some slash

/-- The names between the slashes; some may be empty. -/
def names (path : ByteString) : List ByteString :=
  splitAt [] path.bytes
where
  splitAt (reversed : List UInt8) : List UInt8 → List ByteString
    | [] => [⟨reversed.reverse⟩]
    | b :: bs =>
      if b = slash then ⟨reversed.reverse⟩ :: splitAt [] bs else splitAt (b :: reversed) bs

def join (dir path : ByteString) : ByteString :=
  ⟨dir.bytes ++ slash :: path.bytes⟩

def here : ByteString := "."

def up : ByteString := ".."

/-- The route reached from another one by a name. -/
def step (route : List ByteString) (name : ByteString) : List ByteString :=
  if name.isEmpty || name = here then route
  else if name = up then
    match route.getLast? with
    | none => [up]
    | some last => if last = up then route ++ [up] else if last.isEmpty then route else route.dropLast
  else route ++ [name]

/-- The route at which a path begins; an empty name marks an absolute one. -/
def origin (path : ByteString) : List ByteString :=
  if isAbsolute path then [⟨[]⟩] else []

def route (path : ByteString) : List ByteString :=
  (names path).foldl step (origin path)

def ofRoute : List ByteString → ByteString
  | [] => here
  | name :: rest =>
    if name.isEmpty && rest.isEmpty then "/" else rest.foldl join name

def relative : List ByteString → List ByteString → List ByteString
  | b :: base, t :: target =>
    if b = t then relative base target
    else List.replicate (base.length + 1) up ++ t :: target
  | base, target => List.replicate base.length up ++ target

/-- A file name below a root. Absolute names stay as they are, and one trailing slash of the root
is dropped. -/
def below (root file : ByteString) : ByteString :=
  if file.isEmpty || isAbsolute file then file
  else
    let root : ByteString := if root.bytes.getLast? == some slash then ⟨root.bytes.dropLast⟩ else root
    if root.isEmpty then file else join root file

end CallTargets.Path
