import CallTargets.Analysis.FuncInfo
import CallTargets.Assoc

/-!
# Display names

A local function is shown with its module, so that statics of one name in different modules stay
apart. The name a function was first shown by is kept.
-/
namespace CallTargets

def Symbol.displayName (s : Symbol) (module : ByteString) : ByteString :=
  if !s.isLocal || module.isEmpty then s.name else module ++ (":" : ByteString) ++ s.name

abbrev DisplayNames := Assoc FuncId ByteString

/-- The display name of a function, the one given before if there is one. -/
def DisplayNames.nameOf (names : DisplayNames) (s : Symbol) (module : ByteString) :
    ByteString × DisplayNames :=
  match names.get? s.id with
  | some known => (known, names)
  | none => (s.displayName module, names.put s.id (s.displayName module))

end CallTargets
