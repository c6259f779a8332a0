import CallTargets.Analysis.CallSite
import CallTargets.Analysis.Config
import CallTargets.Analysis.Stats
import CallTargets.Assoc

/-!
# The state of an analysis

The functions whose address is taken and the indirect calls, each in the order of discovery and
indexed for look-up; the types visible in each module and the exported globals it refers to; and
the definition that each external name stands for. Statistics are counted at the end of a run.
-/
namespace CallTargets

structure Context where
  config : Config
  /-- The body that a name stands for in declarations and discardable copies. -/
  defs : Assoc ByteString Symbol
  taken : List FuncId
  infos : Assoc FuncId FuncInfo
  bySig : Assoc Signature (List FuncId)
  calls : List CallId
  sites : Assoc CallId CallSite
  byModule : Assoc ByteString (List CallId)
  visible : List Signature
  refs : Assoc ByteString (List ByteString)
  stats : Stats
deriving Repr, Inhabited

namespace Context

/-- Enters a symbol: the first body of a name counts, unless it is discardable and this one is
not. -/
def enter (defs : Assoc ByteString Symbol) (s : Symbol) : Assoc ByteString Symbol :=
  if !s.hasBody || s.isLocal then defs
  else match defs.get? s.name with
    | none => defs.put s.name s
    | some known =>
      if known.isDiscardable && !s.isDiscardable then defs.put s.name s else defs

/-- The state in which an analysis of the given functions starts. -/
def start (config : Config) (symbols : List Symbol) : Context where
  config := config
  defs := symbols.foldl enter []
  taken := []
  infos := []
  bySig := []
  calls := []
  sites := []
  byModule := []
  visible := []
  refs := []
  stats := .zero

/-- The definition a declaration or discardable copy refers to; any other function is its own. -/
def canonical (c : Context) (s : Symbol) : Symbol :=
  if s.isLocal || s.isStrong then s else (c.defs.get? s.name).getD s

/-! ### Functions whose address is taken -/

def info? (c : Context) (f : FuncId) : Option FuncInfo :=
  c.infos.get? f

/-- Registers a function unless it is known, and gives the record that counts. -/
def addTaken (c : Context) (fi : FuncInfo) : Bool × FuncInfo × Context :=
  match c.infos.get? fi.id with
  | some known => (false, known, c)
  | none => (true, fi, { c with
      taken := c.taken ++ [fi.id]
      infos := c.infos.put fi.id fi
      bySig := c.bySig.alter fi.sig fun old => old.getD [] ++ [fi.id] })

/-- Changes the record of a function and passes on whether that changed it. -/
def updateInfo (c : Context) (f : FuncId) (g : FuncInfo → Bool × FuncInfo) : Bool × Context :=
  match c.infos.get? f with
  | none => (false, c)
  | some fi =>
    let (changed, fi) := g fi
    (changed, { c with infos := c.infos.put f fi })

/-- The records of the functions whose address is taken, in the order of discovery. -/
def addressTaken (c : Context) : List FuncInfo :=
  c.taken.filterMap c.info?

/-- The functions of a signature whose address is taken, in the order of discovery. -/
def funcsBySig (c : Context) (sig : Signature) : List FuncInfo :=
  ((c.bySig.get? sig).getD []).filterMap c.info?

/-! ### Indirect calls -/

def site? (c : Context) (i : CallId) : Option CallSite :=
  c.sites.get? i

/-- Registers a call unless it is known, and gives the record that counts. -/
def addCall (c : Context) (cs : CallSite) : Bool × CallSite × Context :=
  match c.sites.get? cs.id with
  | some known => (false, known, c)
  | none => (true, cs, { c with
      calls := c.calls ++ [cs.id]
      sites := c.sites.put cs.id cs
      byModule := c.byModule.alter cs.module fun old => old.getD [] ++ [cs.id] })

def putSite (c : Context) (cs : CallSite) : Context :=
  { c with sites := c.sites.put cs.id cs }

def callSites (c : Context) : List CallSite :=
  c.calls.filterMap c.site?

def callSitesIn (c : Context) (module : ByteString) : List CallSite :=
  ((c.byModule.get? module).getD []).filterMap c.site?

/-- The targets of a call; one that is not known has none. -/
def callees (c : Context) (i : CallId) : List Target :=
  ((c.site? i).map CallSite.callees).getD []

def recordStats (c : Context) : Context :=
  { c with stats := c.stats.record c.callSites c.addressTaken.length }

/-! ### Visibility -/

/-- Records a salted signature and says whether it was new. -/
def markVisible (c : Context) (salted : Signature) : Bool × Context :=
  if salted ∈ c.visible then (false, c) else (true, { c with visible := c.visible ++ [salted] })

def isVisible (c : Context) (salted : Signature) : Bool :=
  c.visible.contains salted

def visibleIn (c : Context) (module : ByteString) (sig : Signature) : Bool :=
  c.isVisible (sig.salted module)

def references (c : Context) (module global : ByteString) : Bool :=
  ((c.refs.get? module).getD []).contains global

/-- Records that a module refers to an exported global and says whether that was new. -/
def markReferenced (c : Context) (module global : ByteString) : Bool × Context :=
  if c.references module global then (false, c)
  else (true, { c with refs := c.refs.alter module fun old => old.getD [] ++ [global] })

end Context
end CallTargets
