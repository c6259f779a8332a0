/-!
# Settings of an analysis
-/
namespace CallTargets

/-- Which refinements are applied, and how many phases are run at most. -/
structure Config where
  /-- Narrow the candidates by the struct field the callee was loaded from. -/
  byField : Bool
  /-- Filter the candidates by what each module can see, and repeat the phases. -/
  byModule : Bool
  maxPhases : Int
deriving DecidableEq, Repr, Inhabited

/-- Both refinements and two phases. -/
def Config.standard : Config := ⟨true, true, 2⟩

/-- The number of phases that may run: one unless modules are told apart. -/
def Config.phases (c : Config) : Int :=
  if !c.byModule || c.maxPhases < 1 then 1 else c.maxPhases

end CallTargets
