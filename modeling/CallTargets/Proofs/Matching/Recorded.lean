import CallTargets.Proofs.Discovery.CallOrder
import CallTargets.Proofs.Matching.Declarative

/-!
# The calls on record after a run

Matching changes the targets and the layer of a call and nothing else of its record, so a run that
succeeds leaves the calls that were gathered, in the same order. The main statement is that these
are the indirect calls of the program in text order, each with its position, its caller, its module
and its signature, however often the modules were visited.
-/
namespace CallTargets

open IR

namespace Pass

variable {pass : Pass} {config : Config} {ms : List Nat} {c : Context}

@[simp] theorem matched_entry (c : Context) (cs : CallSite) :
    (matched c cs).entry = cs.entry :=
  rfl

theorem Resolved.callSites_eq (h : pass.Resolved config ms c) :
    c.callSites = (pass.gathered config ms).callSites.map (matched (pass.gathered config ms)) := by
  have hcalls : c.calls = (pass.gathered config ms).calls := by
    obtain ⟨sites, stats, rfl⟩ := h.frame
    rfl
  rw [Context.callSites, hcalls, Context.callSites, List.map_filterMap]
  exact List.filterMap_congr fun id _ => h.sites id

theorem Resolved.entries_eq {p : Program}
    (h : (Pass.ofProgram p).Resolved config (List.range p.length) c)
    (hsigned : ∀ i ∈ List.range p.length, (Pass.ofProgram p).Signed i) :
    c.callSites.map CallSite.entry =
      (p.calls.filter fun c => decide c.Indirect).map PlacedCall.entry := by
  rw [h.callSites_eq, List.map_map, gathered_callSites config List.nodup_range hsigned,
    ← p.entries_eq hsigned]
  exact List.map_congr_left fun cs _ => matched_entry _ cs

/-- The calls on record match the indirect calls of the program one by one. -/
theorem Resolved.recordedAs {p : Program}
    (h : (Pass.ofProgram p).Resolved config (List.range p.length) c)
    (hsigned : ∀ i ∈ List.range p.length, (Pass.ofProgram p).Signed i) :
    List.Forall₂ PlacedCall.RecordedAs (p.calls.filter fun c => decide c.Indirect)
      c.callSites := by
  have hentries : List.Forall₂ (fun a b : CallEntry => a = b)
      ((p.calls.filter fun c => decide c.Indirect).map PlacedCall.entry)
      (c.callSites.map CallSite.entry) := by
    rw [h.entries_eq hsigned]
    exact List.forall₂_same.mpr fun _ _ => rfl
  rw [List.forall₂_map_left_iff, List.forall₂_map_right_iff] at hentries
  exact hentries.imp fun _ _ => PlacedCall.recordedAs_of_entry

end Pass

/-- The calls on record after a successful run are the indirect calls of the program in text order,
whatever the settings and the cap on the phases. -/
theorem analyze_records_calls {p : Program} (hpaths : (p.map ModuleFile.path).Nodup) :
    (∀ config cap, let pass := Pass.ofProgram p
      let out := (pass.capped cap).run (List.range p.length) (pass.start config)
      out.error = none → List.Forall₂ PlacedCall.RecordedAs
        (p.calls.filter fun c => decide c.Indirect) out.state.context.callSites) ∧
    ∀ options fs r, analyze options fs p = .ok r → List.Forall₂ PlacedCall.RecordedAs
      (p.calls.filter fun c => decide c.Indirect) r.context.callSites := by
  refine ⟨fun config cap hok => ?_, fun options fs r h => ?_⟩
  · have hsigned := (Pass.run_error_iff hpaths List.nodup_range config cap).mp hok
    exact (Pass.run_of_signed hpaths List.nodup_range hsigned config cap).2.1.recordedAs hsigned
  · obtain ⟨-, hok, -⟩ := analyze_ok h
    have hsigned := (Pass.run_error_iff hpaths List.nodup_range _ _).mp hok
    exact (analyze_resolved hpaths h).recordedAs hsigned

/-! ### Calls behind casts -/

namespace Casting

def masked : Nat → Const
  | 0 => .func 0
  | n + 1 => .cast .bit (masked n) Table.hook

/-- Calls a function behind as many casts as are looked through and behind one more, then inline
assembly, then a function it is given. -/
def caller : Module := { Module.empty with
  funcs := [Table.func "leaf" .unspecified [] [], Table.func "run" .unspecified [Table.hook]
    ([.const (masked 16), .const (masked 17), .asm Table.hook, .param 0].map fun callee =>
      ⟨.call ⟨some callee, some .void, []⟩, .void, []⟩)] }

/-- Two modules with indirect calls and one without content between them. -/
def program : Program := [⟨"caller", some caller⟩, ⟨"blank", none⟩, ⟨"user", some Table.user⟩]

end Casting

theorem analyze_records_calls_casting :
    (Casting.program.map ModuleFile.path).Nodup ∧
      ∃ r, analyze ⟨.standard, ""⟩ default Casting.program = .ok r ∧
        List.Forall₂ PlacedCall.RecordedAs
          (Casting.program.calls.filter fun c => decide c.Indirect) r.context.callSites ∧
        (Casting.program.calls.filter fun c => decide c.Indirect).map PlacedCall.id =
          [⟨0, 1, 0, 1⟩, ⟨0, 1, 0, 3⟩, ⟨2, 0, 0, 2⟩, ⟨2, 0, 0, 3⟩] := by
  have htargets : (Casting.program.targets .standard).isSome = true := by decide +kernel
  obtain ⟨found, htargets⟩ := Option.isSome_iff_exists.mp htargets
  obtain ⟨r, hr, -⟩ := Program.targets_eq_some htargets
  have hpaths : (Casting.program.map ModuleFile.path).Nodup := by decide +kernel
  exact ⟨hpaths, r, hr, (analyze_records_calls hpaths).2 _ _ r hr, by decide +kernel⟩

end CallTargets
