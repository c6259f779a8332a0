import CallTargets.Proofs.Discovery.Renumbering
import CallTargets.Proofs.Matching.Order

/-!
# Calls read back

The calls of a finished analysis are read back one after another, and a function keeps the name
under which it was first shown. As every function is only ever shown in its own module, that is the
name it has in the program. So what is reported of a call is its layer and the names of its targets.
-/
namespace CallTargets

open IR

/-- The name under which a function of a program is shown: a local one is shown with the path of its
module. -/
def Program.shown (p : Program) (id : FuncId) : ByteString :=
  ((p.symbol? id).map fun s => s.displayName (p.path id.module)).getD ""

namespace Readback

variable {p : Program} {r : Readback}

def Truthful (p : Program) (r : Readback) : Prop :=
  ∀ id name, r.names.get? id = some name → name = p.shown id

theorem nameOf_eq (hr : r.Truthful p) {id : FuncId} {module : ByteString}
    (hmodule : module = p.path id.module) :
    (r.nameOf p id module).1 = p.shown id ∧ (r.nameOf p id module).2.Truthful p := by
  subst hmodule
  cases hs : p.symbol? id with
  | none => simpa [nameOf, Program.shown, hs] using hr
  | some s =>
    have hid : s.id = id := Program.id_of_symbol? hs
    have hshown : p.shown id = s.displayName (p.path id.module) := by simp [Program.shown, hs]
    simp only [nameOf, hs, DisplayNames.nameOf, hid, hshown]
    cases hknown : r.names.get? id with
    | some known => exact ⟨(hr id known hknown).trans hshown, hr⟩
    | none =>
      refine ⟨rfl, ?_⟩
      intro id' name hname
      have hname : (r.names.put id (s.displayName (p.path id.module))).get? id' = some name := hname
      rw [Assoc.get?_put] at hname
      split at hname
      · next heq =>
        cases hname
        rw [← heq, hshown]
      · exact hr id' name hname

end Readback

/-- The caller and the targets of a call are recorded with the modules they belong to. -/
structure CallSite.Placed (p : Program) (cs : CallSite) : Prop where
  caller : ∀ f ∈ cs.caller, cs.module = p.path f.module
  targets : ∀ t ∈ cs.callees, t.module = p.path t.id.module

section

variable {p : Program} {r : Readback}

theorem addTarget_eq (hr : r.Truthful p) (c : CallResult) {t : Target}
    (ht : t.module = p.path t.id.module) :
    (c.addTarget p r t).1.Truthful p ∧ (c.addTarget p r t).2.layer = c.layer ∧
      (c.addTarget p r t).2.callees = c.callees ++ [p.shown t.id] := by
  obtain ⟨hname, hr'⟩ := Readback.nameOf_eq hr ht
  simp only [CallResult.addTarget, hname]
  split <;> exact ⟨hr', rfl, rfl⟩

theorem addTargets_eq {ts : List Target} (hts : ∀ t ∈ ts, t.module = p.path t.id.module)
    (hr : r.Truthful p) (c : CallResult) :
    let out := ts.foldl (fun x t => CallResult.addTarget p x.1 x.2 t) (r, c)
    out.1.Truthful p ∧ out.2.layer = c.layer ∧
      out.2.callees = c.callees ++ ts.map fun t => p.shown t.id := by
  induction ts generalizing r c with
  | nil => exact ⟨hr, rfl, (List.append_nil _).symm⟩
  | cons t ts ih =>
    obtain ⟨ht, hrest⟩ := List.forall_mem_cons.mp hts
    obtain ⟨hr', hlayer, hcallees⟩ := addTarget_eq hr c ht
    obtain ⟨hout, hlayer', hcallees'⟩ := ih hrest hr' (c.addTarget p r t).2
    refine ⟨hout, hlayer'.trans hlayer, ?_⟩
    rw [List.foldl_cons, hcallees', hcallees, List.append_assoc]
    rfl

/-- Neither the caller nor the position of a call matters for its targets. -/
theorem readCall_start (fs : Files) (hr : r.Truthful p) {cs : CallSite}
    (hcaller : ∀ f ∈ cs.caller, cs.module = p.path f.module) :
    ∃ r' c, readCall p fs r cs =
        cs.callees.foldl (fun x t => CallResult.addTarget p x.1 x.2 t) (r', c) ∧
      r'.Truthful p ∧ c.layer = cs.layer ∧ c.callees = [] ∧ c.definitions = [] := by
  cases hf : cs.caller with
  | none =>
    simp only [readCall, hf]
    split
    · exact ⟨_, _, rfl, hr, rfl, rfl, rfl⟩
    · exact ⟨_, _, rfl, hr, rfl, rfl, rfl⟩
  | some f =>
    have hr' := (Readback.nameOf_eq hr (hcaller f hf)).2
    simp only [readCall, hf]
    split
    · exact ⟨_, _, rfl, hr', rfl, rfl, rfl⟩
    · exact ⟨_, _, rfl, hr', rfl, rfl, rfl⟩

theorem readCall_eq (fs : Files) (hr : r.Truthful p) {cs : CallSite} (hcs : cs.Placed p) :
    (readCall p fs r cs).1.Truthful p ∧ (readCall p fs r cs).2.layer = cs.layer ∧
      (readCall p fs r cs).2.callees = cs.callees.map fun t => p.shown t.id := by
  obtain ⟨r', c, hread, hr', hlayer, hcallees, -⟩ := readCall_start fs hr hcs.caller
  obtain ⟨hout, hlayer', hcallees'⟩ := addTargets_eq hcs.targets hr' c
  rw [hread]
  refine ⟨hout, hlayer'.trans hlayer, ?_⟩
  rw [hcallees', hcallees, List.nil_append]

/-- What is reported of calls are their layers and the names of their targets. -/
theorem readCalls_eq (fs : Files) (hr : r.Truthful p) {calls : List CallSite}
    (hcalls : ∀ cs ∈ calls, cs.Placed p) :
    (readCalls p fs r calls).map (fun c => (c.layer, c.callees)) =
      calls.map fun cs => (cs.layer, cs.callees.map fun t => p.shown t.id) := by
  induction calls generalizing r with
  | nil => rfl
  | cons cs calls ih =>
    obtain ⟨hcs, hrest⟩ := List.forall_mem_cons.mp hcalls
    obtain ⟨hr', hlayer, hcallees⟩ := readCall_eq fs hr hcs
    rw [readCalls, List.map_cons, List.map_cons, ih hr' hrest, hlayer, hcallees]

end

/-! ### Calls of an analysis -/

namespace Pass

variable {pass : Pass} {config : Config} {ms : List Nat}

theorem Holds.path_eq {i : Nat} {path : ByteString} {m : Module} (h : pass.Holds i path m) :
    pass.program.path i = path := by
  have hfile : pass.program[i]? = some ⟨path, some m⟩ := h
  simp [Program.path, hfile]

/-- The record of a function names the module that the function is in. -/
theorem gathered_module {fi : FuncInfo} (h : fi ∈ (pass.gathered config ms).addressTaken) :
    fi.module = pass.program.path fi.id.module := by
  have hinfo := (pass.gathered_indexed config ms).mem_addressTaken.mp h
  obtain ⟨s, hs⟩ := symbol?_of_gathered hinfo
  obtain ⟨f, hf, -⟩ := Option.map_eq_some_iff.mp hs
  rw [gathered_info?] at hinfo
  split at hinfo
  · cases hinfo
  · have hblank : (pass.blank fi.id).module = pass.program.path fi.id.module := by
      simp [blank, hf, FuncInfo.ofSymbol]
    have hsame := FuncInfo.foldl_learn_sameFunc (pass.history ms fi.id) (pass.blank fi.id)
    rw [Option.some.inj hinfo] at hsame
    exact hsame.module.trans hblank

theorem matched_placed {i : Nat} {cs : CallSite} (hcs : cs ∈ pass.callsOf i) :
    (matched (pass.gathered config ms) cs).Placed pass.program where
  caller f hf := by
    obtain ⟨path, m, func, id, inst, c, t, memory, hfile, hstep, -, rfl⟩ := callsOf_siteOf hcs
    have hmodule : id.module = i := (Scanner.mem_steps_inst.mp hstep).1
    cases hf
    exact (hmodule ▸ Holds.path_eq hfile).symm
  targets t ht := by
    obtain ⟨fi, hfi, rfl⟩ := (mem_callees_matched _ cs t).mp ht
    have htaken : fi ∈ (pass.gathered config ms).addressTaken := by
      rw [candidates_eq] at hfi
      split at hfi
      · exact ((mem_firstLayer (pass.gathered_indexed config ms)).mp hfi).1
      · exact ((mem_narrowed (pass.gathered_indexed config ms)).mp hfi).1.1
    exact gathered_module htaken

/-- The calls of a resolved state are those of its modules, matched. -/
theorem Resolved.mem_callSites {c : Context} (h : pass.Resolved config ms c) (hms : ms.Nodup)
    (hsigned : ∀ i ∈ ms, pass.Signed i) {cs : CallSite} :
    cs ∈ c.callSites ↔
      ∃ i ∈ ms, ∃ call ∈ pass.callsOf i, matched (pass.gathered config ms) call = cs := by
  rw [h.indexed.mem_callSites, h.sites, Option.map_eq_some_iff]
  simp only [gathered_site?_iff config hms hsigned]
  constructor
  · rintro ⟨call, ⟨⟨i, hi, hcall⟩, -⟩, rfl⟩
    exact ⟨i, hi, call, hcall, rfl⟩
  · rintro ⟨i, hi, call, hcall, rfl⟩
    exact ⟨call, ⟨⟨i, hi, hcall⟩, rfl⟩, rfl⟩

end Pass
end CallTargets
