import CallTargets.Proofs.Matching.FirstPhase

/-!
# Statistics that add up

Every count of the statistics is a sum over the calls on record, as long as the sum fits into a
word. A run that succeeds has matched all calls before it counts them: each is in one of the two
layers, with targets if it is the layer of fields, and its targets are distinct functions whose
address is taken. So the counts of the layers add up to the counts of all calls and targets, and
these bound each other.
-/
namespace CallTargets

/-! ### Counts as sums -/

namespace CallSite

def size (cs : CallSite) : Nat := cs.callees.length

def withTargets (cs : CallSite) : Nat := if cs.callees = [] then 0 else 1

def inLayer (l : Layer) (cs : CallSite) : Nat := if cs.layer = l then 1 else 0

def sizeIn (l : Layer) (cs : CallSite) : Nat := if cs.layer = l then cs.size else 0

theorem withTargets_le (cs : CallSite) : cs.withTargets ≤ 1 := by
  unfold withTargets
  split <;> simp

theorem inLayer_le (l : Layer) (cs : CallSite) : cs.inLayer l ≤ 1 := by
  unfold inLayer
  split <;> simp

theorem sizeIn_le (l : Layer) (cs : CallSite) : cs.sizeIn l ≤ cs.size := by
  unfold sizeIn
  split <;> simp

end CallSite

namespace Stats

open CallSite

def total (w : CallSite → Nat) (calls : List CallSite) : Nat :=
  (calls.map w).sum

variable {calls : List CallSite} {w v : CallSite → Nat}

theorem total_le_total (h : ∀ cs ∈ calls, w cs ≤ v cs) : total w calls ≤ total v calls :=
  List.sum_le_sum h

theorem total_le_mul {n : Nat} (h : ∀ cs ∈ calls, w cs ≤ n) : total w calls ≤ calls.length * n := by
  simpa [total] using List.sum_le_sum h

theorem total_add_total {u : CallSite → Nat} (h : ∀ cs ∈ calls, w cs + v cs = u cs) :
    total w calls + total v calls = total u calls := by
  rw [total, total, total, ← List.sum_map_add, List.map_congr_left h]

/-- A count to which every call adds a number of its own. -/
theorem foldl_addCall {count : Stats → UInt64}
    (hstep : ∀ cs ∈ calls, ∀ s : Stats, count (s.addCall cs) = count s + (w cs).toUInt64)
    (s : Stats) : count (calls.foldl addCall s) = count s + (total w calls).toUInt64 := by
  induction calls generalizing s with
  | nil => simp [total]
  | cons cs calls ih =>
    have hrest := ih (fun cs' h => hstep cs' (List.mem_cons_of_mem cs h)) (s.addCall cs)
    have htotal : total w (cs :: calls) = w cs + total w calls := List.sum_cons
    rw [List.foldl_cons, hrest, hstep cs List.mem_cons_self, htotal]
    simp [UInt64.add_assoc]

/-- A count that starts at zero is the sum of what the calls add, if that fits into a word. -/
theorem toNat_record {count : Stats → UInt64}
    (hzero : ∀ n taken phases, count ⟨n, 0, 0, taken, 0, 0, 0, 0, phases⟩ = 0)
    (hstep : ∀ cs ∈ calls, ∀ s : Stats, count (s.addCall cs) = count s + (w cs).toUInt64)
    (hfits : total w calls < 2 ^ 64) (s : Stats) (taken : Nat) :
    (count (s.record calls taken)).toNat = total w calls := by
  have hzero' := hzero calls.length.toUInt64 taken.toUInt64 s.phases
  rw [record, foldl_addCall hstep]
  change (count ⟨_, 0, 0, _, 0, 0, 0, 0, _⟩ + _).toNat = _
  rw [hzero', UInt64.zero_add]
  exact UInt64.toNat_ofNat_of_lt' hfits

structure Counts (s : Stats) (calls : List CallSite) (taken : Nat) : Prop where
  indirectCalls : s.indirectCalls.toNat = calls.length
  callsWithTargets : s.callsWithTargets.toNat = total withTargets calls
  callTargets : s.callTargets.toNat = total size calls
  addressTaken : s.addressTaken.toNat = taken
  firstLayerCalls : s.firstLayerCalls.toNat = total (inLayer .signature) calls
  firstLayerTargets : s.firstLayerTargets.toNat = total (sizeIn .signature) calls
  secondLayerCalls : s.secondLayerCalls.toNat = total (inLayer .field) calls
  secondLayerTargets : s.secondLayerTargets.toNat = total (sizeIn .field) calls

theorem size_le_total {cs : CallSite} (h : cs ∈ calls) : cs.size ≤ total size calls :=
  List.le_sum_of_mem (List.mem_map_of_mem h)

theorem withTargets_toUInt64 {cs : CallSite} (h : cs.size < 2 ^ 64) :
    (if 0 < cs.callees.length.toUInt64 then 1 else 0) = cs.withTargets.toUInt64 := by
  have hlength : cs.callees.length.toUInt64.toNat = cs.size := UInt64.toNat_ofNat_of_lt' h
  have hpos : 0 < cs.callees.length.toUInt64 ↔ cs.callees ≠ [] := by
    rw [UInt64.lt_iff_toNat_lt, hlength]
    exact List.length_pos_iff
  unfold withTargets
  by_cases hnil : cs.callees = [] <;> simp [hpos, hnil]

theorem inLayer_toUInt64 (l : Layer) (cs : CallSite) :
    (if cs.layer = l then 1 else 0) = (cs.inLayer l).toUInt64 := by
  unfold inLayer
  split <;> rfl

theorem sizeIn_toUInt64 (l : Layer) (cs : CallSite) :
    (if cs.layer = l then cs.callees.length.toUInt64 else 0) = (cs.sizeIn l).toUInt64 := by
  unfold sizeIn
  split <;> rfl

theorem record_counts {taken : Nat} (hcalls : calls.length < 2 ^ 64) (htaken : taken < 2 ^ 64)
    (htargets : total size calls < 2 ^ 64) (s : Stats) :
    (s.record calls taken).Counts calls taken := by
  have hlayer (l : Layer) : total (inLayer l) calls < 2 ^ 64 :=
    lt_of_le_of_lt (by simpa using total_le_mul fun cs _ => cs.inLayer_le l) hcalls
  have hsize (l : Layer) : total (sizeIn l) calls < 2 ^ 64 :=
    lt_of_le_of_lt (total_le_total fun cs _ => cs.sizeIn_le l) htargets
  have hwith : total withTargets calls < 2 ^ 64 :=
    lt_of_le_of_lt (by simpa using total_le_mul fun cs _ => cs.withTargets_le) hcalls
  have hkept (count : Stats → UInt64) (h : ∀ s cs, count (addCall s cs) = count s) (s : Stats) :
      count (calls.foldl addCall s) = count s := by
    simpa [total] using foldl_addCall (w := fun _ => 0) (fun cs _ s => by simpa using h s cs) s
  constructor
  · rw [record, hkept indirectCalls fun s cs => by rw [addCall_eq]]
    exact UInt64.toNat_ofNat_of_lt' hcalls
  · refine toNat_record (fun _ _ _ => rfl) (fun cs hcs s => ?_) hwith s taken
    rw [addCall_eq, ← withTargets_toUInt64 (lt_of_le_of_lt (size_le_total hcs) htargets)]
  · refine toNat_record (fun _ _ _ => rfl) (fun cs _ s => ?_) htargets s taken
    rw [addCall_eq]
    rfl
  · rw [record, hkept addressTaken fun s cs => by rw [addCall_eq]]
    exact UInt64.toNat_ofNat_of_lt' htaken
  · refine toNat_record (fun _ _ _ => rfl) (fun cs _ s => ?_) (hlayer .signature) s taken
    rw [addCall_eq, ← inLayer_toUInt64]
  · refine toNat_record (fun _ _ _ => rfl) (fun cs _ s => ?_) (hsize .signature) s taken
    rw [addCall_eq, ← sizeIn_toUInt64]
  · refine toNat_record (fun _ _ _ => rfl) (fun cs _ s => ?_) (hlayer .field) s taken
    rw [addCall_eq, ← inLayer_toUInt64]
  · refine toNat_record (fun _ _ _ => rfl) (fun cs _ s => ?_) (hsize .field) s taken
    rw [addCall_eq, ← sizeIn_toUInt64]

theorem Counts.setPhases {s : Stats} {taken : Nat} (h : s.Counts calls taken) (n : Int) :
    (s.setPhases n).Counts calls taken :=
  { h with }

/-- The counts agree with each other and with the records. -/
structure Balanced (s : Stats) (c : Context) : Prop where
  matched : ∀ cs ∈ c.callSites, cs.layer ≠ .unmatched
  distinct : ∀ cs ∈ c.callSites, cs.callees.Nodup
  calls : s.indirectCalls.toNat = c.callSites.length
  layerCalls : s.indirectCalls.toNat = s.firstLayerCalls.toNat + s.secondLayerCalls.toNat
  targets : s.callTargets.toNat = (c.callSites.map fun cs => cs.callees.length).sum
  layerTargets : s.callTargets.toNat = s.firstLayerTargets.toNat + s.secondLayerTargets.toNat
  secondLayer_le_withTargets : s.secondLayerCalls.toNat ≤ s.callsWithTargets.toNat
  secondLayer_le_targets : s.secondLayerCalls.toNat ≤ s.secondLayerTargets.toNat
  taken : s.addressTaken.toNat = c.addressTaken.length
  targets_le : s.callTargets.toNat ≤ s.indirectCalls.toNat * s.addressTaken.toNat

end Stats

/-! ### Calls that are matched -/

namespace CallSite

variable {cs : CallSite}

theorem inLayer_add (h : cs.layer ≠ .unmatched) : cs.inLayer .signature + cs.inLayer .field = 1 := by
  cases hl : cs.layer with
  | unmatched => exact absurd hl h
  | signature | field => simp [inLayer, hl]

theorem sizeIn_add (h : cs.layer ≠ .unmatched) :
    cs.sizeIn .signature + cs.sizeIn .field = cs.size := by
  cases hl : cs.layer with
  | unmatched => exact absurd hl h
  | signature | field => simp [sizeIn, hl]

theorem inLayer_le_withTargets {l : Layer} (h : cs.layer = l → cs.callees ≠ []) :
    cs.inLayer l ≤ cs.withTargets := by
  unfold inLayer withTargets
  split
  · next hl => simp [h hl]
  · simp

theorem inLayer_le_sizeIn {l : Layer} (h : cs.layer = l → cs.callees ≠ []) :
    cs.inLayer l ≤ cs.sizeIn l := by
  unfold inLayer sizeIn
  split
  · next hl => exact List.length_pos_iff.mpr (h hl)
  · simp

end CallSite

namespace Context.Answers

variable {c : Context} {cs : CallSite}

theorem layer_ne (h : c.Answers cs) : cs.layer ≠ .unmatched := by
  by_cases hfield : ∃ fi, c.FitsField cs fi
  · simp [(h.field hfield).1]
  · simp [(h.signature hfield).1]

/-- Fields are preferred only where they give a target. -/
theorem callees_ne_nil (h : c.Answers cs) (hlayer : cs.layer = .field) : cs.callees ≠ [] := by
  by_cases hfield : ∃ fi, c.FitsField cs fi
  · obtain ⟨fi, hfi⟩ := hfield
    exact List.ne_nil_of_mem (((h.field ⟨fi, hfi⟩).2 fi.target).mpr ⟨fi, hfi, rfl⟩)
  · rw [(h.signature hfield).1] at hlayer
    cases hlayer

theorem callees_subset (h : c.Answers cs) : cs.callees ⊆ c.addressTaken.map FuncInfo.target := by
  intro t ht
  rw [List.mem_map]
  by_cases hfield : ∃ fi, c.FitsField cs fi
  · obtain ⟨fi, hfi, rfl⟩ := ((h.field hfield).2 t).mp ht
    exact ⟨fi, hfi.1.1, rfl⟩
  · obtain ⟨fi, hfi, rfl⟩ := ((h.signature hfield).2 t).mp ht
    exact ⟨fi, hfi.1, rfl⟩

theorem size_le (h : c.Answers cs) (hdistinct : cs.callees.Nodup) :
    cs.size ≤ c.addressTaken.length := by
  simpa [CallSite.size] using (List.subperm_of_subset hdistinct h.callees_subset).length_le

end Context.Answers

theorem Stats.Counts.balanced {s : Stats} {c : Context}
    (h : s.Counts c.callSites c.addressTaken.length) (hanswers : ∀ cs ∈ c.callSites, c.Answers cs)
    (hdistinct : ∀ cs ∈ c.callSites, cs.callees.Nodup) : s.Balanced c where
  matched cs hcs := (hanswers cs hcs).layer_ne
  distinct := hdistinct
  calls := h.indirectCalls
  layerCalls := by
    have hlayers := total_add_total fun cs hcs =>
      CallSite.inLayer_add (hanswers cs hcs).layer_ne
    rw [h.indirectCalls, h.firstLayerCalls, h.secondLayerCalls, hlayers]
    simp [total]
  targets := h.callTargets
  layerTargets := by
    have hsizes := total_add_total fun cs hcs =>
      CallSite.sizeIn_add (hanswers cs hcs).layer_ne
    rw [h.callTargets, h.firstLayerTargets, h.secondLayerTargets, hsizes]
  secondLayer_le_withTargets := by
    rw [h.secondLayerCalls, h.callsWithTargets]
    exact total_le_total fun cs hcs =>
      CallSite.inLayer_le_withTargets (hanswers cs hcs).callees_ne_nil
  secondLayer_le_targets := by
    rw [h.secondLayerCalls, h.secondLayerTargets]
    exact total_le_total fun cs hcs =>
      CallSite.inLayer_le_sizeIn (hanswers cs hcs).callees_ne_nil
  taken := h.addressTaken
  targets_le := by
    rw [h.callTargets, h.indirectCalls, h.addressTaken]
    exact total_le_mul fun cs hcs => (hanswers cs hcs).size_le (hdistinct cs hcs)

/-- The statistics of a successful analysis add up, as long as its counts fit into words. -/
theorem analyze_stats_balanced {options : AnalysisOptions} {fs : Files} {p : Program}
    {r : AnalysisResult} (hpaths : (p.map ModuleFile.path).Nodup)
    (h : analyze options fs p = .ok r) (hcalls : r.context.callSites.length < 2 ^ 64)
    (htaken : r.context.addressTaken.length < 2 ^ 64)
    (htargets : (r.context.callSites.map fun cs => cs.callees.length).sum < 2 ^ 64) :
    r.stats.Balanced r.context := by
  have hresolved := analyze_resolved hpaths h
  have hcounts := (Stats.record_counts hcalls htaken htargets .zero).setPhases r.report.phases
  rw [← analyze_stats hpaths h] at hcounts
  refine hcounts.balanced ?_ ?_
  · intro cs hcs
    exact hresolved.answers (hresolved.indexed.mem_callSites.mp hcs)
  · intro cs hcs
    exact hresolved.callees_nodup cs.id cs (hresolved.indexed.mem_callSites.mp hcs)

theorem analyze_stats_balanced_table :
    (Table.program.map ModuleFile.path).Nodup ∧
      ∃ r, analyze ⟨.standard, ""⟩ default Table.program = .ok r ∧
        r.context.callSites.length = 2 ∧ r.context.addressTaken.length = 4 ∧
        (r.context.callSites.map fun cs => cs.callees.length).sum = 4 ∧
        r.stats.Balanced r.context := by
  have hpaths : (Table.program.map ModuleFile.path).Nodup := by decide +kernel
  have hcount : (analyze ⟨.standard, ""⟩ default Table.program).toOption.map (fun r =>
      (r.context.callSites.length, r.context.addressTaken.length,
        (r.context.callSites.map fun cs => cs.callees.length).sum)) = some (2, 4, 4) := by
    decide +kernel
  cases hr : analyze ⟨.standard, ""⟩ default Table.program with
  | error e =>
    rw [hr] at hcount
    cases hcount
  | ok r =>
    rw [hr] at hcount
    obtain ⟨hcalls, htaken, htargets⟩ : r.context.callSites.length = 2 ∧
        r.context.addressTaken.length = 4 ∧
        (r.context.callSites.map fun cs => cs.callees.length).sum = 4 := by
      simpa [Except.toOption] using hcount
    exact ⟨hpaths, r, rfl, hcalls, htaken, htargets,
      analyze_stats_balanced hpaths hr (by omega) (by omega) (by omega)⟩

end CallTargets
