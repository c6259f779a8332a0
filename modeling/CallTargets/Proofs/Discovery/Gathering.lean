import CallTargets.Proofs.Discovery.Preparation

/-!
# What preparation gathers

After the modules were absorbed in some order, the record of a function is determined by the facts
about it alone: they are learned one after another, starting from a blank record, and the first of
them is always that its address was taken. The record of a call is the first that was found at its
position. A type is visible in a module, and a module refers to a global, exactly if one of the
absorbed modules says so.
-/
namespace CallTargets

open IR

def Fact.func? : Fact → Option Nat
  | .taken f _ | .evidence f _ _ | .published f _ => some f
  | .call _ => none

def FuncInfo.learn (fi : FuncInfo) : Fact → FuncInfo
  | .taken _ how => (fi.markEscape how).2
  | .evidence _ owner field => (fi.addEvidence owner (Int64.ofNat field)).2
  | .published _ global => (fi.publish global).2
  | .call _ => fi

/-! ### The functions that stand for others -/

theorem Program.symbol?_of_mem_symbols {p : Program} {s : Symbol} (h : s ∈ p.symbols) :
    p.symbol? s.id = some s := by
  obtain ⟨⟨file, i⟩, hfile, hs⟩ := List.mem_flatMap.mp h
  rw [List.mk_mem_zipIdx_iff_getElem?] at hfile
  dsimp only at hs
  unfold moduleSymbols at hs
  split at hs
  · next m hm =>
    obtain ⟨⟨f, k⟩, hf, rfl⟩ := List.mem_map.mp hs
    rw [List.mk_mem_zipIdx_iff_getElem?] at hf
    simp [symbol?, func?, Symbol.ofFunc, hfile, hm, hf]
  · cases hs

theorem Context.get?_enter {defs : Assoc ByteString Symbol} {a s : Symbol} {name : ByteString}
    (h : (enter defs a).get? name = some s) : s = a ∨ defs.get? name = some s := by
  have hput (h : (defs.put a.name a).get? name = some s) : s = a ∨ defs.get? name = some s := by
    rw [Assoc.get?_put] at h
    split at h
    · cases h
      exact .inl rfl
    · exact .inr h
  unfold enter at h
  split at h
  · exact .inr h
  · split at h
    · exact hput h
    · split at h
      · exact hput h
      · exact .inr h

theorem Context.get?_foldl_enter {symbols : List Symbol} {defs : Assoc ByteString Symbol}
    {s : Symbol} {name : ByteString} (h : (symbols.foldl enter defs).get? name = some s) :
    s ∈ symbols ∨ defs.get? name = some s := by
  induction symbols generalizing defs with
  | nil => exact .inr h
  | cons a symbols ih =>
    rcases ih h with h | h
    · exact .inl (List.mem_cons_of_mem a h)
    · rcases get?_enter h with rfl | h
      · exact .inl List.mem_cons_self
      · exact .inr h

namespace Pass

def Linked (pass : Pass) (c : Context) : Prop :=
  c.defs = pass.program.symbols.foldl Context.enter []

/-- The function that stands for a function of a module throughout an analysis. -/
def home? (pass : Pass) (module func : Nat) : Option Symbol :=
  pass.canonical? (.start default pass.program.symbols) module func

def subject? (pass : Pass) (module : Nat) (fact : Fact) : Option FuncId :=
  fact.func?.bind fun f => (pass.home? module f).map Symbol.id

theorem start_linked (pass : Pass) (config : Config) :
    pass.Linked (.start config pass.program.symbols) :=
  rfl

theorem Linked.steps {pass : Pass} {c c' : Context} (h : pass.Linked c) (hs : c.Steps c') :
    pass.Linked c' :=
  hs.defs_eq.trans h

theorem Linked.canonical?_eq {pass : Pass} {c : Context} (h : pass.Linked c) (module func : Nat) :
    pass.canonical? c module func = pass.home? module func := by
  have hdefs : c.defs = (Context.start default pass.program.symbols).defs := h
  have hcanonical : c.canonical = (Context.start default pass.program.symbols).canonical := by
    funext s
    simp only [Context.canonical, hdefs]
  rw [home?, canonical?, canonical?, hcanonical]

theorem home?_symbol {pass : Pass} {module func : Nat} {s : Symbol}
    (h : pass.home? module func = some s) : pass.program.symbol? s.id = some s := by
  obtain ⟨a, ha, rfl⟩ := Option.map_eq_some_iff.mp h
  have hself : pass.program.symbol? a.id = some a := by
    obtain ⟨f, hf, rfl⟩ := Option.map_eq_some_iff.mp ha
    exact ha
  unfold Context.canonical
  split
  · exact hself
  · cases hdef : (Context.start default pass.program.symbols).defs.get? a.name with
    | none => exact hself
    | some t =>
      rcases Context.get?_foldl_enter hdef with ht | ht
      · exact Program.symbol?_of_mem_symbols ht
      · cases ht

/-! ### Records of functions -/

/-- A function of the program of which nothing is recorded yet. -/
def blank (pass : Pass) (id : FuncId) : FuncInfo :=
  match pass.program.func? id with
  | some f => .ofSymbol (.ofFunc id.module id.index f) (pass.program.path id.module) (.ofFunc f)
  | none => default

/-- What a fact about a function makes of its record: only that its address is taken starts one. -/
def revise (pass : Pass) (id : FuncId) : Option FuncInfo → Fact → Option FuncInfo
  | some fi, fact => some (fi.learn fact)
  | none, .taken f how => some ((pass.blank id).learn (.taken f how))
  | none, _ => none

theorem info?_updateInfo (c : Context) (f id : FuncId) (g : FuncInfo → Bool × FuncInfo) :
    (c.updateInfo f g).2.info? id =
      if f = id then (c.info? id).map fun fi => (g fi).2 else c.info? id := by
  unfold Context.updateInfo
  split
  · next h =>
    by_cases hid : f = id
    · subst hid
      simp [Context.info?, h]
    · simp [hid]
  · next fi h =>
    by_cases hid : f = id
    · subst hid
      simp [Context.info?, h]
    · simp [Context.info?, hid]

theorem info?_enroll {pass : Pass} {s : Symbol} (hs : pass.program.symbol? s.id = some s)
    (c : Context) (id : FuncId) :
    (pass.enroll c s).2.info? id =
      if s.id = id then some ((c.info? id).getD (pass.blank id)) else c.info? id := by
  obtain ⟨f, hf, hof⟩ := Option.map_eq_some_iff.mp hs
  have hblank : pass.blank s.id = .ofSymbol s (pass.program.path s.id.module) (.ofFunc f) := by
    simp only [blank, hf, hof]
  unfold enroll
  rw [hf]
  by_cases hid : s.id = id
  · subst hid
    cases hinfo : c.info? s.id with
    | none =>
      have hnew : c.infos.get? (pass.blank s.id).id = none := by
        rw [hblank]
        exact hinfo
      simp only [← hblank, Context.addTaken, hnew, if_true, Option.getD_none]
      rw [Context.info?, hblank]
      exact Assoc.get?_put_self _ _ _
    | some fi => simp [hinfo]
  · rw [if_neg hid]
    split
    · unfold Context.addTaken
      split
      · rfl
      · next h => 
        exact Assoc.get?_put_of_ne hid _ _
    · rfl

/-- A fact that starts no record changes the one that is there. -/
theorem info?_amend (pass : Pass) (c : Context) (f id : FuncId) {g : FuncInfo → Bool × FuncInfo}
    {fact : Fact} (hlearn : ∀ fi, (g fi).2 = fi.learn fact)
    (hnone : pass.revise id none fact = none) :
    (c.updateInfo f g).2.info? id =
      if some f = some id then pass.revise id (c.info? id) fact else c.info? id := by
  rw [info?_updateInfo]
  by_cases hid : f = id
  · subst hid
    cases c.info? f with
    | none => simp [hnone]
    | some fi => simp [revise, hlearn]
  · simp [hid]

/-- A fact changes the record of the function it is about, and no other. -/
theorem info?_recordFact {pass : Pass} {c : Context} (hc : pass.Linked c) (module : Nat)
    (fact : Fact) (id : FuncId) :
    (pass.recordFact module c fact).2.info? id =
      if pass.subject? module fact = some id then pass.revise id (c.info? id) fact
      else c.info? id := by
  cases fact with
  | call cs =>
    have hcall : (c.addCall cs).2.2.info? id = c.info? id := by
      unfold Context.addCall
      split <;> rfl
    simpa [recordFact, subject?, Fact.func?] using hcall
  | taken f how =>
    simp only [recordFact, hc.canonical?_eq, subject?, Fact.func?, Option.bind_some]
    rcases Option.eq_none_or_eq_some (pass.home? module f) with hs | ⟨s, hs⟩
    · simp [hs]
    · simp only [hs, recordTaken_eq, info?_updateInfo, info?_enroll (home?_symbol hs),
        Option.map_some, Option.some.injEq]
      by_cases hid : s.id = id
      · cases c.info? id <;> simp [hid, revise, FuncInfo.learn]
      · simp [hid]
  | evidence f owner field =>
    simp only [recordFact, hc.canonical?_eq, subject?, Fact.func?, Option.bind_some]
    rcases Option.eq_none_or_eq_some (pass.home? module f) with hs | ⟨s, hs⟩
    · simp [hs]
    · simp only [hs, Option.map_some]
      exact pass.info?_amend c s.id id (fun _ => rfl) rfl
  | published f g =>
    simp only [recordFact, hc.canonical?_eq, subject?, Fact.func?, Option.bind_some]
    rcases Option.eq_none_or_eq_some (pass.home? module f) with hs | ⟨s, hs⟩
    · simp [hs]
    · simp only [hs, Option.map_some]
      exact pass.info?_amend c s.id id (fun _ => rfl) rfl

def factsAbout (pass : Pass) (id : FuncId) (module : Nat) : List Fact :=
  (pass.facts module).filter fun fact => pass.subject? module fact = some id

theorem info?_recordFacts {pass : Pass} {c : Context} (hc : pass.Linked c) (module : Nat)
    (facts : List Fact) (id : FuncId) :
    (pass.recordFacts module c facts).2.info? id =
      (facts.filter fun fact => pass.subject? module fact = some id).foldl (pass.revise id)
        (c.info? id) := by
  rw [recordFacts_eq]
  generalize false = changed
  induction facts generalizing c changed with
  | nil => rfl
  | cons fact facts ih =>
    rw [Context.applyAll, ih (hc.steps (pass.recordFact_steps module c fact)),
      info?_recordFact hc, List.filter_cons]
    by_cases hid : pass.subject? module fact = some id <;> simp [hid]

/-- Making types visible changes nothing else. -/
theorem registerVisible_frame (pass : Pass) (path : ByteString) (m : Module) (c : Context) :
    ∃ visible refs, (pass.registerVisible path m c).2 =
      { c with visible := visible, refs := refs } := by
  rw [registerVisible_eq]
  refine Context.applyAll_keeps (P := fun c' => ∃ visible refs, c' =
    { c with visible := visible, refs := refs }) ?_ _ ?_
  · rintro g - c' ⟨visible, refs, rfl⟩
    unfold Context.markReferenced
    split <;> exact ⟨_, _, rfl⟩
  · refine Context.applyAll_keeps (P := fun c' => ∃ visible refs, c' =
      { c with visible := visible, refs := refs }) ?_ _ ⟨c.visible, c.refs, rfl⟩
    rintro st - c' ⟨visible, refs, rfl⟩
    unfold Context.markVisible
    split <;> exact ⟨_, _, rfl⟩

theorem facts_of_empty {pass : Pass} {module : Nat} (h : ∀ path m, ¬ pass.Holds module path m) :
    pass.facts module = [] := by
  unfold facts
  split
  · next path m hfile => exact absurd hfile (h path m)
  · rfl

theorem info?_absorb {pass : Pass} {c : Context} (hc : pass.Linked c) (module : Nat)
    (id : FuncId) :
    (pass.absorb module c).2.info? id =
      (pass.factsAbout id module).foldl (pass.revise id) (c.info? id) := by
  obtain ⟨path, m, hfile⟩ | hnot := pass.holds_or_empty module
  · obtain ⟨visible, refs, hframe⟩ := pass.registerVisible_frame path m c
    have hlinked : pass.Linked { c with visible := visible, refs := refs } := hc
    simp only [absorb, hfile, hframe]
    exact info?_recordFacts hlinked module _ id
  · rw [absorb_of_empty hnot, factsAbout, facts_of_empty hnot]
    rfl

def gathered (pass : Pass) (config : Config) (ms : List Nat) : Context :=
  Driver.visit pass.absorb ms (.start config pass.program.symbols)

theorem gathered_steps (pass : Pass) (config : Config) (ms : List Nat) :
    (Context.start config pass.program.symbols).Steps (pass.gathered config ms) :=
  pass.visit_absorb_steps ms _

theorem gathered_indexed (pass : Pass) (config : Config) (ms : List Nat) :
    (pass.gathered config ms).Indexed :=
  (pass.gathered_steps config ms).indexed (Context.start_indexed config _)

@[simp] theorem gathered_config (pass : Pass) (config : Config) (ms : List Nat) :
    (pass.gathered config ms).config = config :=
  (pass.gathered_steps config ms).config_eq

/-- The facts of the modules about a function, in the order in which they are recorded. -/
def history (pass : Pass) (ms : List Nat) (id : FuncId) : List Fact :=
  ms.flatMap (pass.factsAbout id)

theorem history_cons (pass : Pass) (i : Nat) (ms : List Nat) (id : FuncId) :
    pass.history (i :: ms) id = pass.factsAbout id i ++ pass.history ms id :=
  List.flatMap_cons

theorem info?_visit {pass : Pass} (ms : List Nat) {c : Context} (hc : pass.Linked c)
    (id : FuncId) :
    (Driver.visit pass.absorb ms c).info? id =
      (pass.history ms id).foldl (pass.revise id) (c.info? id) := by
  induction ms generalizing c with
  | nil => rfl
  | cons i ms ih =>
    rw [Driver.visit_cons, ih (hc.steps (pass.absorb_steps i c)), info?_absorb hc, history_cons,
      List.foldl_append]

/-- In a module, the first fact about a function is that its address was taken. -/
theorem head?_filter_of_grounded {known : List Nat} {facts : List Fact} (h : Grounded known facts)
    {about : Nat → Bool} (hknown : ∀ f ∈ known, about f = false) :
    ∀ fact ∈ (facts.filter fun fact => fact.func?.any about).head?,
      ∃ f how, fact = .taken f how := by
  induction facts generalizing known with
  | nil => simp
  | cons fact facts ih =>
    cases fact with
    | taken f how =>
      by_cases hf : about f = true
      · simp [Fact.func?, hf]
      · have hknown' : ∀ g ∈ f :: known, about g = false := by
          intro g hg
          rcases List.mem_cons.mp hg with rfl | hg
          · simpa using hf
          · exact hknown g hg
        simpa [Fact.func?, hf] using ih h hknown'
    | evidence f owner field => simpa [Fact.func?, hknown f h.1] using ih h.2 hknown
    | published f g => simpa [Fact.func?, hknown f h.1] using ih h.2 hknown
    | call cs => simpa [Fact.func?] using ih h hknown

theorem facts_grounded (pass : Pass) (module : Nat) : Grounded [] (pass.facts module) := by
  unfold facts
  split
  · exact Scanner.found_grounded _ _
  · trivial

theorem head?_factsAbout (pass : Pass) (id : FuncId) (module : Nat) :
    ∀ fact ∈ (pass.factsAbout id module).head?, ∃ f how, fact = .taken f how := by
  have hsame : pass.factsAbout id module = (pass.facts module).filter fun fact =>
      fact.func?.any fun f => ((pass.home? module f).map Symbol.id) = some id := by
    apply List.filter_congr
    intro fact _
    cases hf : fact.func? <;> simp [subject?, hf]
  rw [hsame]
  exact head?_filter_of_grounded (pass.facts_grounded module) (by simp)

theorem head?_history (pass : Pass) (ms : List Nat) (id : FuncId) :
    ∀ fact ∈ (pass.history ms id).head?, ∃ f how, fact = .taken f how := by
  induction ms with
  | nil => simp [history]
  | cons i ms ih =>
    rw [history_cons]
    cases hi : pass.factsAbout id i with
    | nil => exact ih
    | cons fact rest =>
      have hhead := pass.head?_factsAbout id i
      rw [hi] at hhead
      simpa using hhead

theorem foldl_revise_some (pass : Pass) (id : FuncId) (facts : List Fact) (fi : FuncInfo) :
    facts.foldl (pass.revise id) (some fi) = some (facts.foldl FuncInfo.learn fi) := by
  induction facts generalizing fi with
  | nil => rfl
  | cons fact facts ih => exact ih _

/-- The record of a function holds what its history tells, learned from the beginning. -/
theorem gathered_info? (pass : Pass) (config : Config) (ms : List Nat) (id : FuncId) :
    (pass.gathered config ms).info? id =
      if pass.history ms id = [] then none
      else some ((pass.history ms id).foldl FuncInfo.learn (pass.blank id)) := by
  have hblank : (Context.start config pass.program.symbols).info? id = none := rfl
  rw [gathered, info?_visit ms (pass.start_linked config), hblank]
  cases hist : pass.history ms id with
  | nil => rfl
  | cons fact rest =>
    have hhead := pass.head?_history ms id
    rw [hist] at hhead
    obtain ⟨f, how, rfl⟩ := hhead fact rfl
    exact pass.foldl_revise_some id rest _

/-! ### Records of calls -/

/-- A fact about a function changes only what is recorded of functions. -/
theorem recordFact_frame (pass : Pass) (module : Nat) (c : Context) {fact : Fact}
    (h : fact.call? = none) :
    ∃ taken infos bySig, (pass.recordFact module c fact).2 =
      { c with taken := taken, infos := infos, bySig := bySig } := by
  have hupdate (c : Context) (f : FuncId) (g : FuncInfo → Bool × FuncInfo) :
      ∃ infos, (c.updateInfo f g).2 = { c with infos := infos } := by
    unfold Context.updateInfo
    split <;> exact ⟨_, rfl⟩
  cases fact with
  | call cs => cases h
  | taken f how =>
    have henroll (s : Symbol) : ∃ taken infos bySig, (pass.enroll c s).2 =
        { c with taken := taken, infos := infos, bySig := bySig } := by
      unfold enroll
      split
      · unfold Context.addTaken
        dsimp only
        split <;> exact ⟨_, _, _, rfl⟩
      · exact ⟨_, _, _, rfl⟩
    simp only [recordFact]
    split
    · next s _ =>
      obtain ⟨taken, infos, bySig, hs⟩ := henroll s
      obtain ⟨infos', hinfos⟩ := hupdate (pass.enroll c s).2 s.id fun fi => fi.markEscape how
      rw [recordTaken_eq]
      exact ⟨taken, infos', bySig, by rw [hinfos, hs]⟩
    · exact ⟨_, _, _, rfl⟩
  | evidence f owner field =>
    simp only [recordFact]
    split
    · obtain ⟨infos, hinfos⟩ := hupdate c _ _
      exact ⟨_, _, _, hinfos⟩
    · exact ⟨_, _, _, rfl⟩
  | published f g =>
    simp only [recordFact]
    split
    · obtain ⟨infos, hinfos⟩ := hupdate c _ _
      exact ⟨_, _, _, hinfos⟩
    · exact ⟨_, _, _, rfl⟩

def callsOf (pass : Pass) (module : Nat) : List CallSite :=
  (pass.facts module).filterMap Fact.call?

theorem site?_recordFact (pass : Pass) (module : Nat) (c : Context) (fact : Fact) (id : CallId) :
    (pass.recordFact module c fact).2.site? id =
      (c.site? id).or (fact.call?.filter fun cs => cs.id = id) := by
  cases hcall : fact.call? with
  | none =>
    obtain ⟨taken, infos, bySig, hframe⟩ := pass.recordFact_frame module c hcall
    rw [hframe]
    simp [Context.site?]
  | some cs =>
    obtain rfl := Fact.eq_call hcall
    simp only [recordFact]
    unfold Context.addCall
    by_cases hid : cs.id = id
    · subst hid
      cases hcs : c.site? cs.id with
      | none =>
        rw [Context.site?] at hcs
        simp [hcs, Context.site?, Option.filter]
      | some known =>
        have hknown := hcs
        rw [Context.site?] at hcs
        simp [hcs, hknown]
    · split <;> simp [hid, Context.site?, Option.filter]

theorem site?_recordFacts (pass : Pass) (module : Nat) (c : Context) (facts : List Fact)
    (id : CallId) :
    (pass.recordFacts module c facts).2.site? id =
      (c.site? id).or ((facts.filterMap Fact.call?).find? fun cs => cs.id = id) := by
  rw [recordFacts_eq]
  generalize false = changed
  induction facts generalizing c changed with
  | nil => simp [Context.applyAll]
  | cons fact facts ih =>
    rw [Context.applyAll, ih, site?_recordFact, Option.or_assoc]
    congr 1
    cases hcall : fact.call? with
    | none => simp [hcall]
    | some cs =>
      rw [List.filterMap_cons_some hcall, List.find?_cons]
      by_cases hid : cs.id = id <;> simp [hid, Option.filter]

theorem site?_absorb (pass : Pass) (module : Nat) (c : Context) (id : CallId) :
    (pass.absorb module c).2.site? id =
      (c.site? id).or ((pass.callsOf module).find? fun cs => cs.id = id) := by
  obtain ⟨path, m, hfile⟩ | hnot := pass.holds_or_empty module
  · obtain ⟨visible, refs, hframe⟩ := pass.registerVisible_frame path m c
    simp only [absorb, hfile, hframe]
    exact pass.site?_recordFacts module _ _ id
  · rw [absorb_of_empty hnot, callsOf, facts_of_empty hnot]
    simp

/-- The record of a call is the first that was found at its position. -/
theorem gathered_site? (pass : Pass) (config : Config) (ms : List Nat) (id : CallId) :
    (pass.gathered config ms).site? id =
      (ms.flatMap pass.callsOf).find? fun cs => cs.id = id := by
  have hvisit (c : Context) : (Driver.visit pass.absorb ms c).site? id =
      (c.site? id).or ((ms.flatMap pass.callsOf).find? fun cs => cs.id = id) := by
    induction ms generalizing c with
    | nil => simp
    | cons i ms ih =>
      rw [Driver.visit_cons, ih, site?_absorb, Option.or_assoc, List.flatMap_cons,
        List.find?_append]
  rw [gathered, hvisit]
  rfl

/-- A recorded call is an indirect call of the module, recorded as it stands there. -/
theorem callsOf_siteOf {pass : Pass} {module : Nat} {cs : CallSite}
    (h : cs ∈ pass.callsOf module) :
    ∃ path m f id i c t memory, pass.Holds module path m ∧
      .inst f id i ∈ (pass.scanner module path m).steps ∧ i.op = .call c ∧
      cs = (pass.scanner module path m).siteOf f id c t memory := by
  obtain ⟨fact, hfact, hcall⟩ := List.mem_filterMap.mp h
  cases fact with
  | call site =>
    cases hcall
    unfold facts at hfact
    split at hfact
    · next path m hfile =>
      obtain ⟨f, id, i, c, t, memory, hstep, hop, -, -, rfl⟩ := Scanner.call_mem_found hfact
      exact ⟨path, m, f, id, i, c, t, memory, hfile, hstep, hop, rfl⟩
    · cases hfact
  | _ => cases hcall

/-- A recorded call stands at its position in the module that has its path. -/
theorem callsOf_place {pass : Pass} {module : Nat} {cs : CallSite} (h : cs ∈ pass.callsOf module) :
    cs.id.module = module ∧ pass.Hosts module cs.module := by
  obtain ⟨path, m, f, id, i, c, t, memory, hfile, hstep, -, rfl⟩ := callsOf_siteOf h
  exact ⟨(Scanner.mem_steps_inst.mp hstep).1, m, hfile⟩

theorem callsOf_nodup {pass : Pass} {module : Nat} (h : pass.Signed module) :
    ((pass.callsOf module).map CallSite.id).Nodup := by
  unfold callsOf facts
  split
  · next path m hfile =>
    rw [Scanner.found_calls (h path m hfile)]
    exact Scanner.indirect_nodup _
  · exact .nil

theorem calls_nodup {pass : Pass} {ms : List Nat} (hms : ms.Nodup)
    (hsigned : ∀ i ∈ ms, pass.Signed i) :
    ((ms.flatMap pass.callsOf).map CallSite.id).Nodup := by
  rw [List.map_flatMap, List.nodup_flatMap]
  refine ⟨fun i hi => callsOf_nodup (hsigned i hi), hms.imp ?_⟩
  intro i j hij id hi hj
  obtain ⟨cs, hcs, rfl⟩ := List.mem_map.mp hi
  obtain ⟨cs', hcs', heq⟩ := List.mem_map.mp hj
  apply hij
  rw [← (callsOf_place hcs).1, ← (callsOf_place hcs').1, heq]

theorem find?_eq_some_iff_mem {l : List CallSite} (h : (l.map CallSite.id).Nodup) {id : CallId}
    {cs : CallSite} : (l.find? fun a => a.id = id) = some cs ↔ cs ∈ l ∧ cs.id = id := by
  constructor
  · intro hfind
    exact ⟨List.mem_of_find?_eq_some hfind, by simpa using List.find?_some hfind⟩
  · rintro ⟨hmem, rfl⟩
    cases hfind : l.find? fun a => a.id = cs.id with
    | none => simpa using List.find?_eq_none.mp hfind cs hmem
    | some cs' =>
      have hid : cs'.id = cs.id := by simpa using List.find?_some hfind
      rw [List.inj_on_of_nodup_map h (List.mem_of_find?_eq_some hfind) hmem hid]

theorem gathered_site?_iff {pass : Pass} (config : Config) {ms : List Nat} (hms : ms.Nodup)
    (hsigned : ∀ i ∈ ms, pass.Signed i) {id : CallId} {cs : CallSite} :
    (pass.gathered config ms).site? id = some cs ↔
      (∃ i ∈ ms, cs ∈ pass.callsOf i) ∧ cs.id = id := by
  rw [gathered_site?, find?_eq_some_iff_mem (calls_nodup hms hsigned), List.mem_flatMap]

/-- As long as it was not matched, a call has no targets. -/
theorem gathered_unmatched (pass : Pass) (config : Config) (ms : List Nat) {id : CallId}
    {cs : CallSite} (h : (pass.gathered config ms).site? id = some cs) : cs.callees = [] := by
  rw [gathered_site?] at h
  obtain ⟨i, -, hcs⟩ := List.mem_flatMap.mp (List.mem_of_find?_eq_some h)
  obtain ⟨path, m, f, id, inst, c, t, memory, -, -, -, rfl⟩ := callsOf_siteOf hcs
  rfl

theorem gathered_placed (pass : Pass) (config : Config) (ms : List Nat) {id : CallId}
    {cs : CallSite} (h : (pass.gathered config ms).site? id = some cs) :
    ∃ i ∈ ms, pass.Hosts i cs.module := by
  rw [gathered_site?] at h
  obtain ⟨i, hi, hcs⟩ := List.mem_flatMap.mp (List.mem_of_find?_eq_some h)
  exact ⟨i, hi, (callsOf_place hcs).2⟩

/-! ### Visibility -/

theorem recordFacts_visibility (pass : Pass) (module : Nat) (c : Context) (facts : List Fact) :
    (pass.recordFacts module c facts).2.visible = c.visible ∧
      (pass.recordFacts module c facts).2.refs = c.refs := by
  rw [recordFacts_eq]
  refine Context.applyAll_keeps (P := fun c' => c'.visible = c.visible ∧ c'.refs = c.refs) ?_ _
    ⟨rfl, rfl⟩
  rintro fact - c' ⟨hvisible, hrefs⟩
  rw [← hvisible, ← hrefs]
  cases hcall : fact.call? with
  | none =>
    obtain ⟨taken, infos, bySig, hframe⟩ := pass.recordFact_frame module c' hcall
    rw [hframe]
    exact ⟨rfl, rfl⟩
  | some cs =>
    obtain rfl := Fact.eq_call hcall
    simp only [recordFact]
    unfold Context.addCall
    split <;> exact ⟨rfl, rfl⟩

theorem mem_visible_markVisible (c : Context) (s s' : Signature) :
    s ∈ (c.markVisible s').2.visible ↔ s ∈ c.visible ∨ s = s' := by
  unfold Context.markVisible
  split
  · next h =>
    constructor
    · exact .inl
    · rintro (hs | rfl)
      · exact hs
      · exact h
  · simp

theorem references_markReferenced (c : Context) (path g module global : ByteString) :
    (c.markReferenced path g).2.references module global = true ↔
      c.references module global = true ∨ module = path ∧ global = g := by
  unfold Context.markReferenced
  split
  · next h =>
    constructor
    · exact .inl
    · rintro (h' | ⟨rfl, rfl⟩)
      · exact h'
      · exact h
  · rw [Context.references_eq, Context.references_eq, Assoc.get?_alter]
    by_cases hm : path = module
    · subst hm
      simp
    · simp [hm, Ne.symm hm]

theorem mem_visible_registerVisible (pass : Pass) (path : ByteString) (m : Module) (c : Context)
    (s : Signature) :
    s ∈ (pass.registerVisible path m c).2.visible ↔
      s ∈ c.visible ∨ ∃ st ∈ m.structTypes, pass.mark path m st = s := by
  rw [registerVisible_eq]
  have hglobals (globals : List ByteString) (changed : Bool) (c : Context) :
      (Context.applyAll (fun c g => c.markReferenced path g) globals changed c).2.visible =
        c.visible := by
    refine Context.applyAll_keeps (P := fun c' => c'.visible = c.visible) ?_ _ rfl
    intro g _ c' hc'
    rw [← hc']
    unfold Context.markReferenced
    split <;> rfl
  have htypes (changed : Bool) (c : Context) :
      s ∈ (Context.applyAll (fun c st => c.markVisible (pass.mark path m st)) m.structTypes changed
        c).2.visible ↔ s ∈ c.visible ∨ ∃ st ∈ m.structTypes, pass.mark path m st = s := by
    generalize m.structTypes = types
    induction types generalizing changed c with
    | nil => simp [Context.applyAll]
    | cons st types ih =>
      rw [Context.applyAll, ih, mem_visible_markVisible]
      simp [or_assoc, eq_comm]
  dsimp only
  rw [hglobals, htypes]

theorem references_registerVisible (pass : Pass) (path : ByteString) (m : Module) (c : Context)
    (module global : ByteString) :
    (pass.registerVisible path m c).2.references module global = true ↔
      c.references module global = true ∨ module = path ∧ global ∈ m.exportedGlobals := by
  rw [registerVisible_eq]
  have htypes (types : List StructTy) (changed : Bool) (c : Context) :
      (Context.applyAll (fun c st => c.markVisible (pass.mark path m st)) types changed c).2.refs =
        c.refs := by
    refine Context.applyAll_keeps (P := fun c' => c'.refs = c.refs) ?_ _ rfl
    intro st _ c' hc'
    rw [← hc']
    unfold Context.markVisible
    split <;> rfl
  have hrefs (changed : Bool) (c : Context) : (Context.applyAll (fun c g => c.markReferenced path g)
      m.exportedGlobals changed c).2.references module global = true ↔
        c.references module global = true ∨ module = path ∧ global ∈ m.exportedGlobals := by
    generalize m.exportedGlobals = globals
    induction globals generalizing changed c with
    | nil => simp [Context.applyAll]
    | cons g globals ih =>
      rw [Context.applyAll, ih, references_markReferenced, List.mem_cons]
      tauto
  dsimp only
  rw [hrefs, Context.references_eq, Context.references_eq, htypes]

def Marks (pass : Pass) (module : Nat) (s : Signature) : Prop :=
  ∃ path m, pass.Holds module path m ∧ ∃ st ∈ m.structTypes, pass.mark path m st = s

def Refers (pass : Pass) (module : Nat) (path global : ByteString) : Prop :=
  ∃ m, pass.Holds module path m ∧ global ∈ m.exportedGlobals

theorem Holds.marks_iff {pass : Pass} {module : Nat} {path : ByteString} {m : Module}
    (hfile : pass.Holds module path m) {s : Signature} :
    pass.Marks module s ↔ ∃ st ∈ m.structTypes, pass.mark path m st = s := by
  constructor
  · rintro ⟨path', m', hfile', hst⟩
    obtain ⟨rfl, rfl⟩ := hfile.file_eq hfile'
    exact hst
  · intro hst
    exact ⟨path, m, hfile, hst⟩

theorem not_marks_of_empty {pass : Pass} {module : Nat}
    (h : ∀ path m, ¬ pass.Holds module path m) {s : Signature} : ¬ pass.Marks module s := by
  rintro ⟨path, m, hfile, -⟩
  exact h path m hfile

theorem mem_visible_absorb (pass : Pass) (module : Nat) (c : Context) (s : Signature) :
    s ∈ (pass.absorb module c).2.visible ↔ s ∈ c.visible ∨ pass.Marks module s := by
  obtain ⟨path, m, hfile⟩ | hnot := pass.holds_or_empty module
  · simp only [absorb, hfile, recordFacts_visibility, mem_visible_registerVisible,
      hfile.marks_iff]
  · simp [absorb_of_empty hnot, not_marks_of_empty hnot]

theorem references_absorb (pass : Pass) (module : Nat) (c : Context) (path global : ByteString) :
    (pass.absorb module c).2.references path global = true ↔
      c.references path global = true ∨ pass.Refers module path global := by
  obtain ⟨path', m, hfile⟩ | hnot := pass.holds_or_empty module
  · have hrefers : pass.Refers module path global ↔
        path = path' ∧ global ∈ m.exportedGlobals := by
      constructor
      · rintro ⟨m', hfile', hg⟩
        obtain ⟨rfl, rfl⟩ := hfile.file_eq hfile'
        exact ⟨rfl, hg⟩
      · rintro ⟨rfl, hg⟩
        exact ⟨m, hfile, hg⟩
    have hrefs := (pass.recordFacts_visibility module (pass.registerVisible path' m c).2
      (pass.facts module)).2
    simp only [absorb, hfile]
    rw [Context.references_eq, hrefs, ← Context.references_eq, references_registerVisible, hrefers]
  · rw [absorb_of_empty hnot]
    have hrefers : ¬ pass.Refers module path global := by
      rintro ⟨m, hfile, -⟩
      exact hnot path m hfile
    simp [hrefers]

theorem visit_absorb_iff {pass : Pass} {P : Context → Prop} {Q : Nat → Prop}
    (h : ∀ i c, P (pass.absorb i c).2 ↔ P c ∨ Q i) (ms : List Nat) (c : Context) :
    P (Driver.visit pass.absorb ms c) ↔ P c ∨ ∃ i ∈ ms, Q i := by
  induction ms generalizing c with
  | nil => simp
  | cons i ms ih =>
    rw [Driver.visit_cons, ih, h]
    simp [or_assoc]

theorem gathered_visible (pass : Pass) (config : Config) (ms : List Nat) (s : Signature) :
    s ∈ (pass.gathered config ms).visible ↔ ∃ i ∈ ms, pass.Marks i s := by
  have hnone : s ∉ (Context.start config pass.program.symbols).visible := List.not_mem_nil
  rw [gathered, visit_absorb_iff (P := fun c => s ∈ c.visible)
    (fun i c => pass.mem_visible_absorb i c s)]
  simp [hnone]

theorem gathered_references (pass : Pass) (config : Config) (ms : List Nat)
    (path global : ByteString) :
    (pass.gathered config ms).references path global = true ↔
      ∃ i ∈ ms, pass.Refers i path global := by
  have hnone : (Context.start config pass.program.symbols).references path global = false := rfl
  rw [gathered, visit_absorb_iff (P := fun c => c.references path global = true)
    (fun i c => pass.references_absorb i c path global)]
  simp [hnone]

end Pass
end CallTargets
