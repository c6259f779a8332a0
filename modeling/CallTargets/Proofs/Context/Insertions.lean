import CallTargets.Proofs.Context.Indexes
import CallTargets.Proofs.Sorting

/-!
# Functions and calls are entered once

A context is filled with functions whose address is taken and with calls, in any order and as often
as may be. The first record of each function and of each call counts. What is listed, what is looked
up and what is grouped by signature or by module are the same records in the same order, and a
record that comes too late changes nothing.
-/
namespace CallTargets

/-! ### Catalogues of the records that were entered -/

/-- A catalogue that lists the first record of each key, out of all that were entered. -/
structure Catalogue.Lists {κ α γ : Type} [DecidableEq κ] [DecidableEq γ] (key : α → κ)
    (group : α → γ) (entered : List α) (order : List κ) (records : Assoc κ α)
    (index : Assoc γ (List κ)) : Prop extends Catalogue key group order records index where
  order_eq : order = (entered.map key).eraseDups
  get?_eq : ∀ k, records.get? k = entered.find? fun a => key a = k

namespace Catalogue

variable {κ α γ : Type} [DecidableEq κ] [DecidableEq γ] {key : α → κ} {group : α → γ}
  {entered : List α} {order : List κ} {records : Assoc κ α} {index : Assoc γ (List κ)}

theorem Lists.empty (key : α → κ) (group : α → γ) : Lists key group [] [] [] [] where
  toCatalogue := .empty key group
  order_eq := by simp
  get?_eq k := by simp [Assoc.get?]

theorem Lists.mem_keys (h : Lists key group entered order records index) {k : κ} :
    k ∈ entered.map key ↔ ∃ a, records.get? k = some a := by
  rw [← h.mem_order, h.order_eq]
  simp

theorem Lists.known (h : Lists key group entered order records index) {a b : α}
    (hknown : records.get? (key a) = some b) :
    Lists key group (entered ++ [a]) order records index where
  toCatalogue := h.toCatalogue
  order_eq := by
    have hmem : key a ∈ entered.map key := h.mem_keys.mpr ⟨b, hknown⟩
    rw [List.map_append, List.map_singleton, eraseDups_concat, if_pos hmem, h.order_eq]
  get?_eq k := by
    rw [List.find?_append, ← h.get?_eq k]
    by_cases hk : key a = k
    · simp [← hk, hknown]
    · simp [hk]

theorem Lists.new (h : Lists key group entered order records index) {a : α}
    (hnew : records.get? (key a) = none) :
    Lists key group (entered ++ [a]) (order ++ [key a]) (records.put (key a) a)
      (index.alter (group a) fun old => old.getD [] ++ [key a]) where
  toCatalogue := h.toCatalogue.add hnew
  order_eq := by
    have hnot : key a ∉ entered.map key := by
      rw [h.mem_keys, hnew]
      simp
    rw [List.map_append, List.map_singleton, eraseDups_concat, if_neg hnot, h.order_eq]
  get?_eq k := by
    rw [List.find?_append, ← h.get?_eq k, Assoc.get?_put]
    by_cases hk : key a = k
    · simp [← hk, hnew]
    · simp [hk]

/-- The record with a new key comes behind all others. -/
theorem records_add (h : Catalogue key group order records index) {a : α}
    (hnew : records.get? (key a) = none) :
    (order ++ [key a]).filterMap (fun k => (records.put (key a) a).get? k) =
      order.filterMap (fun k => records.get? k) ++ [a] := by
  have hold : order.filterMap (fun k => (records.put (key a) a).get? k) =
      order.filterMap fun k => records.get? k := by
    apply List.filterMap_congr
    intro k hk
    apply Assoc.get?_put_of_ne
    rintro rfl
    exact h.not_mem_order hnew hk
  rw [List.filterMap_append, hold]
  simp

theorem get?_eq_some_iff (h : Catalogue key group order records index) {k : κ} {a : α} :
    records.get? k = some a ↔ a ∈ order.filterMap (fun k => records.get? k) ∧ key a = k := by
  rw [h.mem_records]
  constructor
  · intro ha
    have hk := h.key_eq k a ha
    exact ⟨hk ▸ ha, hk⟩
  · rintro ⟨ha, rfl⟩
    exact ha

theorem get?_eq_none (h : Catalogue key group order records index) {k : κ}
    (hnot : ∀ a ∈ order.filterMap (fun k => records.get? k), key a ≠ k) :
    records.get? k = none := by
  rw [Option.eq_none_iff_forall_ne_some]
  intro a ha
  obtain ⟨hlisted, hkey⟩ := h.get?_eq_some_iff.mp ha
  exact hnot a hlisted hkey

end Catalogue

/-! ### Contexts that are filled -/

inductive Insertion where
  | func (fi : FuncInfo)
  | call (cs : CallSite)

namespace Insertion

def func? : Insertion → Option FuncInfo
  | .func fi => some fi
  | .call _ => none

def call? : Insertion → Option CallSite
  | .func _ => none
  | .call cs => some cs

@[simp] theorem func?_func (fi : FuncInfo) : (func fi).func? = some fi := rfl

@[simp] theorem func?_call (cs : CallSite) : (call cs).func? = none := rfl

@[simp] theorem call?_func (fi : FuncInfo) : (func fi).call? = none := rfl

@[simp] theorem call?_call (cs : CallSite) : (call cs).call? = some cs := rfl

end Insertion

namespace Context

def insert (c : Context) : Insertion → Context
  | .func fi => (c.addTaken fi).2.2
  | .call cs => (c.addCall cs).2.2

/-- The first records of the functions and calls that were entered are on record. -/
structure Filled (c : Context) (entered : List Insertion) : Prop where
  funcs : Catalogue.Lists FuncInfo.id FuncInfo.sig (entered.filterMap Insertion.func?) c.taken
    c.infos c.bySig
  calls : Catalogue.Lists CallSite.id CallSite.module (entered.filterMap Insertion.call?) c.calls
    c.sites c.byModule

theorem start_filled (config : Config) (symbols : List Symbol) : (start config symbols).Filled [] :=
  ⟨.empty _ _, .empty _ _⟩

theorem addTaken_of_known {c : Context} {fi known : FuncInfo} (h : c.info? fi.id = some known) :
    c.addTaken fi = (false, known, c) := by
  rw [info?] at h
  simp [addTaken, h]

theorem addTaken_of_new {c : Context} {fi : FuncInfo} (h : c.info? fi.id = none) :
    c.addTaken fi = (true, fi, { c with
      taken := c.taken ++ [fi.id]
      infos := c.infos.put fi.id fi
      bySig := c.bySig.alter fi.sig fun old => old.getD [] ++ [fi.id] }) := by
  rw [info?] at h
  simp [addTaken, h]

theorem addCall_of_known {c : Context} {cs known : CallSite} (h : c.site? cs.id = some known) :
    c.addCall cs = (false, known, c) := by
  rw [site?] at h
  simp [addCall, h]

theorem addCall_of_new {c : Context} {cs : CallSite} (h : c.site? cs.id = none) :
    c.addCall cs = (true, cs, { c with
      calls := c.calls ++ [cs.id]
      sites := c.sites.put cs.id cs
      byModule := c.byModule.alter cs.module fun old => old.getD [] ++ [cs.id] }) := by
  rw [site?] at h
  simp [addCall, h]

theorem Filled.insert {c : Context} {entered : List Insertion} (h : c.Filled entered)
    (i : Insertion) : (c.insert i).Filled (entered ++ [i]) := by
  cases i with
  | func fi =>
    cases hfi : c.info? fi.id with
    | some known =>
      apply Filled.mk
      · simpa [Context.insert, addTaken_of_known hfi] using h.funcs.known hfi
      · simpa [Context.insert, addTaken_of_known hfi, List.filterMap_cons] using h.calls
    | none =>
      apply Filled.mk
      · simpa [Context.insert, addTaken_of_new hfi] using h.funcs.new hfi
      · simpa [Context.insert, addTaken_of_new hfi, List.filterMap_cons] using h.calls
  | call cs =>
    cases hcs : c.site? cs.id with
    | some known =>
      apply Filled.mk
      · simpa [Context.insert, addCall_of_known hcs, List.filterMap_cons] using h.funcs
      · simpa [Context.insert, addCall_of_known hcs] using h.calls.known hcs
    | none =>
      apply Filled.mk
      · simpa [Context.insert, addCall_of_new hcs, List.filterMap_cons] using h.funcs
      · simpa [Context.insert, addCall_of_new hcs] using h.calls.new hcs

def insertAll (c : Context) (entered : List Insertion) : Context :=
  entered.foldl insert c

theorem Filled.insertAll {c : Context} {before : List Insertion} (h : c.Filled before)
    (entered : List Insertion) : (c.insertAll entered).Filled (before ++ entered) := by
  induction entered generalizing c before with
  | nil => simpa [Context.insertAll] using h
  | cons i entered ih =>
    have hrest := ih (h.insert i)
    rw [List.append_assoc] at hrest
    exact hrest

theorem Filled.indexed {c : Context} {entered : List Insertion} (h : c.Filled entered) :
    c.Indexed :=
  ⟨h.funcs.toCatalogue, h.calls.toCatalogue⟩

/-- The lists, the look-ups and the groups of a context are in agreement. -/
structure Consistent (c : Context) : Prop where
  funcs_nodup : (c.addressTaken.map FuncInfo.id).Nodup
  calls_nodup : (c.callSites.map CallSite.id).Nodup
  info?_iff : ∀ f fi, c.info? f = some fi ↔ fi ∈ c.addressTaken ∧ fi.id = f
  site?_iff : ∀ i cs, c.site? i = some cs ↔ cs ∈ c.callSites ∧ cs.id = i
  funcsBySig_eq : ∀ sig, c.funcsBySig sig = c.addressTaken.filter fun fi => fi.sig = sig
  callSitesIn_eq : ∀ path, c.callSitesIn path = c.callSites.filter fun cs => cs.module = path

theorem Indexed.consistent {c : Context} (h : c.Indexed) : c.Consistent where
  funcs_nodup := h.addressTaken_nodup
  calls_nodup := h.callSites_nodup
  info?_iff _ _ := h.funcs.get?_eq_some_iff
  site?_iff _ _ := h.calls.get?_eq_some_iff
  funcsBySig_eq := h.funcsBySig_eq
  callSitesIn_eq := h.callSitesIn_eq

/-- A function that is listed is refused, and one that is not is listed at the end. -/
theorem Indexed.addTaken {c : Context} (h : c.Indexed) (fi : FuncInfo) :
    (∀ known ∈ c.addressTaken, known.id = fi.id → c.addTaken fi = (false, known, c)) ∧
      ((∀ known ∈ c.addressTaken, known.id ≠ fi.id) → ∃ next, c.addTaken fi = (true, fi, next) ∧
        next.addressTaken = c.addressTaken ++ [fi] ∧ next.callSites = c.callSites) := by
  constructor
  · intro known hknown hid
    apply addTaken_of_known
    exact h.funcs.get?_eq_some_iff.mpr ⟨hknown, hid⟩
  · intro hnot
    have hnew : c.info? fi.id = none := h.funcs.get?_eq_none hnot
    exact ⟨_, addTaken_of_new hnew, h.funcs.records_add hnew, rfl⟩

/-- A call that is listed is refused, and one that is not is listed at the end. -/
theorem Indexed.addCall {c : Context} (h : c.Indexed) (cs : CallSite) :
    (∀ known ∈ c.callSites, known.id = cs.id → c.addCall cs = (false, known, c)) ∧
      ((∀ known ∈ c.callSites, known.id ≠ cs.id) → ∃ next, c.addCall cs = (true, cs, next) ∧
        next.callSites = c.callSites ++ [cs] ∧ next.addressTaken = c.addressTaken) := by
  constructor
  · intro known hknown hid
    apply addCall_of_known
    exact h.calls.get?_eq_some_iff.mpr ⟨hknown, hid⟩
  · intro hnot
    have hnew : c.site? cs.id = none := h.calls.get?_eq_none hnot
    exact ⟨_, addCall_of_new hnew, h.calls.records_add hnew, rfl⟩

end Context

/-- After any insertions into a new context all indexes agree. They list the first record of each
function and of each call, in the order in which these came. A further record of a function or call
that is listed is refused: the context stays as it is, and the earlier record is returned. Any other
record is listed behind the others. -/
theorem insertions_indexed (config : Config) (symbols : List Symbol) (entered : List Insertion) :
    let c := (Context.start config symbols).insertAll entered
    let funcs := entered.filterMap Insertion.func?
    let calls := entered.filterMap Insertion.call?
    c.Consistent ∧
    (c.addressTaken.map FuncInfo.id = (funcs.map FuncInfo.id).eraseDups ∧
      ∀ f, c.info? f = funcs.find? fun fi => fi.id = f) ∧
    (c.callSites.map CallSite.id = (calls.map CallSite.id).eraseDups ∧
      ∀ i, c.site? i = calls.find? fun cs => cs.id = i) ∧
    (∀ fi, (∀ known ∈ c.addressTaken, known.id = fi.id → c.addTaken fi = (false, known, c)) ∧
      ((∀ known ∈ c.addressTaken, known.id ≠ fi.id) → ∃ next, c.addTaken fi = (true, fi, next) ∧
        next.addressTaken = c.addressTaken ++ [fi] ∧ next.callSites = c.callSites)) ∧
    (∀ cs, (∀ known ∈ c.callSites, known.id = cs.id → c.addCall cs = (false, known, c)) ∧
      ((∀ known ∈ c.callSites, known.id ≠ cs.id) → ∃ next, c.addCall cs = (true, cs, next) ∧
        next.callSites = c.callSites ++ [cs] ∧ next.addressTaken = c.addressTaken)) := by
  intro c funcs calls
  have hfilled : c.Filled entered := (Context.start_filled config symbols).insertAll entered
  have hindexed : c.Indexed := hfilled.indexed
  refine ⟨hindexed.consistent, ⟨?_, hfilled.funcs.get?_eq⟩, ⟨?_, hfilled.calls.get?_eq⟩,
    hindexed.addTaken, hindexed.addCall⟩
  · exact hindexed.funcs.map_key_records.trans hfilled.funcs.order_eq
  · exact hindexed.calls.map_key_records.trans hfilled.calls.order_eq

end CallTargets
