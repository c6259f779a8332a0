import CallTargets.Analysis.Context
import Mathlib.Tactic

/-!
# The state of an analysis keeps its indexes

A catalogue is a list of keys in the order of discovery, a map from keys to records, and lists of
the keys by group. Functions are catalogued by signature and calls by module. Everything that is
done to the state of an analysis is one of seven small changes, and each of them keeps both
catalogues in order. Settings and definitions are never changed, and what is visible stays visible.
-/
namespace CallTargets

/-- Records in the order of their keys, each key once, with the keys of every group listed apart in
the same order. -/
structure Catalogue {κ α γ : Type} [DecidableEq κ] [DecidableEq γ] (key : α → κ) (group : α → γ)
    (order : List κ) (records : Assoc κ α) (index : Assoc γ (List κ)) : Prop where
  nodup : order.Nodup
  key_eq : ∀ k a, records.get? k = some a → key a = k
  mem_order : ∀ k, k ∈ order ↔ ∃ a, records.get? k = some a
  index_eq : ∀ g, (index.get? g).getD [] =
    order.filter fun k => (records.get? k).any fun a => group a = g

namespace Catalogue

variable {κ α γ : Type} [DecidableEq κ] [DecidableEq γ] {key : α → κ} {group : α → γ}
  {order : List κ} {records : Assoc κ α} {index : Assoc γ (List κ)}

theorem empty (key : α → κ) (group : α → γ) : Catalogue key group [] [] [] := by
  constructor <;> simp [Assoc.get?]

theorem not_mem_order (h : Catalogue key group order records index) {k : κ}
    (new : records.get? k = none) : k ∉ order := by
  rw [h.mem_order]
  rintro ⟨a, ha⟩
  rw [new] at ha
  cases ha

/-- A record with a new key is put at the end of the order and of its group. -/
theorem add (h : Catalogue key group order records index) {a : α}
    (new : records.get? (key a) = none) :
    Catalogue key group (order ++ [key a]) (records.put (key a) a)
      (index.alter (group a) fun old => old.getD [] ++ [key a]) where
  nodup := by
    rw [List.nodup_append]
    refine ⟨h.nodup, by simp, ?_⟩
    rintro k hk b hb rfl
    rw [List.mem_singleton] at hb
    exact h.not_mem_order new (hb ▸ hk)
  key_eq k b hb := by
    rw [Assoc.get?_put] at hb
    split at hb
    · next heq =>
      cases hb
      exact heq
    · exact h.key_eq k b hb
  mem_order k := by
    rw [List.mem_append, List.mem_singleton, Assoc.get?_put]
    by_cases hk : key a = k
    · simp [hk]
    · simpa [hk, Ne.symm hk] using h.mem_order k
  index_eq g := by
    have hsame : (order.filter fun k =>
        ((records.put (key a) a).get? k).any fun b => group b = g) =
        order.filter fun k => (records.get? k).any fun b => group b = g := by
      apply List.filter_congr
      intro k hk
      have hne : key a ≠ k := by
        rintro rfl
        exact h.not_mem_order new hk
      rw [Assoc.get?_put, if_neg hne]
    rw [Assoc.get?_alter, List.filter_append, hsame, ← h.index_eq g]
    by_cases hg : group a = g
    · simp [hg]
    · simp [hg]

/-- A record gives way to another of the same key and group. -/
theorem replace (h : Catalogue key group order records index) {a b : α}
    (known : records.get? (key a) = some a) (hkey : key b = key a) (hgroup : group b = group a) :
    Catalogue key group order (records.put (key a) b) index where
  nodup := h.nodup
  key_eq k c hc := by
    rw [Assoc.get?_put] at hc
    split at hc
    · next heq =>
      cases hc
      rw [hkey, heq]
    · exact h.key_eq k c hc
  mem_order k := by
    rw [h.mem_order k, Assoc.get?_put]
    by_cases hk : key a = k
    · subst hk
      simp [known]
    · simp [hk]
  index_eq g := by
    rw [h.index_eq g]
    apply List.filter_congr
    intro k _
    rw [Assoc.get?_put]
    by_cases hk : key a = k
    · subst hk
      simp [known, hgroup]
    · simp [hk]

theorem mem_records (h : Catalogue key group order records index) {a : α} :
    a ∈ order.filterMap (fun k => records.get? k) ↔ records.get? (key a) = some a := by
  rw [List.mem_filterMap]
  constructor
  · rintro ⟨k, -, hk⟩
    rw [h.key_eq k a hk]
    exact hk
  · intro ha
    exact ⟨key a, (h.mem_order (key a)).mpr ⟨a, ha⟩, ha⟩

theorem map_key_records (h : Catalogue key group order records index) :
    (order.filterMap fun k => records.get? k).map key = order := by
  have hall : ∀ k ∈ order, (records.get? k).map key = some k := by
    intro k hk
    obtain ⟨a, ha⟩ := (h.mem_order k).mp hk
    rw [ha, Option.map_some, h.key_eq k a ha]
  rw [List.map_filterMap]
  conv_rhs => rw [← List.filterMap_some (l := order)]
  exact List.filterMap_congr hall

theorem records_nodup (h : Catalogue key group order records index) :
    ((order.filterMap fun k => records.get? k).map key).Nodup := by
  rw [h.map_key_records]
  exact h.nodup

/-- The records of a group are those records of the whole order that belong to it. -/
theorem group_eq (h : Catalogue key group order records index) (g : γ) :
    ((index.get? g).getD []).filterMap (fun k => records.get? k) =
      (order.filterMap fun k => records.get? k).filter fun a => group a = g := by
  rw [h.index_eq g, List.filterMap_filter, List.filter_filterMap]
  apply List.filterMap_congr
  intro k _
  cases records.get? k with
  | none => simp
  | some a => by_cases hg : group a = g <;> simp [hg, Option.filter]

end Catalogue

/-- Two records of one function, which may differ in what was found out about it. -/
structure FuncInfo.SameFunc (fi fi' : FuncInfo) : Prop where
  id : fi'.id = fi.id
  name : fi'.name = fi.name
  module : fi'.module = fi.module
  sig : fi'.sig = fi.sig
  isLocal : fi'.isLocal = fi.isLocal

namespace FuncInfo.SameFunc

theorem refl (fi : FuncInfo) : fi.SameFunc fi := ⟨rfl, rfl, rfl, rfl, rfl⟩

theorem trans {a b c : FuncInfo} (hab : a.SameFunc b) (hbc : b.SameFunc c) : a.SameFunc c where
  id := hbc.id.trans hab.id
  name := hbc.name.trans hab.name
  module := hbc.module.trans hab.module
  sig := hbc.sig.trans hab.sig
  isLocal := hbc.isLocal.trans hab.isLocal

theorem target_eq {fi fi' : FuncInfo} (h : fi.SameFunc fi') : fi'.target = fi.target := by
  rw [target, target, h.id, h.name, h.module]

end FuncInfo.SameFunc

namespace Context

inductive Step : Context → Context → Prop where
  | taken (c : Context) (fi : FuncInfo) (new : c.infos.get? fi.id = none) :
      Step c { c with
        taken := c.taken ++ [fi.id]
        infos := c.infos.put fi.id fi
        bySig := c.bySig.alter fi.sig fun old => old.getD [] ++ [fi.id] }
  | info (c : Context) (f : FuncId) (fi fi' : FuncInfo) (known : c.infos.get? f = some fi)
      (same : fi.SameFunc fi') : Step c { c with infos := c.infos.put f fi' }
  | call (c : Context) (cs : CallSite) (new : c.sites.get? cs.id = none) :
      Step c { c with
        calls := c.calls ++ [cs.id]
        sites := c.sites.put cs.id cs
        byModule := c.byModule.alter cs.module fun old => old.getD [] ++ [cs.id] }
  | site (c : Context) (cs cs' : CallSite) (known : c.sites.get? cs.id = some cs)
      (id : cs'.id = cs.id) (module : cs'.module = cs.module) :
      Step c { c with sites := c.sites.put cs.id cs' }
  | visible (c : Context) (salted : Signature) : Step c { c with visible := c.visible ++ [salted] }
  | refs (c : Context) (module global : ByteString) :
      Step c { c with refs := c.refs.alter module fun old => old.getD [] ++ [global] }
  | stats (c : Context) (s : Stats) : Step c { c with stats := s }

abbrev Steps : Context → Context → Prop := Relation.ReflTransGen Step

/-! ### The operations are steps -/

theorem addTaken_steps (c : Context) (fi : FuncInfo) : Steps c (c.addTaken fi).2.2 := by
  unfold addTaken
  split
  · exact .refl
  · next h => exact .single (.taken c fi h)

theorem updateInfo_steps (c : Context) (f : FuncId) {g : FuncInfo → Bool × FuncInfo}
    (hg : ∀ fi : FuncInfo, fi.SameFunc (g fi).2) : Steps c (c.updateInfo f g).2 := by
  unfold updateInfo
  split
  · exact .refl
  · next fi h => exact .single (.info c f fi _ h (hg fi))

theorem addCall_steps (c : Context) (cs : CallSite) : Steps c (c.addCall cs).2.2 := by
  unfold addCall
  split
  · exact .refl
  · next h => exact .single (.call c cs h)

theorem markVisible_steps (c : Context) (salted : Signature) :
    Steps c (c.markVisible salted).2 := by
  unfold markVisible
  split
  · exact .refl
  · exact .single (.visible c salted)

theorem markReferenced_steps (c : Context) (module global : ByteString) :
    Steps c (c.markReferenced module global).2 := by
  unfold markReferenced
  split
  · exact .refl
  · exact .single (.refs c module global)

/-! ### What steps keep -/

theorem Steps.config_eq {c c' : Context} (h : Steps c c') : c'.config = c.config := by
  induction h with
  | refl => rfl
  | tail _ h ih => cases h <;> exact ih

theorem Steps.defs_eq {c c' : Context} (h : Steps c c') : c'.defs = c.defs := by
  induction h with
  | refl => rfl
  | tail _ h ih => cases h <;> exact ih

theorem Steps.visible_subset {c c' : Context} (h : Steps c c') : c.visible ⊆ c'.visible := by
  induction h with
  | refl => exact fun _ hs => hs
  | tail _ h ih =>
    cases h with
    | visible salted => exact fun s hs => List.mem_append_left _ (ih hs)
    | _ => exact ih

theorem references_eq (c : Context) (module global : ByteString) :
    c.references module global = true ↔ global ∈ (c.refs.get? module).getD [] := by
  simp [references]

theorem Steps.references {c c' : Context} (h : Steps c c') {module global : ByteString}
    (hr : c.references module global = true) : c'.references module global = true := by
  induction h with
  | refl => exact hr
  | tail _ h ih =>
    cases h with
    | refs m g =>
      rw [references_eq] at ih ⊢
      rw [Assoc.get?_alter]
      by_cases hm : m = module
      · subst hm
        simp only [if_true, Option.getD_some]
        exact List.mem_append_left _ ih
      · simpa [hm] using ih
    | _ => exact ih

/-! ### Indexes in order -/

/-- The functions whose address is taken and the calls are catalogued. -/
structure Indexed (c : Context) : Prop where
  funcs : Catalogue FuncInfo.id FuncInfo.sig c.taken c.infos c.bySig
  calls : Catalogue CallSite.id CallSite.module c.calls c.sites c.byModule

theorem start_indexed (config : Config) (symbols : List Symbol) :
    (start config symbols).Indexed :=
  ⟨.empty _ _, .empty _ _⟩

theorem Step.indexed {c c' : Context} (h : Step c c') (hc : c.Indexed) : c'.Indexed := by
  cases h with
  | taken fi new => exact ⟨hc.funcs.add new, hc.calls⟩
  | info f fi fi' known same =>
    have hf := hc.funcs.key_eq f fi known
    subst hf
    exact ⟨hc.funcs.replace known same.id same.sig, hc.calls⟩
  | call cs new => exact ⟨hc.funcs, hc.calls.add new⟩
  | site cs cs' known id module => exact ⟨hc.funcs, hc.calls.replace known id module⟩
  | visible | refs | stats => exact ⟨hc.funcs, hc.calls⟩

theorem Steps.indexed {c c' : Context} (h : Steps c c') (hc : c.Indexed) : c'.Indexed := by
  induction h with
  | refl => exact hc
  | tail _ h ih => exact h.indexed ih

theorem Indexed.mem_addressTaken {c : Context} (h : c.Indexed) {fi : FuncInfo} :
    fi ∈ c.addressTaken ↔ c.info? fi.id = some fi :=
  h.funcs.mem_records

theorem Indexed.funcsBySig_eq {c : Context} (h : c.Indexed) (sig : Signature) :
    c.funcsBySig sig = c.addressTaken.filter fun fi => fi.sig = sig :=
  h.funcs.group_eq sig

theorem Indexed.addressTaken_nodup {c : Context} (h : c.Indexed) :
    (c.addressTaken.map FuncInfo.id).Nodup :=
  h.funcs.records_nodup

theorem Indexed.mem_callSites {c : Context} (h : c.Indexed) {cs : CallSite} :
    cs ∈ c.callSites ↔ c.site? cs.id = some cs :=
  h.calls.mem_records

theorem Indexed.callSitesIn_eq {c : Context} (h : c.Indexed) (module : ByteString) :
    c.callSitesIn module = c.callSites.filter fun cs => cs.module = module :=
  h.calls.group_eq module

theorem Indexed.mem_callSitesIn {c : Context} (h : c.Indexed) {module : ByteString}
    {cs : CallSite} :
    cs ∈ c.callSitesIn module ↔ c.site? cs.id = some cs ∧ cs.module = module := by
  rw [h.callSitesIn_eq, List.mem_filter, h.mem_callSites, decide_eq_true_eq]

theorem Indexed.callSites_nodup {c : Context} (h : c.Indexed) :
    (c.callSites.map CallSite.id).Nodup :=
  h.calls.records_nodup

end Context
end CallTargets
