import CallTargets.Proofs.Discovery.Reordering
import Mathlib.Data.List.Basic

/-!
# The function that stands for another

The functions of a program are entered one after another, and a body is given up only for one that
cannot be replaced. So a name stands for its first strong body, or else for its first body at all:
two searches through the program in place of one pass that overwrites. A declaration and a body that
can be replaced are references to what their name stands for; all other functions stand for
themselves.
-/
namespace CallTargets

open IR

/-! ### Bodies of a name -/

namespace Symbol

def bodyOf (name : ByteString) (s : Symbol) : Bool := s.isDefinition && s.name == name

def strongBodyOf (name : ByteString) (s : Symbol) : Bool := s.bodyOf name && !s.isDiscardable

def spareBodyOf (name : ByteString) (s : Symbol) : Bool := s.bodyOf name && s.isDiscardable

/-- A declaration or a replaceable body, by which a module refers to a name of the program. -/
def isReference (s : Symbol) : Bool := !s.isLocal && !s.isStrong

theorem not_isReference {s : Symbol} : s.isReference = false ↔ s.isLocal ∨ s.isStrong := by
  simp only [isReference, Bool.and_eq_false_iff, Bool.not_eq_false']

end Symbol

namespace Context

/-- What a name stands for after one more function is entered. -/
theorem get?_enter_eq (defs : Assoc ByteString Symbol) (a : Symbol) (name : ByteString) :
    (enter defs a).get? name =
      if a.bodyOf name then
        ((defs.get? name).filter fun s => !s.isDiscardable).or
          (if a.isDiscardable then (defs.get? name).or (some a) else some a)
      else defs.get? name := by
  by_cases hdef : a.isDefinition = true
  · obtain ⟨hbody, hlocal⟩ : a.hasBody = true ∧ a.isLocal = false := by
      simpa [Symbol.isDefinition] using hdef
    by_cases hname : a.name = name
    · subst hname
      cases hknown : defs.get? a.name with
      | none => simp [enter, Symbol.bodyOf, hbody, hlocal, hdef, hknown]
      | some known =>
        cases hold : known.isDiscardable <;> cases hnew : a.isDiscardable <;>
          simp [enter, Symbol.bodyOf, Option.filter_some, hbody, hlocal, hdef, hknown, hold, hnew]
    · have hother : a.bodyOf name = false := by simp [Symbol.bodyOf, hname]
      have hkeep : (defs.put a.name a).get? name = defs.get? name := Assoc.get?_put_of_ne hname _ _
      simp only [enter, hbody, hlocal, hother, Bool.not_true, Bool.or_self, Bool.false_eq_true,
        if_false]
      split
      · exact hkeep
      · split
        · exact hkeep
        · rfl
  · have hskip : (!a.hasBody || a.isLocal) = true := by
      simpa [Symbol.isDefinition, ← Bool.not_eq_true, imp_iff_not_or] using hdef
    simp [enter, hskip, Symbol.bodyOf, hdef]

/-- After any number of functions: a strong body that was known stays, else the first strong one
comes in, else what was known stays, else the first body comes in. -/
theorem get?_foldl_enter_eq (symbols : List Symbol) (defs : Assoc ByteString Symbol)
    (name : ByteString) :
    (symbols.foldl enter defs).get? name =
      ((defs.get? name).filter fun s => !s.isDiscardable).or
        ((symbols.find? (Symbol.strongBodyOf name)).or
          ((defs.get? name).or (symbols.find? (Symbol.bodyOf name)))) := by
  induction symbols generalizing defs with
  | nil =>
    cases h : defs.get? name with
    | none => simp [h]
    | some known => cases hold : known.isDiscardable <;> simp [h, hold, Option.filter_some]
  | cons a symbols ih =>
    rw [List.foldl_cons, ih, get?_enter_eq, List.find?_cons, List.find?_cons]
    cases hbody : a.bodyOf name with
    | false => simp [Symbol.strongBodyOf, hbody]
    | true =>
      cases hspare : a.isDiscardable <;> cases hknown : defs.get? name with
      | none => simp [Symbol.strongBodyOf, Option.filter_some, hbody, hspare]
      | some known =>
        cases hold : known.isDiscardable <;>
          simp [Symbol.strongBodyOf, Option.filter_some, hbody, hspare, hold]

end Context

/-! ### The first function of a kind -/

/-- A function stands before another one: in an earlier module, or earlier in the same text. -/
def FuncId.Before (a b : FuncId) : Prop :=
  a.module < b.module ∨ a.module = b.module ∧ a.index < b.index

namespace Program

variable {p : Program} {name : ByteString}

structure IsFirst (p : Program) (P : Symbol → Bool) (s : Symbol) : Prop where
  mem : s ∈ p.symbols
  holds : P s
  first : ∀ t ∈ p.symbols, P t → t = s ∨ s.id.Before t.id

theorem pairwise_zipIdx {α : Type} (l : List α) :
    l.zipIdx.Pairwise fun a b => a.2 < b.2 := by
  rw [← List.pairwise_map (f := Prod.snd), List.zipIdx_map_snd]
  exact List.pairwise_lt_range'

/-- The functions of a program are listed module by module and in the order of the text. -/
theorem symbols_ordered (p : Program) : p.symbols.Pairwise fun s t => s.id.Before t.id := by
  have hmodule {i : Nat} {file : ModuleFile} {s : Symbol} (hs : s ∈ moduleSymbols i file) :
      s.id.module = i := by
    unfold moduleSymbols at hs
    split at hs
    · obtain ⟨x, -, rfl⟩ := List.mem_map.mp hs
      rfl
    · cases hs
  refine List.pairwise_flatMap.mpr ⟨?_, ?_⟩
  · rintro ⟨file, i⟩ -
    dsimp only [moduleSymbols]
    split
    · refine List.pairwise_map.mpr ((pairwise_zipIdx _).imp ?_)
      intro a b hab
      exact .inr ⟨rfl, hab⟩
    · exact .nil
  · refine (pairwise_zipIdx p).imp ?_
    intro a b hab s hs t ht
    exact .inl (by rw [hmodule hs, hmodule ht]; exact hab)

theorem isFirst_of_find? {P : Symbol → Bool} {s : Symbol} (h : p.symbols.find? P = some s) :
    p.IsFirst P s := by
  obtain ⟨hs, before, after, hsplit, hbefore⟩ := List.find?_eq_some_iff_append.mp h
  have hordered := p.symbols_ordered
  rw [hsplit] at hordered
  have hafter := (List.pairwise_cons.mp (List.pairwise_append.mp hordered).2.1).1
  refine ⟨List.mem_of_find?_eq_some h, hs, fun t ht hPt => ?_⟩
  rw [hsplit, List.mem_append, List.mem_cons] at ht
  rcases ht with ht | rfl | ht
  · simpa [hPt] using hbefore t ht
  · exact .inl rfl
  · exact .inr (hafter t ht)

theorem definition?_eq (p : Program) (name : ByteString) :
    p.definition? name = (p.symbols.find? (Symbol.strongBodyOf name)).or
      (p.symbols.find? (Symbol.bodyOf name)) := by
  rw [definition?, Context.get?_foldl_enter_eq]
  simp [Assoc.get?]

theorem definition?_strong (h : ∃ s ∈ p.symbols, s.strongBodyOf name) :
    ∃ s, p.definition? name = some s ∧ p.IsFirst (Symbol.strongBodyOf name) s := by
  obtain ⟨s, hs⟩ := Option.isSome_iff_exists.mp (List.find?_isSome.mpr h)
  exact ⟨s, by rw [definition?_eq, hs, Option.some_or], isFirst_of_find? hs⟩

/-- A name that has bodies, but no strong one, stands for the first of them. -/
theorem definition?_spare (hstrong : ¬ ∃ s ∈ p.symbols, s.strongBodyOf name)
    (h : ∃ s ∈ p.symbols, s.spareBodyOf name) :
    ∃ s, p.definition? name = some s ∧ p.IsFirst (Symbol.spareBodyOf name) s := by
  have hnone : p.symbols.find? (Symbol.strongBodyOf name) = none := by
    rw [List.find?_eq_none]
    exact fun s hs hbody => hstrong ⟨s, hs, hbody⟩
  -- Among these functions a body of the name is one that can be replaced.
  have hsame : p.symbols.find? (Symbol.bodyOf name) =
      p.symbols.find? (Symbol.spareBodyOf name) := by
    refine List.find?_congr fun s hs => ?_
    have hweak : s.strongBodyOf name = false := by
      simpa using fun hbody => hstrong ⟨s, hs, hbody⟩
    simp only [Symbol.strongBodyOf, Symbol.spareBodyOf] at hweak ⊢
    cases hbody : s.bodyOf name <;> simp_all
  obtain ⟨s, hs⟩ := Option.isSome_iff_exists.mp (List.find?_isSome.mpr h)
  exact ⟨s, by rw [definition?_eq, hnone, hsame, hs, Option.none_or], isFirst_of_find? hs⟩

theorem definition?_missing (h : ¬ ∃ s ∈ p.symbols, s.bodyOf name) : p.definition? name = none := by
  have hbody : p.symbols.find? (Symbol.bodyOf name) = none := by
    rw [List.find?_eq_none]
    exact fun s hs hb => h ⟨s, hs, hb⟩
  have hstrong : p.symbols.find? (Symbol.strongBodyOf name) = none := by
    rw [List.find?_eq_none]
    intro s hs hb
    exact h ⟨s, hs, (Bool.and_eq_true_iff.mp hb).1⟩
  rw [definition?_eq, hbody, hstrong, Option.none_or]

end Program

/-! ### Canonical functions -/

namespace Context

variable {p : Program} {config : Config} {s : Symbol}

theorem canonical_start (p : Program) (config : Config) (s : Symbol) :
    (start config p.symbols).canonical s =
      if s.isReference then (p.definition? s.name).getD s else s := by
  have hself : (s.isLocal || s.isStrong) = !s.isReference := by simp [Symbol.isReference]
  rw [canonical, hself]
  cases s.isReference <;> rfl

theorem canonical_of_not_reference (h : s.isReference = false) :
    (start config p.symbols).canonical s = s := by
  rw [canonical_start, h]
  rfl

theorem canonical_of_definition? {t : Symbol} (h : s.isReference)
    (ht : p.definition? s.name = some t) : (start config p.symbols).canonical s = t := by
  rw [canonical_start, h, ht]
  rfl

theorem canonical_of_missing (h : ¬ ∃ t ∈ p.symbols, t.bodyOf s.name) :
    (start config p.symbols).canonical s = s := by
  rw [canonical_start, Program.definition?_missing h]
  exact ite_self s

/-- A reference becomes what its name stands for, or stays what it is. -/
theorem canonical_cases (p : Program) (config : Config) (s : Symbol) :
    (start config p.symbols).canonical s = s ∨
      ∃ t, p.definition? s.name = some t ∧ (start config p.symbols).canonical s = t := by
  cases href : s.isReference with
  | false => exact .inl (canonical_of_not_reference href)
  | true =>
    cases ht : p.definition? s.name with
    | none => exact .inl (by rw [canonical_start, ht, href]; rfl)
    | some t => exact .inr ⟨t, rfl, canonical_of_definition? href ht⟩

theorem canonical_definition {name : ByteString} {t : Symbol} (h : p.definition? name = some t) :
    (start config p.symbols).canonical t = t := by
  cases href : t.isReference with
  | false => exact canonical_of_not_reference href
  | true =>
    rw [← (Program.definition?_sound h).2.2] at h
    exact canonical_of_definition? href h

theorem canonical_canonical (p : Program) (config : Config) (s : Symbol) :
    (start config p.symbols).canonical ((start config p.symbols).canonical s) =
      (start config p.symbols).canonical s := by
  rcases canonical_cases p config s with h | ⟨t, ht, h⟩
  · rw [h, h]
  · rw [h, canonical_definition ht]

theorem mem_canonical (hs : s ∈ p.symbols) : (start config p.symbols).canonical s ∈ p.symbols := by
  rcases canonical_cases p config s with h | ⟨t, ht, h⟩
  · rwa [h]
  · rw [h]
    exact (Program.definition?_sound ht).1

theorem canonical_name (p : Program) (config : Config) (s : Symbol) :
    ((start config p.symbols).canonical s).name = s.name := by
  rcases canonical_cases p config s with h | ⟨t, ht, h⟩
  · rw [h]
  · rw [h]
    exact (Program.definition?_sound ht).2.2

theorem canonical_isLocal (hs : s.isLocal = false) :
    ((start config p.symbols).canonical s).isLocal = false := by
  rcases canonical_cases p config s with h | ⟨t, ht, h⟩
  · rwa [h]
  · have hdef := (Program.definition?_sound ht).2.1
    rw [h]
    simp only [Symbol.isDefinition, Bool.and_eq_true, Bool.not_eq_true'] at hdef
    exact hdef.2

/-- Two references to one name become the same function if the name has a body, and otherwise only
if they are the same. -/
theorem canonical_eq_iff {t : Symbol} (hs : s.isReference) (ht : t.isReference)
    (hname : s.name = t.name) :
    (start config p.symbols).canonical s = (start config p.symbols).canonical t ↔
      s = t ∨ ∃ b ∈ p.symbols, b.bodyOf s.name := by
  by_cases hbody : ∃ b ∈ p.symbols, b.bodyOf s.name
  · obtain ⟨b, hb, hbname⟩ := hbody
    simp only [Symbol.bodyOf, Bool.and_eq_true, beq_iff_eq] at hbname
    obtain ⟨d, hd⟩ : ∃ d, p.definition? s.name = some d :=
      Option.isSome_iff_exists.mp (isSome_foldl_enter (.inr ⟨b, hb, hbname⟩))
    rw [canonical_of_definition? hs hd, canonical_of_definition? ht (hname ▸ hd)]
    simpa [Symbol.bodyOf] using .inr ⟨b, hb, hbname⟩
  · rw [canonical_of_missing hbody, canonical_of_missing (hname ▸ hbody)]
    simp only [hbody, or_false]

end Context

/-- A local function and a strong body stand for themselves. Any other function is a reference to
its name: it stands for the first strong body that other modules know under the name, in the order
of modules and then of the text, or else for the first replaceable one, or else for itself. So the
function that stands for another stands for itself, has its name and is known to other modules if
the other one is; and two references to a name agree exactly if the name has a body. -/
theorem canonical_is_first_body (p : Program) (config : Config) :
    let canonical := (Context.start config p.symbols).canonical
    (∀ s ∈ p.symbols,
      (s.isLocal ∨ s.isStrong → canonical s = s) ∧
      (s.isLocal = false → s.isStrong = false →
        ((∃ t ∈ p.symbols, t.strongBodyOf s.name) →
          p.IsFirst (Symbol.strongBodyOf s.name) (canonical s)) ∧
        ((¬ ∃ t ∈ p.symbols, t.strongBodyOf s.name) → (∃ t ∈ p.symbols, t.spareBodyOf s.name) →
          p.IsFirst (Symbol.spareBodyOf s.name) (canonical s)) ∧
        ((¬ ∃ t ∈ p.symbols, t.bodyOf s.name) → canonical s = s)) ∧
      canonical s ∈ p.symbols ∧ canonical (canonical s) = canonical s ∧
      (canonical s).name = s.name ∧ (s.isLocal = false → (canonical s).isLocal = false)) ∧
    ∀ s ∈ p.symbols, ∀ t ∈ p.symbols, s.isReference → t.isReference → s.name = t.name →
      (canonical s = canonical t ↔ s = t ∨ ∃ b ∈ p.symbols, b.bodyOf s.name) := by
  intro canonical
  refine ⟨fun s hs => ⟨fun hself => ?_, fun hlocal hstrong => ⟨fun hbody => ?_, ?_, ?_⟩, ?_⟩, ?_⟩
  · exact Context.canonical_of_not_reference (Symbol.not_isReference.mpr hself)
  · have href : s.isReference = true := by simp [Symbol.isReference, hlocal, hstrong]
    obtain ⟨t, ht, hfirst⟩ := Program.definition?_strong hbody
    have hcanonical : canonical s = t := Context.canonical_of_definition? href ht
    rwa [hcanonical]
  · intro hnone hbody
    have href : s.isReference = true := by simp [Symbol.isReference, hlocal, hstrong]
    obtain ⟨t, ht, hfirst⟩ := Program.definition?_spare hnone hbody
    have hcanonical : canonical s = t := Context.canonical_of_definition? href ht
    rwa [hcanonical]
  · exact Context.canonical_of_missing
  · exact ⟨Context.mem_canonical hs, Context.canonical_canonical p config s,
      Context.canonical_name p config s, Context.canonical_isLocal⟩
  · intro s _ t _ hs ht hname
    exact Context.canonical_eq_iff hs ht hname

namespace Copies

def func (name : String) (linkage : Linkage) (hasBody : Bool) : Func where
  ident := .named name
  linkage := linkage
  space := 0
  ret := .void
  params := []
  variadic := false
  blocks := if hasBody then [⟨[], .ret none⟩] else []
  attachments := []

/-- A static function hides between references to a name, whose strong body comes last but one. -/
def program : Program := [
  ⟨"user", some { Module.empty with
    funcs := [func "put" .unspecified false, func "log" .unspecified false] }⟩,
  ⟨"static", some { Module.empty with
    funcs := [func "get" .weakODR true, func "put" .internalOnly true] }⟩,
  ⟨"missing", none⟩,
  ⟨"inline", some { Module.empty with
    funcs := [func "put" .linkOnce true, func "get" .linkOnceODR true] }⟩,
  ⟨"strong", some { Module.empty with
    funcs := [func "log" .externWeak false, func "put" .unspecified true] }⟩,
  ⟨"twin", some { Module.empty with funcs := [func "put" .external true] }⟩]

def place (module index : Nat) : Symbol := (program.symbol? ⟨module, index⟩).getD default

end Copies

/-- The declaration and the inline copy of `put` stand for the strong body, the second copy of `get`
for the first one, and the two declarations of `log` each for itself. -/
theorem canonical_is_first_body_copies :
    let canonical := (Context.start .standard Copies.program.symbols).canonical
    Copies.program.IsFirst (Symbol.strongBodyOf "put") (canonical (Copies.place 0 0)) ∧
      Copies.program.IsFirst (Symbol.spareBodyOf "get") (canonical (Copies.place 3 1)) ∧
      canonical (Copies.place 0 0) = canonical (Copies.place 3 0) ∧
      canonical (Copies.place 1 1) = Copies.place 1 1 ∧
      canonical (Copies.place 0 1) ≠ canonical (Copies.place 4 0) := by
  obtain ⟨hone, htwo⟩ := canonical_is_first_body Copies.program .standard
  refine ⟨?_, ?_, ?_, ?_, ?_⟩
  · exact ((hone (Copies.place 0 0) (by decide +kernel)).2.1 rfl rfl).1 (by decide +kernel)
  · exact ((hone (Copies.place 3 1) (by decide +kernel)).2.1 rfl rfl).2.1 (by decide +kernel)
      (by decide +kernel)
  · exact (htwo (Copies.place 0 0) (by decide +kernel) (Copies.place 3 0) (by decide +kernel) rfl
      rfl (by decide +kernel)).mpr (by decide +kernel)
  · exact (hone (Copies.place 1 1) (by decide +kernel)).1 (.inl rfl)
  · exact (htwo (Copies.place 0 1) (by decide +kernel) (Copies.place 4 0) (by decide +kernel) rfl
      rfl (by decide +kernel)).not.mpr (by decide +kernel)

end CallTargets
