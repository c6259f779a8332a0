import CallTargets.Proofs.Layout.Inversion
import CallTargets.Proofs.Layout.Judgement

/-!
# Series of questions

Layouts are asked for one question after another, and what is laid out for one question is
remembered for the next. This shows in no answer: a series of questions is answered as if each was
the first, if the types asked about are nested no deeper than types are followed.
-/
namespace CallTargets

open IR

/-! ### Questions and answers -/

inductive Question where
  | size (t : Ty)
  | alloc (t : Ty)
  | align (t : Ty)
  | fieldOffsets (t : Ty)
  | fieldAt (t : Ty) (offset : Int64)
  | gepOffset (fr : Frame) (v : Value)
  | resolve (fr : Frame) (addr : Value)

def Question.types : Question → List Ty
  | .size t | .alloc t | .align t | .fieldOffsets t | .fieldAt t _ => [t]
  | .gepOffset fr v => (fr.links v).map Gep.elem
  | .resolve fr addr => fr.addressTypes addr

/-- What a question is answered with. Only a struct has field offsets. -/
inductive Answer where
  | number (n : Int64)
  | offsets (starts : Option (List Int64))
  | field (found : Option FieldRef)
  | address (found : Option (Ty × Int64))

namespace Layout

def ask (l : Layout) : Question → Query Answer
  | .size t => do return .number (← l.size t)
  | .alloc t => do return .number (← l.alloc t)
  | .align t => do return .number (← l.align t)
  | .fieldOffsets t =>
    match l.defs.struct? t with
    | some st => do return .offsets (some (← l.fieldOffsets st))
    | none => pure (.offsets none)
  | .fieldAt t offset => do return .field (← l.fieldAt t offset)
  | .gepOffset fr v => do return .address (← l.gepOffset fr v)
  | .resolve fr addr => do return .field (← l.resolve fr addr)

def session (l : Layout) (questions : List Question) : Query (List Answer) :=
  questions.mapM l.ask

end Layout

namespace Judgement.Measured

variable {J : Judgement} {l : Layout} {T : Ty → Prop}

theorem ask (h : J.Measured l T) {q : Question} (hq : ∀ t ∈ q.types, T t) :
    J.Holds (l.ask q) fun _ => True := by
  cases q with
  | size t => exact J.bind (h.size t (hq t (by simp [Question.types]))) fun _ _ => J.pure trivial
  | alloc t => exact J.bind (h.alloc (hq t (by simp [Question.types]))) fun _ _ => J.pure trivial
  | align t => exact J.bind (h.align t (hq t (by simp [Question.types]))) fun _ _ => J.pure trivial
  | fieldOffsets t =>
    rw [Layout.ask]
    split
    · next st hst =>
      exact J.bind (h.offsets t st (hq t (by simp [Question.types])) hst) fun _ _ => J.pure trivial
    · exact J.pure trivial
  | fieldAt t offset =>
    exact J.bind (h.fieldAt (hq t (by simp [Question.types])) offset) fun _ _ => J.pure trivial
  | gepOffset fr v =>
    refine J.bind (h.gepOffset fun g hg => hq g.elem ?_) fun _ _ => J.pure trivial
    exact List.mem_map_of_mem hg
  | resolve fr addr => exact J.bind (h.resolve hq) fun _ _ => J.pure trivial

theorem session (h : J.Measured l T) {questions : List Question}
    (hquestions : ∀ q ∈ questions, ∀ t ∈ q.types, T t) :
    J.Holds (l.session questions) fun _ => True := by
  induction questions with
  | nil => exact J.pure trivial
  | cons q questions ih =>
    have hrest := ih fun q' hq' => hquestions q' (List.mem_cons_of_mem q hq')
    rw [Layout.session, List.mapM_cons]
    exact J.bind (h.ask (hquestions q List.mem_cons_self)) fun _ _ =>
      J.bind hrest fun _ _ => J.pure trivial

end Judgement.Measured

/-! ### Answers in a series -/

namespace Layout

variable {l : Layout} {S : Set StructTy} {α : Type}

/-- A query with a plain answer gets it when nothing is remembered yet. -/
theorem Agrees.fresh {q : Query α} {answer : Option α} (h : Agrees l S q answer) :
    q.run' [] = answer := by
  have hrun := h [] (l.sound_nil S)
  cases answer with
  | none =>
    have hnone : q [] = none := hrun
    change (q []).map Prod.fst = none
    rw [hnone]
    rfl
  | some a =>
    obtain ⟨cache, hsome, -⟩ := hrun
    change (q []).map Prod.fst = some a
    rw [hsome]
    rfl

/-- What a series of questions agrees with is what each of them agrees with. -/
theorem session_agrees {questions : List Question} {answer : Question → Option Answer}
    (h : ∀ q ∈ questions, Agrees l S (l.ask q) (answer q)) :
    Agrees l S (l.session questions) (questions.mapM answer) := by
  induction questions with
  | nil => exact .pure []
  | cons q questions ih =>
    have hrest := ih fun q' hq' => h q' (List.mem_cons_of_mem q hq')
    rw [session, List.mapM_cons, List.mapM_cons]
    exact (h q List.mem_cons_self).bind fun a _ => hrest.bind fun as _ => .pure (a :: as)

end Layout

/-- Every question of a series is answered as if it was the first, whatever was asked before. A
question without an end has none as the first one either. -/
theorem session_answers_fresh {l : Layout} {questions : List Question}
    (h : l.Distinct (questions.flatMap Question.types)) :
    (l.session questions).run' [] = questions.mapM fun q => (l.ask q).run' [] := by
  refine (Layout.session_agrees (S := l.structsAmong (questions.flatMap Question.types)) ?_).fresh
  intro q hq
  have hfollows : ∀ t ∈ q.types, l.Follows (l.structsAmong (questions.flatMap Question.types)) t :=
    fun t ht => h.follows t (List.mem_flatMap.mpr ⟨q, hq, ht⟩)
  obtain ⟨answer, hagrees, -⟩ := (Layout.settling_measured h.apart).ask hfollows
  rwa [hagrees.fresh]

namespace Nested

/-- The inner struct is met inside an array first, then asked about on its own. -/
def questions : List Question :=
  [.size (.named "outer"), .fieldOffsets (.named "inner"), .resolve ⟨Module.empty, none⟩ address,
    .fieldAt (.named "outer") 79, .alloc (.named "inner"), .gepOffset ⟨Module.empty, none⟩ address]

theorem questions_distinct : layout.Distinct (questions.flatMap Question.types) := by
  have htypes : questions.flatMap Question.types = [.named "outer", .named "inner", .named "outer",
    .named "outer", .named "inner", .named "outer"] := rfl
  have hstructs : ∀ st ∈ layout.structsAmong (questions.flatMap Question.types),
      st ∈ [outer, middle, inner] := by
    rintro st ⟨t, ht, hst⟩
    simp only [htypes, List.mem_cons, List.not_mem_nil, or_false] at ht
    obtain rfl | rfl | rfl | rfl | rfl | rfl := ht
    all_goals first
      | exact hst
      | exact List.mem_cons_of_mem _ (List.mem_cons_of_mem _ hst)
  constructor
  case nested =>
    rw [htypes]
    decide +kernel
  case eq_of_id =>
    intro st hst st' hst' hid
    simp only [List.mem_cons, List.not_mem_nil, or_false] at hstructs
    rcases hstructs st hst with rfl | rfl | rfl <;> rcases hstructs st' hst' with rfl | rfl | rfl
    all_goals first | rfl | cases hid

end Nested

/-- The series comes to an end. -/
theorem session_answers_fresh_nested :
    ((Nested.layout.session Nested.questions).run' []).isSome = true ∧
      (Nested.layout.session Nested.questions).run' [] =
        Nested.questions.mapM fun q => (Nested.layout.ask q).run' [] :=
  ⟨by decide +kernel, session_answers_fresh Nested.questions_distinct⟩

end CallTargets
