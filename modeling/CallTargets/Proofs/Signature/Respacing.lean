import CallTargets.Proofs.Discovery.Visibility
import CallTargets.Proofs.Signature.ClassParameter

/-!
# Blanks in printed types

The blanks of a printed type can be put back: the characters around a place and the brackets it
stands in tell whether a blank was there. So printed types that are the same without their blanks
are the same, unless a name has blanks of its own. The one place that needs to look far ahead is an
address space, which follows a name without a gap: a digit behind its bracket marks it, as no
parameter starts with one.
-/
namespace CallTargets

open IR Text

/-! ### Putting blanks back -/

/-- Where in a printed type a character stands: in a count, up to its cross, in a quoted name, or
anywhere else. -/
inductive Place where
  | plain | count | quoted
deriving DecidableEq, Repr

def digitFirst (cs : List Char) : Bool := cs.head?.any Char.isDigit

theorem digitFirst_digits (n : Nat) (r : List Char) : digitFirst (digits n ++ r) = true := by
  obtain ⟨d, ds, hd, hdigit⟩ := exists_digits n
  rw [hd]
  exact hdigit

def spaceFirst (cs : List Char) : Bool :=
  "addrspace(".toList.isPrefixOf cs && digitFirst (cs.drop 10)

/-- A printed type without blanks, with its blanks. -/
def respace : Place → List Char → List Char
  | _, [] => []
  | .quoted, c :: cs => c :: respace (if c = '"' then .plain else .quoted) cs
  | .count, c :: cs =>
    if c = 'x' then ' ' :: 'x' :: ' ' :: respace (if digitFirst cs then .count else .plain) cs
    else c :: respace .count cs
  | .plain, '\x7b' :: '\x7d' :: cs => '\x7b' :: '\x7d' :: respace .plain cs
  | .plain, '\x7b' :: cs => '\x7b' :: ' ' :: respace .plain cs
  | .plain, '\x7d' :: cs => ' ' :: '\x7d' :: respace .plain cs
  | .plain, ',' :: cs => ',' :: ' ' :: respace .plain cs
  | .plain, '"' :: cs => '"' :: respace .quoted cs
  | .plain, '[' :: cs => '[' :: respace .count cs
  | .plain, '<' :: cs => '<' :: respace (if cs.head? = some '\x7b' then .plain else .count) cs
  | .plain, '(' :: cs =>
    if digitFirst cs then '(' :: respace .plain cs else ' ' :: '(' :: respace .plain cs
  | .plain, c :: cs =>
    if spaceFirst (c :: cs) then ' ' :: c :: respace .plain cs else c :: respace .plain cs

/-! ### Words and names -/

/-- Characters that no blank stands at, unless they start an address space. -/
def isPassing (c : Char) : Bool :=
  isWordChar c || c == '%' || c == '*' || c == ')' || c == ']' || c == '>'

theorem respace_passing {c : Char} (h : isPassing c = true) {cs : List Char}
    (hspace : spaceFirst (c :: cs) = false) :
    respace .plain (c :: cs) = c :: respace .plain cs := by
  rw [respace, hspace]
  · rfl
  all_goals
    intros
    subst_vars
    revert h
    decide

/-- A text that may follow a printed type: it does not start with the rest of an address space. -/
def Boundary (r : List Char) : Prop :=
  ∀ a d tail, a <:+ "ddrspace".toList → d.isDigit = true → r ≠ a ++ '(' :: d :: tail

theorem boundary_nil : Boundary [] := by
  intro a d tail _ _ h
  simp at h

theorem boundary_cons {c : Char} (h : c ∉ "ddrspace(".toList) (r : List Char) :
    Boundary (c :: r) := by
  intro a d tail ha _ heq
  cases a with
  | nil =>
    obtain ⟨rfl, -⟩ := List.cons.inj heq
    exact h (by decide)
  | cons x a =>
    obtain ⟨rfl, -⟩ := List.cons.inj heq
    have hmem : c ∈ "ddrspace".toList := ha.subset List.mem_cons_self
    exact h (List.mem_append_left ['('] hmem)

theorem boundary_bracket {r : List Char} (h : digitFirst r = false) : Boundary ('(' :: r) := by
  intro a d tail ha hd heq
  cases a with
  | nil =>
    obtain ⟨-, rfl⟩ := List.cons.inj heq
    simp [digitFirst, hd] at h
  | cons x a =>
    obtain ⟨rfl, -⟩ := List.cons.inj heq
    exact absurd (ha.subset List.mem_cons_self) (by decide)

theorem boundary_space (r : List Char) : Boundary ("addrspace(".toList ++ r) := by
  intro a d tail ha _ heq
  have hword : ∀ c ∈ "addrspace".toList, isWordChar c = true := List.all_eq_true.mp (by decide)
  have hword' : ∀ c ∈ a, isWordChar c = true :=
    fun c hc => hword c (List.mem_cons_of_mem 'a' (ha.subset hc))
  have hbracket (cs : List Char) : ∀ c ∈ ('(' :: cs).head?, isWordChar c = false := by
    rintro c ⟨⟩
    decide
  obtain ⟨rfl, -⟩ := word_append_inj hword hword' (hbracket r) (hbracket (d :: tail)) heq
  exact absurd ha.length_le (by decide)

/-- No address space starts inside a text without brackets that a boundary follows. -/
theorem spaceFirst_eq_false {w r : List Char} (hw : w ≠ []) (hbracket : '(' ∉ w) (hr : Boundary r) :
    spaceFirst (w ++ r) = false := by
  by_contra h
  rw [Bool.not_eq_false, spaceFirst, Bool.and_eq_true, List.isPrefixOf_iff_prefix] at h
  obtain ⟨⟨rest, hrest⟩, hdigit⟩ := h
  rw [← hrest, List.drop_left' (show "addrspace(".toList.length = 10 from rfl)] at hdigit
  cases rest with
  | nil => cases hdigit
  | cons d tail =>
    -- The bracket is not in `w`, so `w` is a beginning of the word in front of it.
    have hsplit : w ++ r = "addrspace".toList ++ '(' :: d :: tail := hrest.symm
    rcases List.append_eq_append_iff.mp hsplit with ⟨a, ha, hr'⟩ | ⟨a, ha, hr'⟩
    · obtain ⟨c, w, rfl⟩ := List.exists_cons_of_ne_nil hw
      have hsuffix : a <:+ "ddrspace".toList := ⟨w, (List.cons.inj ha).2.symm⟩
      exact hr a d tail hsuffix hdigit hr'
    · cases a with
      | nil => exact hr [] d tail List.nil_suffix hdigit hr'.symm
      | cons c a =>
        obtain ⟨rfl, -⟩ := List.cons.inj hr'
        exact hbracket (by simp [ha])

theorem respace_word {w r : List Char} (hw : ∀ c ∈ w, isPassing c = true) (hr : Boundary r) :
    respace .plain (w ++ r) = w ++ respace .plain r := by
  induction w with
  | nil => rfl
  | cons c w ih =>
    have hbracket : '(' ∉ c :: w := fun h => absurd (hw _ h) (by decide)
    have hspace : spaceFirst (c :: (w ++ r)) = false :=
      spaceFirst_eq_false (List.cons_ne_nil c w) hbracket hr
    rw [List.cons_append, respace_passing (hw c List.mem_cons_self) hspace,
      ih fun d hd => hw d (List.mem_cons_of_mem c hd), List.cons_append]

theorem respace_quoted {q : List Char} (hq : '"' ∉ q) (r : List Char) :
    respace .quoted (q ++ '"' :: r) = q ++ '"' :: respace .plain r := by
  induction q with
  | nil => simp [respace]
  | cons c q ih =>
    simp only [List.mem_cons, not_or] at hq
    rw [List.cons_append, respace, if_neg (Ne.symm hq.1), ih hq.2, List.cons_append]

/-- A count ends at its cross. -/
theorem respace_count {w : List Char} (hw : 'x' ∉ w) (r : List Char) :
    respace .count (w ++ 'x' :: r) =
      w ++ ' ' :: 'x' :: ' ' :: respace (if digitFirst r then .count else .plain) r := by
  induction w with
  | nil => simp [respace]
  | cons c w ih =>
    simp only [List.mem_cons, not_or] at hw
    rw [List.cons_append, respace, if_neg (Ne.symm hw.1), ih hw.2, List.cons_append]

theorem respace_space {cs : List Char} (h : digitFirst cs = true) :
    respace .plain ("addrspace(".toList ++ cs) = " addrspace(".toList ++ respace .plain cs := by
  simp [respace, spaceFirst, h]

/-! ### Printed types -/

/-- A text whose blanks are put back, whatever follows it, and that does not begin like a count or
the end of a struct. -/
structure Restorable (s : List Char) : Prop where
  restored : ∀ r, Boundary r → respace .plain (dropBlanks s ++ r) = s ++ respace .plain r
  first : ∃ c cs, dropBlanks s = c :: cs ∧ c.isDigit = false ∧ c ≠ '\x7d'

theorem Restorable.digitFirst_append {s : List Char} (h : Restorable s) (r : List Char) :
    digitFirst (dropBlanks s ++ r) = false := by
  obtain ⟨c, cs, hs, hdigit, -⟩ := h.first
  simp [hs, digitFirst, hdigit]

theorem Restorable.of_word {w : List Char} (hw : ∀ c ∈ w, isWordChar c = true)
    (hfirst : ∃ c cs, w = c :: cs ∧ c.isDigit = false) : Restorable w where
  restored r hr := by
    rw [dropBlanks_of_word hw]
    exact respace_word (fun c hc => by simp [isPassing, hw c hc]) hr
  first := by
    obtain ⟨c, cs, rfl, hdigit⟩ := hfirst
    refine ⟨c, cs, dropBlanks_of_word hw, hdigit, ?_⟩
    rintro rfl
    exact absurd (hw _ List.mem_cons_self) (by decide)

/-- What can follow a text and is restored behind it. -/
theorem Restorable.append {s w : List Char} (h : Restorable s)
    (hw : ∀ r, Boundary r → Boundary (dropBlanks w ++ r) ∧
      respace .plain (dropBlanks w ++ r) = w ++ respace .plain r) : Restorable (s ++ w) where
  restored r hr := by
    obtain ⟨hbound, hrest⟩ := hw r hr
    rw [dropBlanks_append, List.append_assoc, h.restored _ hbound, hrest, List.append_assoc]
  first := by
    obtain ⟨c, cs, hs, hfirst⟩ := h.first
    exact ⟨c, cs ++ dropBlanks w, by rw [dropBlanks_append, hs, List.cons_append], hfirst⟩

theorem restorable_joined {items : List (List Char)} (hne : items ≠ [])
    (h : ∀ i ∈ items, Restorable i) : Restorable (joined items) := by
  induction items with
  | nil => exact absurd rfl hne
  | cons i items ih =>
    have hi := h i List.mem_cons_self
    cases items with
    | nil => simpa [joined] using hi
    | cons j items =>
      have hrest := ih (List.cons_ne_nil j items) fun k hk => h k (List.mem_cons_of_mem i hk)
      rw [joined_cons_cons]
      -- The comma is a boundary of the first item, and the rest is restored behind it.
      apply hi.append
      intro r hr
      refine ⟨boundary_cons (by decide) _, ?_⟩
      change respace .plain (',' :: (dropBlanks (joined (j :: items)) ++ r)) = _
      rw [respace, hrest.restored r hr, List.cons_append, List.cons_append]

theorem restorable_name {n : ByteString} (hspace : 0x20 ∉ n.bytes) :
    Restorable ('%' :: nameChars n) := by
  rcases nameChars_cases n with hword | ⟨q, hq, hquote, hblank⟩
  · have hdrop : dropBlanks ('%' :: nameChars n) = '%' :: nameChars n := by
      change '%' :: dropBlanks (nameChars n) = _
      rw [dropBlanks_of_word hword]
    have hpass : ∀ c ∈ '%' :: nameChars n, isPassing c = true := by
      intro c hc
      rcases List.mem_cons.mp hc with rfl | hc
      · decide
      · simp [isPassing, hword c hc]
    refine ⟨fun r hr => ?_, '%', nameChars n, hdrop, by decide, by decide⟩
    rw [hdrop]
    exact respace_word hpass hr
  · have hdrop : dropBlanks ('%' :: nameChars n) = '%' :: '"' :: q ++ ['"'] := by
      have hq' : dropBlanks q = q := by
        simpa [dropBlanks, List.filter_eq_self] using hblank hspace
      rw [hq]
      change '%' :: '"' :: dropBlanks (q ++ ['"']) = _
      rw [dropBlanks_append, hq']
      rfl
    refine ⟨fun r hr => ?_, '%', _, hdrop, by decide, by decide⟩
    have hsplit : '%' :: '"' :: q ++ ['"'] ++ r = '%' :: '"' :: (q ++ '"' :: r) := by simp
    rw [hdrop, hsplit, respace_passing (by decide) rfl, respace, respace_quoted hquote, hq]
    simp

/-- An address space and the star behind it. -/
theorem respace_spaceStar (space : Nat) {r : List Char} (hr : Boundary r) :
    respace .plain ("addrspace(".toList ++ (digits space ++ [')', '*']) ++ r) =
      " addrspace(".toList ++ (digits space ++ [')', '*']) ++ respace .plain r := by
  have hends : ∀ c ∈ [')', '*'], isPassing c = true := List.all_eq_true.mp (by decide)
  have hpass : ∀ c ∈ digits space ++ [')', '*'], isPassing c = true := by
    intro c hc
    rcases List.mem_append.mp hc with hc | hc
    · simp [isPassing, isWordChar_of_isDigit (isDigit_of_mem_digits hc)]
    · exact hends c hc
  have hfirst : digitFirst (digits space ++ [')', '*'] ++ r) = true := by
    rw [List.append_assoc]
    exact digitFirst_digits space _
  rw [List.append_assoc, respace_space hfirst, respace_word hpass hr, ← List.append_assoc]

theorem Restorable.ptr {e : Ty} (h : Restorable e.chars) (space : Nat) :
    Restorable (Ty.ptr space e).chars := by
  by_cases hspace : space = 0
  · subst hspace
    rw [Ty.chars_ptr_zero]
    apply h.append
    intro r hr
    exact ⟨boundary_cons (by decide) r, respace_passing (by decide) rfl⟩
  · rw [Ty.chars_ptr hspace, List.append_assoc, List.append_assoc]
    apply h.append
    intro r hr
    have hdrop : dropBlanks (" addrspace(".toList ++ (digits space ++ [')', '*'])) =
        "addrspace(".toList ++ (digits space ++ [')', '*']) := by
      rw [dropBlanks_append, dropBlanks_append, dropBlanks_digits]
      rfl
    rw [hdrop, respace_spaceStar space hr, List.append_assoc]
    exact ⟨boundary_space _, rfl⟩

theorem Restorable.counted {s : List Char} (h : Restorable s) (n : Nat) {r : List Char}
    (hr : Boundary r) : respace .count (digits n ++ 'x' :: (dropBlanks s ++ r)) =
      digits n ++ ' ' :: 'x' :: ' ' :: (s ++ respace .plain r) := by
  have hcross : 'x' ∉ digits n := fun hx => absurd (isDigit_of_mem_digits hx) (by decide)
  rw [respace_count hcross, h.digitFirst_append, if_neg (by decide), h.restored r hr]

theorem Restorable.array {e : Ty} (h : Restorable e.chars) (len : UInt64) :
    Restorable (Ty.array len e).chars := by
  have hdrop : dropBlanks (Ty.array len e).chars =
      '[' :: (digits len.toNat ++ 'x' :: (dropBlanks e.chars ++ [']'])) := by
    rw [Ty.chars_array, dropBlanks_append, dropBlanks_append]
    change '[' :: (dropBlanks (digits len.toNat) ++ 'x' :: dropBlanks e.chars ++ [']']) = _
    rw [dropBlanks_digits, List.append_assoc]
    rfl
  refine ⟨fun r hr => ?_, '[', _, hdrop, by decide, by decide⟩
  have hcounted := h.counted len.toNat (r := ']' :: r) (boundary_cons (by decide) r)
  rw [respace_passing (by decide) rfl] at hcounted
  rw [hdrop, Ty.chars_array]
  simp only [List.cons_append, List.append_assoc, List.nil_append, respace, hcounted]

theorem Restorable.vector {e : Ty} (h : Restorable e.chars) (scalable : Bool) (len : UInt64) :
    Restorable (Ty.vector scalable len e).chars := by
  have hdrop : dropBlanks (Ty.vector scalable len e).chars =
      '<' :: ((if scalable then "vscalex".toList else []) ++ digits len.toNat ++
        'x' :: (dropBlanks e.chars ++ ['>'])) := by
    rw [Ty.chars_vector, dropBlanks_append, dropBlanks_append, dropBlanks_append, dropBlanks_digits]
    cases scalable <;> simp [dropBlanks, isBlank]
  refine ⟨fun r hr => ?_, '<', _, hdrop, by decide, by decide⟩
  have hcounted := h.counted len.toNat (r := '>' :: r) (boundary_cons (by decide) r)
  rw [respace_passing (by decide) rfl] at hcounted
  have hfirst := digitFirst_digits len.toNat ('x' :: (dropBlanks e.chars ++ '>' :: r))
  rw [hdrop, Ty.chars_vector]
  cases scalable with
  | false =>
    have hbrace : (digits len.toNat ++ 'x' :: (dropBlanks e.chars ++ '>' :: r)).head? ≠
        some '\x7b' := by
      intro hhead
      rw [digitFirst, hhead] at hfirst
      cases hfirst
    simp only [Bool.false_eq_true, if_false, List.nil_append, List.cons_append, List.append_assoc,
      respace, if_neg hbrace, hcounted]
  | true =>
    have hscale := respace_count (w := "vscale".toList) (by decide)
      (digits len.toNat ++ 'x' :: (dropBlanks e.chars ++ '>' :: r))
    rw [hfirst, if_pos rfl, hcounted] at hscale
    have hglued : "vscalex".toList = "vscale".toList ++ ['x'] := rfl
    have hspaced : "vscale x ".toList = "vscale".toList ++ [' ', 'x', ' '] := rfl
    rw [if_pos rfl, if_pos rfl, hglued, hspaced]
    simp only [List.cons_append, List.append_assoc, List.nil_append]
    rw [respace, if_neg (by simp), hscale]

/-- A list of items up to its closing bracket, also an empty one. -/
theorem respace_items {items : List (List Char)} (h : ∀ i ∈ items, Restorable i) (r : List Char) :
    digitFirst (dropBlanks (joined items) ++ ')' :: r) = false ∧
      respace .plain (dropBlanks (joined items) ++ ')' :: r) =
        joined items ++ ')' :: respace .plain r := by
  have hclose : respace .plain (')' :: r) = ')' :: respace .plain r :=
    respace_passing (by decide) rfl
  by_cases hne : items = []
  · subst hne
    exact ⟨rfl, hclose⟩
  · have hjoined := restorable_joined hne h
    rw [← hclose]
    exact ⟨hjoined.digitFirst_append _, hjoined.restored _ (boundary_cons (by decide) r)⟩

theorem Restorable.func {r : Ty} {ps : List Ty} (hr : Restorable r.chars)
    (hps : ∀ p ∈ ps, Restorable p.chars) (variadic : Bool) :
    Restorable (Ty.func r ps variadic).chars := by
  have hitems : ∀ i ∈ paramItems ps variadic, Restorable i := by
    intro i hi
    rcases mem_paramItems.mp hi with ⟨p, hp, rfl⟩ | ⟨-, rfl⟩
    · exact hps p hp
    · exact .of_word (List.all_eq_true.mp (by decide)) ⟨'.', ['.', '.'], rfl, rfl⟩
  rw [Ty.chars_func, List.append_assoc]
  apply hr.append
  intro rest hrest
  -- No parameter begins with a digit, so the bracket is not that of an address space.
  obtain ⟨hfirst, hrestored⟩ := respace_items hitems rest
  have hdrop : dropBlanks (' ' :: '(' :: joined (paramItems ps variadic) ++ [')']) ++ rest =
      '(' :: (dropBlanks (joined (paramItems ps variadic)) ++ ')' :: rest) := by
    rw [dropBlanks_append, List.append_assoc]
    rfl
  rw [hdrop]
  refine ⟨boundary_bracket hfirst, ?_⟩
  rw [respace, hfirst, if_neg (by decide), hrestored]
  simp

theorem Restorable.plainBody {fields : List Ty} (h : ∀ f ∈ fields, Restorable f.chars)
    (occurrence : Nat) :
    Restorable (Ty.struct (.literal occurrence) false fields).chars ∧
      ∃ cs, dropBlanks (Ty.struct (.literal occurrence) false fields).chars = '\x7b' :: cs := by
  rw [Ty.chars_body]
  by_cases hempty : fields.isEmpty = true
  · simp only [hempty, if_true, Bool.false_eq_true, if_false]
    refine ⟨⟨fun r _ => ?_, '\x7b', ['\x7d'], rfl, by decide, by decide⟩, ['\x7d'], rfl⟩
    change respace .plain ('\x7b' :: '\x7d' :: r) = _
    rw [respace]
    rfl
  · simp only [hempty, if_false, Bool.false_eq_true]
    have hne : fields.map Ty.chars ≠ [] := by simpa using hempty
    have hjoined := restorable_joined hne (by simpa using h)
    obtain ⟨c, cs, hfirst, -, hc⟩ := hjoined.first
    have hdrop : dropBlanks ('\x7b' :: ' ' :: joined (fields.map Ty.chars) ++ [' ', '\x7d']) =
        '\x7b' :: (dropBlanks (joined (fields.map Ty.chars)) ++ ['\x7d']) := by
      rw [dropBlanks_append]
      rfl
    refine ⟨⟨fun r hr => ?_, '\x7b', _, hdrop, by decide, by decide⟩, _, hdrop⟩
    have hopen (tail : List Char) :
        dropBlanks (joined (fields.map Ty.chars)) ++ '\x7d' :: r ≠ '\x7d' :: tail := by
      intro htail
      rw [hfirst] at htail
      exact hc (List.cons.inj htail).1
    rw [hdrop, List.cons_append, List.append_assoc, List.singleton_append, respace,
      hjoined.restored _ (boundary_cons (by decide) r), respace]
    · simp
    · exact hopen

theorem Restorable.body {fields : List Ty} (h : ∀ f ∈ fields, Restorable f.chars) (occurrence : Nat)
    (packed : Bool) : Restorable (Ty.struct (.literal occurrence) packed fields).chars := by
  obtain ⟨hplain, cs, hcs⟩ := Restorable.plainBody h occurrence
  cases packed with
  | false => exact hplain
  | true =>
    have hchars : (Ty.struct (.literal occurrence) true fields).chars =
        '<' :: (Ty.struct (.literal occurrence) false fields).chars ++ ['>'] := by
      rw [Ty.chars_body, Ty.chars_body]
      rfl
    have hdrop : dropBlanks (Ty.struct (.literal occurrence) true fields).chars =
        '<' :: (dropBlanks (Ty.struct (.literal occurrence) false fields).chars ++ ['>']) := by
      rw [hchars, dropBlanks_append]
      rfl
    refine ⟨fun r hr => ?_, '<', _, hdrop, by decide, by decide⟩
    rw [hdrop, hchars, List.cons_append, List.append_assoc, List.singleton_append, respace, hcs,
      List.cons_append, List.head?_cons, if_pos rfl, ← List.cons_append, ← hcs,
      hplain.restored _ (boundary_cons (by decide) r), respace_passing (by decide) rfl]
    simp

namespace IR

mutual

def Ty.printedNames : Ty → List ByteString
  | .ptr _ e | .array _ e | .vector _ _ e => e.printedNames
  | .func r ps _ => r.printedNames ++ Ty.allPrintedNames ps
  | .struct (.named n) _ _ | .incomplete n | .named n => [n]
  | .struct (.literal _) _ fields => Ty.allPrintedNames fields
  | _ => []

def Ty.allPrintedNames : List Ty → List ByteString
  | [] => []
  | t :: ts => t.printedNames ++ Ty.allPrintedNames ts

end

theorem Ty.allPrintedNames_eq (ts : List Ty) : allPrintedNames ts = ts.flatMap Ty.printedNames := by
  induction ts with
  | nil => rfl
  | cons t ts ih => exact congrArg (t.printedNames ++ ·) ih

/-- The blanks of a printed type can be put back if no name in it has spaces. -/
theorem Ty.chars_restorable : Ty.Hereditary fun t =>
    (∀ n ∈ t.printedNames, 0x20 ∉ n.bytes) → Restorable t.chars where
  word t h _ := by
    obtain ⟨hword, c, cs, hchars, hlower⟩ := isLowerWord_iff.mp (Ty.chars_of_isWord h)
    refine .of_word hword ⟨c, cs, hchars, ?_⟩
    simp only [Char.isLower, Char.isDigit, Bool.and_eq_true, Bool.and_eq_false_iff,
      decide_eq_true_eq, decide_eq_false_iff_not] at hlower ⊢
    right
    exact fun hle => absurd (UInt32.le_trans hlower.1 hle) (by decide)
  name t n h hnames := by
    rw [Ty.chars_of_name? h]
    apply restorable_name
    apply hnames
    rcases Ty.eq_of_name? h with rfl | rfl | ⟨packed, fields, rfl⟩ <;>
      exact List.mem_singleton_self n
  ptr space e ih hnames := (ih hnames).ptr space
  array len e ih hnames := (ih hnames).array len
  vector scalable len e ih hnames := (ih hnames).vector scalable len
  func r ps variadic ih ihps hnames := by
    change ∀ n ∈ r.printedNames ++ Ty.allPrintedNames ps, _ at hnames
    rw [Ty.allPrintedNames_eq] at hnames
    refine Restorable.func (ih ?_) ?_ variadic
    · exact fun n hn => hnames n (List.mem_append_left _ hn)
    · intro p hp
      apply ihps p hp
      exact fun n hn => hnames n (List.mem_append_right _ (List.mem_flatMap.mpr ⟨p, hp, hn⟩))
  body occurrence packed fields ih hnames := by
    change ∀ n ∈ Ty.allPrintedNames fields, _ at hnames
    rw [Ty.allPrintedNames_eq] at hnames
    refine Restorable.body ?_ occurrence packed
    intro f hf
    exact ih f hf fun n hn => hnames n (List.mem_flatMap.mpr ⟨f, hf, hn⟩)

/-- A type whose printed form shows no class parameter and no name with spaces. -/
structure Ty.Legible (t : Ty) : Prop where
  noClass : Signature.thisIn t.text.toList [] = false
  spaceless : ∀ n ∈ t.printedNames, 0x20 ∉ n.bytes

theorem Ty.Legible.clean_eq {t : Ty} (h : t.Legible) :
    Signature.clean t.text = String.ofList (dropBlanks t.chars) :=
  (Signature.clean_eq_iff t.text).mpr h.noClass

theorem Ty.Legible.respace_dropBlanks {t : Ty} (h : t.Legible) :
    respace .plain (dropBlanks t.chars) = t.chars := by
  simpa [respace] using (Ty.chars_restorable.all t h.spaceless).restored [] boundary_nil

end IR

/-- The canonical form of a printed type determines the printed type. So a call has the signature of
a function exactly if the type of the function and the type that is called are printed the same, as
long as the hash tells the two canonical forms apart. -/
theorem clean_determines_text {t u : Ty} (ht : t.Legible) (hu : u.Legible) :
    (Signature.clean t.text = Signature.clean u.text ↔ t.text = u.text) ∧
    ∀ (m : Module) (f caller : Func) (c : Call), f.signature = t → m.callType? caller c = some u →
      Signature.Collisionless [(ByteString.ofText (Signature.clean t.text)).bytes,
        (ByteString.ofText (Signature.clean u.text)).bytes] →
      ((m.callType? caller c).map Signature.ofFuncType = some (Signature.ofFunc f) ↔
        t.text = u.text) := by
  have hclean : Signature.clean t.text = Signature.clean u.text ↔ t.text = u.text := by
    constructor
    · intro h
      rw [ht.clean_eq, hu.clean_eq, String.ofList_inj] at h
      have hchars : t.chars = u.chars := by
        rw [← ht.respace_dropBlanks, h, hu.respace_dropBlanks]
      exact String.toList_inj.mp hchars
    · intro h
      rw [h]
  refine ⟨hclean, ?_⟩
  rintro m f caller c rfl hcall hhash
  rw [← hclean, hcall, Option.map_some, Option.some_inj, Signature.ofFunc]
  constructor
  · intro h
    have hbytes : (ByteString.ofText (Signature.clean f.signature.text)).bytes =
        (ByteString.ofText (Signature.clean u.text)).bytes :=
      hhash _ (by simp) _ (by simp) (congrArg Signature.bits h).symm
    exact ByteString.ofText_injective (congrArg ByteString.mk hbytes)
  · intro h
    rw [Signature.ofFuncType, Signature.ofFuncType, h]

namespace Glued

def taker : Ty := .func .void [.ptr 3 (.named "buf"), .array 4 (.float .x86fp80)] false

/-- Takes a function whose result has the name of that address space glued to it. -/
def maker : Ty :=
  .func .void [.ptr 0 (.func (.named "bufaddrspace") [] false), .array 4 (.float .x86fp80)] false

theorem taker_legible : taker.Legible := ⟨by decide +kernel, by decide +kernel⟩

theorem maker_legible : maker.Legible := ⟨by decide +kernel, by decide +kernel⟩

def target : Func :=
  { (default : Func) with
    ret := .void, params := [.ptr 3 (.named "buf"), .array 4 (.float .x86fp80)], variadic := false }

def caller : Func := { (default : Func) with params := [.ptr 0 maker] }

end Glued

/-- Without blanks the two texts differ in one character. -/
theorem clean_determines_text_glued :
    Signature.clean Glued.taker.text = "void(%bufaddrspace(3)*,[4xx86_fp80])" ∧
      Signature.clean Glued.maker.text = "void(%bufaddrspace()*,[4xx86_fp80])" ∧
      Signature.clean Glued.taker.text ≠ Signature.clean Glued.maker.text ∧
      (Module.empty.callType? Glued.caller ⟨some (.param 0), some .void, []⟩).map
        Signature.ofFuncType ≠ some (Signature.ofFunc Glued.target) := by
  have htexts : Glued.taker.text ≠ Glued.maker.text := by decide +kernel
  obtain ⟨hclean, hcalls⟩ := clean_determines_text Glued.taker_legible Glued.maker_legible
  refine ⟨by decide +kernel, by decide +kernel, mt hclean.mp htexts, ?_⟩
  have hcall := hcalls Module.empty Glued.target Glued.caller ⟨some (.param 0), some .void, []⟩
    rfl rfl (by decide +kernel)
  exact mt hcall.mp htexts

end CallTargets
