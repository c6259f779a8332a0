import CallTargets.Proofs.Signature.Printed
import CallTargets.Signature.Basic

/-!
# Where a class parameter is dropped

A class pointer in front of a parameter list is looked for in the printed text. The text does not
tell a parameter from the beginning of one, nor one parameter list from another, nor a type from a
quoted name. So the canonical form of a printed type is the text without blanks exactly if no
parameter list in it begins with a class pointer and no quoted name looks as if one did.
-/
namespace CallTargets

open IR Text

namespace Signature

/-! ### The pattern -/

def dropComma : List Char → List Char
  | ',' :: cs => cs
  | cs => cs

/-- A class pointer: `%class.`, a name, a star. -/
def IsClassPointer (cs : List Char) : Prop :=
  ∃ x, cs = "%class.".toList ++ x ++ ['*'] ∧ x ≠ [] ∧ ∀ c ∈ x, classNameChar c = true

theorem isWordChar_of_classNameChar {c : Char} (h : classNameChar c = true) :
    isWordChar c = true := by
  simp only [classNameChar, Bool.or_eq_true, beq_iff_eq] at h
  rcases h with h | h <;> simp [isWordChar, h]

theorem dropClassParameter_eq_some_iff {cs after : List Char} :
    dropClassParameter cs = some after ↔
      ∃ p rest, IsClassPointer p ∧ cs = p ++ rest ∧ after = dropComma rest := by
  constructor
  · intro h
    unfold dropClassParameter at h
    split at h
    · next hprefix =>
      obtain ⟨tail, rfl⟩ := List.isPrefixOf_iff_prefix.mp hprefix
      have hsplit := List.takeWhile_append_dropWhile (p := classNameChar) (l := tail)
      have hall : ∀ c ∈ tail.takeWhile classNameChar, classNameChar c = true :=
        fun c hc => List.mem_takeWhile_imp hc
      simp only [List.drop_left' (show "%class.".toList.length = 7 from rfl)] at h
      generalize tail.takeWhile classNameChar = x at h hsplit hall
      generalize tail.dropWhile classNameChar = rest at h hsplit
      subst hsplit
      split at h
      · cases h
        exact ⟨_, ',' :: after, ⟨_, rfl, by simp, hall⟩, by simp, rfl⟩
      · next hcomma =>
        cases h
        refine ⟨_, after, ⟨_, rfl, by simp, hall⟩, by simp, ?_⟩
        unfold dropComma
        split
        · next rest => exact (hcomma rest rfl).elim
        · rfl
      · cases h
    · cases h
  · rintro ⟨p, rest, ⟨x, rfl, hx, hall⟩, rfl, rfl⟩
    have hstar : classNameChar '*' = false := by decide
    have htake : (x ++ '*' :: rest).takeWhile classNameChar = x := by
      rw [List.takeWhile_append_of_pos hall, List.takeWhile_cons_of_neg (by simp [hstar]),
        List.append_nil]
    have hdrop : (x ++ '*' :: rest).dropWhile classNameChar = '*' :: rest := by
      rw [List.dropWhile_append_of_pos hall, List.dropWhile_cons_of_neg (by simp [hstar])]
    obtain ⟨c, x, rfl⟩ := List.exists_cons_of_ne_nil hx
    have hprefix : "%class.".toList.isPrefixOf
        ("%class.".toList ++ (c :: x) ++ ['*'] ++ rest) = true := by
      rw [List.isPrefixOf_iff_prefix]
      exact ⟨(c :: x) ++ ['*'] ++ rest, by simp⟩
    unfold dropClassParameter
    rw [if_pos hprefix]
    simp only [List.append_assoc, List.drop_left' (show "%class.".toList.length = 7 from rfl),
      List.singleton_append, htake, hdrop]
    cases rest with
    | nil => rfl
    | cons d rest => by_cases hd : d = ',' <;> simp [dropComma, hd]

theorem dropClassParameter_of_ne {c : Char} (h : c ≠ '%') (cs : List Char) :
    dropClassParameter (c :: cs) = none := by
  simp [dropClassParameter, Ne.symm h]

theorem isSome_dropClassParameter {cs : List Char} :
    (dropClassParameter cs).isSome = true ↔ ∃ p rest, IsClassPointer p ∧ cs = p ++ rest := by
  rw [Option.isSome_iff_exists]
  constructor
  · rintro ⟨after, h⟩
    obtain ⟨p, rest, hp, hcs, -⟩ := dropClassParameter_eq_some_iff.mp h
    exact ⟨p, rest, hp, hcs⟩
  · rintro ⟨p, rest, hp, hcs⟩
    exact ⟨_, dropClassParameter_eq_some_iff.mpr ⟨p, rest, hp, hcs, rfl⟩⟩

theorem IsClassPointer.quote_not_mem {p : List Char} (h : IsClassPointer p) : '"' ∉ p := by
  obtain ⟨x, rfl, -, hall⟩ := h
  intro hmem
  simp only [List.mem_append] at hmem
  rcases hmem with (hmem | hmem) | hmem
  · revert hmem
    decide
  · exact absurd (hall _ hmem) (by decide)
  · simp at hmem

theorem dropClassParameter_quote {q : List Char} (hq : '"' ∉ q) (r : List Char) :
    (dropClassParameter (q ++ '"' :: r)).isSome = (dropClassParameter q).isSome := by
  rw [Bool.eq_iff_iff, isSome_dropClassParameter, isSome_dropClassParameter]
  constructor
  · rintro ⟨p, rest, hp, hcs⟩
    -- The pointer ends before the quote, or would contain it.
    rcases List.append_eq_append_iff.mp hcs with ⟨more, hmore, hr⟩ | ⟨more, hmore, hr⟩
    · cases more with
      | nil => exact ⟨p, [], hp, by simpa using hmore.symm⟩
      | cons c more =>
        obtain ⟨rfl, -⟩ := List.cons.inj hr
        exact absurd (by simp [hmore]) hp.quote_not_mem
    · exact ⟨p, more, hp, hmore⟩
  · rintro ⟨p, rest, hp, rfl⟩
    exact ⟨p, rest ++ '"' :: r, hp, by simp⟩

/-! ### Places where it is found -/

/-- A class parameter starts somewhere in a text, which `r` follows. -/
def thisIn : List Char → List Char → Bool
  | [], _ => false
  | c :: w, r => (c == '(' && (dropClassParameter (w ++ r)).isSome) || thisIn w r

theorem thisIn_append (a b r : List Char) :
    thisIn (a ++ b) r = (thisIn a (b ++ r) || thisIn b r) := by
  induction a with
  | nil => simp [thisIn]
  | cons c a ih => simp [thisIn, ih, Bool.or_assoc]

theorem thisIn_of_not_mem {w : List Char} (h : '(' ∉ w) (r : List Char) : thisIn w r = false := by
  induction w with
  | nil => rfl
  | cons c w ih =>
    simp only [List.mem_cons, not_or] at h
    simp [thisIn, Ne.symm h.1, ih h.2]

theorem thisIn_of_word {w : List Char} (h : ∀ c ∈ w, isWordChar c = true) (r : List Char) :
    thisIn w r = false := by
  apply thisIn_of_not_mem
  intro hmem
  exact absurd (h _ hmem) (by decide)

theorem dropThis_cons_of_ne {c : Char} (h : c ≠ '(') (cs : List Char) :
    dropThis (c :: cs) = c :: dropThis cs := by
  rw [dropThis]
  exact h

theorem dropThis_bracket (cs : List Char) :
    dropThis ('(' :: cs) = '(' :: (dropClassParameter cs).getD (dropThis cs) := by
  rw [dropThis]
  cases dropClassParameter cs <;> rfl

theorem dropThis_append {w r : List Char} (h : thisIn w r = false) :
    dropThis (w ++ r) = w ++ dropThis r := by
  induction w with
  | nil => rfl
  | cons c w ih =>
    simp only [thisIn, Bool.or_eq_false_iff, Bool.and_eq_false_iff, beq_eq_false_iff_ne] at h
    rw [List.cons_append]
    by_cases hc : c = '('
    · subst hc
      have hnone : dropClassParameter (w ++ r) = none := by simpa using h.1
      rw [dropThis_bracket, hnone, Option.getD_none, ih h.2, List.cons_append]
    · rw [dropThis_cons_of_ne hc, ih h.2, List.cons_append]

/-- A class parameter that is dropped leaves fewer characters, blanks apart. -/
theorem length_dropThis_lt {cs : List Char} (h : thisIn cs [] = true) :
    (dropBlanks (dropThis cs)).length < (dropBlanks cs).length := by
  induction cs with
  | nil => cases h
  | cons c cs ih =>
    rw [thisIn, List.append_nil] at h
    by_cases hc : c = '('
    · subst hc
      rw [dropThis_bracket]
      cases hdrop : dropClassParameter cs with
      | none =>
        have hlt := ih (by simpa [hdrop] using h)
        simpa [dropBlanks, isBlank] using hlt
      | some after =>
        obtain ⟨p, rest, ⟨x, rfl, -⟩, rfl, rfl⟩ := dropClassParameter_eq_some_iff.mp hdrop
        have hcomma : (dropBlanks (dropComma rest)).length ≤ (dropBlanks rest).length := by
          unfold dropComma
          split
          · simp [dropBlanks, isBlank]
          · exact le_refl _
        have hpercent : (dropBlanks "%class.".toList).length = 7 := by decide
        have hbracket (tail : List Char) : dropBlanks ('(' :: tail) = '(' :: dropBlanks tail := rfl
        simp only [Option.getD_some, hbracket, dropBlanks_append, List.length_cons,
          List.length_append, hpercent]
        omega
    · rw [dropThis_cons_of_ne hc]
      have hlt := ih (by simpa [hc] using h)
      by_cases hblank : isBlank c = true <;> simpa [dropBlanks, hblank] using hlt

/-- The canonical form is the text without blanks exactly if no class parameter is found. -/
theorem clean_eq_iff (s : String) :
    clean s = String.ofList (dropBlanks s.toList) ↔ thisIn s.toList [] = false := by
  rw [clean, String.ofList_inj]
  constructor
  · intro h
    by_contra hthis
    have hlt := length_dropThis_lt (Bool.not_eq_false _ ▸ hthis)
    rw [h] at hlt
    exact lt_irrefl _ hlt
  · intro h
    have hkept := dropThis_append h
    rw [List.append_nil, dropThis, List.append_nil] at hkept
    rw [hkept]

end Signature

/-! ### Class pointers in types -/

namespace IR

open Signature

/-- Whether a type is a class: its printed name is `class.` and letters, digits and underscores. -/
def Ty.isClass (t : Ty) : Bool :=
  t.name?.any fun n => "class.".toList.isPrefixOf (nameChars n) &&
    !((nameChars n).drop 6).isEmpty && ((nameChars n).drop 6).all classNameChar

/-- Whether the printed type begins with a pointer to a class: it is one, or a pointer to such a
type, or a function with such a result. -/
def Ty.leadsWithClass : Ty → Bool
  | .ptr space e => (space == 0 && e.isClass) || e.leadsWithClass
  | .func r _ _ => r.leadsWithClass
  | _ => false

mutual

/-- Whether a class parameter seems to stand in a printed type: a parameter list in it begins with a
pointer to a class, or a quoted name in it contains such a beginning. -/
def Ty.showsThis : Ty → Bool
  | .ptr _ e | .array _ e | .vector _ _ e => e.showsThis
  | .func r ps _ => r.showsThis || ps.head?.any Ty.leadsWithClass || Ty.anyShowsThis ps
  | .struct (.literal _) _ fields => Ty.anyShowsThis fields
  | .struct (.named n) _ _ | .incomplete n | .named n => thisIn (nameChars n) []
  | _ => false

def Ty.anyShowsThis : List Ty → Bool
  | [] => false
  | t :: ts => t.showsThis || Ty.anyShowsThis ts

end

theorem Ty.anyShowsThis_eq (ts : List Ty) : Ty.anyShowsThis ts = ts.any Ty.showsThis := by
  induction ts with
  | nil => rfl
  | cons t ts ih => exact congrArg (t.showsThis || ·) ih

/-- Words that are followed by other characters are where both texts begin. -/
theorem word_append_inj {a b r s : List Char} (ha : ∀ c ∈ a, isWordChar c = true)
    (hb : ∀ c ∈ b, isWordChar c = true) (hr : ∀ c ∈ r.head?, isWordChar c = false)
    (hs : ∀ c ∈ s.head?, isWordChar c = false) (h : a ++ r = b ++ s) : a = b ∧ r = s := by
  have htake {w tail : List Char} (hw : ∀ c ∈ w, isWordChar c = true)
      (htail : ∀ c ∈ tail.head?, isWordChar c = false) : (w ++ tail).takeWhile isWordChar = w := by
    rw [List.takeWhile_append_of_pos hw]
    cases tail with
    | nil => simp
    | cons c tail => simp [htail c rfl]
  have heq : a = b := by rw [← htake ha hr, h, htake hb hs]
  subst heq
  exact ⟨rfl, List.append_cancel_left h⟩

theorem Ty.isClass_iff {t : Ty} {n : ByteString} (h : t.name? = some n) :
    t.isClass = true ↔ ∃ x, nameChars n = "class.".toList ++ x ∧ x ≠ [] ∧
      ∀ c ∈ x, classNameChar c = true := by
  have hdrop (x : List Char) : ("class.".toList ++ x).drop 6 = x := rfl
  simp only [isClass, h, Option.any_some, Bool.and_eq_true, List.isPrefixOf_iff_prefix,
    Bool.not_eq_true', List.isEmpty_eq_false_iff, List.all_eq_true]
  constructor
  · rintro ⟨⟨⟨x, hx⟩, hne⟩, hall⟩
    rw [← hx, hdrop] at hne hall
    exact ⟨x, hx.symm, hne, hall⟩
  · rintro ⟨x, hx, hne, hall⟩
    rw [hx, hdrop]
    exact ⟨⟨⟨x, rfl⟩, hne⟩, hall⟩

/-- A name begins with a class pointer if it is a class and a star follows it. -/
theorem isSome_dropClassParameter_name {t : Ty} {n : ByteString} (h : t.name? = some n)
    {r : List Char} (hr : ∀ c ∈ r.head?, isWordChar c = false) :
    (dropClassParameter ('%' :: nameChars n ++ r)).isSome = (t.isClass && r.head? == some '*') := by
  rw [Bool.eq_iff_iff, isSome_dropClassParameter, Bool.and_eq_true, beq_iff_eq, Ty.isClass_iff h]
  have hword {x : List Char} (hall : ∀ c ∈ x, classNameChar c = true) :
      ∀ c ∈ "class.".toList ++ x, isWordChar c = true := by
    have hclass : ∀ c ∈ "class.".toList, isWordChar c = true := List.all_eq_true.mp (by decide)
    intro c hc
    rcases List.mem_append.mp hc with hc | hc
    · exact hclass c hc
    · exact isWordChar_of_classNameChar (hall c hc)
  constructor
  · rintro ⟨p, rest, ⟨x, rfl, hne, hall⟩, hcs⟩
    have hcs' : nameChars n ++ r = ("class.".toList ++ x) ++ '*' :: rest := by simpa using hcs
    rcases nameChars_cases n with hplain | ⟨q, hq, -⟩
    · obtain ⟨hname, rfl⟩ := word_append_inj hplain (hword hall) hr
        (by rintro c ⟨⟩; decide) hcs'
      exact ⟨⟨x, hname, hne, hall⟩, rfl⟩
    · simp [hq] at hcs'
  · rintro ⟨⟨x, hx, hne, hall⟩, hstar⟩
    obtain ⟨rest, rfl⟩ : ∃ rest, r = '*' :: rest := by
      cases r with
      | nil => cases hstar
      | cons c r => cases hstar; exact ⟨r, rfl⟩
    exact ⟨_, rest, ⟨x, rfl, hne, hall⟩, by simp [hx]⟩

/-- A type whose printed form begins with another character than a name is no class and does not
begin with one. -/
theorem Ty.not_leading {t : Ty} {c : Char} (hchars : t.chars.head? = some c) (hc : c ≠ '%')
    (hleads : t.leadsWithClass = false) (hname : t.name? = none) (r : List Char) :
    (dropClassParameter (t.chars ++ r)).isSome =
      (t.leadsWithClass || (t.isClass && r.head? == some '*')) := by
  obtain ⟨cs, hcs⟩ := List.head?_eq_some_iff.mp hchars
  rw [hcs, List.cons_append, dropClassParameter_of_ne hc, hleads, Ty.isClass, hname]
  rfl

/-- A printed type begins with a class pointer, or is a class that a star follows. -/
theorem Ty.chars_lead : Ty.Hereditary fun t => ∀ r : List Char,
    (∀ c ∈ r.head?, isWordChar c = false) → (dropClassParameter (t.chars ++ r)).isSome =
      (t.leadsWithClass || (t.isClass && r.head? == some '*')) where
  word t h r _ := by
    obtain ⟨-, c, cs, hchars, hlower⟩ := isLowerWord_iff.mp (Ty.chars_of_isWord h)
    have hc : c ≠ '%' := by
      rintro rfl
      cases hlower
    refine Ty.not_leading (by rw [hchars]; rfl) hc ?_ ?_ r
    all_goals cases t <;> first | rfl | cases h
  name t n h r hr := by
    have hleads : t.leadsWithClass = false := by
      cases t <;> first | rfl | cases h
    rw [Ty.chars_of_name? h, isSome_dropClassParameter_name h hr, hleads, Bool.false_or]
  ptr space e ih r _ := by
    have hclass : (Ty.ptr space e).isClass = false := rfl
    by_cases hspace : space = 0
    · subst hspace
      change _ = ((e.isClass || e.leadsWithClass) || _)
      rw [Ty.chars_ptr_zero, List.append_assoc, ih _ (by rintro c ⟨⟩; decide), hclass]
      simp [Bool.or_comm]
    · change _ = ((space == 0 && e.isClass || e.leadsWithClass) || _)
      rw [Ty.chars_ptr hspace, List.append_assoc, List.append_assoc, List.append_assoc,
        ih _ (by rintro c ⟨⟩; decide), hclass]
      simp [hspace]
  array len e _ r _ :=
    Ty.not_leading (c := '[') (by rw [Ty.chars_array]; rfl) (by decide) rfl rfl r
  vector scalable len e _ r _ :=
    Ty.not_leading (c := '<') (by rw [Ty.chars_vector]; rfl) (by decide) rfl rfl r
  func r ps variadic ih _ rest _ := by
    have hclass : (Ty.func r ps variadic).isClass = false := rfl
    change _ = (r.leadsWithClass || _)
    rw [Ty.chars_func, List.append_assoc, List.append_assoc, ih _ (by rintro c ⟨⟩; decide), hclass]
    simp
  body occurrence packed fields _ r _ := by
    cases packed with
    | true =>
      exact Ty.not_leading (c := '<') (by rw [Ty.chars_body]; rfl) (by decide) rfl rfl r
    | false =>
      refine Ty.not_leading (c := '\x7b') ?_ (by decide) rfl rfl r
      rw [Ty.chars_body]
      by_cases h : fields.isEmpty = true <;> simp [h]

/-! ### Class parameters in types -/

/-- A class parameter is found in one of the items of a list, or in none. -/
theorem thisIn_joined {items : List (List Char)}
    (h : ∀ i ∈ items, ∀ r, thisIn i r = thisIn i []) (r : List Char) :
    thisIn (joined items) r = items.any fun i => thisIn i [] := by
  induction items with
  | nil => rfl
  | cons i items ih =>
    cases items with
    | nil => simpa [joined] using h i List.mem_cons_self r
    | cons j items =>
      have hrest := ih fun k hk => h k (List.mem_cons_of_mem i hk)
      rw [joined_cons_cons, thisIn_append, h i List.mem_cons_self, List.any_cons, ← hrest]
      simp [thisIn]

/-- Text without brackets around another text makes no difference. -/
theorem thisIn_between {a b : List Char} (ha : '(' ∉ a) (hb : '(' ∉ b) (w r : List Char) :
    thisIn (a ++ w ++ b) r = thisIn w (b ++ r) := by
  rw [thisIn_append, thisIn_append, thisIn_of_not_mem ha, thisIn_of_not_mem hb, Bool.false_or,
    Bool.or_false]

/-- What is found between quotes does not depend on what follows. -/
theorem thisIn_quoted {q : List Char} (hq : '"' ∉ q) (r : List Char) :
    thisIn (q ++ ['"']) r = thisIn (q ++ ['"']) [] := by
  induction q with
  | nil => rfl
  | cons c q ih =>
    have hq' : '"' ∉ q := fun h => hq (List.mem_cons_of_mem c h)
    have hfollow (s : List Char) : (dropClassParameter (q ++ ['"'] ++ s)).isSome =
        (dropClassParameter q).isSome := by
      rw [List.append_assoc]
      exact dropClassParameter_quote hq' s
    simp only [List.cons_append, thisIn, hfollow, ih hq']

theorem bracket_not_mem_digits (n : Nat) : '(' ∉ digits n :=
  fun h => absurd (isDigit_of_mem_digits h) (by decide)

theorem thisIn_space (space : Nat) (r : List Char) :
    thisIn (" addrspace(".toList ++ digits space ++ [')', '*']) r = false := by
  obtain ⟨d, ds, hd, hdigit⟩ := exists_digits space
  have hne : d ≠ '%' := by
    rintro rfl
    cases hdigit
  have hfirst : dropClassParameter (digits space ++ [')', '*'] ++ r) = none := by
    rw [hd, List.cons_append, List.cons_append]
    exact dropClassParameter_of_ne hne _
  have hsplit : " addrspace(".toList ++ digits space ++ [')', '*'] =
      " addrspace".toList ++ '(' :: (digits space ++ [')', '*']) := by simp
  have hrest : thisIn (digits space ++ [')', '*']) r = false := by
    apply thisIn_of_not_mem
    simp [bracket_not_mem_digits]
  rw [hsplit, thisIn_append, thisIn_of_not_mem (by decide), thisIn, hfirst, hrest]
  rfl

/-- The first parameter of a list decides whether the list begins with a class pointer. -/
theorem isSome_dropClassParameter_params (ps : List Ty) (variadic : Bool) (r : List Char) :
    (dropClassParameter (joined (paramItems ps variadic) ++ ')' :: r)).isSome =
      ps.head?.any Ty.leadsWithClass := by
  cases ps with
  | nil => cases variadic <;> rfl
  | cons p ps =>
    obtain ⟨tail, htail, hfollow⟩ : ∃ tail, joined (paramItems (p :: ps) variadic) ++ ')' :: r =
        p.chars ++ tail ∧ (tail.head? = some ')' ∨ tail.head? = some ',') := by
      rw [paramItems, List.map_cons, List.cons_append]
      cases ps.map Ty.chars ++ (if variadic then [['.', '.', '.']] else []) with
      | nil => exact ⟨')' :: r, by simp [joined], .inl rfl⟩
      | cons i items =>
        exact ⟨',' :: ' ' :: joined (i :: items) ++ ')' :: r, by simp [joined_cons_cons], .inr rfl⟩
    rw [htail, Ty.chars_lead.all p]
    · rcases hfollow with h | h <;> simp [h]
    · intro c hc
      rcases hfollow with h | h <;> rw [h] at hc <;> cases hc <;> decide

/-- A class parameter is found in one of the parameters of a list, or in none. -/
theorem thisIn_paramItems {ps : List Ty} (h : ∀ p ∈ ps, ∀ r, thisIn p.chars r = p.showsThis)
    (variadic : Bool) (r : List Char) :
    thisIn (joined (paramItems ps variadic)) r = ps.any Ty.showsThis := by
  have hdots (s : List Char) : thisIn ['.', '.', '.'] s = false := rfl
  have hitem : ∀ i ∈ paramItems ps variadic, ∀ s, thisIn i s = thisIn i [] := by
    intro i hi s
    rcases mem_paramItems.mp hi with ⟨p, hp, rfl⟩ | ⟨-, rfl⟩
    · rw [h p hp, h p hp]
    · rw [hdots, hdots]
  rw [thisIn_joined hitem, Bool.eq_iff_iff, List.any_eq_true, List.any_eq_true]
  constructor
  · rintro ⟨i, hi, hthis⟩
    rcases mem_paramItems.mp hi with ⟨p, hp, rfl⟩ | ⟨-, rfl⟩
    · exact ⟨p, hp, h p hp [] ▸ hthis⟩
    · cases hthis
  · rintro ⟨p, hp, hthis⟩
    exact ⟨p.chars, mem_paramItems.mpr (.inl ⟨p, hp, rfl⟩), (h p hp []).trans hthis⟩

/-- A class parameter is found in a printed type exactly if the type shows one. -/
theorem Ty.thisIn_chars : Ty.Hereditary fun t => ∀ r, thisIn t.chars r = t.showsThis where
  word t h r := by
    rw [thisIn_of_word (isLowerWord_iff.mp (Ty.chars_of_isWord h)).1]
    cases t <;> first | rfl | cases h
  name t n h r := by
    have hshows : t.showsThis = thisIn (nameChars n) [] := by
      rcases Ty.eq_of_name? h with rfl | rfl | ⟨packed, fields, rfl⟩ <;> rfl
    rw [Ty.chars_of_name? h, hshows]
    rcases nameChars_cases n with hword | ⟨q, hq, hquote, -⟩
    · rw [thisIn_of_word hword, thisIn, thisIn_of_word hword]
      rfl
    · rw [hq]
      exact thisIn_quoted hquote r
  ptr space e ih r := by
    change _ = e.showsThis
    by_cases hspace : space = 0
    · subst hspace
      rw [Ty.chars_ptr_zero, thisIn_append, ih]
      exact Bool.or_false _
    · rw [Ty.chars_ptr hspace, List.append_assoc, List.append_assoc, thisIn_append, ih,
        ← List.append_assoc, thisIn_space, Bool.or_false]
  array len e ih r := by
    have hsplit : (Ty.array len e).chars =
        ('[' :: digits len.toNat ++ [' ', 'x', ' ']) ++ e.chars ++ [']'] := by
      simp [Ty.chars_array]
    rw [hsplit, thisIn_between (by simp [bracket_not_mem_digits]) (by decide)]
    exact ih _
  vector scalable len e ih r := by
    have hscale : '(' ∉ if scalable then "vscale x ".toList else [] := by
      cases scalable <;> decide
    rw [Ty.chars_vector]
    generalize (if scalable then "vscale x ".toList else []) = scale at hscale
    have hsplit : '<' :: scale ++ digits len.toNat ++ ' ' :: 'x' :: ' ' :: e.chars ++ ['>'] =
        ('<' :: scale ++ digits len.toNat ++ [' ', 'x', ' ']) ++ e.chars ++ ['>'] := by simp
    rw [hsplit, thisIn_between (by simp [bracket_not_mem_digits, hscale]) (by decide)]
    exact ih _
  func r ps variadic ih ihps rest := by
    have hsplit : (Ty.func r ps variadic).chars =
        r.chars ++ ' ' :: '(' :: (joined (paramItems ps variadic) ++ [')']) := by
      rw [Ty.chars_func, List.append_assoc, List.cons_append, List.cons_append]
    change _ = (r.showsThis || ps.head?.any Ty.leadsWithClass || Ty.anyShowsThis ps)
    rw [hsplit, thisIn_append, ih, Ty.anyShowsThis_eq]
    simp only [thisIn, thisIn_append, thisIn_paramItems ihps, List.append_assoc,
      List.singleton_append, isSome_dropClassParameter_params]
    simp [Bool.or_assoc]
  body occurrence packed fields ih r := by
    have hitems (s : List Char) :
        thisIn (joined (fields.map Ty.chars)) s = fields.any Ty.showsThis := by
      simpa [paramItems] using thisIn_paramItems ih false s
    have hinner (s : List Char) : thisIn (if fields.isEmpty then ['\x7b', '\x7d']
        else '\x7b' :: ' ' :: joined (fields.map Ty.chars) ++ [' ', '\x7d']) s =
          fields.any Ty.showsThis := by
      by_cases hempty : fields.isEmpty = true
      · rw [if_pos hempty, List.isEmpty_iff.mp hempty]
        rfl
      · have hsplit : '\x7b' :: ' ' :: joined (fields.map Ty.chars) ++ [' ', '\x7d'] =
            ['\x7b', ' '] ++ joined (fields.map Ty.chars) ++ [' ', '\x7d'] := rfl
        rw [if_neg hempty, hsplit, thisIn_between (by decide) (by decide), hitems]
    change _ = Ty.anyShowsThis fields
    rw [Ty.chars_body, Ty.anyShowsThis_eq]
    cases packed with
    | false => exact hinner r
    | true => exact (thisIn_between (a := ['<']) (by decide) (by decide) _ r).trans (hinner _)

/-! ### Class pointers that are parameters -/

theorem Ty.isClassPointer {e : Ty} (h : e.isClass = true) : IsClassPointer (Ty.ptr 0 e).chars := by
  obtain ⟨n, hn⟩ : ∃ n, e.name? = some n := by
    cases hn : e.name? with
    | none => simp [Ty.isClass, hn] at h
    | some n => exact ⟨n, rfl⟩
  obtain ⟨x, hx, hne, hall⟩ := (Ty.isClass_iff hn).mp h
  refine ⟨x, ?_, hne, hall⟩
  rw [Ty.chars_ptr_zero, Ty.chars_of_name? hn, hx]
  rfl

/-- The first item of a list goes with its comma, and only a blank is left of it. -/
theorem dropBlanks_dropComma_tail (i : List Char) (items : List (List Char)) (r : List Char) :
    ∃ tail, joined (i :: items) ++ ')' :: r = i ++ tail ∧
      dropBlanks (dropComma tail) = dropBlanks (joined items ++ ')' :: r) := by
  cases items with
  | nil => exact ⟨')' :: r, by simp [joined], rfl⟩
  | cons j items =>
    refine ⟨',' :: ' ' :: joined (j :: items) ++ ')' :: r, by simp [joined_cons_cons], ?_⟩
    simp [dropComma, dropBlanks, isBlank]

/-- A first parameter that is a class pointer is dropped, and nothing else. -/
theorem Ty.clean_method {r e : Ty} (hr : r.showsThis = false) (hclass : e.isClass = true)
    (ps : List Ty) (variadic : Bool) :
    clean (Ty.func r (.ptr 0 e :: ps) variadic).text =
      String.ofList (dropBlanks (Ty.func r ps variadic).text.toList) := by
  have hsplit (items : List (List Char)) : r.chars ++ ' ' :: '(' :: joined items ++ [')'] =
      (r.chars ++ [' ']) ++ '(' :: (joined items ++ [')']) := by simp
  obtain ⟨tail, hjoined, htail⟩ :=
    dropBlanks_dropComma_tail (Ty.ptr 0 e).chars (paramItems ps variadic) []
  have hdrop : dropClassParameter (joined (paramItems (.ptr 0 e :: ps) variadic) ++ [')']) =
      some (dropComma tail) :=
    dropClassParameter_eq_some_iff.mpr ⟨_, tail, Ty.isClassPointer hclass, hjoined, rfl⟩
  have hkept : thisIn (r.chars ++ [' '])
      ('(' :: (joined (paramItems (.ptr 0 e :: ps) variadic) ++ [')'])) = false := by
    rw [thisIn_append, Ty.thisIn_chars.all r, hr]
    rfl
  have hfunc : dropThis (Ty.func r (.ptr 0 e :: ps) variadic).chars =
      (r.chars ++ [' ']) ++ '(' :: dropComma tail := by
    rw [Ty.chars_func, hsplit, dropThis_append hkept, dropThis_bracket, hdrop, Option.getD_some]
  have hbracket (cs : List Char) : dropBlanks ('(' :: cs) = '(' :: dropBlanks cs := rfl
  change String.ofList (dropBlanks (dropThis (Ty.func r (.ptr 0 e :: ps) variadic).chars)) =
    String.ofList (dropBlanks (Ty.func r ps variadic).chars)
  rw [hfunc, Ty.chars_func, hsplit, dropBlanks_append, dropBlanks_append _ ('(' :: (_ ++ _)),
    hbracket, hbracket, htail]

end IR

/-- The canonical form of a printed type is the text without blanks exactly if no class parameter
seems to stand in it. A first parameter that is a class pointer is dropped and nothing else, if the
result of the function shows no class parameter. -/
theorem clean_keeps_text_iff (t : Ty) :
    (Signature.clean t.text = String.ofList (dropBlanks t.text.toList) ↔ t.showsThis = false) ∧
    ∀ r e ps variadic, t = .func r (.ptr 0 e :: ps) variadic → e.isClass = true →
      r.showsThis = false →
        Signature.clean t.text =
          String.ofList (dropBlanks (Ty.func r ps variadic).text.toList) := by
  constructor
  · rw [Signature.clean_eq_iff]
    exact Eq.congr_left (Ty.thisIn_chars.all t [])
  · rintro r e ps variadic rfl hclass hr
    exact Ty.clean_method hr hclass ps variadic

/-- A pointer to a class pointer is taken for a class parameter, and only a star is left of it. -/
theorem clean_keeps_text_iff_pointer :
    let object : Ty := .named "class.A"
    let handler : Ty := .func .void [.ptr 0 (.ptr 0 object), .int 32] false
    let method : Ty := .func .void [.ptr 0 object, .int 32] false
    Signature.clean handler.text = "void(*,i32)" ∧
      Signature.clean handler.text ≠ String.ofList (dropBlanks handler.text.toList) ∧
      Signature.clean method.text =
        String.ofList (dropBlanks (Ty.func .void [.int 32] false).text.toList) := by
  intro object handler method
  have hshows : handler.showsThis = true := by decide +kernel
  refine ⟨by decide +kernel, ?_, ?_⟩
  · rw [Ne, (clean_keeps_text_iff handler).1, hshows]
    decide
  · exact (clean_keeps_text_iff method).2 .void object [.int 32] false rfl (by decide +kernel) rfl

end CallTargets
