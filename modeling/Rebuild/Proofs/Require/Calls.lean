import Rebuild.Require.Reference
import Mathlib.Data.List.TakeWhile
import Mathlib.Tactic

/-!
# Calls before a literal

Calls are found by going forward through masked code: at every keyword the mask behind it is looked
up.  The same literals are found by looking back from each literal at the code before it.  The two
agree because nothing but blanks and a parenthesis stands between a keyword and its mask: each
literal ends at most one call, and no keyword sees past the next mask.
-/

namespace Rebuild.Require

/-! ## Code that ends in a call -/

def IsBlank (text : List Char) : Prop :=
  ∀ c ∈ text, Text.isBlank c = true

/-- What can stand between the keyword and its argument: blanks, and a parenthesis with blanks
behind it. -/
def IsGap (text : List Char) : Prop :=
  ∃ blanks opening, text = blanks ++ opening ∧ IsBlank blanks ∧
    (opening = [] ∨ ∃ more, opening = '(' :: more ∧ IsBlank more)

/-- A code ends in the keyword, which is not part of a longer name or path, and a gap. -/
def EndsInCall (code : List Char) : Prop :=
  ∃ front gap, code = front ++ keyword ++ gap ∧ IsGap gap ∧
    front.getLast?.any joinsKeyword = false

section Gap

variable {text code : List Char}

theorem isGap_iff :
    IsGap text ↔
      text.dropWhile Text.isBlank = [] ∨
        (text.dropWhile Text.isBlank).head? = some '(' ∧
          (text.dropWhile Text.isBlank).tail.dropWhile Text.isBlank = [] := by
  have hparen : ¬Text.isBlank '(' = true := by decide
  constructor
  · rintro ⟨blanks, opening, rfl, hblanks, rfl | ⟨more, rfl, hmore⟩⟩
    · left
      rwa [List.append_nil, List.dropWhile_eq_nil_iff]
    · right
      rw [List.dropWhile_append_of_pos hblanks, List.dropWhile_cons_of_neg hparen]
      exact ⟨rfl, List.dropWhile_eq_nil_iff.2 hmore⟩
  · have hblanks : IsBlank (text.takeWhile Text.isBlank) :=
      fun c hc => List.all_eq_true.1 List.all_takeWhile c hc
    intro h
    refine ⟨_, _, List.takeWhile_append_dropWhile.symm, hblanks, h.imp_right ?_⟩
    rintro ⟨hhead, hmore⟩
    exact ⟨_, List.eq_cons_of_mem_head? hhead, List.dropWhile_eq_nil_iff.1 hmore⟩

instance (text : List Char) : Decidable (IsGap text) :=
  decidable_of_iff _ isGap_iff.symm

theorem endsInCall_iff :
    EndsInCall code ↔
      ∃ place ∈ List.range (code.length + 1), keyword <+: code.drop place ∧
        IsGap ((code.drop place).drop keyword.length) ∧
        (code.take place).getLast?.any joinsKeyword = false := by
  constructor
  · rintro ⟨front, gap, rfl, hgap, hfront⟩
    refine ⟨front.length, by simp, ?_⟩
    simpa using ⟨hgap, hfront⟩
  · rintro ⟨place, _, ⟨gap, hgap⟩, hdrop, hfront⟩
    rw [← hgap, List.drop_left] at hdrop
    refine ⟨code.take place, gap, ?_, hdrop, hfront⟩
    rw [List.append_assoc, hgap, List.take_append_drop]

instance (code : List Char) : Decidable (EndsInCall code) :=
  decidable_of_iff _ endsInCall_iff.symm

end Gap

/-! ## Masks -/

section Mask

variable {c : Char} {text : List Char} {index : Nat}

theorem digitValue?_of_mem_toDigits (hc : c ∈ Nat.toDigits 10 index) :
    Text.digitValue? c = some (c.toNat - '0'.toNat) := by
  have hdigit := Nat.isDigit_of_mem_toDigits (by decide) (by decide) hc
  have hrange : '0' ≤ c ∧ c ≤ '9' := by simpa [Char.isDigit, Char.le_def] using hdigit
  have hascii : c.toNat < 128 := lt_of_le_of_lt hrange.2 (by decide)
  rw [Text.digitValue?, if_pos hascii, if_pos hrange]

theorem isDigit_of_mem_toDigits (hc : c ∈ Nat.toDigits 10 index) : Text.isDigit c = true := by
  rw [Text.isDigit, digitValue?_of_mem_toDigits hc, Option.isSome_some]

theorem digitsValue_toDigits (index : Nat) : Text.digitsValue (Nat.toDigits 10 index) = index := by
  have hvalue : Text.digitsValue (Nat.toDigits 10 index) =
      Nat.ofDigitChars 10 (Nat.toDigits 10 index) 0 := by
    apply List.foldl_ext
    intro value c hc
    rw [digitValue?_of_mem_toDigits hc, Option.getD_some]
  rw [hvalue, Nat.ofDigitChars_toDigits (by decide) (by decide)]

/-- A literal is found under the number in its mask. -/
theorem literalAt_toDigits {bodies : List (List Char)} {body : List Char}
    (hbody : bodies[index]? = some body) : literalAt bodies (Nat.toDigits 10 index) = .ok body := by
  obtain ⟨hindex, _⟩ := List.getElem?_eq_some_iff.1 hbody
  have hlength : (Nat.toDigits 10 index).length ≤ (Nat.toDigits 10 bodies.length).length := by
    rw [Nat.length_toDigits_le_iff (by decide) Nat.length_toDigits_pos]
    exact hindex.trans ((Nat.length_toDigits_le_iff (by decide) Nat.length_toDigits_pos).1 le_rfl)
  have hmax : (Nat.toDigits 10 index).length ≤ maxDigits bodies :=
    hlength.trans (le_max_right _ _)
  rw [literalAt, if_pos hmax, digitsValue_toDigits]
  simp only [hbody]

theorem maskDigits?_mask (index : Nat) (tail : List Char) :
    maskDigits? (mask index ++ tail) = some (Nat.toDigits 10 index) := by
  have hdigits : ∀ c ∈ Nat.toDigits 10 index, Text.isDigit c = true :=
    fun c hc => isDigit_of_mem_toDigits hc
  have hnul : ¬Text.isDigit '\x00' = true := by decide
  have hmask : mask index ++ tail =
      '\x00' :: (Nat.toDigits 10 index ++ '\x00' :: tail) := by
    simp [mask]
  have htake : (Nat.toDigits 10 index ++ '\x00' :: tail).takeWhile Text.isDigit =
      Nat.toDigits 10 index := by
    rw [List.takeWhile_append_of_pos hdigits, List.takeWhile_cons_of_neg hnul, List.append_nil]
  have hdrop : (Nat.toDigits 10 index ++ '\x00' :: tail).dropWhile Text.isDigit =
      '\x00' :: tail := by
    rw [List.dropWhile_append_of_pos hdigits, List.dropWhile_cons_of_neg hnul]
  simp only [hmask, maskDigits?, htake, hdrop]
  cases hcons : Nat.toDigits 10 index with
  | nil => exact (Nat.toDigits_ne_nil hcons).elim
  | cons first more => rfl

theorem maskDigits?_of_ne (hc : c ≠ '\x00') (tail : List Char) :
    maskDigits? (c :: tail) = none := by
  unfold maskDigits?
  split
  next heq => exact (hc (List.cons.inj heq).1).elim
  next => rfl

theorem dropWhile_isBlank_nul (text tail : List Char) :
    (text ++ '\x00' :: tail).dropWhile Text.isBlank =
      text.dropWhile Text.isBlank ++ '\x00' :: tail := by
  have hnul : ¬Text.isBlank '\x00' = true := by decide
  rw [List.dropWhile_append]
  split
  next hempty =>
    rw [List.isEmpty_iff.1 hempty, List.nil_append]
    exact List.dropWhile_cons_of_neg hnul
  next => rfl

/-- What begins with a NUL character is looked at as a mask exactly when the text before it is a
gap. -/
theorem argumentDigits?_nul (hfree : '\x00' ∉ text) (tail : List Char) :
    argumentDigits? (text ++ '\x00' :: tail) =
      if IsGap text then maskDigits? ('\x00' :: tail) else none := by
  have hdrop (text : List Char) (hfree : '\x00' ∉ text) {c : Char} {more : List Char}
      (hmore : text.dropWhile Text.isBlank = c :: more) : c ≠ '\x00' ∧ '\x00' ∉ more := by
    have hsublist : (text.dropWhile Text.isBlank).Sublist text := List.dropWhile_sublist _
    have hnot : '\x00' ∉ c :: more := fun hmem => hfree (hsublist.mem (hmore ▸ hmem))
    exact ⟨fun heq => hnot (heq ▸ List.mem_cons_self),
      fun hmem => hnot (List.mem_cons_of_mem c hmem)⟩
  unfold argumentDigits?
  rw [dropWhile_isBlank_nul]
  simp only [isGap_iff]
  cases hrest : text.dropWhile Text.isBlank with
  | nil =>
      rw [if_pos (Or.inl rfl)]
      rfl
  | cons c more =>
      obtain ⟨hc, hmore⟩ := hdrop text hfree hrest
      by_cases hparen : c = '('
      · subst hparen
        simp only [List.cons_append, dropWhile_isBlank_nul]
        cases hinner : more.dropWhile Text.isBlank with
        | nil => exact (if_pos (Or.inr ⟨rfl, hinner⟩)).symm
        | cons d inner =>
            obtain ⟨hd, _⟩ := hdrop more hmore hinner
            simpa [hinner] using maskDigits?_of_ne hd (inner ++ '\x00' :: tail)
      · simpa [hparen] using maskDigits?_of_ne hc (more ++ '\x00' :: tail)

theorem maskDigits?_eq_none (hfree : '\x00' ∉ text) : maskDigits? text = none := by
  cases text with
  | nil => rfl
  | cons c rest => exact maskDigits?_of_ne (fun heq => hfree (heq ▸ List.mem_cons_self)) rest

theorem argumentDigits?_eq_none (hfree : '\x00' ∉ text) : argumentDigits? text = none := by
  have hdrop : '\x00' ∉ text.dropWhile Text.isBlank :=
    fun hmem => hfree ((List.dropWhile_sublist _).mem hmem)
  unfold argumentDigits?
  split
  next inside hinside =>
    rw [hinside] at hdrop
    exact maskDigits?_eq_none fun hmem =>
      hdrop (List.mem_cons_of_mem '(' ((List.dropWhile_sublist _).mem hmem))
  next => exact maskDigits?_eq_none hdrop

end Mask

/-! ## Going forward through masked code -/

section Forward

variable {before : Option Char} {c : Char} {text rest gap : List Char}

theorem keyword_eq : keyword = ['r', 'e', 'q', 'u', 'i', 'r', 'e'] := by
  decide +kernel

/-- The code behind a character ends in a call whose keyword lies in that code. -/
def EndsInCallAfter (before : Option Char) (code : List Char) : Prop :=
  ∃ front gap, code = front ++ keyword ++ gap ∧ IsGap gap ∧
    (front.getLast?.or before).any joinsKeyword = false

/-- A call that begins at the front of a code and goes up to its end. -/
def IsCall (before : Option Char) (code : List Char) : Prop :=
  keyword <+: code ∧ IsGap (code.drop keyword.length) ∧ before.any joinsKeyword = false

instance (before : Option Char) (code : List Char) : Decidable (IsCall before code) :=
  inferInstanceAs (Decidable (_ ∧ _ ∧ _))

theorem isCall_iff :
    IsCall before text ↔
      ∃ gap, text = keyword ++ gap ∧ IsGap gap ∧ before.any joinsKeyword = false := by
  constructor
  · rintro ⟨⟨gap, rfl⟩, hgap, hbefore⟩
    rw [List.drop_left] at hgap
    exact ⟨gap, rfl, hgap, hbefore⟩
  · rintro ⟨gap, rfl, hgap, hbefore⟩
    refine ⟨List.prefix_append _ _, ?_, hbefore⟩
    rwa [List.drop_left]

theorem getLast?_cons_or (c : Char) (front : List Char) (before : Option Char) :
    (c :: front).getLast?.or before = front.getLast?.or (some c) := by
  rw [List.getLast?_cons, Option.some_or]
  cases front.getLast? <;> rfl

theorem endsInCallAfter_cons_iff :
    EndsInCallAfter before (c :: rest) ↔
      IsCall before (c :: rest) ∨ EndsInCallAfter (some c) rest := by
  rw [isCall_iff]
  constructor
  · rintro ⟨front, gap, hcode, hgap, hfront⟩
    cases front with
    | nil => exact Or.inl ⟨gap, hcode, hgap, hfront⟩
    | cons d front =>
        obtain ⟨rfl, hrest⟩ := List.cons.inj hcode
        rw [getLast?_cons_or] at hfront
        exact Or.inr ⟨front, gap, hrest, hgap, hfront⟩
  · rintro (⟨gap, hcode, hgap, hbefore⟩ | ⟨front, gap, hrest, hgap, hfront⟩)
    · exact ⟨[], gap, hcode, hgap, hbefore⟩
    · refine ⟨c :: front, gap, congrArg (c :: ·) hrest, hgap, ?_⟩
      rwa [getLast?_cons_or]

theorem not_endsInCallAfter_nil : ¬EndsInCallAfter before [] := by
  rintro ⟨front, gap, hcode, _⟩
  simp [keyword_eq] at hcode

theorem not_mem_gap (hblank : Text.isBlank c = false) (hparen : c ≠ '(') (hgap : IsGap gap) :
    c ∉ gap := by
  have hblanks : ∀ {text : List Char}, IsBlank text → c ∉ text := fun htext hmem => by
    rw [htext c hmem] at hblank
    cases hblank
  obtain ⟨blanks, opening, rfl, hfirst, rfl | ⟨more, rfl, hmore⟩⟩ := hgap
  · simpa using hblanks hfirst
  · simpa using ⟨hblanks hfirst, hparen, hblanks hmore⟩

theorem eq_of_append_cons_eq {first second tail other : List Char}
    (heq : first ++ c :: tail = second ++ c :: other) (htail : c ∉ tail) (hother : c ∉ other) :
    first = second := by
  rcases List.append_eq_append_iff.1 heq with ⟨between, rfl, hcons⟩ | ⟨between, rfl, hcons⟩
  · cases between with
    | nil => rw [List.append_nil]
    | cons d between =>
        rw [(List.cons.inj hcons).2] at htail
        exact (htail (List.mem_append_right between List.mem_cons_self)).elim
  · cases between with
    | nil => rw [List.append_nil]
    | cons d between =>
        rw [(List.cons.inj hcons).2] at hother
        exact (hother (List.mem_append_right between List.mem_cons_self)).elim

/-- A keyword that is followed by a gap up to the end leaves no room for another one: a gap has no
letters, so the last letter of the keyword has one place only. -/
theorem IsCall.not_endsInCallAfter (hcall : IsCall before (c :: rest)) :
    ¬EndsInCallAfter (some c) rest := by
  obtain ⟨gap, hcode, hgap, _⟩ := isCall_iff.1 hcall
  rintro ⟨front, other, rfl, hother, _⟩
  rw [keyword_eq] at hcode
  have heq : ['r', 'e', 'q', 'u', 'i', 'r'] ++ 'e' :: gap =
      (c :: front ++ ['r', 'e', 'q', 'u', 'i', 'r']) ++ 'e' :: other := by
    simpa using hcode.symm
  have hlength := congrArg List.length
    (eq_of_append_cons_eq heq (not_mem_gap (by decide) (by decide) hgap)
      (not_mem_gap (by decide) (by decide) hother))
  simp at hlength

/-- No call reaches back over a mark. -/
theorem endsInCall_append_nul (hfree : '\x00' ∉ text) (code : List Char) :
    EndsInCall (code ++ '\x00' :: text) ↔ EndsInCallAfter (some '\x00') text := by
  constructor
  · rintro ⟨front, gap, hcode, hgap, hfront⟩
    have hcall : '\x00' ∉ keyword ++ gap := by
      rw [List.mem_append, not_or]
      exact ⟨by decide +kernel, not_mem_gap (by decide) (by decide) hgap⟩
    rw [List.append_assoc] at hcode
    rcases List.append_eq_append_iff.1 hcode with ⟨between, rfl, htext⟩ | ⟨between, _, htext⟩
    · cases between with
      | nil =>
          rw [List.nil_append] at htext
          exact (hcall (htext ▸ List.mem_cons_self)).elim
      | cons d between =>
          obtain ⟨rfl, hrest⟩ := List.cons.inj htext
          have htail := hrest.trans (List.append_assoc between keyword gap).symm
          rw [List.getLast?_append, getLast?_cons_or] at hfront
          exact ⟨between, gap, htail, hgap, hfront⟩
    · exact (hcall (htext ▸ List.mem_append_right between List.mem_cons_self)).elim
  · rintro ⟨front, gap, rfl, hgap, hfront⟩
    refine ⟨code ++ '\x00' :: front, gap, by simp, hgap, ?_⟩
    rwa [List.getLast?_append, getLast?_cons_or]

theorem endsInCall_iff_after (code : List Char) : EndsInCall code ↔ EndsInCallAfter none code := by
  simp [EndsInCall, EndsInCallAfter]

theorem isPrefixOf_keyword_of_ne (hc : c ≠ 'r') : keyword.isPrefixOf (c :: rest) = false := by
  rw [keyword_eq, List.isPrefixOf_cons_cons, beq_eq_false_iff_ne.2 hc.symm, Bool.false_and]

theorem callsAfter_skip (hletter : 'r' ∉ text) (before : Option Char) (tail : List Char) :
    callsAfter before (text ++ tail) = callsAfter (text.getLast?.or before) tail := by
  induction text generalizing before with
  | nil => rfl
  | cons c rest ih =>
      have hc : c ≠ 'r' := fun heq => hletter (heq ▸ List.mem_cons_self)
      have hrest : 'r' ∉ rest := fun hmem => hletter (List.mem_cons_of_mem c hmem)
      rw [List.cons_append, callsAfter, isPrefixOf_keyword_of_ne hc, Bool.false_and, if_neg
        Bool.false_ne_true, Option.toList_none, List.nil_append, ih hrest, getLast?_cons_or]

theorem callsAfter_eq_nil (hfree : '\x00' ∉ text) (before : Option Char) :
    callsAfter before text = [] := by
  induction text generalizing before with
  | nil => rfl
  | cons c rest ih =>
      have hrest : '\x00' ∉ rest := fun hmem => hfree (List.mem_cons_of_mem c hmem)
      have hargument : argumentDigits? ((c :: rest).drop keyword.length) = none :=
        argumentDigits?_eq_none fun hmem => hfree (List.mem_of_mem_drop hmem)
      rw [callsAfter, hargument, ite_self, ih hrest]
      rfl

/-- A keyword at the front of a text that a NUL character follows lies in the text. -/
theorem keyword_prefix_iff {tail : List Char} :
    keyword <+: text ++ '\x00' :: tail ↔ keyword <+: text := by
  refine ⟨fun hstarts => ?_, fun hstarts => hstarts.trans (List.prefix_append _ _)⟩
  rcases Nat.le_total keyword.length text.length with hlength | hlength
  · exact List.prefix_of_prefix_length_le hstarts (List.prefix_append _ _) hlength
  · obtain ⟨more, hmore⟩ :=
      List.prefix_of_prefix_length_le (List.prefix_append _ _) hstarts hlength
    cases more with
    | nil =>
        rw [← hmore, List.append_nil]
    | cons d more =>
        rw [← hmore, List.prefix_append_right_inj] at hstarts
        have hd : d = '\x00' := (List.cons_prefix_cons.1 hstarts).1
        have hmem : '\x00' ∈ keyword := by
          rw [← hmore, hd]
          exact List.mem_append_right text List.mem_cons_self
        exact absurd hmem (by decide +kernel)

/-- The argument of a call at the front of a text that a NUL character follows. -/
theorem call_text_nul (hfree : '\x00' ∉ text) (before : Option Char) (tail : List Char) :
    (if keyword.isPrefixOf (text ++ '\x00' :: tail) && !before.any joinsKeyword then
        argumentDigits? ((text ++ '\x00' :: tail).drop keyword.length)
      else none) =
      if IsCall before text then maskDigits? ('\x00' :: tail) else none := by
  by_cases hstarts : keyword <+: text
  · have hisPrefix : keyword.isPrefixOf (text ++ '\x00' :: tail) = true :=
      List.isPrefixOf_iff_prefix.2 (keyword_prefix_iff.2 hstarts)
    have hdrop : (text ++ '\x00' :: tail).drop keyword.length =
        text.drop keyword.length ++ '\x00' :: tail :=
      List.drop_append_of_le_length hstarts.length_le
    have hgap : '\x00' ∉ text.drop keyword.length := fun hmem => hfree (List.mem_of_mem_drop hmem)
    rw [hisPrefix, hdrop, argumentDigits?_nul hgap]
    have hcall : IsCall before text ↔
        IsGap (text.drop keyword.length) ∧ before.any joinsKeyword = false := and_iff_right hstarts
    simp only [hcall]
    by_cases hbefore : before.any joinsKeyword = true
    · simp [hbefore]
    · simp [hbefore]
  · have hisPrefix : ¬keyword.isPrefixOf (text ++ '\x00' :: tail) = true := fun h =>
      hstarts (keyword_prefix_iff.1 (List.isPrefixOf_iff_prefix.1 h))
    simp [hisPrefix, IsCall, hstarts]

open Classical in
/-- The text before a NUL character ends in at most one call, and this is the only call up to
there. -/
theorem callsAfter_text_nul (hfree : '\x00' ∉ text) (before : Option Char) (tail : List Char) :
    callsAfter before (text ++ '\x00' :: tail) =
      (if EndsInCallAfter before text then (maskDigits? ('\x00' :: tail)).toList else []) ++
        callsAfter (some '\x00') tail := by
  induction text generalizing before with
  | nil =>
      have hletter : 'r' ∉ ['\x00'] := by decide
      rw [if_neg not_endsInCallAfter_nil, List.nil_append, List.nil_append]
      exact callsAfter_skip hletter before tail
  | cons c rest ih =>
      have hrest : '\x00' ∉ rest := fun hmem => hfree (List.mem_cons_of_mem c hmem)
      have hcall := call_text_nul hfree before tail
      rw [List.cons_append] at hcall ⊢
      rw [callsAfter, hcall, ih hrest, endsInCallAfter_cons_iff]
      by_cases hfront : IsCall before (c :: rest)
      · rw [if_pos hfront, if_neg hfront.not_endsInCallAfter, if_pos (Or.inl hfront),
          List.nil_append]
      · rw [if_neg hfront]
        simp only [hfront, false_or, Option.toList_none, List.nil_append]

open Classical in
/-- Before a mask this call is the one of the mask. -/
theorem callsAfter_text_mask (hfree : '\x00' ∉ text) (before : Option Char) (index : Nat)
    (tail : List Char) :
    callsAfter before (text ++ (mask index ++ tail)) =
      (if EndsInCallAfter before text then [Nat.toDigits 10 index] else []) ++
        callsAfter (some '\x00') tail := by
  have hletter : 'r' ∉ Nat.toDigits 10 index ++ ['\x00'] := by
    have hdigits : 'r' ∉ Nat.toDigits 10 index :=
      fun hmem => absurd (isDigit_of_mem_toDigits hmem) (by decide)
    simp [hdigits]
  have hmask := maskDigits?_mask index tail
  rw [mask, List.cons_append, List.cons_append] at hmask ⊢
  rw [callsAfter_text_nul hfree, hmask, callsAfter_skip hletter, List.getLast?_concat,
    Option.some_or, Option.toList_some]

end Forward

end Rebuild.Require
