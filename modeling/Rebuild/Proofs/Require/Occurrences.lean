import Rebuild.Proofs.Require.Names
import Rebuild.Proofs.Require.References

/-!
# Where references come from

What is looked up for a call is written between two marks, and a NUL character of the source is a
mark too.  So an argument is a literal, or a number that the source spells itself where an argument
belongs.  Without such a spelled number every reference is a literal that follows the keyword; with
one, the scan fails when there is no literal under the number, and names that literal otherwise.
-/

namespace Rebuild.Require

variable {source : List Char} {parts base other front gap rest : List Lexeme} {part : Lexeme}

/-! ## Calls among lexemes -/

/-- White space and comments. -/
def IsLayout : Lexeme → Prop
  | .code c => Text.isBlank c = true
  | .comment _ => True
  | .literal _ _ _ => False

/-- What can stand between the keyword and its argument: layout, and a parenthesis with layout
behind it. -/
def IsCallGap (gap : List Lexeme) : Prop :=
  ∃ blanks opening, gap = blanks ++ opening ∧ (∀ part ∈ blanks, IsLayout part) ∧
    (opening = [] ∨ ∃ more, opening = .code '(' :: more ∧ ∀ part ∈ more, IsLayout part)

/-- The lexemes `front` end in the keyword and a gap, and `base` is what stands before. -/
def KeywordAt (base front : List Lexeme) : Prop :=
  ∃ gap, front = base ++ keyword.map .code ++ gap ∧ IsCallGap gap

/-- A keyword directly behind these lexemes is part of a longer name or path. -/
def Joined (base : List Lexeme) : Prop :=
  ∃ front c, base = front ++ [.code c] ∧ joinsKeyword c = true

/-- An argument is expected behind these lexemes. -/
def AwaitsArgument (front : List Lexeme) : Prop :=
  ∃ base, KeywordAt base front ∧ ¬Joined base

theorem isLayout_iff : IsLayout part ↔ Text.isBlank (codeChar part) = true := by
  cases part with
  | code c => exact Iff.rfl
  | comment text => exact iff_of_true trivial (by decide : Text.isBlank ' ' = true)
  | literal opening body closing =>
      exact iff_of_false id (by decide : ¬Text.isBlank '\x00' = true)

theorem isBlank_map_iff : IsBlank (gap.map codeChar) ↔ ∀ part ∈ gap, IsLayout part := by
  simp [IsBlank, isLayout_iff]

theorem eq_code_of_codeChar {c : Char} (hpart : codeChar part = c) (hblank : c ≠ ' ')
    (hnul : c ≠ '\x00') : part = .code c := by
  cases part with
  | code d => exact congrArg _ hpart
  | comment text => exact absurd hpart.symm hblank
  | literal opening body closing => exact absurd hpart.symm hnul

theorem map_code_codeChar (text : List Char) : (text.map Lexeme.code).map codeChar = text := by
  rw [List.map_map]
  exact List.map_id text

/-- Only code stands for text without spaces and NUL characters. -/
theorem eq_map_code {text : List Char} (hfront : front.map codeChar = text) (hblank : ' ' ∉ text)
    (hnul : '\x00' ∉ text) : front = text.map .code := by
  subst hfront
  rw [List.map_map]
  refine (List.map_id front).symm.trans (List.map_congr_left fun part hpart => ?_)
  have hmem := List.mem_map_of_mem (f := codeChar) hpart
  exact eq_code_of_codeChar rfl (fun heq => hblank (heq ▸ hmem)) fun heq => hnul (heq ▸ hmem)

theorem isGap_map_iff : IsGap (gap.map codeChar) ↔ IsCallGap gap := by
  constructor
  · rintro ⟨_, _, hgap, hblanks, hopening⟩
    obtain ⟨blanks, opening, rfl, rfl, rfl⟩ := List.map_eq_append_iff.1 hgap
    refine ⟨blanks, opening, rfl, isBlank_map_iff.1 hblanks, ?_⟩
    rcases hopening with hnil | ⟨_, hcons, hmore⟩
    · exact .inl (List.map_eq_nil_iff.1 hnil)
    · obtain ⟨paren, more, rfl, hparen, rfl⟩ := List.map_eq_cons_iff.1 hcons
      rw [eq_code_of_codeChar hparen (by decide) (by decide)]
      exact .inr ⟨more, rfl, isBlank_map_iff.1 hmore⟩
  · rintro ⟨blanks, opening, rfl, hblanks, hopening⟩
    refine ⟨_, _, List.map_append, isBlank_map_iff.2 hblanks, ?_⟩
    rcases hopening with rfl | ⟨more, rfl, hmore⟩
    · exact .inl rfl
    · exact .inr ⟨more.map codeChar, rfl, isBlank_map_iff.2 hmore⟩

theorem joined_iff : Joined base ↔ (base.map codeChar).getLast?.any joinsKeyword = true := by
  constructor
  · rintro ⟨front, c, rfl, hc⟩
    simpa [codeChar] using hc
  · intro hlast
    rcases List.eq_nil_or_concat base with rfl | ⟨front, part, rfl⟩
    · cases hlast
    · have hpart : joinsKeyword (codeChar part) = true := by simpa using hlast
      have hblank : codeChar part ≠ ' ' := fun heq => by
        rw [heq] at hpart
        exact absurd hpart (by decide)
      have hnul : codeChar part ≠ '\x00' := fun heq => by
        rw [heq] at hpart
        exact absurd hpart (by decide)
      exact ⟨front, codeChar part, by simp [← eq_code_of_codeChar rfl hblank hnul], hpart⟩

theorem endsInCall_map_iff : EndsInCall (front.map codeChar) ↔ AwaitsArgument front := by
  constructor
  · rintro ⟨_, _, hfront, hgap, hbase⟩
    obtain ⟨_, gap, rfl, hcall, rfl⟩ := List.map_eq_append_iff.1 hfront
    obtain ⟨base, word, rfl, rfl, hword⟩ := List.map_eq_append_iff.1 hcall
    have hkeyword : word = keyword.map .code :=
      eq_map_code hword (by decide +kernel) (by decide +kernel)
    rw [← Bool.not_eq_true, ← joined_iff] at hbase
    exact ⟨base, ⟨gap, hkeyword ▸ rfl, isGap_map_iff.1 hgap⟩, hbase⟩
  · rintro ⟨base, ⟨gap, rfl, hgap⟩, hbase⟩
    rw [joined_iff, Bool.not_eq_true] at hbase
    refine ⟨base.map codeChar, gap.map codeChar, ?_, isGap_map_iff.2 hgap, hbase⟩
    rw [List.map_append, List.map_append, map_code_codeChar]

/-- A gap has no letters, so the last letter of the keyword has one place only. -/
theorem KeywordAt.unique (hbase : KeywordAt base front) (hother : KeywordAt other front) :
    base = other := by
  obtain ⟨gap, rfl, hgap⟩ := hbase
  obtain ⟨more, heq, hmore⟩ := hother
  have hletter : ∀ {gap : List Lexeme}, IsCallGap gap → 'e' ∉ gap.map codeChar := fun hgap =>
    not_mem_gap (by decide) (by decide) (isGap_map_iff.2 hgap)
  have hchars := congrArg (List.map codeChar) heq
  simp only [List.map_append, map_code_codeChar, keyword_eq] at hchars
  have hsplit : (base.map codeChar ++ ['r', 'e', 'q', 'u', 'i', 'r']) ++ 'e' :: gap.map codeChar =
      (other.map codeChar ++ ['r', 'e', 'q', 'u', 'i', 'r']) ++ 'e' :: more.map codeChar := by
    simpa using hchars
  have hlength := congrArg List.length
    (eq_of_append_cons_eq hsplit (hletter hgap) (hletter hmore))
  simp only [List.length_append, List.length_map, Nat.add_right_cancel_iff] at hlength
  rw [List.append_assoc, List.append_assoc] at heq
  exact (List.append_inj heq hlength).1

theorem KeywordAt.awaitsArgument_iff (hbase : KeywordAt base front) :
    AwaitsArgument front ↔ ¬Joined base := by
  constructor
  · rintro ⟨other, hother, hfree⟩
    rwa [hbase.unique hother]
  · exact fun hfree => ⟨base, hbase, hfree⟩

/-! ## Arguments -/

/-- A literal with this body stands where an argument is expected. -/
def IsArgument (parts : List Lexeme) (body : List Char) : Prop :=
  ∃ front opening closing rest, parts = front ++ .literal opening body closing :: rest ∧
    AwaitsArgument front

/-- The code itself writes these digits, between a NUL character and a NUL character or a literal,
where an argument is expected. -/
def SpellsArgument (parts : List Lexeme) (digits : List Char) : Prop :=
  ∃ front mark rest, parts = front ++ .code '\x00' :: (digits.map .code ++ mark :: rest) ∧
    AwaitsArgument front ∧ codeChar mark = '\x00' ∧ digits ≠ [] ∧
      ∀ c ∈ digits, Text.isDigit c = true

section LookedUp

variable {index : Nat} {code digits text : List Char}

theorem maskDigits?_eq_some_iff :
    maskDigits? ('\x00' :: text) = some digits ↔
      (∃ tail, text = digits ++ '\x00' :: tail) ∧ digits ≠ [] ∧
        ∀ c ∈ digits, Text.isDigit c = true := by
  have hnul : ¬Text.isDigit '\x00' = true := by decide
  constructor
  · intro hdigits
    unfold maskDigits? at hdigits
    split at hdigits
    next rest heq =>
      obtain rfl := (List.cons.inj heq).2
      split at hdigits
      next => cases hdigits
      next tail hdrop hne =>
        cases hdigits
        refine ⟨⟨tail, ?_⟩, hne, fun c hc => ?_⟩
        · rw [← hdrop, List.takeWhile_append_dropWhile]
        · exact List.all_eq_true.1 List.all_takeWhile c hc
      next => cases hdigits
    next => cases hdigits
  · rintro ⟨⟨tail, rfl⟩, hne, hdigits⟩
    have htake : (digits ++ '\x00' :: tail).takeWhile Text.isDigit = digits := by
      rw [List.takeWhile_append_of_pos hdigits, List.takeWhile_cons_of_neg hnul, List.append_nil]
    have hdrop : (digits ++ '\x00' :: tail).dropWhile Text.isDigit = '\x00' :: tail := by
      rw [List.dropWhile_append_of_pos hdigits, List.dropWhile_cons_of_neg hnul]
    simp only [maskDigits?, htake, hdrop]

theorem maskedFrom_cons (index : Nat) (part : Lexeme) (rest : List Lexeme) :
    ∃ tail, maskedFrom index (part :: rest) = codeChar part :: tail := by
  cases part with
  | code c => exact ⟨_, rfl⟩
  | comment text => exact ⟨_, rfl⟩
  | literal opening body closing => exact ⟨_, rfl⟩

/-- Digits in masked code that a mark follows are digits of the code. -/
theorem maskedFrom_eq_digits_iff (hdigits : ∀ c ∈ digits, Text.isDigit c = true) :
    (∃ tail, maskedFrom index rest = digits ++ '\x00' :: tail) ↔
      ∃ mark more, rest = digits.map .code ++ mark :: more ∧ codeChar mark = '\x00' := by
  induction digits generalizing rest with
  | nil =>
      cases rest with
      | nil => simp [maskedFrom]
      | cons part rest =>
          obtain ⟨tail, htail⟩ := maskedFrom_cons index part rest
          simp [htail]
  | cons digit digits ih =>
      have hdigit := hdigits digit List.mem_cons_self
      have hmore := @ih rest.tail fun c hc => hdigits c (List.mem_cons_of_mem digit hc)
      cases rest with
      | nil => simp [maskedFrom]
      | cons part rest =>
          -- a comment masks as a space and a literal begins with a mark, so a digit is code
          have hpart : ∀ tail, maskedFrom index (part :: rest) = digit :: tail →
              part = .code digit := by
            intro tail heq
            obtain ⟨other, hother⟩ := maskedFrom_cons index part rest
            rw [hother] at heq
            refine eq_code_of_codeChar (List.cons.inj heq).1 ?_ ?_
            · rintro rfl
              exact absurd hdigit (by decide)
            · rintro rfl
              exact absurd hdigit (by decide)
          constructor
          · rintro ⟨tail, htail⟩
            obtain rfl := hpart _ htail
            obtain ⟨mark, more, heq, hmark⟩ := hmore.1 ⟨tail, (List.cons.inj htail).2⟩
            exact ⟨mark, more, congrArg (_ :: ·) heq, hmark⟩
          · rintro ⟨mark, more, heq, hmark⟩
            obtain ⟨rfl, hrest⟩ := List.cons.inj heq
            obtain ⟨tail, htail⟩ := hmore.2 ⟨mark, more, hrest, hmark⟩
            exact ⟨tail, congrArg (digit :: ·) htail⟩

theorem literals_append (front rest : List Lexeme) :
    literals (front ++ rest) = literals front ++ literals rest := by
  induction front with
  | nil => rfl
  | cons part front ih =>
      cases part with
      | code c => exact ih
      | comment text => exact ih
      | literal opening body closing => exact congrArg (body :: ·) ih

theorem getElem?_literals (front : List Lexeme) (opening body closing : List Char)
    (rest : List Lexeme) :
    (literals (front ++ .literal opening body closing :: rest))[(literals front).length]? =
      some body := by
  rw [literals_append, List.getElem?_append_right (le_refl _), Nat.sub_self]
  rfl

theorem mem_digitsAfter_iff :
    digits ∈ digitsAfter index code parts ↔
      ∃ front part rest, parts = front ++ part :: rest ∧ EndsInCall (code ++ front.map codeChar) ∧
        maskDigits? (maskedFrom (index + (literals front).length) (part :: rest)) =
          some digits := by
  induction parts generalizing index code with
  | nil => simp [digitsAfter]
  | cons part rest ih =>
      have hfirst : digits ∈ (if EndsInCall code then
            (maskDigits? (maskedFrom index (part :: rest))).toList else []) ↔
          EndsInCall code ∧ maskDigits? (maskedFrom index (part :: rest)) = some digits := by
        split <;> simp_all
      rw [digitsAfter, List.mem_append, hfirst, ih]
      constructor
      · rintro (⟨hcall, hdigits⟩ | ⟨front, other, more, rfl, hcall, hdigits⟩)
        · exact ⟨[], part, rest, rfl, by simpa using hcall, hdigits⟩
        · refine ⟨part :: front, other, more, rfl, by simpa using hcall, ?_⟩
          rwa [← List.singleton_append, literals_append, List.length_append, ← Nat.add_assoc]
      · rintro ⟨front, other, more, heq, hcall, hdigits⟩
        cases front with
        | nil =>
            obtain ⟨rfl, rfl⟩ := List.cons.inj heq
            exact .inl ⟨by simpa using hcall, hdigits⟩
        | cons first front =>
            obtain ⟨rfl, rfl⟩ := List.cons.inj heq
            refine .inr ⟨front, other, more, rfl, by simpa using hcall, ?_⟩
            rwa [← List.singleton_append, literals_append, List.length_append,
              ← Nat.add_assoc] at hdigits

end LookedUp

/-- What is looked up are the literals that are arguments and the numbers that are spelled. -/
theorem exists_literalAt_iff {outcome : Except ScanError (List Char)} :
    (∃ digits ∈ digitsAfter 0 [] parts, literalAt (literals parts) digits = outcome) ↔
      (∃ body, IsArgument parts body ∧ outcome = .ok body) ∨
        ∃ digits, SpellsArgument parts digits ∧ literalAt (literals parts) digits = outcome := by
  simp only [mem_digitsAfter_iff, List.nil_append, Nat.zero_add, endsInCall_map_iff]
  constructor
  · rintro ⟨digits, ⟨front, part, rest, rfl, hcall, hdigits⟩, houtcome⟩
    cases part with
    | code c =>
        by_cases hc : c = '\x00'
        · subst hc
          obtain ⟨htail, hne, hall⟩ := maskDigits?_eq_some_iff.1 hdigits
          obtain ⟨mark, more, rfl, hmark⟩ := (maskedFrom_eq_digits_iff hall).1 htail
          exact .inr ⟨digits, ⟨front, mark, more, rfl, hcall, hmark, hne, hall⟩, houtcome⟩
        · rw [maskedFrom, maskDigits?_of_ne hc] at hdigits
          cases hdigits
    | comment text =>
        rw [maskedFrom, maskDigits?_of_ne (by decide)] at hdigits
        cases hdigits
    | literal opening body closing =>
        rw [maskedFrom, maskDigits?_mask] at hdigits
        cases hdigits
        rw [literalAt_toDigits (getElem?_literals front opening body closing rest)] at houtcome
        exact .inl ⟨body, ⟨front, opening, closing, rest, rfl, hcall⟩, houtcome.symm⟩
  · rintro (⟨body, ⟨front, opening, closing, rest, rfl, hcall⟩, rfl⟩ |
      ⟨digits, ⟨front, mark, rest, rfl, hcall, hmark, hne, hall⟩, houtcome⟩)
    · refine ⟨_, ⟨front, _, rest, rfl, hcall, ?_⟩,
        literalAt_toDigits (getElem?_literals front opening body closing rest)⟩
      rw [maskedFrom, maskDigits?_mask]
    · refine ⟨digits, ⟨front, _, _, rfl, hcall, ?_⟩, houtcome⟩
      rw [maskedFrom, maskDigits?_eq_some_iff]
      exact ⟨(maskedFrom_eq_digits_iff hall).2 ⟨mark, rest, rfl, hmark⟩, hne, hall⟩

/-! ## Names -/

theorem mem_collect_nil_iff {bodies : List (List Char)} {name : String} :
    name ∈ collect [] bodies ↔
      name ≠ "" ∧ ∃ body ∈ bodies, name = String.ofList (Text.strip body) := by
  rw [collect_eq, List.nil_append, List.mem_eraseDups, List.mem_filter, List.mem_map, and_comm]
  exact and_congr (by simp) (exists_congr fun body => and_congr_right fun _ => eq_comm)

/-- The scan returns exactly when every spelled number has a literal. -/
theorem exists_references_iff (hparts : Decomposes source parts) :
    (∃ names, references source = .ok names) ↔
      ∀ digits, SpellsArgument parts digits →
        ∃ body, literalAt (literals parts) digits = .ok body := by
  have hfound : (∃ names, references source = .ok names) ↔
      ∃ found, (digitsAfter 0 [] parts).mapM (literalAt (literals parts)) = .ok found := by
    rw [references_eq_of_decomposes hparts]
    cases (digitsAfter 0 [] parts).mapM (literalAt (literals parts)) with
    | error error => simp [Except.map]
    | ok found => simp [Except.map]
  rw [hfound, exists_mapM_eq_ok_iff]
  constructor
  · intro hall digits hspells
    obtain ⟨other, hother, hsame⟩ := exists_literalAt_iff.2 (.inr ⟨digits, hspells, rfl⟩)
    rw [← hsame]
    exact hall other hother
  · intro hall digits hdigits
    rcases exists_literalAt_iff.1 ⟨digits, hdigits, rfl⟩ with
      ⟨body, -, hbody⟩ | ⟨other, hspells, hsame⟩
    · exact ⟨body, hbody⟩
    · rw [← hsame]
      exact hall other hspells

/-- The references are the names of the arguments and of the literals whose numbers are spelled. -/
theorem mem_references_iff (hparts : Decomposes source parts) {names : List String}
    (hnames : references source = .ok names) {name : String} :
    name ∈ names ↔ name ≠ "" ∧ ∃ body, name = String.ofList (Text.strip body) ∧
      (IsArgument parts body ∨
        ∃ digits, SpellsArgument parts digits ∧ literalAt (literals parts) digits = .ok body) := by
  rw [references_eq_of_decomposes hparts] at hnames
  cases hfound : (digitsAfter 0 [] parts).mapM (literalAt (literals parts)) with
  | error error =>
      rw [hfound] at hnames
      cases hnames
  | ok found =>
      rw [hfound] at hnames
      cases hnames
      have hbody : ∀ body, body ∈ found ↔ IsArgument parts body ∨
          ∃ digits, SpellsArgument parts digits ∧
            literalAt (literals parts) digits = .ok body := by
        intro body
        rw [mem_iff_of_mapM_eq_ok hfound, exists_literalAt_iff]
        simp
      rw [mem_collect_nil_iff]
      simp only [hbody, and_comm]

theorem Decomposes.not_spellsArgument (hparts : Decomposes source parts) (hfree : '\x00' ∉ source)
    (digits : List Char) : ¬SpellsArgument parts digits := by
  rintro ⟨front, mark, rest, rfl, -⟩
  exact hfree (hparts.mem_of_code (List.mem_append_right front List.mem_cons_self))

/-- Every source is either rejected for something left open or falls into lexemes.  Then the
references are the names of the literals that are arguments, unless the source spells a number
where an argument belongs: the scan fails exactly when there is no literal under such a number, and
otherwise the literal with the number is a reference too. -/
theorem references_stem_from_arguments (source : List Char) :
    (LeavesOpen source ∧ ∃ what, references source = .error (.unclosed what)) ∨
      ∃ parts, Decomposes source parts ∧
        ((∀ digits, ¬SpellsArgument parts digits) →
          ∃ names, references source = .ok names ∧ ∀ name, name ∈ names ↔ name ≠ "" ∧
            ∃ body, name = String.ofList (Text.strip body) ∧ IsArgument parts body) ∧
        ((∃ names, references source = .ok names) ↔ ∀ digits, SpellsArgument parts digits →
          ∃ body, literalAt (literals parts) digits = .ok body) ∧
        ∀ names, references source = .ok names → ∀ name, name ∈ names ↔ name ≠ "" ∧
          ∃ body, name = String.ofList (Text.strip body) ∧ (IsArgument parts body ∨
            ∃ digits, SpellsArgument parts digits ∧
              literalAt (literals parts) digits = .ok body) := by
  rcases exists_decomposes_or_leavesOpen source with ⟨parts, hparts⟩ | hopen
  · refine .inr ⟨parts, hparts, fun hnone => ?_, exists_references_iff hparts,
      fun names hnames name => mem_references_iff hparts hnames⟩
    obtain ⟨names, hnames⟩ :=
      (exists_references_iff hparts).2 fun digits hspells => (hnone digits hspells).elim
    refine ⟨names, hnames, fun name => (mem_references_iff hparts hnames).trans ?_⟩
    simp [hnone]
  · exact .inl ⟨hopen, references_of_leavesOpen hopen⟩

theorem decomposes_of_lexemes (hparts : lexemes source = .ok parts) : Decomposes source parts := by
  rcases exists_decomposes_or_leavesOpen source with ⟨other, hother⟩ | hopen
  · have hsame := hparts.symm.trans (lexemesFrom_of_decomposes hother 1)
    rwa [Except.ok.inj hsame]
  · obtain ⟨unclosed, herror⟩ := lexemesFrom_of_leavesOpen hopen 1
    cases hparts.symm.trans herror

theorem Decomposes.mem_lexemes (hparts : Decomposes source parts) :
    parts ∈ (lexemes source).toOption := by
  rw [lexemes, lexemesFrom_of_decomposes hparts]
  rfl

/-- Whether an argument is expected can be tested at every place of the given lexemes. -/
theorem not_awaitsArgument {test : Lexeme → Bool}
    (htest : ∀ place ∈ List.range parts.length, parts[place]?.any test = true →
      ¬EndsInCall ((parts.take place).map codeChar))
    (hsplit : parts = front ++ part :: rest) (hpart : test part = true) :
    ¬AwaitsArgument front := by
  subst hsplit
  have hplace := htest front.length (by simp) (by simpa using hpart)
  rwa [List.take_left, endsInCall_map_iff] at hplace

/-- NUL characters with digits between them in a comment, in a string and in code. -/
def scatteredMarks : List Char :=
  "require --\x000\x00\n \"a\" s = '\x001\x00' \x001\x00 \x00".toList

theorem references_stem_from_arguments_scatteredMarks :
    ∃ parts, Decomposes scatteredMarks parts ∧ (∀ digits, ¬SpellsArgument parts digits) ∧
      references scatteredMarks = .ok ["a"] ∧
      ∃ body, "a" = String.ofList (Text.strip body) ∧ IsArgument parts body := by
  have hnames : references scatteredMarks = .ok ["a"] := by decide +kernel
  have htest : ∀ parts ∈ (lexemes scatteredMarks).toOption, ∀ place ∈ List.range parts.length,
      parts[place]?.any (· = .code '\x00') = true →
        ¬EndsInCall ((parts.take place).map codeChar) := by
    decide +kernel
  rcases references_stem_from_arguments scatteredMarks with
    ⟨hopen, -⟩ | ⟨parts, hparts, hsound, -⟩
  · exact absurd hopen (not_leavesOpen_of_references hnames)
  · have hnone : ∀ digits, ¬SpellsArgument parts digits := by
      rintro digits ⟨front, mark, rest, hsplit, hcall, -⟩
      exact not_awaitsArgument (htest parts hparts.mem_lexemes) hsplit (decide_eq_true rfl) hcall
    obtain ⟨names, hok, hiff⟩ := hsound hnone
    obtain rfl := Except.ok.inj (hnames.symm.trans hok)
    exact ⟨parts, hparts, hnone, hnames, ((hiff "a").1 List.mem_cons_self).2⟩

/-- A number for which there is no literal. -/
def looseMark : List Char :=
  "require\x000\x00".toList

/-- The same number with a literal that is no argument. -/
def strayMark : List Char :=
  looseMark ++ " local s = \"x\"".toList

def strayParts : List Lexeme :=
  (looseMark ++ " local s = ".toList).map .code ++ [.literal ['"'] ['x'] ['"']]

def Lexeme.isLiteral : Lexeme → Bool
  | .literal _ _ _ => true
  | _ => false

/-- A spelled number without a literal makes the scan fail although nothing is left open, and one
with a literal makes a reference of a literal that follows no keyword. -/
theorem spelled_numbers_are_looked_up :
    ¬((∃ names, references looseMark = .ok names) ∨
        ∃ what, references looseMark = .error (.unclosed what)) ∧
      ∃ parts, Decomposes strayMark parts ∧ references strayMark = .ok ["x"] ∧
        ∀ body, ¬IsArgument parts body := by
  have hfails : references looseMark = .error (.noSuchLiteral 0) := by decide +kernel
  have hnames : references strayMark = .ok ["x"] := by decide +kernel
  have hlexemes : lexemes strayMark = .ok strayParts := by decide +kernel
  have htest : ∀ place ∈ List.range strayParts.length,
      strayParts[place]?.any Lexeme.isLiteral = true →
        ¬EndsInCall ((strayParts.take place).map codeChar) := by
    decide +kernel
  refine ⟨by simp [hfails], strayParts, decomposes_of_lexemes hlexemes, hnames, ?_⟩
  rintro body ⟨front, opening, closing, rest, hsplit, hcall⟩
  exact not_awaitsArgument htest hsplit rfl hcall

end Rebuild.Require
