import Rebuild.Require.Lexeme
import Mathlib.Tactic

/-!
# Cutting a source at its leftmost openers

The lexer goes through a source character by character.  What it finds can be said without a cursor:
look for the leftmost place where a comment or a string opens, take everything before it as code and
everything up to its closing as one lexeme, and go on behind that.  A source has such a
decomposition exactly when the lexer accepts it, and the lexemes are the same; it is rejected
exactly when the decomposition meets an opening that is never closed.
-/

namespace Rebuild.Require

/-! ## The leftmost of several marks -/

/-- A text is cut at the leftmost place where one of the marks stands. -/
structure LeftmostOf (marks : List Char → Prop) (text before mark after : List Char) : Prop where
  isMark : marks mark
  split : text = before ++ mark ++ after
  first : ∀ front other back, marks other → text = front ++ other ++ back →
    before.length ≤ front.length

def StartsWith (marks : List Char → Prop) (text : List Char) : Prop :=
  ∃ mark, marks mark ∧ mark <+: text

def HasNone (marks : List Char → Prop) (text : List Char) : Prop :=
  ∀ mark, marks mark → ¬mark <:+: text

section LeftmostOf

variable {marks : List Char → Prop} {c d : Char} {text rest before mark after : List Char}

theorem leftmostOf_nil_iff :
    LeftmostOf marks text [] mark after ↔ marks mark ∧ text = mark ++ after := by
  constructor
  · exact fun h => ⟨h.isMark, h.split⟩
  · exact fun ⟨hmark, hsplit⟩ => ⟨hmark, hsplit, fun _ _ _ _ _ => Nat.zero_le _⟩

theorem leftmostOf_cons_iff :
    LeftmostOf marks (c :: rest) (d :: before) mark after ↔
      d = c ∧ ¬StartsWith marks (c :: rest) ∧ LeftmostOf marks rest before mark after := by
  constructor
  · intro h
    have hsplit : c = d ∧ rest = before ++ mark ++ after := by simpa using h.split
    refine ⟨hsplit.1.symm, ?_, h.isMark, hsplit.2, ?_⟩
    · rintro ⟨other, hother, back, hback⟩
      have hfirst := h.first [] other back hother hback.symm
      simp at hfirst
    · intro front other back hother hback
      have hfirst := h.first (c :: front) other back hother (congrArg (c :: ·) hback)
      simpa using hfirst
  · rintro ⟨rfl, hstart, h⟩
    refine ⟨h.isMark, congrArg (d :: ·) h.split, ?_⟩
    intro front other back hother hback
    cases front with
    | nil => exact (hstart ⟨other, hother, back, hback.symm⟩).elim
    | cons e front =>
        have htail : rest = front ++ other ++ back := (List.cons.inj hback).2
        exact Nat.succ_le_succ (h.first front other back hother htail)

theorem hasNone_cons_iff :
    HasNone marks (c :: rest) ↔ ¬StartsWith marks (c :: rest) ∧ HasNone marks rest := by
  simp only [HasNone, StartsWith, List.infix_cons_iff]
  grind

/-- Cutting at a mark finds its leftmost occurrence, if there is one. -/
theorem cutAt_eq_some_iff (hmark : mark ≠ []) :
    cutAt mark text = some (before, after) ↔ LeftmostOf (· = mark) text before mark after := by
  induction text generalizing before with
  | nil =>
      constructor
      · intro h
        cases h
      · intro h
        have hsplit := h.split
        simp [hmark] at hsplit
  | cons c rest ih =>
      have hstart : StartsWith (· = mark) (c :: rest) ↔ mark.isPrefixOf (c :: rest) = true := by
        simp [StartsWith, List.isPrefixOf_iff_prefix]
      unfold cutAt
      cases before with
      | nil =>
          rw [leftmostOf_nil_iff]
          split
          next hstarts =>
            obtain ⟨tail, htail⟩ := List.isPrefixOf_iff_prefix.1 hstarts
            simp [← htail]
          next hstarts =>
            rw [List.isPrefixOf_iff_prefix] at hstarts
            refine ⟨fun h => ?_, fun h => (hstarts ⟨after, h.2.symm⟩).elim⟩
            simp at h
      | cons d before =>
          rw [leftmostOf_cons_iff, hstart, ← ih]
          split
          next hstarts => simp [hstarts]
          next hstarts => simp [hstarts, eq_comm, and_comm]

end LeftmostOf

/-! ## Openings and what closes them -/

/-- The ways in which a comment or a string opens. -/
inductive Opener where
  | dashes
  | quote (mark : Char) (isQuote : mark = '"' ∨ mark = '\'')
  | bracket (level : Nat)

def Opener.text : Opener → List Char
  | .dashes => ['-', '-']
  | .quote mark _ => [mark]
  | .bracket level => longOpening level

def IsOpener (text : List Char) : Prop :=
  ∃ opener : Opener, opener.text = text

/-- What can stand between two quotes: a backslash protects the character after it. -/
inductive QuotedBody (quote : Char) : List Char → Prop
  | nil : QuotedBody quote []
  | escaped {c : Char} {rest : List Char} (hrest : QuotedBody quote rest) :
      QuotedBody quote ('\\' :: c :: rest)
  | plain {c : Char} {rest : List Char} (hbackslash : c ≠ '\\') (hquote : c ≠ quote)
      (hline : c ≠ '\n') (hrest : QuotedBody quote rest) : QuotedBody quote (c :: rest)

/-- The text behind an opening is cut behind the closing; the lexeme comes with both. -/
inductive Closes : Opener → List Char → Lexeme → List Char → Prop
  | longComment {level : Nat} {inside body after : List Char}
      (hcut : LeftmostOf (· = longClosing level) inside body (longClosing level) after) :
      Closes .dashes (longOpening level ++ inside)
        (.comment ('-' :: '-' :: longOpening level ++ body ++ longClosing level)) after
  | lineComment {text after : List Char} (hlong : ∀ level, ¬longOpening level <+: text ++ after)
      (hline : '\n' ∉ text) (hend : after = [] ∨ ∃ more, after = '\n' :: more) :
      Closes .dashes (text ++ after) (.comment ('-' :: '-' :: text)) after
  | quoted {quote : Char} {isQuote : quote = '"' ∨ quote = '\''} {body after : List Char}
      (hbody : QuotedBody quote body) :
      Closes (.quote quote isQuote) (body ++ quote :: after) (.literal [quote] body [quote]) after
  | longString {level : Nat} {inside body after : List Char}
      (hcut : LeftmostOf (· = longClosing level) inside body (longClosing level) after) :
      Closes (.bracket level) inside
        (.literal (longOpening level) body (longClosing level)) after

/-- A source falls into lexemes by taking its leftmost opening again and again. -/
inductive Decomposes : List Char → List Lexeme → Prop
  | code {source : List Char} (hnone : HasNone IsOpener source) :
      Decomposes source (source.map .code)
  | opened {source before inside after : List Char} {opener : Opener} {lexeme : Lexeme}
      {parts : List Lexeme} (hopener : LeftmostOf IsOpener source before opener.text inside)
      (hcloses : Closes opener inside lexeme after) (hrest : Decomposes after parts) :
      Decomposes source (before.map .code ++ lexeme :: parts)

/-- Taking the leftmost opening again and again meets one that is not closed. -/
inductive LeavesOpen : List Char → Prop
  | here {source before inside : List Char} {opener : Opener}
      (hopener : LeftmostOf IsOpener source before opener.text inside)
      (hopen : ∀ lexeme after, ¬Closes opener inside lexeme after) : LeavesOpen source
  | later {source before inside after : List Char} {opener : Opener} {lexeme : Lexeme}
      (hopener : LeftmostOf IsOpener source before opener.text inside)
      (hcloses : Closes opener inside lexeme after) (hrest : LeavesOpen after) : LeavesOpen source

/-! ## One lexeme -/

section Step

variable {text before after inside rest : List Char} {c : Char} {line : Nat} {opener : Opener}
  {lexeme : Lexeme}

theorem longClosing_ne_nil (level : Nat) : longClosing level ≠ [] :=
  List.cons_ne_nil _ _

theorem longOpening?_eq_some_iff {level : Nat} :
    longOpening? text = some (level, after) ↔ text = longOpening level ++ after := by
  refine ⟨fun h => (longOpening?_append h).symm, ?_⟩
  rintro rfl
  have hequals : ∀ c ∈ List.replicate level '=', (c == '=') = true := fun c hc => by
    rw [List.eq_of_mem_replicate hc, beq_self_eq_true]
  have htext : longOpening level ++ after = '[' :: (List.replicate level '=' ++ '[' :: after) := by
    simp [longOpening]
  rw [htext, longOpening?, List.dropWhile_append_of_pos hequals,
    List.takeWhile_append_of_pos hequals]
  simp

theorem longOpening?_eq_none_iff :
    longOpening? text = none ↔ ∀ level, ¬longOpening level <+: text := by
  constructor
  · rintro hnone level ⟨after, rfl⟩
    rw [longOpening?_eq_some_iff.2 rfl] at hnone
    cases hnone
  · intro hnone
    cases h : longOpening? text with
    | none => rfl
    | some pair =>
        obtain ⟨level, after⟩ := pair
        exact (hnone level ⟨after, (longOpening?_eq_some_iff.1 h).symm⟩).elim

/-- Cutting at a quote finds the end of the quoted body, if there is one. -/
theorem cutAtQuote_eq_some_iff {quote : Char} (hquote : quote ≠ '\\') :
    cutAtQuote quote text = some (before, after) ↔
      QuotedBody quote before ∧ text = before ++ quote :: after := by
  fun_induction cutAtQuote quote text generalizing before with
  | case1 => simp
  | case2 c rest ih =>
      rw [Option.map_eq_some_iff]
      constructor
      · rintro ⟨⟨front, back⟩, hcut, heq⟩
        obtain ⟨rfl, rfl⟩ := Prod.mk.inj heq
        obtain ⟨hbody, rfl⟩ := ih.1 hcut
        exact ⟨.escaped hbody, rfl⟩
      · rintro ⟨hbody, htext⟩
        cases hbody with
        | nil => exact (hquote (List.cons.inj htext).1.symm).elim
        | @escaped c' front hfront =>
            simp only [List.cons_append, List.cons.injEq, true_and] at htext
            obtain ⟨rfl, htext⟩ := htext
            exact ⟨(front, after), ih.2 ⟨hfront, htext⟩, rfl⟩
        | plain hbackslash => exact (hbackslash (List.cons.inj htext).1.symm).elim
  | case3 rest hescape =>
      constructor
      · intro h
        cases h
        exact ⟨.nil, rfl⟩
      · rintro ⟨hbody, htext⟩
        cases hbody with
        | nil =>
            cases htext
            rfl
        | escaped => exact (hquote (List.cons.inj htext).1).elim
        | plain _ hother => exact (hother (List.cons.inj htext).1.symm).elim
  | case4 rest hescape hother =>
      constructor
      · intro h
        cases h
      · rintro ⟨hbody, htext⟩
        cases hbody with
        | nil => exact (hother (List.cons.inj htext).1).elim
        | escaped => exact absurd (List.cons.inj htext).1 (by decide)
        | plain _ _ hline => exact (hline (List.cons.inj htext).1.symm).elim
  | case5 c rest hescape hother hline ih =>
      rw [Option.map_eq_some_iff]
      constructor
      · rintro ⟨⟨front, back⟩, hcut, heq⟩
        obtain ⟨rfl, rfl⟩ := Prod.mk.inj heq
        obtain ⟨hbody, rfl⟩ := ih.1 hcut
        refine ⟨.plain (fun hbackslash => ?_) hother hline hbody, rfl⟩
        obtain ⟨next, more, hnext⟩ := List.exists_cons_of_ne_nil (List.append_ne_nil_of_right_ne_nil
          front (List.cons_ne_nil quote back))
        exact hescape next more hbackslash hnext
      · rintro ⟨hbody, htext⟩
        cases hbody with
        | nil => exact (hother (List.cons.inj htext).1).elim
        | escaped => exact (hescape _ _ (List.cons.inj htext).1 (List.cons.inj htext).2).elim
        | @plain c' front _ _ _ hfront =>
            obtain ⟨rfl, hrest⟩ := List.cons.inj htext
            exact ⟨(front, after), ih.2 ⟨hfront, hrest⟩, rfl⟩

/-! What the lexer does at each kind of opening. -/

theorem next_longComment (line level : Nat) (inside : List Char) :
    next line '-' ('-' :: (longOpening level ++ inside)) =
      (cutAt (longClosing level) inside).elim (.error .comment) fun (body, after) =>
        .ok (.comment ('-' :: '-' :: longOpening level ++ body ++ longClosing level), after) := by
  have hlong := longOpening?_eq_some_iff.2 (Eq.refl (longOpening level ++ inside))
  simp only [next, hlong]
  cases cutAt (longClosing level) inside with
  | none => rfl
  | some cut => rfl

theorem next_lineComment (line : Nat) (hlong : longOpening? text = none) :
    next line '-' ('-' :: text) =
      .ok (.comment ('-' :: '-' :: text.takeWhile (· != '\n')), text.dropWhile (· != '\n')) := by
  simp only [next, hlong]

theorem next_quote (line : Nat) (hquote : c = '"' ∨ c = '\'') (rest : List Char) :
    next line c rest =
      (cutAtQuote c rest).elim (.error (.quoted line)) fun (body, after) =>
        .ok (.literal [c] body [c], after) := by
  unfold next
  split
  next => simp at hquote
  next =>
    rw [if_pos hquote]
    cases cutAtQuote c rest with
    | none => rfl
    | some cut => rfl

theorem next_bracket (line level : Nat) (htext : longOpening level ++ inside = c :: rest) :
    next line c rest =
      (cutAt (longClosing level) inside).elim (.error .longString) fun (body, after) =>
        .ok (.literal (longOpening level) body (longClosing level), after) := by
  have hlong := longOpening?_eq_some_iff.2 htext.symm
  obtain rfl : '[' = c := (List.cons.inj htext).1
  have hdash : '[' ≠ '-' := by decide
  unfold next
  split
  next hfirst => exact (hdash hfirst).elim
  next =>
    rw [if_neg (by decide), hlong]
    dsimp only
    cases cutAt (longClosing level) inside with
    | none => rfl
    | some cut => rfl

theorem next_of_not_startsWith (line : Nat) (hstart : ¬StartsWith IsOpener (c :: rest)) :
    next line c rest = .ok (.code c, rest) := by
  have hopener : ∀ (opener : Opener) (after : List Char), c :: rest ≠ opener.text ++ after :=
    fun opener after htext => hstart ⟨opener.text, ⟨opener, rfl⟩, after, htext.symm⟩
  unfold next
  split
  next text => exact (hopener .dashes text rfl).elim
  next =>
    split
    next hquote => exact (hopener (.quote c hquote) rest rfl).elim
    next =>
      split
      next level inside hlong =>
        exact (hopener (.bracket level) inside (longOpening?_eq_some_iff.1 hlong)).elim
      next => rfl

/-- A line comment ends before the next line end. -/
theorem lineComment_iff :
    text = before ++ after ∧ '\n' ∉ before ∧ (after = [] ∨ ∃ more, after = '\n' :: more) ↔
      before = text.takeWhile (· != '\n') ∧ after = text.dropWhile (· != '\n') := by
  constructor
  · rintro ⟨rfl, hline, hend⟩
    have hbefore : ∀ c ∈ before, (c != '\n') = true := fun c hc => by
      rw [bne_iff_ne]
      exact fun heq => hline (heq ▸ hc)
    rw [List.takeWhile_append_of_pos hbefore, List.dropWhile_append_of_pos hbefore]
    rcases hend with rfl | ⟨more, rfl⟩
    · simp
    · simp
  · rintro ⟨rfl, rfl⟩
    refine ⟨List.takeWhile_append_dropWhile.symm, fun hmem => ?_, ?_⟩
    · have hc := List.all_eq_true.1 List.all_takeWhile _ hmem
      simp at hc
    · cases hdrop : text.dropWhile (· != '\n') with
      | nil => exact Or.inl rfl
      | cons c more =>
          have hc := List.head?_dropWhile_not (· != '\n') text
          rw [hdrop] at hc
          obtain rfl : c = '\n' := by simpa using hc
          exact Or.inr ⟨more, rfl⟩

theorem next_of_closes (line : Nat) (hcloses : Closes opener inside lexeme after)
    (htext : opener.text ++ inside = c :: rest) : next line c rest = .ok (lexeme, after) := by
  cases hcloses with
  | @longComment level inside body _ hcut =>
      cases htext
      have hbody := (cutAt_eq_some_iff (longClosing_ne_nil level)).2 hcut
      have hnext := next_longComment line level inside
      rw [hbody] at hnext
      exact hnext
  | @lineComment text _ hlong hline hend =>
      cases htext
      obtain ⟨htake, hdrop⟩ := lineComment_iff.1 ⟨rfl, hline, hend⟩
      have hnext := next_lineComment line (longOpening?_eq_none_iff.2 hlong)
      rw [← htake, ← hdrop] at hnext
      exact hnext
  | @quoted quote isQuote body _ hbody =>
      cases htext
      have hquote : c ≠ '\\' := by
        rcases isQuote with rfl | rfl <;> decide
      have hcut : cutAtQuote c (body ++ c :: after) = some (body, after) :=
        (cutAtQuote_eq_some_iff hquote).2 ⟨hbody, rfl⟩
      have hnext := next_quote line isQuote (body ++ c :: after)
      rw [hcut] at hnext
      exact hnext
  | @longString level _ body _ hcut =>
      have hbody := (cutAt_eq_some_iff (longClosing_ne_nil level)).2 hcut
      rw [next_bracket line level htext, hbody, Option.elim_some]

/-- An opening at the front is closed, or the lexer reports that it is not. -/
theorem closes_or_error (line : Nat) (htext : opener.text ++ inside = c :: rest) :
    (∃ lexeme after, Closes opener inside lexeme after) ∨
      ∃ unclosed, next line c rest = .error unclosed := by
  have hcutAt : ∀ (level : Nat) {text body after : List Char},
      cutAt (longClosing level) text = some (body, after) →
        LeftmostOf (· = longClosing level) text body (longClosing level) after :=
    fun level => (cutAt_eq_some_iff (longClosing_ne_nil level)).1
  cases opener with
  | dashes =>
      cases htext
      change _ ∨ ∃ unclosed, next line '-' ('-' :: inside) = .error unclosed
      cases hlong : longOpening? inside with
      | none =>
          obtain ⟨hsplit, hline, hend⟩ := lineComment_iff.2 ⟨rfl, Eq.refl (inside.dropWhile _)⟩
          rw [longOpening?_eq_none_iff, hsplit] at hlong
          rw [hsplit]
          exact Or.inl ⟨_, _, .lineComment hlong hline hend⟩
      | some pair =>
          obtain ⟨level, text⟩ := pair
          obtain rfl := longOpening?_eq_some_iff.1 hlong
          cases hcut : cutAt (longClosing level) text with
          | some cut => exact Or.inl ⟨_, _, .longComment (hcutAt level hcut)⟩
          | none =>
              rw [next_longComment, hcut]
              exact Or.inr ⟨.comment, rfl⟩
  | quote mark isQuote =>
      cases htext
      change _ ∨ ∃ unclosed, next line c inside = .error unclosed
      rw [next_quote line isQuote]
      have hquote : c ≠ '\\' := by
        rcases isQuote with rfl | rfl <;> decide
      cases hcut : cutAtQuote c inside with
      | some cut =>
          obtain ⟨hbody, htext⟩ := (cutAtQuote_eq_some_iff hquote).1 hcut
          rw [htext]
          exact Or.inl ⟨_, _, .quoted hbody⟩
      | none => exact Or.inr ⟨.quoted line, rfl⟩
  | bracket level =>
      rw [next_bracket line level htext]
      cases hcut : cutAt (longClosing level) inside with
      | some cut => exact Or.inl ⟨_, _, .longString (hcutAt level hcut)⟩
      | none => exact Or.inr ⟨.longString, rfl⟩

end Step

/-! ## Whole sources -/

variable {source before inside rest : List Char} {c : Char} {opener : Opener}
  {parts : List Lexeme}

theorem Opener.exists_cons (opener : Opener) (inside : List Char) :
    ∃ c rest, opener.text ++ inside = c :: rest := by
  cases opener with
  | dashes => exact ⟨_, _, rfl⟩
  | quote => exact ⟨_, _, rfl⟩
  | bracket => exact ⟨_, _, rfl⟩

theorem lexemesFrom_of_error {line : Nat} {unclosed : Unclosed}
    (hnext : next line c rest = .error unclosed) :
    lexemesFrom line (c :: rest) = .error unclosed := by
  rw [lexemesFrom]
  split
  next other hother =>
    rw [hnext] at hother
    cases hother
    rfl
  next lexeme after hother =>
    rw [hnext] at hother
    cases hother

theorem lexemesFrom_of_next {line : Nat} {lexeme : Lexeme} {after : List Char}
    (hnext : next line c rest = .ok (lexeme, after)) :
    ∃ line', lexemesFrom line (c :: rest) = (lexemesFrom line' after).map (lexeme :: ·) := by
  refine ⟨line + lexeme.text.count '\n', ?_⟩
  rw [lexemesFrom]
  split
  next other hother =>
    rw [hnext] at hother
    cases hother
  next other after' hother =>
    rw [hnext] at hother
    cases hother
    rfl

/-- The code before the leftmost opening is taken character by character. -/
theorem exists_lexemesFrom_opening
    (hopener : LeftmostOf IsOpener source before opener.text inside) (line : Nat) :
    ∃ line', lexemesFrom line source =
      (lexemesFrom line' (opener.text ++ inside)).map (before.map .code ++ ·) := by
  induction before generalizing source line with
  | nil =>
      rw [(leftmostOf_nil_iff.1 hopener).2]
      exact ⟨line, by cases lexemesFrom line (opener.text ++ inside) <;> rfl⟩
  | cons d before ih =>
      obtain ⟨rest, rfl⟩ : ∃ rest, source = d :: rest := ⟨_, hopener.split⟩
      obtain ⟨_, hstart, hrest⟩ := leftmostOf_cons_iff.1 hopener
      obtain ⟨next, hnext⟩ := lexemesFrom_of_next (next_of_not_startsWith line hstart)
      obtain ⟨line', hline⟩ := ih hrest next
      refine ⟨line', ?_⟩
      rw [hnext, hline]
      cases lexemesFrom line' (opener.text ++ inside) <;> rfl

theorem lexemesFrom_of_hasNone (hnone : HasNone IsOpener source) (line : Nat) :
    lexemesFrom line source = .ok (source.map .code) := by
  induction source generalizing line with
  | nil => rw [lexemesFrom, List.map_nil]
  | cons c rest ih =>
      obtain ⟨hstart, hrest⟩ := hasNone_cons_iff.1 hnone
      obtain ⟨next, hnext⟩ := lexemesFrom_of_next (next_of_not_startsWith line hstart)
      rw [hnext, ih hrest next]
      rfl

theorem lexemesFrom_of_decomposes (hparts : Decomposes source parts) (line : Nat) :
    lexemesFrom line source = .ok parts := by
  induction hparts generalizing line with
  | code hnone => exact lexemesFrom_of_hasNone hnone line
  | @opened source before inside after opener lexeme parts hopener hcloses hrest ih =>
      obtain ⟨line', hline⟩ := exists_lexemesFrom_opening hopener line
      obtain ⟨c, rest, htext⟩ := opener.exists_cons inside
      obtain ⟨next, hnext⟩ := lexemesFrom_of_next (next_of_closes line' hcloses htext)
      rw [hline, htext, hnext, ih next]
      rfl

theorem lexemesFrom_of_leavesOpen (hopen : LeavesOpen source) (line : Nat) :
    ∃ unclosed, lexemesFrom line source = .error unclosed := by
  induction hopen generalizing line with
  | @here source before inside opener hopener hopen =>
      obtain ⟨line', hline⟩ := exists_lexemesFrom_opening hopener line
      obtain ⟨c, rest, htext⟩ := opener.exists_cons inside
      obtain ⟨lexeme, after, hcloses⟩ | ⟨unclosed, herror⟩ := closes_or_error line' htext
      · exact (hopen lexeme after hcloses).elim
      · rw [hline, htext, lexemesFrom_of_error herror]
        exact ⟨unclosed, rfl⟩
  | @later source before inside after opener lexeme hopener hcloses hrest ih =>
      obtain ⟨line', hline⟩ := exists_lexemesFrom_opening hopener line
      obtain ⟨c, rest, htext⟩ := opener.exists_cons inside
      obtain ⟨next, hnext⟩ := lexemesFrom_of_next (next_of_closes line' hcloses htext)
      obtain ⟨unclosed, herror⟩ := ih next
      rw [hline, htext, hnext, herror]
      exact ⟨unclosed, rfl⟩

theorem Decomposes.cons (hstart : ¬StartsWith IsOpener (c :: rest))
    (hrest : Decomposes rest parts) : Decomposes (c :: rest) (.code c :: parts) := by
  cases hrest with
  | code hnone => exact .code (hasNone_cons_iff.2 ⟨hstart, hnone⟩)
  | opened hopener hcloses hmore =>
      exact .opened (leftmostOf_cons_iff.2 ⟨rfl, hstart, hopener⟩) hcloses hmore

theorem LeavesOpen.cons (hstart : ¬StartsWith IsOpener (c :: rest)) (hrest : LeavesOpen rest) :
    LeavesOpen (c :: rest) := by
  cases hrest with
  | here hopener hopen => exact .here (leftmostOf_cons_iff.2 ⟨rfl, hstart, hopener⟩) hopen
  | later hopener hcloses hmore =>
      exact .later (leftmostOf_cons_iff.2 ⟨rfl, hstart, hopener⟩) hcloses hmore

/-- Every source decomposes or leaves something open. -/
theorem exists_decomposes_or_leavesOpen (source : List Char) :
    (∃ parts, Decomposes source parts) ∨ LeavesOpen source := by
  induction hlength : source.length using Nat.strong_induction_on generalizing source with
  | _ length ih =>
      subst hlength
      cases source with
      | nil =>
          refine Or.inl ⟨[], .code fun mark hmark hinfix => ?_⟩
          obtain ⟨opener, rfl⟩ := hmark
          obtain ⟨c, rest, htext⟩ := opener.exists_cons []
          rw [List.append_nil, List.infix_nil.1 hinfix] at htext
          cases htext
      | cons c rest =>
          by_cases hstart : StartsWith IsOpener (c :: rest)
          · obtain ⟨_, ⟨opener, rfl⟩, inside, htext⟩ := hstart
            have hopener : LeftmostOf IsOpener (c :: rest) [] opener.text inside :=
              leftmostOf_nil_iff.2 ⟨⟨opener, rfl⟩, htext.symm⟩
            by_cases hclosed : ∃ lexeme after, Closes opener inside lexeme after
            · obtain ⟨lexeme, after, hcloses⟩ := hclosed
              have hshorter := length_lt_of_next (next_of_closes 1 hcloses htext)
              obtain ⟨parts, hparts⟩ | hopen := ih after.length hshorter after rfl
              · exact Or.inl ⟨_, .opened hopener hcloses hparts⟩
              · exact Or.inr (.later hopener hcloses hopen)
            · exact Or.inr (.here hopener fun lexeme after hcloses =>
                hclosed ⟨lexeme, after, hcloses⟩)
          · obtain ⟨parts, hparts⟩ | hopen := ih rest.length (Nat.lt_succ_self _) rest rfl
            · exact Or.inl ⟨_, hparts.cons hstart⟩
            · exact Or.inr (hopen.cons hstart)

end Rebuild.Require
