import Rebuild.Proofs.Require.Occurrences

/-!
# Turns of the scan

The scan keeps a position.  In every turn it looks for the leftmost opening behind the position and
goes on behind the closing; it stops when there is no opening or when one is never closed.  Here the
turns are taken one by one: each goes forward and ends inside the source, so there are never more
of them than characters, and the texts they take stand in the source one after the other.  The
lexer finds the lexemes of these turns, and the number in a mask is that of the literal it hides.
-/

namespace Rebuild.Require

/-! ## Turns -/

/-- From `start` the scan takes code and then a lexeme, and goes on at `stop`. -/
structure Turn where
  start : Nat
  code : List Char
  lexeme : Lexeme
  stop : Nat

def Turn.span (turn : Turn) : List Char :=
  turn.code ++ turn.lexeme.text

def Turn.parts (turn : Turn) : List Lexeme :=
  turn.code.map .code ++ [turn.lexeme]

/-- In the last turn the rest is code, or something is left open. -/
inductive Ending where
  | code
  | leftOpen
  deriving DecidableEq

/-- The turns of the scan from a position, then the position and the outcome of the last one.  The
next position is counted from the last by what the turn takes. -/
inductive Scan (source : List Char) : Nat → List Turn → Nat → Ending → Prop
  | code {cursor : Nat} (hnone : HasNone IsOpener (source.drop cursor)) :
      Scan source cursor [] cursor .code
  | leftOpen {cursor : Nat} {code inside : List Char} {opener : Opener}
      (hopener : LeftmostOf IsOpener (source.drop cursor) code opener.text inside)
      (hopen : ∀ lexeme after, ¬Closes opener inside lexeme after) :
      Scan source cursor [] cursor .leftOpen
  | turn {cursor stop last : Nat} {code inside after : List Char} {opener : Opener}
      {lexeme : Lexeme} {turns : List Turn} {ending : Ending}
      (hopener : LeftmostOf IsOpener (source.drop cursor) code opener.text inside)
      (hcloses : Closes opener inside lexeme after)
      (hstop : stop = cursor + code.length + lexeme.text.length)
      (hrest : Scan source stop turns last ending) :
      Scan source cursor (⟨cursor, code, lexeme, stop⟩ :: turns) last ending

/-- A turn goes forward, ends inside the source and takes what stands between its positions. -/
structure Turn.Advances (source : List Char) (turn : Turn) : Prop where
  forward : turn.start < turn.stop
  inside : turn.stop ≤ source.length
  taken : (source.take turn.stop).drop turn.start = turn.span

/-- The turns follow one another without gaps, from the start of the source to the last turn. -/
structure Consecutive (source : List Char) (turns : List Turn) (last : Nat) : Prop where
  chained : 0 :: turns.map Turn.stop = turns.map Turn.start ++ [last]
  advances : ∀ turn ∈ turns, turn.Advances source
  inside : last ≤ source.length

section Turns

variable {source code inside after : List Char} {cursor stop last : Nat} {opener : Opener}
  {lexeme : Lexeme} {turns : List Turn} {ending : Ending}

/-! ### One turn -/

theorem Closes.text_append (hcloses : Closes opener inside lexeme after) :
    lexeme.text ++ after = opener.text ++ inside := by
  obtain ⟨c, rest, htext⟩ := opener.exists_cons inside
  rw [htext]
  exact text_append_of_next (next_of_closes 1 hcloses htext)

theorem Closes.text_ne_nil (hcloses : Closes opener inside lexeme after) : lexeme.text ≠ [] := by
  obtain ⟨c, rest, htext⟩ := opener.exists_cons inside
  exact text_ne_nil_of_next (next_of_closes 1 hcloses htext)

theorem drop_eq_of_closes
    (hopener : LeftmostOf IsOpener (source.drop cursor) code opener.text inside)
    (hcloses : Closes opener inside lexeme after) :
    source.drop cursor = code ++ lexeme.text ++ after := by
  rw [hopener.split, List.append_assoc, List.append_assoc, hcloses.text_append]

/-- Counting on from the position leads to what the closing leaves. -/
theorem drop_stop_of_closes
    (hopener : LeftmostOf IsOpener (source.drop cursor) code opener.text inside)
    (hcloses : Closes opener inside lexeme after)
    (hstop : stop = cursor + code.length + lexeme.text.length) : source.drop stop = after := by
  rw [hstop, Nat.add_assoc, ← List.drop_drop, drop_eq_of_closes hopener hcloses,
    ← List.length_append, List.drop_left]

theorem advances_of_closes
    (hopener : LeftmostOf IsOpener (source.drop cursor) code opener.text inside)
    (hcloses : Closes opener inside lexeme after)
    (hstop : stop = cursor + code.length + lexeme.text.length) :
    Turn.Advances source ⟨cursor, code, lexeme, stop⟩ := by
  have hdrop := drop_eq_of_closes hopener hcloses
  have htext := List.length_pos_iff.2 hcloses.text_ne_nil
  refine ⟨?_, ?_, ?_⟩
  · show cursor < stop
    omega
  · have hlength := congrArg List.length hdrop
    simp only [List.length_drop, List.length_append] at hlength
    show stop ≤ source.length
    omega
  · have hcount : stop - cursor = (code ++ lexeme.text).length := by
      rw [List.length_append]
      omega
    show (source.take stop).drop cursor = code ++ lexeme.text
    rw [List.drop_take, hcount, hdrop, List.take_left]

theorem leftmostOf_unique {code' inside' : List Char} {opener' : Opener}
    (hopener : LeftmostOf IsOpener (source.drop cursor) code opener.text inside)
    (hopener' : LeftmostOf IsOpener (source.drop cursor) code' opener'.text inside') :
    code' = code ∧ opener'.text ++ inside' = opener.text ++ inside := by
  have hlength : code'.length = code.length := Nat.le_antisymm
    (hopener'.first _ _ _ hopener.isMark hopener.split)
    (hopener.first _ _ _ hopener'.isMark hopener'.split)
  refine List.append_inj ?_ hlength
  rw [← List.append_assoc, ← List.append_assoc, ← hopener.split, ← hopener'.split]

/-! However the same text is taken for an opening, it is closed in the same place. -/

theorem Closes.lexeme_unique {inside' after' : List Char} {opener' : Opener} {lexeme' : Lexeme}
    (hcloses : Closes opener inside lexeme after) (hcloses' : Closes opener' inside' lexeme' after')
    (hsame : opener'.text ++ inside' = opener.text ++ inside) : lexeme' = lexeme := by
  obtain ⟨c, rest, htext⟩ := opener.exists_cons inside
  have hnext := next_of_closes 1 hcloses htext
  have hnext' := next_of_closes 1 hcloses' (hsame.trans htext)
  exact (Prod.mk.inj (Except.ok.inj (hnext'.symm.trans hnext))).1

theorem Closes.exists_of_text_eq {inside' : List Char} {opener' : Opener}
    (hcloses : Closes opener inside lexeme after)
    (hsame : opener'.text ++ inside' = opener.text ++ inside) :
    ∃ lexeme' after', Closes opener' inside' lexeme' after' := by
  obtain ⟨c, rest, htext⟩ := opener.exists_cons inside
  rcases closes_or_error 1 (hsame.trans htext) with hclosed | ⟨unclosed, herror⟩
  · exact hclosed
  · rw [next_of_closes 1 hcloses htext] at herror
    cases herror

theorem not_hasNone_of_leftmostOf {text before : List Char}
    (hopener : LeftmostOf IsOpener text before opener.text inside) : ¬HasNone IsOpener text := by
  intro hnone
  refine hnone opener.text hopener.isMark ?_
  rw [hopener.split]
  exact List.infix_append before opener.text inside

/-! ### All turns -/

theorem Scan.chained (hscan : Scan source cursor turns last ending) :
    cursor :: turns.map Turn.stop = turns.map Turn.start ++ [last] := by
  induction hscan with
  | code => rfl
  | leftOpen => rfl
  | turn _ _ _ _ ih => exact congrArg (_ :: ·) ih

theorem Scan.advances (hscan : Scan source cursor turns last ending) :
    ∀ turn ∈ turns, turn.Advances source := by
  induction hscan with
  | code => nofun
  | leftOpen => nofun
  | turn hopener hcloses hstop _ ih =>
      exact List.forall_mem_cons.2 ⟨advances_of_closes hopener hcloses hstop, ih⟩

theorem Scan.last_le (hscan : Scan source cursor turns last ending)
    (hcursor : cursor ≤ source.length) : last ≤ source.length := by
  induction hscan with
  | code => exact hcursor
  | leftOpen => exact hcursor
  | turn hopener hcloses hstop _ ih => exact ih (advances_of_closes hopener hcloses hstop).inside

theorem Scan.add_length_le (hscan : Scan source cursor turns last ending) :
    cursor + turns.length ≤ last := by
  induction hscan with
  | code => exact le_refl _
  | leftOpen => exact le_refl _
  | @turn cursor stop _ code _ _ _ lexeme _ _ hopener hcloses hstop _ ih =>
      have hforward : cursor < stop := (advances_of_closes hopener hcloses hstop).forward
      rw [List.length_cons]
      omega

theorem Scan.drop_eq (hscan : Scan source cursor turns last ending) :
    source.drop cursor = turns.flatMap Turn.span ++ source.drop last := by
  induction hscan with
  | code => rfl
  | leftOpen => rfl
  | turn hopener hcloses hstop _ ih =>
      rw [drop_stop_of_closes hopener hcloses hstop] at ih
      rw [drop_eq_of_closes hopener hcloses, ih, List.flatMap_cons, Turn.span]
      exact (List.append_assoc _ _ _).symm

/-- The lexemes of the turns, and the rest as code, are the lexemes behind the position. -/
theorem Scan.decomposes (hscan : Scan source cursor turns last .code) :
    Decomposes (source.drop cursor)
      (turns.flatMap Turn.parts ++ (source.drop last).map .code) := by
  generalize hending : Ending.code = ending at hscan
  induction hscan with
  | code hnone => exact .code hnone
  | leftOpen => cases hending
  | turn hopener hcloses hstop _ ih =>
      have hrest := ih hending
      rw [drop_stop_of_closes hopener hcloses hstop] at hrest
      simpa [Turn.parts] using Decomposes.opened hopener hcloses hrest

theorem Scan.leavesOpen (hscan : Scan source cursor turns last .leftOpen) :
    LeavesOpen (source.drop cursor) := by
  generalize hending : Ending.leftOpen = ending at hscan
  induction hscan with
  | code => cases hending
  | leftOpen hopener hopen => exact .here hopener hopen
  | turn hopener hcloses hstop _ ih =>
      have hrest := ih hending
      rw [drop_stop_of_closes hopener hcloses hstop] at hrest
      exact .later hopener hcloses hrest

theorem Scan.unique {turns' : List Turn} {last' : Nat} {ending' : Ending}
    (hscan : Scan source cursor turns last ending)
    (hscan' : Scan source cursor turns' last' ending') :
    turns' = turns ∧ last' = last ∧ ending' = ending := by
  induction hscan generalizing turns' with
  | code hnone =>
      cases hscan' with
      | code => exact ⟨rfl, rfl, rfl⟩
      | leftOpen hopener => exact (not_hasNone_of_leftmostOf hopener hnone).elim
      | turn hopener => exact (not_hasNone_of_leftmostOf hopener hnone).elim
  | leftOpen hopener hopen =>
      cases hscan' with
      | code hnone => exact (not_hasNone_of_leftmostOf hopener hnone).elim
      | leftOpen => exact ⟨rfl, rfl, rfl⟩
      | turn hopener' hcloses =>
          obtain ⟨-, hsame⟩ := leftmostOf_unique hopener' hopener
          obtain ⟨lexeme, after, hclosed⟩ := hcloses.exists_of_text_eq hsame
          exact (hopen lexeme after hclosed).elim
  | turn hopener hcloses hstop _ ih =>
      cases hscan' with
      | code hnone => exact (not_hasNone_of_leftmostOf hopener hnone).elim
      | leftOpen hopener' hopen =>
          obtain ⟨-, hsame⟩ := leftmostOf_unique hopener hopener'
          obtain ⟨lexeme, after, hclosed⟩ := hcloses.exists_of_text_eq hsame
          exact (hopen lexeme after hclosed).elim
      | turn hopener' hcloses' hstop' hrest' =>
          obtain ⟨rfl, hsame⟩ := leftmostOf_unique hopener hopener'
          obtain rfl := hcloses.lexeme_unique hcloses' hsame
          obtain rfl := hstop.trans hstop'.symm
          obtain ⟨rfl, hlast, hending⟩ := ih hrest'
          exact ⟨rfl, hlast, hending⟩

/-- The scan comes to an end from every position, whether or not the source is well formed. -/
theorem exists_scan (source : List Char) (cursor : Nat) :
    ∃ turns last ending, Scan source cursor turns last ending := by
  have hcases := exists_decomposes_or_leavesOpen (source.drop cursor)
  generalize htext : source.drop cursor = text at hcases
  rcases hcases with ⟨parts, hparts⟩ | hopen
  · induction hparts generalizing cursor with
    | code hnone =>
        subst htext
        exact ⟨[], cursor, .code, .code hnone⟩
    | opened hopener hcloses _ ih =>
        subst htext
        obtain ⟨turns, last, ending, hrest⟩ := ih _ (drop_stop_of_closes hopener hcloses rfl)
        exact ⟨_, last, ending, .turn hopener hcloses rfl hrest⟩
  · induction hopen generalizing cursor with
    | here hopener hopen =>
        subst htext
        exact ⟨[], cursor, .leftOpen, .leftOpen hopener hopen⟩
    | later hopener hcloses _ ih =>
        subst htext
        obtain ⟨turns, last, ending, hrest⟩ := ih _ (drop_stop_of_closes hopener hcloses rfl)
        exact ⟨_, last, ending, .turn hopener hcloses rfl hrest⟩

theorem Scan.consecutive (hscan : Scan source 0 turns last ending) :
    Consecutive source turns last :=
  ⟨hscan.chained, hscan.advances, hscan.last_le (Nat.zero_le _)⟩

end Turns

/-! ## Masks and literals -/

/-- The two ends of a string literal. -/
inductive Delimits : List Char → List Char → Prop
  | quotes {mark : Char} (isQuote : mark = '"' ∨ mark = '\'') : Delimits [mark] [mark]
  | brackets (level : Nat) : Delimits (longOpening level) (longClosing level)

/-- The mask with the number of a literal stands in its place among the masked lexemes, and the
value with this number is what stands between the two ends of the literal in the source. -/
structure StandsFor (source : List Char) (parts : List Lexeme) (index : Nat) (before : List Lexeme)
    (opening body closing : List Char) (after : List Lexeme) : Prop where
  place : parts = before ++ .literal opening body closing :: after
  number : (literals before).length = index
  emitted : masked parts = masked before ++ mask index ++ maskedFrom (index + 1) after
  value : (literals parts)[index]? = some body
  delimits : Delimits opening closing
  span : source = before.flatMap Lexeme.text ++ (opening ++ body ++ closing) ++
    after.flatMap Lexeme.text

section Masks

variable {source opening body closing : List Char} {parts before after : List Lexeme}
  {opener : Opener} {inside rest : List Char} {lexeme : Lexeme} {index : Nat}

theorem maskedFrom_append (index : Nat) (front rest : List Lexeme) :
    maskedFrom index (front ++ rest) =
      maskedFrom index front ++ maskedFrom (index + (literals front).length) rest := by
  induction front generalizing index with
  | nil => rfl
  | cons part front ih =>
      cases part with
      | code c => exact congrArg (c :: ·) (ih index)
      | comment text => exact congrArg (' ' :: ·) (ih index)
      | literal opening body closing =>
          have hcount : index + 1 + (literals front).length =
              index + (literals (.literal opening body closing :: front)).length := by
            rw [literals, List.length_cons]
            omega
          rw [List.cons_append, maskedFrom, ih, hcount, maskedFrom, List.append_assoc]

/-- Every value is the body of the literal with as many literals before it. -/
theorem exists_place_of_lt (hindex : index < (literals parts).length) :
    ∃ before opening body closing after,
      parts = before ++ .literal opening body closing :: after ∧
        (literals before).length = index := by
  induction parts generalizing index with
  | nil => cases hindex
  | cons part parts ih =>
      cases part with
      | code c =>
          obtain ⟨before, opening, body, closing, after, rfl, hnumber⟩ := ih hindex
          exact ⟨.code c :: before, opening, body, closing, after, rfl, hnumber⟩
      | comment text =>
          obtain ⟨before, opening, body, closing, after, rfl, hnumber⟩ := ih hindex
          exact ⟨.comment text :: before, opening, body, closing, after, rfl, hnumber⟩
      | literal opening body closing =>
          cases index with
          | zero => exact ⟨[], opening, body, closing, parts, rfl, rfl⟩
          | succ index =>
              obtain ⟨before, other, text, last, after, rfl, hnumber⟩ :=
                ih (Nat.lt_of_succ_lt_succ hindex)
              exact ⟨.literal opening body closing :: before, other, text, last, after, rfl,
                congrArg Nat.succ hnumber⟩

theorem Closes.delimits (hcloses : Closes opener inside (.literal opening body closing) rest) :
    Delimits opening closing := by
  cases hcloses with
  | @quoted _ isQuote => exact .quotes isQuote
  | @longString level => exact .brackets level

theorem Decomposes.delimits (hparts : Decomposes source parts)
    (hmem : .literal opening body closing ∈ parts) : Delimits opening closing := by
  induction hparts with
  | code hnone =>
      obtain ⟨c, -, hcode⟩ := List.mem_map.1 hmem
      cases hcode
  | opened hopener hcloses _ ih =>
      rcases List.mem_append.1 hmem with hcode | hmore
      · obtain ⟨c, -, hcode⟩ := List.mem_map.1 hcode
        cases hcode
      · rcases List.mem_cons.1 hmore with rfl | hafter
        · exact hcloses.delimits
        · exact ih hafter

theorem flatMap_text_map_code (text : List Char) :
    (text.map Lexeme.code).flatMap Lexeme.text = text := by
  rw [List.flatMap_map]
  exact List.flatMap_singleton' text

/-- The texts of the lexemes make up the source. -/
theorem Decomposes.flatMap_text (hparts : Decomposes source parts) :
    parts.flatMap Lexeme.text = source := by
  induction hparts with
  | code hnone => exact flatMap_text_map_code _
  | opened hopener hcloses _ ih =>
      rw [List.flatMap_append, flatMap_text_map_code, List.flatMap_cons, ih, hcloses.text_append,
        ← List.append_assoc, hopener.split]

theorem Decomposes.standsFor (hparts : Decomposes source parts)
    (hplace : parts = before ++ .literal opening body closing :: after) :
    StandsFor source parts (literals before).length before opening body closing after := by
  refine ⟨hplace, rfl, ?_, ?_, ?_, ?_⟩
  · rw [hplace, masked, maskedFrom_append, maskedFrom, Nat.zero_add, List.append_assoc]
    rfl
  · rw [hplace]
    exact getElem?_literals before opening body closing after
  · rw [hplace] at hparts
    exact hparts.delimits (List.mem_append_right before List.mem_cons_self)
  · rw [← hparts.flatMap_text, hplace, List.flatMap_append, List.flatMap_cons, List.append_assoc]
    rfl

end Masks

/-! ## The whole scan -/

/-- The lexemes are those of the turns and make up the source.  Every literal among them has its
mask, and every number of a value is the number of a literal. -/
structure Consumed (source : List Char) (turns : List Turn) (last : Nat) (parts : List Lexeme) :
    Prop where
  found : parts = turns.flatMap Turn.parts ++ (source.drop last).map .code
  spans : turns.flatMap Turn.span ++ source.drop last = source
  texts : parts.flatMap Lexeme.text = source
  placed : ∀ before opening body closing after,
    parts = before ++ .literal opening body closing :: after →
      StandsFor source parts (literals before).length before opening body closing after
  numbered : ∀ index < (literals parts).length, ∃ before opening body closing after,
    StandsFor source parts index before opening body closing after

variable {source : List Char} {parts : List Lexeme} {turns : List Turn} {last : Nat}

theorem Scan.lexemes_eq (hscan : Scan source 0 turns last .code) :
    lexemes source = .ok (turns.flatMap Turn.parts ++ (source.drop last).map .code) :=
  lexemesFrom_of_decomposes hscan.decomposes 1

theorem Scan.consumed (hscan : Scan source 0 turns last .code) :
    Consumed source turns last (turns.flatMap Turn.parts ++ (source.drop last).map .code) := by
  have hparts := hscan.decomposes
  refine ⟨rfl, hscan.drop_eq.symm, hparts.flatMap_text, ?_, ?_⟩
  · exact fun before opening body closing after hplace => hparts.standsFor hplace
  · intro index hindex
    obtain ⟨before, opening, body, closing, after, hplace, rfl⟩ := exists_place_of_lt hindex
    exact ⟨before, opening, body, closing, after, hparts.standsFor hplace⟩

/-- Every source is scanned in one way and to an end, with at most one turn more than it has
characters: the turns before the last follow one another without gaps, each goes forward and none
passes the end.  The source is rejected exactly when the last turn leaves something open.  Otherwise
the lexemes are the ones of the turns, they make up the source, and the number in every mask is that
of the literal in whose place it stands. -/
theorem scan_takes_source_once (source : List Char) :
    ∃ turns last ending, Scan source 0 turns last ending ∧
      (∀ turns' last' ending', Scan source 0 turns' last' ending' →
        turns' = turns ∧ last' = last ∧ ending' = ending) ∧
      Consecutive source turns last ∧ turns.length + 1 ≤ source.length + 1 ∧
      ((∃ unclosed, lexemes source = .error unclosed) ↔ ending = .leftOpen) ∧
      ∀ parts, lexemes source = .ok parts → ending = .code ∧ Consumed source turns last parts := by
  obtain ⟨turns, last, ending, hscan⟩ := exists_scan source 0
  have hturns : turns.length + 1 ≤ source.length + 1 := by
    have hlength := hscan.add_length_le
    have hlast := hscan.consecutive.inside
    omega
  refine ⟨turns, last, ending, hscan, fun _ _ _ hother => hscan.unique hother, hscan.consecutive,
    hturns, ?_⟩
  cases ending with
  | code =>
      have hlexemes := hscan.lexemes_eq
      refine ⟨by simp [hlexemes], fun parts hparts => ⟨rfl, ?_⟩⟩
      obtain rfl := Except.ok.inj (hlexemes.symm.trans hparts)
      exact hscan.consumed
  | leftOpen =>
      have herror := lexemesFrom_of_leavesOpen hscan.leavesOpen 1
      refine ⟨iff_of_true herror rfl, fun parts hparts => ?_⟩
      obtain ⟨unclosed, herror⟩ := herror
      cases hparts.symm.trans herror

/-- Two comments, a quoted string with an escaped quote in it, and a long one. -/
def assorted : List Char :=
  "--[[a]] b(\"c\\\"\") [=[d]]]=] --e".toList

theorem scan_takes_source_once_assorted :
    ∃ turns last parts, lexemes assorted = .ok parts ∧ Scan assorted 0 turns last .code ∧
      Consumed assorted turns last parts ∧
      literals parts = [['c', '\\', '"'], ['d', ']', ']']] ∧
      masked parts = "  b(\x000\x00) \x001\x00  ".toList := by
  obtain ⟨turns, last, ending, hscan, -, -, -, -, hconsumed⟩ := scan_takes_source_once assorted
  have hread : ∀ parts ∈ (lexemes assorted).toOption,
      literals parts = [['c', '\\', '"'], ['d', ']', ']']] ∧
        masked parts = "  b(\x000\x00) \x001\x00  ".toList := by
    decide +kernel
  cases hlexemes : lexemes assorted with
  | error unclosed =>
      have hsome : (lexemes assorted).toOption.isSome = true := by decide +kernel
      rw [hlexemes] at hsome
      cases hsome
  | ok parts =>
      obtain ⟨rfl, hall⟩ := hconsumed parts hlexemes
      rw [hlexemes] at hread
      exact ⟨turns, last, parts, rfl, hscan, hall, hread parts rfl⟩

end Rebuild.Require
