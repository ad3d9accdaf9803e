import Rebuild.Proofs.Require.Calls
import Rebuild.Proofs.Require.Decomposition

/-!
# References agree with the decomposition

The references of a source can be read off its decomposition: they are the bodies of the literals
before which the code ends in a call.  Masking the literals by numbers and searching the masked text
finds the same ones as long as the source itself has no NUL character.
-/

namespace Rebuild.Require

/-- The bodies of the literals that are arguments of calls, given the code before.  In that code a
comment is a space and a literal is a NUL character, which no other code has. -/
def argumentsAfter (code : List Char) : List Lexeme → List (List Char)
  | [] => []
  | .code c :: rest => argumentsAfter (code ++ [c]) rest
  | .comment _ :: rest => argumentsAfter (code ++ [' ']) rest
  | .literal _ body _ :: rest =>
    if EndsInCall code then body :: argumentsAfter (code ++ ['\x00']) rest
    else argumentsAfter (code ++ ['\x00']) rest

/-- The names of the arguments that are not blank, each where it first appears. -/
def argumentNames (parts : List Lexeme) : List String :=
  (((argumentsAfter [] parts).map fun body => String.ofList (Text.strip body)).filter
    fun name => name ≠ "").eraseDups

variable {source : List Char} {parts : List Lexeme}

/-! ## What a closed opening leaves behind -/

theorem Closes.suffix {opener : Opener} {inside after : List Char} {lexeme : Lexeme}
    (hcloses : Closes opener inside lexeme after) : after <:+ inside := by
  cases hcloses with
  | @longComment level inside body _ hcut =>
      rw [hcut.split]
      exact (List.suffix_append _ _).trans (List.suffix_append _ _)
  | lineComment => exact List.suffix_append _ _
  | @quoted quote _ body _ => exact ⟨body ++ [quote], by simp⟩
  | longString hcut =>
      rw [hcut.split]
      exact List.suffix_append _ _

theorem Closes.ne_code {opener : Opener} {inside after : List Char} {lexeme : Lexeme}
    (hcloses : Closes opener inside lexeme after) (c : Char) : lexeme ≠ .code c := by
  cases hcloses <;> nofun

/-- The characters of code are characters of the source. -/
theorem Decomposes.mem_of_code (hparts : Decomposes source parts) {c : Char}
    (hc : Lexeme.code c ∈ parts) : c ∈ source := by
  have hmap : ∀ {text : List Char}, Lexeme.code c ∈ text.map Lexeme.code → c ∈ text := by
    intro text hmem
    simpa using hmem
  induction hparts with
  | code hnone => exact hmap hc
  | opened hopener hcloses hrest ih =>
      rw [hopener.split]
      rcases List.mem_append.1 hc with hbefore | hmore
      · exact List.mem_append_left _ (List.mem_append_left _ (hmap hbefore))
      · rcases List.mem_cons.1 hmore with heq | hafter
        · exact (hcloses.ne_code c heq.symm).elim
        · exact List.mem_append_right _ (hcloses.suffix.mem (ih hafter))

/-! ## Masked calls are arguments -/

/-- The character that stands for a lexeme in the code before an argument. -/
def codeChar : Lexeme → Char
  | .code c => c
  | .comment _ => ' '
  | .literal _ _ _ => '\x00'

/-- The digits that are looked up for the arguments of calls, given the number of literals before
and the code before. -/
def digitsAfter (index : Nat) (code : List Char) : List Lexeme → List (List Char)
  | [] => []
  | part :: rest =>
    (if EndsInCall code then (maskDigits? (maskedFrom index (part :: rest))).toList else []) ++
      digitsAfter (index + (literals [part]).length) (code ++ [codeChar part]) rest

/-- Only what begins with a NUL character can be looked up. -/
theorem digitsAfter_cons_of_ne {index : Nat} {code : List Char} {part : Lexeme}
    (hpart : codeChar part ≠ '\x00') :
    digitsAfter index code (part :: parts) = digitsAfter index (code ++ [codeChar part]) parts := by
  cases part with
  | code c =>
      have hnone := maskDigits?_of_ne hpart (maskedFrom index parts)
      rw [codeChar] at hnone
      simp [digitsAfter, maskedFrom, hnone, literals]
  | comment text =>
      have hnone := maskDigits?_of_ne hpart (maskedFrom index parts)
      rw [codeChar] at hnone
      simp [digitsAfter, maskedFrom, hnone, literals]
  | literal opening body closing => exact absurd rfl hpart

theorem digitsAfter_literal (index : Nat) (code opening body closing : List Char) :
    digitsAfter index code (.literal opening body closing :: parts) =
      (if EndsInCall code then [Nat.toDigits 10 index] else []) ++
        digitsAfter (index + 1) (code ++ ['\x00']) parts := by
  rw [digitsAfter, maskedFrom, maskDigits?_mask]
  rfl

open Classical in
/-- Going through masked code, with `text` read but not yet searched, finds the digits that are
looked up. -/
theorem callsAfter_masked {index : Nat} {before : Option Char} {code text : List Char}
    (hbefore : ∀ text, '\x00' ∉ text → (EndsInCall (code ++ text) ↔ EndsInCallAfter before text))
    (htext : '\x00' ∉ text) :
    callsAfter before (text ++ maskedFrom index parts) =
      digitsAfter index (code ++ text) parts := by
  -- `text` grows until a NUL character comes, and is searched as a whole there
  induction parts generalizing index before code text with
  | nil =>
      rw [maskedFrom, List.append_nil, callsAfter_eq_nil htext]
      rfl
  | cons part rest ih =>
      have hplain {c : Char} (hc : c ≠ '\x00') : '\x00' ∉ text ++ [c] := by
        simp [htext, hc.symm]
      have hmark : ∀ tail, '\x00' ∉ tail →
          (EndsInCall (code ++ text ++ ['\x00'] ++ tail) ↔
            EndsInCallAfter (some '\x00') tail) := by
        intro tail htail
        rw [List.append_assoc (code ++ text)]
        exact endsInCall_append_nul htail (code ++ text)
      have hcall := hbefore text htext
      cases part with
      | code c =>
          by_cases hc : c = '\x00'
          · subst hc
            have hmore := @ih index _ _ _ hmark List.not_mem_nil
            rw [List.nil_append, List.append_nil] at hmore
            rw [maskedFrom, callsAfter_text_nul htext, hmore, if_congr hcall.symm rfl rfl]
            rfl
          · have hmore := @ih index _ _ _ hbefore (hplain hc)
            have hcode : codeChar (.code c) ≠ '\x00' := hc
            rw [digitsAfter_cons_of_ne hcode]
            simpa [maskedFrom, codeChar] using hmore
      | comment comment =>
          have hblank : codeChar (.comment comment) ≠ '\x00' := by simp [codeChar]
          have hmore := @ih index _ _ _ hbefore (hplain hblank)
          rw [digitsAfter_cons_of_ne hblank]
          simpa [maskedFrom, codeChar] using hmore
      | literal opening body closing =>
          have hmore := @ih (index + 1) _ _ _ hmark List.not_mem_nil
          rw [List.nil_append, List.append_nil] at hmore
          rw [maskedFrom, callsAfter_text_mask htext, hmore, digitsAfter_literal,
            if_congr hcall.symm rfl rfl]

theorem calls_masked (parts : List Lexeme) : calls (masked parts) = digitsAfter 0 [] parts := by
  have hstart : ∀ text, '\x00' ∉ text → (EndsInCall ([] ++ text) ↔ EndsInCallAfter none text) :=
    fun text _ => endsInCall_iff_after text
  exact callsAfter_masked hstart List.not_mem_nil

/-- Without NUL characters in the code all that is looked up are the literals themselves. -/
theorem mapM_digitsAfter {bodies : List (List Char)} {index : Nat} {code : List Char}
    (hbodies : bodies.drop index = literals parts) (hparts : .code '\x00' ∉ parts) :
    (digitsAfter index code parts).mapM (literalAt bodies) = .ok (argumentsAfter code parts) := by
  induction parts generalizing index code with
  | nil => rfl
  | cons part rest ih =>
      obtain ⟨hpart, hrest⟩ := not_or.1 (mt List.mem_cons.2 hparts)
      cases part with
      | code c =>
          have hc : codeChar (.code c) ≠ '\x00' := fun heq => hpart (congrArg _ heq.symm)
          rw [digitsAfter_cons_of_ne hc, ih hbodies hrest]
          rfl
      | comment text =>
          have hblank : codeChar (.comment text) ≠ '\x00' := by simp [codeChar]
          rw [digitsAfter_cons_of_ne hblank, ih hbodies hrest]
          rfl
      | literal opening body closing =>
          have hbody : bodies[index]? = some body := by
            have hfirst := congrArg (·[0]?) hbodies
            simpa [literals] using hfirst
          have hmore : bodies.drop (index + 1) = literals rest := by
            rw [← List.tail_drop, hbodies]
            rfl
          rw [digitsAfter_literal, List.mapM_append, ih hmore hrest, argumentsAfter]
          by_cases hcall : EndsInCall code
          · rw [if_pos hcall, if_pos hcall, List.mapM_cons, literalAt_toDigits hbody]
            rfl
          · rw [if_neg hcall, if_neg hcall]
            rfl

/-! ## Names -/

/-- Collecting adds the new names, each where it first appears. -/
theorem collect_eq (names : List String) (bodies : List (List Char)) :
    collect names bodies =
      names ++ ((bodies.map fun body => String.ofList (Text.strip body)).filter
        fun name => name ≠ "" ∧ name ∉ names).eraseDups := by
  induction bodies generalizing names with
  | nil => simp [collect]
  | cons body rest ih =>
      unfold collect
      dsimp only
      rw [List.map_cons]
      split
      next hskip =>
        rw [ih, List.filter_cons_of_neg]
        simpa [or_iff_not_imp_left] using hskip
      next hnew =>
        rw [not_or] at hnew
        rw [ih, List.filter_cons_of_pos (by simpa using hnew), List.eraseDups_cons,
          List.filter_filter, List.append_assoc, List.singleton_append]
        congr 3
        refine List.filter_congr fun name _ => ?_
        grind

theorem references_eq_of_decomposes (hparts : Decomposes source parts) :
    references source =
      ((digitsAfter 0 [] parts).mapM (literalAt (literals parts))).map (collect []) := by
  unfold references
  rw [lexemes, lexemesFrom_of_decomposes hparts]
  dsimp only
  rw [calls_masked]

/-- The references of a source that decomposes are the names of the arguments. -/
theorem references_of_decomposes (hparts : Decomposes source parts) (hfree : '\x00' ∉ source) :
    references source = .ok (argumentNames parts) := by
  have hcode : .code '\x00' ∉ parts := fun hmem => hfree (hparts.mem_of_code hmem)
  have hall : (literals parts).drop 0 = literals parts := rfl
  rw [references_eq_of_decomposes hparts, mapM_digitsAfter hall hcode]
  exact congrArg Except.ok (by simp [collect_eq, argumentNames])

theorem references_of_leavesOpen (hopen : LeavesOpen source) :
    ∃ what, references source = .error (.unclosed what) := by
  obtain ⟨unclosed, herror⟩ := lexemesFrom_of_leavesOpen hopen 1
  refine ⟨unclosed, ?_⟩
  unfold references
  rw [lexemes, herror]

theorem not_leavesOpen_of_references {names : List String}
    (hnames : references source = .ok names) : ¬LeavesOpen source := by
  intro hopen
  obtain ⟨what, herror⟩ := references_of_leavesOpen hopen
  rw [hnames] at herror
  cases herror

/-- A source without NUL characters is rejected for something left open exactly when its
decomposition meets an opening that is not closed; otherwise it decomposes, and its references are
the names of the arguments. -/
theorem references_exact (source : List Char) (hfree : '\x00' ∉ source) :
    ((∃ what, references source = .error (.unclosed what)) ↔ LeavesOpen source) ∧
      (¬LeavesOpen source → ∃ parts, Decomposes source parts) ∧
      ∀ parts, Decomposes source parts → references source = .ok (argumentNames parts) := by
  have hok : ∀ parts, Decomposes source parts →
      references source = .ok (argumentNames parts) :=
    fun _ hparts => references_of_decomposes hparts hfree
  refine ⟨⟨?_, references_of_leavesOpen⟩,
    (exists_decomposes_or_leavesOpen source).resolve_right, hok⟩
  rintro ⟨what, herror⟩
  refine (exists_decomposes_or_leavesOpen source).resolve_left ?_
  rintro ⟨parts, hparts⟩
  rw [hok parts hparts] at herror
  cases herror

/-- A comment with an opening in it, and a comment with a quote in it between a keyword and its
argument. -/
def commentedCalls : List Char :=
  "require 'a' -- [[\nrequire --[[ ' ]] (\"b\")".toList

def halfCall : List Char :=
  "require 'a".toList

theorem references_exact_samples :
    (∃ parts, Decomposes commentedCalls parts ∧ argumentNames parts = ["a", "b"]) ∧
      LeavesOpen halfCall := by
  have hgood := references_exact commentedCalls (by decide +kernel)
  have hbad := references_exact halfCall (by decide +kernel)
  have hnames : references commentedCalls = .ok ["a", "b"] := by decide +kernel
  have hopen : references halfCall = .error (.unclosed (.quoted 1)) := by decide +kernel
  have hclosed : ¬LeavesOpen commentedCalls := by
    intro hleft
    obtain ⟨what, herror⟩ := hgood.1.2 hleft
    rw [hnames] at herror
    cases herror
  obtain ⟨parts, hparts⟩ := hgood.2.1 hclosed
  have hsame := hgood.2.2 parts hparts
  rw [hnames] at hsame
  exact ⟨⟨parts, hparts, (Except.ok.inj hsame).symm⟩, hbad.1.1 ⟨_, hopen⟩⟩

end Rebuild.Require
