/-!
# Lexemes of a source text

A source is cut into plain characters, comments and string literals.  Each step takes one lexeme
off the front and never looks back, so the texts of the lexemes concatenate to the source and there
are at most as many of them as characters.

* `--` opens a comment: a long one if a long bracket follows at once, else one to the end of the
  line.
* A quote opens a string that ends at the next same quote.  A backslash protects the character
  after it, and a line end that is not protected leaves the string open.
* `[`, any number of `=`, and `[` open a long string that ends at `]`, as many `=`, and `]`.
-/

namespace Rebuild.Require

inductive Lexeme where
  | code (c : Char)
  | comment (text : List Char)
  | literal (opening body closing : List Char)
  deriving DecidableEq

def Lexeme.text : Lexeme → List Char
  | .code c => [c]
  | .comment text => text
  | .literal opening body closing => opening ++ body ++ closing

/-- What was left open at the end of the source, or for a quoted string of the line. -/
inductive Unclosed where
  | comment
  | longString
  | quoted (line : Nat)
  deriving DecidableEq

def Unclosed.message : Unclosed → String
  | .comment => "unterminated long comment"
  | .longString => "unterminated long string"
  | .quoted line => s!"unterminated string on line {line}"

def longOpening (level : Nat) : List Char :=
  '[' :: List.replicate level '=' ++ ['[']

def longClosing (level : Nat) : List Char :=
  ']' :: List.replicate level '=' ++ [']']

/-- The level of the long bracket that opens a text, and what comes after it. -/
def longOpening? : List Char → Option (Nat × List Char)
  | '[' :: rest =>
    match rest.dropWhile (· == '=') with
    | '[' :: body => some ((rest.takeWhile (· == '=')).length, body)
    | _ => none
  | _ => none

/-- Cuts a text at the first place where `mark` stands, and takes `mark` out. -/
def cutAt (mark : List Char) : List Char → Option (List Char × List Char)
  | [] => none
  | c :: rest =>
    if mark.isPrefixOf (c :: rest) then some ([], (c :: rest).drop mark.length)
    else (cutAt mark rest).map fun (before, after) => (c :: before, after)

/-- Cuts the text after an opening quote at the quote that closes it. -/
def cutAtQuote (quote : Char) : List Char → Option (List Char × List Char)
  | [] => none
  | '\\' :: c :: rest =>
    (cutAtQuote quote rest).map fun (before, after) => ('\\' :: c :: before, after)
  | c :: rest =>
    if c = quote then some ([], rest)
    else if c = '\n' then none
    else (cutAtQuote quote rest).map fun (before, after) => (c :: before, after)

/-- The lexeme at the front of a text that starts with `c` on the given line, and what is left. -/
def next (line : Nat) (c : Char) (rest : List Char) : Except Unclosed (Lexeme × List Char) :=
  match c, rest with
  | '-', '-' :: text =>
    match longOpening? text with
    | some (level, inside) =>
      match cutAt (longClosing level) inside with
      | some (body, after) =>
        .ok (.comment ('-' :: '-' :: longOpening level ++ body ++ longClosing level), after)
      | none => .error .comment
    | none => .ok (.comment ('-' :: '-' :: text.takeWhile (· != '\n')), text.dropWhile (· != '\n'))
  | c, rest =>
    if c = '"' ∨ c = '\'' then
      match cutAtQuote c rest with
      | some (body, after) => .ok (.literal [c] body [c], after)
      | none => .error (.quoted line)
    else match longOpening? (c :: rest) with
      | some (level, inside) =>
        match cutAt (longClosing level) inside with
        | some (body, after) => .ok (.literal (longOpening level) body (longClosing level), after)
        | none => .error .longString
      | none => .ok (.code c, rest)

theorem longOpening?_append {text after : List Char} {level : Nat}
    (h : longOpening? text = some (level, after)) : longOpening level ++ after = text := by
  unfold longOpening? at h
  split at h
  · rename_i rest
    split at h
    · rename_i body hbody
      simp only [Option.some.injEq, Prod.mk.injEq] at h
      obtain ⟨rfl, rfl⟩ := h
      have hequals : List.replicate (rest.takeWhile (· == '=')).length '=' =
          rest.takeWhile (· == '=') := by
        refine (List.eq_replicate_iff.2 ⟨rfl, fun c hc => ?_⟩).symm
        simpa using List.all_eq_true.1 List.all_takeWhile c hc
      simp only [longOpening, hequals, List.cons_append, List.append_assoc, List.nil_append,
        ← hbody, List.takeWhile_append_dropWhile]
    · simp at h
  · simp at h

theorem cutAt_append {mark text before after : List Char}
    (h : cutAt mark text = some (before, after)) : before ++ mark ++ after = text := by
  induction text generalizing before with
  | nil => simp [cutAt] at h
  | cons c rest ih =>
    unfold cutAt at h
    split at h
    · rename_i hmark
      simp only [Option.some.injEq, Prod.mk.injEq] at h
      obtain ⟨rfl, rfl⟩ := h
      obtain ⟨tail, htail⟩ := List.isPrefixOf_iff_prefix.1 hmark
      simp [← htail]
    · obtain ⟨⟨front, back⟩, hcut, heq⟩ := Option.map_eq_some_iff.1 h
      simp only [Prod.mk.injEq] at heq
      obtain ⟨rfl, rfl⟩ := heq
      simpa using ih hcut

theorem cutAtQuote_append {quote : Char} {text before after : List Char}
    (h : cutAtQuote quote text = some (before, after)) : before ++ quote :: after = text := by
  fun_induction cutAtQuote quote text generalizing before with
  | case1 => simp at h
  | case2 c rest ih =>
    obtain ⟨⟨front, back⟩, hcut, heq⟩ := Option.map_eq_some_iff.1 h
    simp only [Prod.mk.injEq] at heq
    obtain ⟨rfl, rfl⟩ := heq
    simpa using ih hcut
  | case3 rest =>
    simp only [Option.some.injEq, Prod.mk.injEq] at h
    obtain ⟨rfl, rfl⟩ := h
    rfl
  | case4 => simp at h
  | case5 c rest _ _ _ ih =>
    obtain ⟨⟨front, back⟩, hcut, heq⟩ := Option.map_eq_some_iff.1 h
    simp only [Prod.mk.injEq] at heq
    obtain ⟨rfl, rfl⟩ := heq
    simpa using ih hcut

/-- A step takes the text of its lexeme off the front and leaves the rest as it is. -/
theorem text_append_of_next {line : Nat} {c : Char} {rest after : List Char} {lexeme : Lexeme}
    (h : next line c rest = .ok (lexeme, after)) : lexeme.text ++ after = c :: rest := by
  unfold next at h
  split at h
  · rename_i text
    split at h
    · rename_i level inside hopen
      split at h
      · rename_i body tail hcut
        simp only [Except.ok.injEq, Prod.mk.injEq] at h
        obtain ⟨rfl, rfl⟩ := h
        simp only [Lexeme.text, List.cons_append, List.append_assoc, List.cons.injEq, true_and]
        rw [← longOpening?_append hopen, ← cutAt_append hcut]
        simp
      · simp at h
    · simp only [Except.ok.injEq, Prod.mk.injEq] at h
      obtain ⟨rfl, rfl⟩ := h
      simp [Lexeme.text]
  · split at h
    · split at h
      · rename_i body tail hcut
        simp only [Except.ok.injEq, Prod.mk.injEq] at h
        obtain ⟨rfl, rfl⟩ := h
        simp [Lexeme.text, cutAtQuote_append hcut]
      · simp at h
    · split at h
      · rename_i level inside hopen
        split at h
        · rename_i body tail hcut
          simp only [Except.ok.injEq, Prod.mk.injEq] at h
          obtain ⟨rfl, rfl⟩ := h
          rw [← longOpening?_append hopen, ← cutAt_append hcut]
          simp [Lexeme.text]
        · simp at h
      · simp only [Except.ok.injEq, Prod.mk.injEq] at h
        obtain ⟨rfl, rfl⟩ := h
        rfl

theorem text_ne_nil_of_next {line : Nat} {c : Char} {rest after : List Char} {lexeme : Lexeme}
    (h : next line c rest = .ok (lexeme, after)) : lexeme.text ≠ [] := by
  unfold next at h
  repeat' split at h
  all_goals simp only [Except.ok.injEq, Prod.mk.injEq, reduceCtorEq] at h
  all_goals
    obtain ⟨rfl, rfl⟩ := h
    simp [Lexeme.text, longOpening]

theorem length_lt_of_next {line : Nat} {c : Char} {rest after : List Char} {lexeme : Lexeme}
    (h : next line c rest = .ok (lexeme, after)) : after.length < (c :: rest).length := by
  rw [← text_append_of_next h, List.length_append]
  have := List.length_pos_iff.2 (text_ne_nil_of_next h)
  omega

/-- The lexemes of a text whose first character stands on the given line. -/
def lexemesFrom (line : Nat) (source : List Char) : Except Unclosed (List Lexeme) :=
  match source with
  | [] => .ok []
  | c :: rest =>
    match _hnext : next line c rest with
    | .error unclosed => .error unclosed
    | .ok (lexeme, after) =>
      (lexemesFrom (line + lexeme.text.count '\n') after).map (lexeme :: ·)
termination_by source.length
decreasing_by exact length_lt_of_next _hnext

def lexemes (source : List Char) : Except Unclosed (List Lexeme) :=
  lexemesFrom 1 source

end Rebuild.Require
