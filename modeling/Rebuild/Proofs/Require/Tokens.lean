import Rebuild.Proofs.Require.Occurrences

/-!
# Tokens before a keyword

For the language, `require` is the name of a field or of a method when the token before it is a dot
or a colon, whatever stands between the two.  The scan looks at the one character before the keyword
instead.  Here lexemes are read as tokens, and the two are compared: they differ where layout stands
behind a dot or a colon, and where the character is the end of another token.
-/

namespace Rebuild.Require

variable {source : List Char} {parts base front : List Lexeme}

/-! ## Reading tokens -/

inductive Token where
  | name (text : List Char)
  | number (text : List Char)
  | symbol (text : List Char)
  | literal
  deriving DecidableEq

def Token.text : Token → List Char
  | .name text => text
  | .number text => text
  | .symbol text => text
  | .literal => []

def isNameChar (c : Char) : Bool :=
  c.isAlphanum || c == '_'

/-- The symbols of more than one character.  Each is a symbol without its last character too, so
the longest symbol is found by adding one character after the other. -/
def longSymbols : List (List Char) :=
  [['.', '.'], ['.', '.', '.'], [':', ':'], ['=', '='], ['~', '='], ['<', '='], ['>', '='],
    ['/', '/'], ['<', '<'], ['>', '>']]

/-- A sign belongs to a number when it stands directly behind the mark of the exponent. -/
def takesSign (number : List Char) : Bool :=
  let mark := if number.take 2 = ['0', 'x'] ∨ number.take 2 = ['0', 'X'] then 'p' else 'e'
  number.getLast?.any (·.toLower == mark)

/-- What becomes of a token when the character directly behind it belongs to it.  A number takes in
letters and dots whether or not it is well formed with them. -/
def Token.grow? (c : Char) : Token → Option Token
  | .name text => if isNameChar c then some (.name (text ++ [c])) else none
  | .number text =>
    if isNameChar c || c == '.' || (c == '+' || c == '-') && takesSign text then
      some (.number (text ++ [c]))
    else none
  | .symbol text =>
    if text = ['.'] ∧ c.isDigit = true then some (.number (text ++ [c]))
    else if text ++ [c] ∈ longSymbols then some (.symbol (text ++ [c]))
    else none
  | .literal => none

def Token.start (c : Char) : Token :=
  if c.isDigit then .number [c] else if isNameChar c then .name [c] else .symbol [c]

/-- The tokens that have come to an end, and the one that the next character touches. -/
structure Reading where
  done : List Token
  current : Option Token

def Reading.tokens (reading : Reading) : List Token :=
  reading.done ++ reading.current.toList

def Reading.step (reading : Reading) : Lexeme → Reading
  | .code c =>
    if Text.isBlank c then ⟨reading.tokens, none⟩
    else
      match reading.current.bind (Token.grow? c) with
      | some token => ⟨reading.done, some token⟩
      | none => ⟨reading.tokens, some (.start c)⟩
  | .comment _ => ⟨reading.tokens, none⟩
  | .literal _ _ _ => ⟨reading.tokens ++ [.literal], none⟩

def reading (parts : List Lexeme) : Reading :=
  parts.foldl Reading.step ⟨[], none⟩

def tokens (parts : List Lexeme) : List Token :=
  (reading parts).tokens

/-- The keyword behind these lexemes is a token of its own. -/
def IsIdentifierAt (base : List Lexeme) : Prop :=
  tokens (base ++ keyword.map .code) = tokens base ++ [.name keyword]

instance (base : List Lexeme) : Decidable (IsIdentifierAt base) :=
  inferInstanceAs (Decidable (_ = _))

/-- The last token is a dot or a colon. -/
def Qualified (base : List Lexeme) : Prop :=
  (tokens base).getLast? = some (.symbol ['.']) ∨ (tokens base).getLast? = some (.symbol [':'])

instance (base : List Lexeme) : Decidable (Qualified base) :=
  inferInstanceAs (Decidable (_ ∨ _))

/-- The symbols that end in a dot or a colon. -/
def joiningSymbols : List (List Char) :=
  [['.'], ['.', '.'], ['.', '.', '.'], [':'], [':', ':']]

/-- A symbol that ends in a dot or a colon, or a letter or numeral past the ones of names. -/
def IsJoiningSymbol (text : List Char) : Prop :=
  text ∈ joiningSymbols ∨ ∃ c, text = [c] ∧ Text.isWordChar c = true

/-- A symbol that the scan takes for the front of a longer name or path touches the keyword. -/
def SymbolTouches (base : List Lexeme) : Prop :=
  ∃ text, (reading base).current = some (.symbol text) ∧ IsJoiningSymbol text

/-! ## Characters -/

section Characters

variable {c : Char} {text : List Char}

def blankRanges : List (Nat × Nat) :=
  [(9, 13), (28, 32), (0x85, 0x85), (0xa0, 0xa0), (0x1680, 0x1680), (0x2000, 0x200a),
    (0x2028, 0x2028), (0x2029, 0x2029), (0x202f, 0x202f), (0x205f, 0x205f), (0x3000, 0x3000)]

theorem exists_blankRange (hc : Text.isBlank c = true) :
    ∃ range ∈ blankRanges, range.1 ≤ c.toNat ∧ c.toNat ≤ range.2 := by
  simp only [Text.isBlank, Bool.or_eq_true, Bool.and_eq_true, decide_eq_true_eq, beq_iff_eq] at hc
  rcases hc with (((((((((h | h) | h) | h) | h) | h) | h) | h) | h) | h) | h
  · exact ⟨(9, 13), by decide, h⟩
  · exact ⟨(28, 32), by decide, h⟩
  · exact ⟨(0x85, 0x85), by decide, h.ge, h.le⟩
  · exact ⟨(0xa0, 0xa0), by decide, h.ge, h.le⟩
  · exact ⟨(0x1680, 0x1680), by decide, h.ge, h.le⟩
  · exact ⟨(0x2000, 0x200a), by decide, h⟩
  · exact ⟨(0x2028, 0x2028), by decide, h.ge, h.le⟩
  · exact ⟨(0x2029, 0x2029), by decide, h.ge, h.le⟩
  · exact ⟨(0x202f, 0x202f), by decide, h.ge, h.le⟩
  · exact ⟨(0x205f, 0x205f), by decide, h.ge, h.le⟩
  · exact ⟨(0x3000, 0x3000), by decide, h.ge, h.le⟩

theorem isBlank_of_joinsKeyword (hc : joinsKeyword c = true) : Text.isBlank c = false := by
  have hranges : ∀ range ∈ blankRanges, ∀ offset < range.2 - range.1 + 1,
      joinsKeyword (Char.ofNat (range.1 + offset)) = false := by
    decide +kernel
  refine Bool.eq_false_iff.2 fun hblank => ?_
  obtain ⟨range, hrange, hfirst, hlast⟩ := exists_blankRange hblank
  have hnot := hranges range hrange (c.toNat - range.1) (by omega)
  rw [Nat.add_sub_cancel' hfirst, Char.ofNat_toNat, hc] at hnot
  cases hnot

/-- Of the symbols of more than one character only those of dots and of colons end in a character
that joins a keyword. -/
theorem isJoiningSymbol_of_mem (htext : text ∈ longSymbols) (hlast : text.getLast? = some c)
    (hc : joinsKeyword c = true) : IsJoiningSymbol text := by
  have hall : ∀ symbol ∈ longSymbols, symbol.getLast?.any joinsKeyword = true →
      symbol ∈ joiningSymbols := by
    decide +kernel
  refine .inl (hall text htext ?_)
  rwa [hlast]

theorem joinsKeyword_of_isJoiningSymbol (htext : IsJoiningSymbol text)
    (hlast : text.getLast? = some c) : joinsKeyword c = true := by
  rcases htext with hmem | ⟨d, rfl, hd⟩
  · have hall : ∀ symbol ∈ joiningSymbols, symbol.getLast?.all joinsKeyword = true := by
      decide +kernel
    have hthis := hall text hmem
    rwa [hlast] at hthis
  · obtain rfl := Option.some.inj hlast
    simp [joinsKeyword, hd]

end Characters

/-! ## One step -/

section Step

variable {c : Char} {token grown : Token} {state : Reading} {text : List Char}

theorem Token.text_of_grow? (hgrow : token.grow? c = some grown) :
    grown.text = token.text ++ [c] := by
  cases token with
  | name text =>
      cases (Option.ite_none_right_eq_some.1 hgrow).2
      rfl
  | number text =>
      cases (Option.ite_none_right_eq_some.1 hgrow).2
      rfl
  | symbol text =>
      simp only [Token.grow?] at hgrow
      split at hgrow
      next =>
        cases hgrow
        rfl
      next =>
        cases (Option.ite_none_right_eq_some.1 hgrow).2
        rfl
  | literal => cases hgrow

theorem Token.mem_longSymbols_of_grow? (hgrow : token.grow? c = some (.symbol text)) :
    text ∈ longSymbols := by
  cases token with
  | name front => cases (Option.ite_none_right_eq_some.1 hgrow).2
  | number front => cases (Option.ite_none_right_eq_some.1 hgrow).2
  | symbol front =>
      simp only [Token.grow?] at hgrow
      split at hgrow
      next => cases hgrow
      next =>
        obtain ⟨hmem, heq⟩ := Option.ite_none_right_eq_some.1 hgrow
        cases heq
        exact hmem
  | literal => cases hgrow

theorem Token.isJoiningSymbol_of_start (hstart : Token.start c = .symbol text)
    (hc : joinsKeyword c = true) : IsJoiningSymbol text := by
  unfold Token.start at hstart
  split at hstart
  next => cases hstart
  next =>
    split at hstart
    next => cases hstart
    next =>
      cases hstart
      simp only [joinsKeyword, Bool.or_eq_true, beq_iff_eq] at hc
      rcases hc with (hword | rfl) | rfl
      · exact .inr ⟨c, rfl, hword⟩
      · exact .inl (by decide)
      · exact .inl (by decide)

theorem Token.text_start (c : Char) : (Token.start c).text = [c] := by
  unfold Token.start
  split
  · rfl
  · split <;> rfl

theorem Reading.step_of_blank (hblank : Text.isBlank c = true) :
    state.step (.code c) = ⟨state.tokens, none⟩ :=
  if_pos hblank

theorem Reading.step_of_grow (hblank : Text.isBlank c = false)
    (hgrow : state.current.bind (Token.grow? c) = some grown) :
    state.step (.code c) = ⟨state.done, some grown⟩ := by
  simp only [Reading.step, hblank, hgrow, Bool.false_eq_true, if_false]

theorem Reading.step_of_start (hblank : Text.isBlank c = false)
    (hgrow : state.current.bind (Token.grow? c) = none) :
    state.step (.code c) = ⟨state.tokens, some (.start c)⟩ := by
  simp only [Reading.step, hblank, hgrow, Bool.false_eq_true, if_false]

theorem reading_append (base more : List Lexeme) :
    reading (base ++ more) = more.foldl Reading.step (reading base) :=
  List.foldl_append

/-- The token that the next character touches ends in the last character of the code. -/
theorem exists_of_current (hcurrent : (reading base).current = some token) :
    ∃ front c, base = front ++ [.code c] ∧ token.text.getLast? = some c := by
  rcases List.eq_nil_or_concat base with rfl | ⟨front, part, rfl⟩
  · cases hcurrent
  · rw [List.concat_eq_append] at hcurrent ⊢
    rw [reading_append, List.foldl_cons, List.foldl_nil] at hcurrent
    cases part with
    | comment text => cases hcurrent
    | literal opening body closing => cases hcurrent
    | code c =>
        refine ⟨front, c, rfl, ?_⟩
        cases hblank : Text.isBlank c with
        | true =>
            rw [Reading.step_of_blank hblank] at hcurrent
            cases hcurrent
        | false =>
            cases hgrow : (reading front).current.bind (Token.grow? c) with
            | none =>
                rw [Reading.step_of_start hblank hgrow] at hcurrent
                cases hcurrent
                rw [Token.text_start]
                rfl
            | some grown =>
                rw [Reading.step_of_grow hblank hgrow] at hcurrent
                cases hcurrent
                obtain ⟨old, -, hgrow⟩ := Option.bind_eq_some_iff.1 hgrow
                rw [Token.text_of_grow? hgrow, List.getLast?_concat]

/-- Behind a character that joins a keyword a token is not yet at an end. -/
theorem exists_current_of_joined (hjoined : Joined base) :
    ∃ token, (reading base).current = some token ∧
      ∀ text, token = .symbol text → IsJoiningSymbol text := by
  obtain ⟨front, c, rfl, hc⟩ := hjoined
  have hblank := isBlank_of_joinsKeyword hc
  rw [reading_append, List.foldl_cons, List.foldl_nil]
  cases hgrow : (reading front).current.bind (Token.grow? c) with
  | none =>
      rw [Reading.step_of_start hblank hgrow]
      exact ⟨_, rfl, fun text hstart => Token.isJoiningSymbol_of_start hstart hc⟩
  | some grown =>
      rw [Reading.step_of_grow hblank hgrow]
      refine ⟨grown, rfl, ?_⟩
      rintro text rfl
      obtain ⟨old, -, hold⟩ := Option.bind_eq_some_iff.1 hgrow
      refine isJoiningSymbol_of_mem (Token.mem_longSymbols_of_grow? hold) ?_ hc
      have htext := Token.text_of_grow? hold
      rw [Token.text] at htext
      rw [htext, List.getLast?_concat]

end Step

/-! ## The keyword as a token -/

section Keyword

variable {c : Char} {text : List Char} {done : List Token} {token : Token} {state : Reading}

/-- Names and numbers go on with every letter. -/
def Token.isWord : Token → Bool
  | .name _ => true
  | .number _ => true
  | _ => false

theorem Token.exists_grow?_of_isWord (htoken : token.isWord = true) (hc : isNameChar c = true) :
    ∃ grown, token.grow? c = some grown ∧ grown.isWord = true := by
  cases token with
  | name text => exact ⟨_, if_pos hc, rfl⟩
  | number text =>
      refine ⟨.number (text ++ [c]), if_pos ?_, rfl⟩
      rw [hc, Bool.true_or, Bool.true_or]
  | symbol text => cases htoken
  | literal => cases htoken

theorem Token.isWord_of_grow?_r (hgrow : token.grow? 'r' ≠ none) : token.isWord = true := by
  cases token with
  | name text => rfl
  | number text => rfl
  | symbol text =>
      have hall : ∀ symbol ∈ longSymbols, symbol.getLast? ≠ some 'r' := by decide
      have hdigit : ¬ 'r'.isDigit = true := by decide
      have hmem : text ++ ['r'] ∉ longSymbols := fun hmem => hall _ hmem List.getLast?_concat
      simp [Token.grow?, hmem, hdigit] at hgrow
  | literal => exact absurd rfl hgrow

theorem foldl_step_of_isWord (htoken : token.isWord = true)
    (htext : ∀ c ∈ text, isNameChar c = true ∧ Text.isBlank c = false) :
    ∃ grown, (text.map Lexeme.code).foldl Reading.step ⟨done, some token⟩ =
      ⟨done, some grown⟩ := by
  induction text generalizing token with
  | nil => exact ⟨token, rfl⟩
  | cons c rest ih =>
      obtain ⟨hc, hblank⟩ := htext c List.mem_cons_self
      obtain ⟨grown, hgrow, hgrown⟩ := Token.exists_grow?_of_isWord htoken hc
      have hstep : (⟨done, some token⟩ : Reading).step (.code c) = ⟨done, some grown⟩ :=
        Reading.step_of_grow hblank hgrow
      rw [List.map_cons, List.foldl_cons, hstep]
      exact ih hgrown fun d hd => htext d (List.mem_cons_of_mem c hd)

theorem foldl_step_keyword_of_none (hgrow : state.current.bind (Token.grow? 'r') = none) :
    (keyword.map Lexeme.code).foldl Reading.step state = ⟨state.tokens, some (.name keyword)⟩ := by
  rw [keyword_eq, List.map_cons, List.foldl_cons, Reading.step_of_start (by decide) hgrow]
  rfl

/-- The keyword is a token of its own unless its first letter goes into the token before. -/
theorem isIdentifierAt_iff :
    IsIdentifierAt base ↔ (reading base).current.bind (Token.grow? 'r') = none := by
  rw [IsIdentifierAt, tokens, reading_append]
  constructor
  · intro htokens
    by_contra hgrow
    obtain ⟨grown, hgrown⟩ := Option.ne_none_iff_exists'.1 hgrow
    obtain ⟨token, htoken, hthis⟩ := Option.bind_eq_some_iff.1 hgrown
    have hword := Token.isWord_of_grow?_r (hthis ▸ Option.some_ne_none grown)
    have hall : keyword.all (fun c => isNameChar c && !Text.isBlank c) = true := by decide +kernel
    have hletters : ∀ c ∈ keyword, isNameChar c = true ∧ Text.isBlank c = false := by
      simpa using List.all_eq_true.1 hall
    have hstate : reading base = ⟨(reading base).done, some token⟩ := by
      rw [← htoken]
    -- the whole keyword goes into that token, so there is no further one
    obtain ⟨last, hlast⟩ := @foldl_step_of_isWord keyword (reading base).done token hword hletters
    rw [hstate, hlast] at htokens
    have hlength := congrArg List.length htokens
    simp [Reading.tokens, tokens, htoken] at hlength
  · intro hgrow
    rw [foldl_step_keyword_of_none hgrow]
    rfl

/-- A keyword that is a token of its own is joined to the code before exactly by a symbol. -/
theorem IsIdentifierAt.joined_iff (hkeyword : IsIdentifierAt base) :
    Joined base ↔ SymbolTouches base := by
  rw [isIdentifierAt_iff] at hkeyword
  constructor
  · intro hjoined
    obtain ⟨token, hcurrent, hsymbol⟩ := exists_current_of_joined hjoined
    rw [hcurrent, Option.bind_some] at hkeyword
    -- a name or a number would have taken in the first letter of the keyword
    have hword : ¬token.isWord = true := by
      intro hword
      obtain ⟨grown, hgrow, -⟩ := Token.exists_grow?_of_isWord hword (by decide : isNameChar 'r')
      rw [hgrow] at hkeyword
      cases hkeyword
    cases token with
    | name text => exact absurd rfl hword
    | number text => exact absurd rfl hword
    | symbol text => exact ⟨text, hcurrent, hsymbol text rfl⟩
    | literal =>
        obtain ⟨front, c, -, hlast⟩ := exists_of_current hcurrent
        cases hlast
  · rintro ⟨text, hcurrent, htext⟩
    obtain ⟨front, c, rfl, hlast⟩ := exists_of_current hcurrent
    exact ⟨front, c, rfl, joinsKeyword_of_isJoiningSymbol htext hlast⟩

end Keyword

/-! ## Fields and methods -/

theorem getLast?_tokens {token : Token} (hcurrent : (reading base).current = some token) :
    (tokens base).getLast? = some token := by
  rw [tokens, Reading.tokens, hcurrent]
  exact List.getLast?_concat

/-- Where a dot or a colon before the keyword touches it, and no other symbol does that the scan
takes for one, the symbol that touches is the token before. -/
theorem symbolTouches_iff_qualified (hnear : Qualified base → (reading base).current ≠ none)
    (honly : ∀ text, (reading base).current = some (.symbol text) → IsJoiningSymbol text →
      text = ['.'] ∨ text = [':']) : SymbolTouches base ↔ Qualified base := by
  constructor
  · rintro ⟨text, hcurrent, htext⟩
    have hlast := getLast?_tokens hcurrent
    rcases honly text hcurrent htext with rfl | rfl
    · exact .inl hlast
    · exact .inr hlast
  · intro hqualified
    obtain ⟨token, hcurrent⟩ := Option.ne_none_iff_exists'.1 (hnear hqualified)
    have hlast := getLast?_tokens hcurrent
    rcases hqualified with hdot | hcolon
    · obtain rfl := Option.some.inj (hlast.symm.trans hdot)
      exact ⟨_, hcurrent, .inl (by decide)⟩
    · obtain rfl := Option.some.inj (hlast.symm.trans hcolon)
      exact ⟨_, hcurrent, .inl (by decide)⟩

/-- The references of a source are the names of the literals that are arguments.  A literal behind
the keyword, where it is a token of its own, is an argument exactly when no symbol that ends in a
dot or a colon and no foreign letter touches the keyword.  This is the same as the token before not
being a dot or a colon, unless layout parts it from the keyword or the symbol that touches is
another. -/
theorem reported_exact (hfree : '\x00' ∉ source) (hclosed : ¬LeavesOpen source) :
    ∃ parts names, Decomposes source parts ∧ references source = .ok names ∧
      (∀ name, name ∈ names ↔ name ≠ "" ∧
        ∃ body, name = String.ofList (Text.strip body) ∧ IsArgument parts body) ∧
      ∀ base front, KeywordAt base front → IsIdentifierAt base →
        (AwaitsArgument front ↔ ¬SymbolTouches base) ∧
        ((Qualified base → (reading base).current ≠ none) →
          (∀ text, (reading base).current = some (.symbol text) → IsJoiningSymbol text →
            text = ['.'] ∨ text = [':']) →
          (AwaitsArgument front ↔ ¬Qualified base)) := by
  obtain ⟨parts, hparts⟩ := (exists_decomposes_or_leavesOpen source).resolve_right hclosed
  have hnames := references_of_decomposes hparts hfree
  refine ⟨parts, argumentNames parts, hparts, hnames, fun name => ?_, ?_⟩
  · rw [mem_references_iff hparts hnames]
    simp [hparts.not_spellsArgument hfree]
  · intro base front hkeyword hidentifier
    have hexact : AwaitsArgument front ↔ ¬SymbolTouches base := by
      rw [hkeyword.awaitsArgument_iff, hidentifier.joined_iff]
    refine ⟨hexact, fun hnear honly => ?_⟩
    rw [hexact, symbolTouches_iff_qualified hnear honly]

/-- The given code, and behind it the keyword and a literal. -/
def callBehind (code : List Char) : List Char :=
  code ++ "require \"x\"".toList

def keywordBehind (code : List Char) : List Lexeme :=
  code.map .code ++ keyword.map .code ++ [.code ' ']

theorem keywordAt_keywordBehind (code : List Char) :
    KeywordAt (code.map .code) (keywordBehind code) :=
  ⟨[.code ' '], rfl, [.code ' '], [], rfl, by simp [IsLayout, Text.isBlank], .inl rfl⟩

/-- A concatenation with blanks around the dots, behind a method call and a field. -/
def spacedCode : List Char :=
  "a:b() c.d = 1.5 .. ".toList

theorem reported_exact_spacedCode :
    '\x00' ∉ callBehind spacedCode ∧ ¬LeavesOpen (callBehind spacedCode) ∧
      IsIdentifierAt (spacedCode.map .code) ∧ ¬Qualified (spacedCode.map .code) ∧
      AwaitsArgument (keywordBehind spacedCode) ∧
      references (callBehind spacedCode) = .ok ["x"] := by
  have hfree : '\x00' ∉ callBehind spacedCode := by decide +kernel
  have hnames : references (callBehind spacedCode) = .ok ["x"] := by decide +kernel
  have hclosed := not_leavesOpen_of_references hnames
  have hidentifier : IsIdentifierAt (spacedCode.map .code) := by decide +kernel
  have hplain : ¬Qualified (spacedCode.map .code) := by decide +kernel
  have hcurrent : (reading (spacedCode.map .code)).current = none := by decide +kernel
  obtain ⟨parts, names, -, -, -, hreported⟩ := reported_exact hfree hclosed
  obtain ⟨-, hlaw⟩ := hreported _ _ (keywordAt_keywordBehind spacedCode) hidentifier
  have hnear : Qualified (spacedCode.map .code) →
      (reading (spacedCode.map .code)).current ≠ none := fun hqualified => absurd hqualified hplain
  have honly : ∀ text, (reading (spacedCode.map .code)).current = some (.symbol text) →
      IsJoiningSymbol text → text = ['.'] ∨ text = [':'] := by
    intro text hsome
    rw [hcurrent] at hsome
    cases hsome
  exact ⟨hfree, hclosed, hidentifier, hplain, (hlaw hnear honly).2 hplain, hnames⟩

/-- Every literal behind the keyword, where it is a token of its own, is an argument exactly when
the token before is not a dot or a colon. -/
def ReportsByTokens (source : List Char) : Prop :=
  ∀ parts, Decomposes source parts →
    ∀ base front opening body closing rest, parts = front ++ .literal opening body closing :: rest →
      KeywordAt base front → IsIdentifierAt base → (AwaitsArgument front ↔ ¬Qualified base)

theorem not_reportsByTokens {code : List Char}
    (hlexemes : lexemes (callBehind code) =
      .ok (keywordBehind code ++ [.literal ['"'] ['x'] ['"']]))
    (hidentifier : IsIdentifierAt (code.map .code))
    (hwrong : EndsInCall ((keywordBehind code).map codeChar) ↔ Qualified (code.map .code)) :
    ¬ReportsByTokens (callBehind code) := by
  intro hreports
  have hlaw := hreports _ (decomposes_of_lexemes hlexemes) _ _ _ _ _ _ rfl
    (keywordAt_keywordBehind code) hidentifier
  rw [← endsInCall_map_iff, hwrong] at hlaw
  exact iff_not_self hlaw

/-- Layout behind a dot makes a reference of a field, and a concatenation or a label that touches
the keyword hides a reference. -/
theorem one_character_misleads :
    (references (callBehind "a. ".toList) = .ok ["x"] ∧
        ¬ReportsByTokens (callBehind "a. ".toList)) ∧
      (references (callBehind "s = a..".toList) = .ok [] ∧
        ¬ReportsByTokens (callBehind "s = a..".toList)) ∧
      references (callBehind "::l::".toList) = .ok [] ∧
        ¬ReportsByTokens (callBehind "::l::".toList) := by
  refine ⟨⟨by decide +kernel, ?_⟩, ⟨by decide +kernel, ?_⟩, by decide +kernel, ?_⟩
  · exact not_reportsByTokens (by decide +kernel) (by decide +kernel) (by decide +kernel)
  · exact not_reportsByTokens (by decide +kernel) (by decide +kernel) (by decide +kernel)
  · exact not_reportsByTokens (by decide +kernel) (by decide +kernel) (by decide +kernel)

end Rebuild.Require
