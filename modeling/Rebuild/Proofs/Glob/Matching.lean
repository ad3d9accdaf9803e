import Rebuild.Glob.Selection
import Mathlib.Tactic

/-!
# What a pattern matches

The table of a pattern says for every suffix of a text whether the tokens match it, and they match
it in the sense of a relation that takes the tokens one by one.  A pattern that closes its classes
can be cut anywhere behind them, and matches what its two parts match one after the other.  So the
stars of `**/` take any text and its slash takes one: such a group asks for a folder.  It may match
none only where it can be taken off, at the front of the pattern.
-/

namespace Rebuild.Glob

inductive Matches : List Token → List CodePoint → Prop
  | nil : Matches [] []
  | star {rest : List Token} (skipped : List CodePoint) {text : List CodePoint}
      (hrest : Matches rest text) : Matches (.star :: rest) (skipped ++ text)
  | one {token : Token} {rest : List Token} {c : CodePoint} {text : List CodePoint}
      (hc : token.accepts c = true) (hrest : Matches rest text) :
      Matches (token :: rest) (c :: text)

variable {token : Token} {first second pattern rest : List Token}
  {text chars body : List CodePoint} {c : CodePoint}

theorem Token.char_ne_star (c : CodePoint) : Token.char c ≠ .star :=
  Token.noConfusion

@[simp] theorem matches_nil_iff : Matches [] text ↔ text = [] := by
  constructor
  · intro hmatch
    cases hmatch
    rfl
  · rintro rfl
    exact .nil

theorem matches_star_iff :
    Matches (.star :: rest) text ↔ ∃ skipped kept, text = skipped ++ kept ∧ Matches rest kept := by
  constructor
  · intro hmatch
    cases hmatch with
    | star skipped hrest => exact ⟨skipped, _, rfl, hrest⟩
    | one hc hrest => cases hc
  · rintro ⟨skipped, kept, rfl, hrest⟩
    exact .star skipped hrest

theorem matches_cons_iff (htoken : token ≠ .star) :
    Matches (token :: rest) text ↔
      ∃ c kept, text = c :: kept ∧ token.accepts c = true ∧ Matches rest kept := by
  constructor
  · intro hmatch
    cases hmatch with
    | star skipped hrest => exact (htoken rfl).elim
    | one hc hrest => exact ⟨_, _, rfl, hc, hrest⟩
  · rintro ⟨c, kept, rfl, hc, hrest⟩
    exact .one hc hrest

/-- Tokens in a row match texts in a row. -/
theorem matches_append_iff :
    Matches (first ++ second) text ↔
      ∃ before after, text = before ++ after ∧ Matches first before ∧ Matches second after := by
  induction first generalizing text with
  | nil => simp
  | cons token rest ih =>
      rw [List.cons_append]
      by_cases htoken : token = .star
      · subst htoken
        simp only [matches_star_iff, ih]
        constructor
        · rintro ⟨skipped, _, rfl, before, after, rfl, hbefore, hafter⟩
          exact ⟨skipped ++ before, after, by simp, ⟨skipped, before, rfl, hbefore⟩, hafter⟩
        · rintro ⟨_, after, rfl, ⟨skipped, before, rfl, hbefore⟩, hafter⟩
          exact ⟨skipped, before ++ after, by simp, before, after, rfl, hbefore, hafter⟩
      · simp only [matches_cons_iff htoken, ih]
        constructor
        · rintro ⟨c, _, rfl, hc, before, after, rfl, hbefore, hafter⟩
          exact ⟨c :: before, after, rfl, ⟨c, before, rfl, hc, hbefore⟩, hafter⟩
        · rintro ⟨_, after, rfl, ⟨c, before, rfl, hc, hbefore⟩, hafter⟩
          exact ⟨c, before ++ after, rfl, hc, before, after, rfl, hbefore, hafter⟩

/-! ## The table -/

theorem headD_anyFrom (entries : List Bool) : (anyFrom entries).headD false = entries.any id := by
  cases entries <;> rfl

theorem suffixTable_of_ne_star (htoken : token ≠ .star) :
    suffixTable (token :: rest) text =
      List.zipWith (fun c tail => token.accepts c && tail) text (suffixTable rest text).tail ++
        [false] := by
  cases token with
  | star => exact (htoken rfl).elim
  | any | char | oneOf => rfl

theorem suffixTable_ne_nil (pattern : List Token) (text : List CodePoint) :
    suffixTable pattern text ≠ [] := by
  induction pattern with
  | nil => simp [suffixTable]
  | cons token rest ih =>
      by_cases htoken : token = .star
      · subst htoken
        obtain ⟨entry, entries, hentries⟩ := List.exists_cons_of_ne_nil ih
        simp [suffixTable, hentries, anyFrom]
      · simp [suffixTable_of_ne_star htoken]

theorem suffixTable_nil (pattern : List Token) :
    suffixTable pattern [] = [matchesTokens pattern []] := by
  induction pattern with
  | nil => rfl
  | cons token rest ih =>
      rw [matchesTokens]
      by_cases htoken : token = .star
      · subst htoken
        simp [suffixTable, ih, anyFrom]
      · simp [suffixTable_of_ne_star htoken]

/-- A text adds its entry in front of those for its suffixes. -/
theorem suffixTable_cons (pattern : List Token) (c : CodePoint) (text : List CodePoint) :
    suffixTable pattern (c :: text) =
      matchesTokens pattern (c :: text) :: suffixTable pattern text := by
  induction pattern with
  | nil => simp [matchesTokens, suffixTable, List.replicate_succ]
  | cons token rest ih =>
      rw [matchesTokens]
      by_cases htoken : token = .star
      · subst htoken
        simp [suffixTable, ih, anyFrom]
      · obtain ⟨entry, entries, hentries⟩ :=
          List.exists_cons_of_ne_nil (suffixTable_ne_nil rest text)
        simp [suffixTable_of_ne_star htoken, ih, hentries]

theorem suffixTable_eq_map_tails (pattern : List Token) (text : List CodePoint) :
    suffixTable pattern text = text.tails.map (matchesTokens pattern) := by
  induction text with
  | nil => simp [suffixTable_nil]
  | cons c rest ih => simp [suffixTable_cons, ih]

theorem matchesTokens_star_iff :
    matchesTokens (.star :: rest) text = true ↔
      ∃ suffix, suffix <:+ text ∧ matchesTokens rest suffix = true := by
  rw [matchesTokens, suffixTable, headD_anyFrom, suffixTable_eq_map_tails]
  simp

theorem matchesTokens_cons_cons (htoken : token ≠ .star) :
    matchesTokens (token :: rest) (c :: text) = (token.accepts c && matchesTokens rest text) := by
  obtain ⟨entry, entries, hentries⟩ := List.exists_cons_of_ne_nil (suffixTable_ne_nil rest text)
  rw [matchesTokens, matchesTokens, suffixTable_of_ne_star htoken, suffixTable_cons, hentries]
  simp

theorem matchesTokens_iff : matchesTokens pattern text = true ↔ Matches pattern text := by
  induction pattern generalizing text with
  | nil => cases text <;> simp [matchesTokens, suffixTable, List.replicate_succ]
  | cons token rest ih =>
      by_cases htoken : token = .star
      · subst htoken
        rw [matchesTokens_star_iff, matches_star_iff]
        constructor
        · rintro ⟨suffix, ⟨skipped, rfl⟩, hmatch⟩
          exact ⟨skipped, suffix, rfl, ih.1 hmatch⟩
        · rintro ⟨skipped, kept, rfl, hmatch⟩
          exact ⟨kept, List.suffix_append skipped kept, ih.2 hmatch⟩
      · rw [matches_cons_iff htoken]
        cases text with
        | nil => simp [matchesTokens, suffixTable_of_ne_star htoken]
        | cons c text => simp [matchesTokens_cons_cons htoken, ih]

theorem isMatch_iff {text pattern : Text} :
    isMatch text pattern = true ↔ Matches (tokens pattern) text.toList :=
  matchesTokens_iff

/-! ## Patterns in parts -/

/-- A character taken off the front of a text, if it stands there. -/
def lead (mark : CodePoint) : List CodePoint → List CodePoint × List CodePoint
  | c :: rest => if c = mark then ([c], rest) else ([], c :: rest)
  | [] => ([], [])

/-- The text of a class of which `front` is read, up to the bracket that closes it. -/
def bodyAfter? (front chars : List CodePoint) : Option (List CodePoint) :=
  match chars.dropWhile (· != .char ']') with
  | .char ']' :: _ => some (front ++ chars.takeWhile (· != .char ']'))
  | _ => none

theorem lead_append (hchars : chars ≠ []) (mark : CodePoint) (more : List CodePoint) :
    lead mark (chars ++ more) = ((lead mark chars).1, (lead mark chars).2 ++ more) := by
  cases chars with
  | nil => exact (hchars rfl).elim
  | cons c rest =>
      rw [List.cons_append, lead, lead]
      split <;> rfl

theorem bodyAfter?_append {front : List CodePoint} (hbody : bodyAfter? front chars = some body)
    (more : List CodePoint) : bodyAfter? front (chars ++ more) = some body := by
  unfold bodyAfter? at hbody ⊢
  have hsplit := List.takeWhile_append_dropWhile (p := (· != .char ']')) (l := chars)
  split at hbody
  next after hdrop =>
    have hlength : (chars.takeWhile (· != .char ']')).length ≠ chars.length := by
      intro hlength
      have htotal := congrArg List.length hsplit
      simp [hdrop, hlength] at htotal
    rw [List.dropWhile_append, hdrop, List.takeWhile_append, if_neg hlength]
    exact hbody
  next => cases hbody

theorem lead_self (mark : CodePoint) (chars : List CodePoint) :
    lead mark (mark :: chars) = ([mark], chars) :=
  if_pos rfl

theorem lead_of_ne {mark : CodePoint} (hmark : ∀ rest, chars ≠ mark :: rest) :
    lead mark chars = ([], chars) := by
  cases chars with
  | nil => rfl
  | cons c rest =>
      rw [lead, if_neg]
      rintro rfl
      exact hmark rest rfl

theorem classBody?_eq (chars : List CodePoint) :
    classBody? chars =
      bodyAfter? ((lead (.char '!') chars).1 ++ (lead (.char ']') (lead (.char '!') chars).2).1)
        (lead (.char ']') (lead (.char '!') chars).2).2 := by
  unfold classBody?
  split
  next mark text hmark =>
    have hlead : lead (.char '!') chars = (mark, text) := by
      split at hmark
      next rest => exact (lead_self (.char '!') rest).trans hmark
      next hother => exact (lead_of_ne hother).trans hmark
    split
    next first last hfirst =>
      have hinner : lead (.char ']') text = (first, last) := by
        split at hfirst
        next rest => exact (lead_self (.char ']') rest).trans hfirst
        next hother => exact (lead_of_ne hother).trans hfirst
      rw [hlead, hinner]
      rfl

/-- A class that is closed stays as it is, whatever follows. -/
theorem classBody?_append (hbody : classBody? chars = some body) (more : List CodePoint) :
    classBody? (chars ++ more) = some body := by
  have hchars : chars ≠ [] := by
    rintro rfl
    cases hbody
  have hrest : (lead (.char '!') chars).2 ≠ [] := by
    intro hrest
    rw [classBody?_eq, hrest] at hbody
    cases hbody
  rw [classBody?_eq] at hbody
  rw [classBody?_eq, lead_append hchars, lead_append hrest]
  exact bodyAfter?_append hbody more

/-- The token of a character that opens no class. -/
def tokenOf (c : CodePoint) : Token :=
  if c = .char '*' then .star else if c = .char '?' then .any else .char c

theorem tokensFrom_cons (hc : c ≠ .char '[') (chars : List CodePoint) :
    tokensFrom 0 (c :: chars) = tokenOf c :: tokensFrom 0 chars := by
  by_cases hstar : c = .char '*'
  · subst hstar
    rfl
  · by_cases hany : c = .char '?'
    · subst hany
      rfl
    · rw [tokensFrom] <;> simp_all [tokenOf]

/-- Whether no class is open behind a pattern of which the next characters are already read. -/
def isClosedFrom : (skipped : Nat) → List CodePoint → Bool
  | skipped, [] => skipped == 0
  | skipped + 1, _ :: rest => isClosedFrom skipped rest
  | 0, .char '[' :: rest =>
    match classBody? rest with
    | some body => isClosedFrom (body.length + 1) rest
    | none => false
  | 0, _ :: rest => isClosedFrom 0 rest

/-- Behind its classes a pattern can be cut. -/
theorem tokensFrom_append {skipped : Nat} (hclosed : isClosedFrom skipped chars = true)
    (more : List CodePoint) :
    tokensFrom skipped (chars ++ more) = tokensFrom skipped chars ++ tokensFrom 0 more := by
  induction skipped, chars using isClosedFrom.induct with
  | case1 skipped =>
      have hskipped : skipped = 0 := by simpa [isClosedFrom] using hclosed
      simp [hskipped, tokensFrom]
  | case2 skipped c rest ih =>
      exact ih hclosed
  | case3 rest body hbody ih =>
      -- the class is read alike in both patterns, and the induction goes on in the middle of it
      rw [isClosedFrom, hbody] at hclosed
      rw [List.cons_append, tokensFrom, tokensFrom, classBody?_append hbody more, hbody]
      simp [ih hclosed]
  | case4 rest hbody =>
      rw [isClosedFrom, hbody] at hclosed
      cases hclosed
  | case5 c rest hbracket ih =>
      have hc : c ≠ .char '[' := by simpa using hbracket
      have hrest : isClosedFrom 0 rest = true := by
        rw [isClosedFrom] at hclosed
        · exact hclosed
        · exact hbracket
      rw [List.cons_append, tokensFrom_cons hc, tokensFrom_cons hc, ih hrest, List.cons_append]

theorem matches_tokensFrom_append (hclosed : isClosedFrom 0 chars = true) (more : List CodePoint) :
    Matches (tokensFrom 0 (chars ++ more)) text ↔
      ∃ before after, text = before ++ after ∧ Matches (tokensFrom 0 chars) before ∧
        Matches (tokensFrom 0 more) after := by
  rw [tokensFrom_append hclosed, matches_append_iff]

/-! ## Groups -/

/-- A group takes a text that ends in a slash. -/
theorem matches_group_iff :
    Matches (tokensFrom 0 (.char '*' :: .char '*' :: .char '/' :: chars)) text ↔
      ∃ above below, text = above ++ .char '/' :: below ∧ Matches (tokensFrom 0 chars) below := by
  have htokens : tokensFrom 0 (.char '*' :: .char '*' :: .char '/' :: chars) =
      .star :: .star :: .char (.char '/') :: tokensFrom 0 chars := rfl
  rw [htokens, matches_star_iff]
  simp only [matches_star_iff, matches_cons_iff (Token.char_ne_star (.char '/'))]
  constructor
  · rintro ⟨first, _, rfl, second, _, rfl, c, below, rfl, hc, hbelow⟩
    have hslash : .char '/' = c := by simpa [Token.accepts] using hc
    subst hslash
    exact ⟨first ++ second, below, by simp, hbelow⟩
  · rintro ⟨above, below, rfl, hbelow⟩
    exact ⟨above, _, rfl, [], _, rfl, .char '/', below, rfl, rfl, hbelow⟩

def groups : Nat → Text
  | 0 => ""
  | count + 1 => "**/" ++ groups count

theorem groups_append_group (count : Nat) : groups count ++ "**/" = "**/" ++ groups count := by
  induction count with
  | zero => rfl
  | succ count ih => rw [groups, Text.append_assoc, ih]

/-- Behind anything but groups a pattern is shortened as if it ended there. -/
theorem shortenings_append (hslash : chars.getLast? = some (.char '/'))
    (hgroups : ∀ count, chars ≠ (groups count).toList) (more : List CodePoint) :
    shortenings (chars ++ more) = (shortenings chars).map (· ++ more) := by
  induction chars using shortenings.induct with
  | case1 rest ih =>
      have hrest : rest ≠ [] := by
        rintro rfl
        exact hgroups 1 rfl
      have hlast : rest.getLast? = some (.char '/') := by
        obtain ⟨c, kept, rfl⟩ := List.exists_cons_of_ne_nil hrest
        simpa [List.getLast?_cons_cons] using hslash
      have hothers (count : Nat) : rest ≠ (groups count).toList := by
        rintro rfl
        exact hgroups (count + 1) (by simp [groups])
      simp only [List.cons_append, shortenings, List.map_cons]
      rw [ih hlast hothers]
  | case2 chars hshort =>
      -- what ends in a slash is long enough to show whether it begins with a group
      have hlonger (rest : List CodePoint) :
          chars ++ more ≠ .char '*' :: .char '*' :: .char '/' :: rest := by
        intro hchars
        match chars, hslash with
        | [c], hslash => simp_all
        | [c, d], hslash => simp_all
        | c :: d :: e :: kept, _ => simp_all
      rw [shortenings, shortenings]
      · simp
      · exact hshort
      · exact hlonger

theorem isClosedFrom_of_mem_shortenings {shortened : List CodePoint}
    (hclosed : isClosedFrom 0 chars = true) (hshortened : shortened ∈ shortenings chars) :
    isClosedFrom 0 shortened = true := by
  induction chars using shortenings.induct with
  | case1 rest ih =>
      rw [shortenings, List.mem_cons] at hshortened
      obtain rfl | hrest := hshortened
      · exact hclosed
      · exact ih hclosed hrest
  | case2 chars hshort =>
      rw [shortenings, List.mem_singleton] at hshortened
      · rwa [hshortened]
      · exact hshort

/-! ## Plain text -/

/-- Text in which every character stands for itself. -/
def IsPlain (chars : List CodePoint) : Prop :=
  ∀ c ∈ chars, c ≠ .char '*' ∧ c ≠ .char '?' ∧ c ≠ .char '['

theorem IsPlain.tokensFrom_eq (hplain : IsPlain chars) :
    tokensFrom 0 chars = chars.map .char := by
  induction chars with
  | nil => rfl
  | cons c rest ih =>
      obtain ⟨⟨hstar, hany, hclass⟩, hrest⟩ := List.forall_mem_cons.1 hplain
      rw [tokensFrom_cons hclass, ih hrest]
      simp [tokenOf, hstar, hany]

theorem IsPlain.isClosedFrom (hplain : IsPlain chars) : isClosedFrom 0 chars = true := by
  induction chars with
  | nil => rfl
  | cons c rest ih =>
      obtain ⟨⟨-, -, hclass⟩, hrest⟩ := List.forall_mem_cons.1 hplain
      rw [Glob.isClosedFrom]
      · exact ih hrest
      · exact hclass

theorem matches_map_char_iff : Matches (chars.map .char) text ↔ text = chars := by
  induction chars generalizing text with
  | nil => simp
  | cons c rest ih =>
      rw [List.map_cons, matches_cons_iff (Token.char_ne_star c)]
      simp [ih, Token.accepts]

theorem IsPlain.shortenings_eq (hplain : IsPlain chars) : shortenings chars = [chars] := by
  rw [shortenings]
  rintro rest rfl
  exact (hplain (.char '*') List.mem_cons_self).1 rfl

/-! ## Paths -/

variable {path pre post name : Text}

theorem covers_iff {pattern : Text} :
    covers path pattern = true ↔
      ∃ shortened ∈ shortenings pattern.toList, Matches (tokensFrom 0 shortened) path.toList := by
  simp [covers, isMatch_iff, tokens]

theorem coversAny_singleton (path pattern : Text) :
    coversAny path [pattern] = covers path pattern := by
  simp [coversAny]

theorem toList_group_append (post : Text) :
    ("**/" ++ post).toList = .char '*' :: .char '*' :: .char '/' :: post.toList := by
  simp

theorem isMatch_group_iff :
    isMatch path ("**/" ++ post) = true ↔
      ∃ above below, path = above ++ "/" ++ below ∧ isMatch below post = true := by
  simp only [isMatch_iff, tokens, toList_group_append, matches_group_iff]
  constructor
  · rintro ⟨above, below, hpath, hbelow⟩
    refine ⟨Text.ofList above, Text.ofList below, ?_, by simpa using hbelow⟩
    rw [← Text.toList_inj, hpath]
    simp
  · rintro ⟨above, below, rfl, hbelow⟩
    exact ⟨above.toList, below.toList, by simp, hbelow⟩

/-- A group at the front stands for any number of folders, or for none. -/
theorem covers_group_iff :
    covers path ("**/" ++ post) = true ↔
      covers path post = true ∨
        ∃ above below, path = above ++ "/" ++ below ∧ isMatch below post = true := by
  have hcovers :
      covers path ("**/" ++ post) = (isMatch path ("**/" ++ post) || covers path post) := by
    rw [covers, toList_group_append, shortenings, ← toList_group_append, List.any_cons,
      Text.ofList_toList, covers]
  rw [hcovers, Bool.or_eq_true, isMatch_group_iff, or_comm]

/-- A pattern in two parts, of which the first ends in a slash and is more than groups. -/
theorem covers_append_iff (hslash : pre.toList.getLast? = some (.char '/'))
    (hgroups : ∀ count, pre ≠ groups count) (hclosed : isClosedFrom 0 pre.toList = true) :
    covers path (pre ++ post) = true ↔
      ∃ before after, path = before ++ after ∧ covers before pre = true ∧
        isMatch after post = true := by
  have hothers (count : Nat) : pre.toList ≠ (groups count).toList :=
    fun hsame => hgroups count (Text.toList_inj.1 hsame)
  have hshort : ∀ shortened ∈ shortenings pre.toList, isClosedFrom 0 shortened = true :=
    fun _ hshortened => isClosedFrom_of_mem_shortenings hclosed hshortened
  simp only [covers_iff, isMatch_iff, tokens, Text.toList_append,
    shortenings_append hslash hothers, List.mem_map]
  constructor
  · rintro ⟨_, ⟨shortened, hshortened, rfl⟩, hmatch⟩
    rw [matches_tokensFrom_append (hshort shortened hshortened)] at hmatch
    obtain ⟨before, after, hpath, hbefore, hafter⟩ := hmatch
    refine ⟨Text.ofList before, Text.ofList after, ?_, ⟨shortened, hshortened, ?_⟩, ?_⟩
    · rw [← Text.toList_inj, hpath]
      simp
    · simpa using hbefore
    · simpa using hafter
  · rintro ⟨before, after, rfl, ⟨shortened, hshortened, hbefore⟩, hafter⟩
    refine ⟨_, ⟨shortened, hshortened, rfl⟩, ?_⟩
    rw [matches_tokensFrom_append (hshort shortened hshortened)]
    exact ⟨before.toList, after.toList, by simp, hbefore, hafter⟩

/-- Anywhere else a group asks for a folder. -/
theorem covers_append_group_iff (hslash : pre.toList.getLast? = some (.char '/'))
    (hgroups : ∀ count, pre ≠ groups count) (hclosed : isClosedFrom 0 pre.toList = true) :
    covers path (pre ++ "**/" ++ post) = true ↔
      ∃ before between after, path = before ++ between ++ "/" ++ after ∧
        covers before pre = true ∧ isMatch after post = true := by
  rw [Text.append_assoc, covers_append_iff hslash hgroups hclosed]
  constructor
  · rintro ⟨before, after, rfl, hbefore, hafter⟩
    obtain ⟨between, below, rfl, hbelow⟩ := isMatch_group_iff.1 hafter
    exact ⟨before, between, below, by simp [Text.append_assoc], hbefore, hbelow⟩
  · rintro ⟨before, between, after, rfl, hbefore, hafter⟩
    refine ⟨before, between ++ "/" ++ after, by simp [Text.append_assoc], hbefore, ?_⟩
    exact isMatch_group_iff.2 ⟨between, after, rfl, hafter⟩

theorem covers_plain_iff (hplain : IsPlain pre.toList) : covers path pre = true ↔ path = pre := by
  rw [covers_iff, hplain.shortenings_eq]
  simp [hplain.tokensFrom_eq, matches_map_char_iff, Text.toList_inj]

theorem ne_groups_of_isPlain (hslash : pre.toList.getLast? = some (.char '/'))
    (hplain : IsPlain pre.toList) (count : Nat) : pre ≠ groups count := by
  rintro rfl
  cases count with
  | zero => cases hslash
  | succ count => exact (hplain (.char '*') (by simp [groups])).1 rfl

/-- Behind a folder written out, the files directly in it are those that a group leaves out. -/
theorem covers_plain_append (hslash : pre.toList.getLast? = some (.char '/'))
    (hplain : IsPlain pre.toList) (hname : .char '/' ∉ name.toList) (post : Text) :
    covers (pre ++ name) (pre ++ "**/" ++ post) = false ∧
      covers (pre ++ name) (pre ++ post) = isMatch name post := by
  have hgroups := ne_groups_of_isPlain hslash hplain
  constructor
  · rw [← Bool.not_eq_true, covers_append_group_iff hslash hgroups hplain.isClosedFrom]
    rintro ⟨before, between, after, hpath, hbefore, -⟩
    rw [(covers_plain_iff hplain).1 hbefore, Text.append_assoc, Text.append_assoc,
      Text.append_right_inj] at hpath
    exact hname (by simp [hpath])
  · rw [Bool.eq_iff_iff, covers_append_iff hslash hgroups hplain.isClosedFrom]
    constructor
    · rintro ⟨before, after, hpath, hbefore, hafter⟩
      rw [(covers_plain_iff hplain).1 hbefore, Text.append_right_inj] at hpath
      rwa [hpath]
    · intro hmatch
      exact ⟨pre, name, rfl, (covers_plain_iff hplain).2 rfl, hmatch⟩

/-- A group may stand for no folder at the front of a pattern, behind other groups at most.
Elsewhere it takes a text that ends in a slash, so that the files directly in a folder written out
are missed. -/
theorem coversAny_group_exact (path pre post : Text) :
    (∀ count, pre = groups count →
        (coversAny path [pre ++ "**/" ++ post] = true ↔
          coversAny path [pre ++ post] = true ∨
            ∃ above below, path = above ++ "/" ++ below ∧ isMatch below (pre ++ post) = true)) ∧
      (pre.toList.getLast? = some (.char '/') → (∀ count, pre ≠ groups count) →
        isClosedFrom 0 pre.toList = true →
          (coversAny path [pre ++ post] = true ↔
            ∃ before after, path = before ++ after ∧ coversAny before [pre] = true ∧
              isMatch after post = true) ∧
          (coversAny path [pre ++ "**/" ++ post] = true ↔
            ∃ before between after, path = before ++ between ++ "/" ++ after ∧
              coversAny before [pre] = true ∧ isMatch after post = true)) ∧
      (pre.toList.getLast? = some (.char '/') → IsPlain pre.toList →
        ∀ name, .char '/' ∉ name.toList → path = pre ++ name →
          coversAny path [pre ++ post] = isMatch name post ∧
            coversAny path [pre ++ "**/" ++ post] = false ∧
            isSelected path [pre ++ "**/" ++ post] [] = false ∧
            isSelected path [] [pre ++ "**/" ++ post] = true) := by
  simp only [coversAny_singleton]
  refine ⟨?_, ?_, ?_⟩
  · rintro count rfl
    rw [groups_append_group, Text.append_assoc]
    exact covers_group_iff
  · intro hslash hgroups hclosed
    exact ⟨covers_append_iff hslash hgroups hclosed, covers_append_group_iff hslash hgroups hclosed⟩
  · rintro hslash hplain name hname rfl
    obtain ⟨hgroup, hdirect⟩ := covers_plain_append hslash hplain hname post
    refine ⟨hdirect, hgroup, ?_, ?_⟩
    · simp [isSelected, coversAny, hgroup]
    · simp [isSelected, coversAny, hgroup]

theorem coversAny_group_at_depths :
    coversAny "x.tl" ["**/" ++ "**/" ++ "*.tl"] = true ∧
      coversAny "lib/s/a/x.tl" ["**/[rs]/" ++ "**/" ++ "*.tl"] = true ∧
      isSelected "src/x.tl" ["src/" ++ "**/" ++ "*.tl"] [] = false := by
  refine ⟨?_, ?_, ?_⟩
  · have hgroups : "**/" = groups 1 := by simp [groups]
    exact ((coversAny_group_exact "x.tl" "**/" "*.tl").1 1 hgroups).2 (.inl (by decide +kernel))
  · have hgroups (count : Nat) : "**/[rs]/" ≠ groups count := by
      rcases count with _ | _ | count
      · decide +kernel
      · decide +kernel
      · intro h
        simp [groups, ← Text.toList_inj] at h
    have hcovers : coversAny "lib/s/" ["**/[rs]/"] = true := by decide +kernel
    have hclosed : isClosedFrom 0 ("**/[rs]/" : Text).toList = true := by decide +kernel
    have hexact := (coversAny_group_exact "lib/s/a/x.tl" "**/[rs]/" "*.tl").2.1 rfl hgroups hclosed
    exact hexact.2.2 ⟨"lib/s/", "a", "x.tl", rfl, hcovers, by decide +kernel⟩
  · have hplain : IsPlain ("src/" : Text).toList := by simp [IsPlain]
    have hexact := (coversAny_group_exact "src/x.tl" "src/" "*.tl").2.2 rfl hplain
    exact (hexact "x.tl" (by simp) rfl).2.2.1

/-- The file is directly in the folder, and the group makes the pattern miss it. -/
theorem not_coversAny_group_of_none :
    ¬∀ path pre post : Text, pre = "" ∨ pre.toList.getLast? = some (.char '/') →
      coversAny path [pre ++ post] = true → coversAny path [pre ++ "**/" ++ post] = true := by
  intro hlaw
  have hcovers := hlaw "src/x.tl" "src/" "x.tl" (.inr rfl) (by decide +kernel)
  revert hcovers
  decide +kernel

end Rebuild.Glob
