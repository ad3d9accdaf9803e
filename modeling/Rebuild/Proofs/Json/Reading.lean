import Rebuild.Json.Reader
import Mathlib.Data.List.TakeWhile
import Mathlib.Tactic

/-!
# What the reader comes to

Every part of the reader leaves an end of the text it was given.  So a number that has too many
digits is written out in the text.  And as the reader never goes back, twice the length of the text
is depth enough: more of it changes no answer.
-/

namespace Rebuild.Json

variable {α β : Type} {text inner outer rest : List Char} {cursor : Cursor} {count depth : Nat}

/-- Somewhere in the text this many digits stand in a row. -/
def HoldsDigits (text : List Char) (count : Nat) : Prop :=
  ∃ digits, digits <:+: text ∧ digits.length = count ∧ ∀ c ∈ digits, c.isDigit = true

/-- What a reader may do with a text: leave an end of it, or find a number of too many digits
there. -/
def StaysIn (text : List Char) : Except ReadError (α × Cursor) → Prop
  | .ok (_, after) => after.rest <:+ text
  | .error (.longNumber count) => maxDigits < count ∧ HoldsDigits text count
  | .error (.malformed _ _) => True

namespace StaysIn

variable {result : Except ReadError (α × Cursor)}

theorem mono (hstays : StaysIn inner result) (hsuffix : inner <:+ outer) :
    StaysIn outer result := by
  match result, hstays with
  | .ok _, hstays => exact hstays.trans hsuffix
  | .error (.longNumber _), ⟨hlong, digits, hdigits, hrun⟩ =>
      exact ⟨hlong, digits, hdigits.trans hsuffix.isInfix, hrun⟩
  | .error (.malformed _ _), _ => trivial

theorem bind {next : α × Cursor → Except ReadError (β × Cursor)} (hstays : StaysIn text result)
    (hnext : ∀ a after, after.rest <:+ text → StaysIn after.rest (next (a, after))) :
    StaysIn text (result >>= next) := by
  match result, hstays with
  | .ok (a, after), hstays => exact (hnext a after hstays).mono hstays
  | .error (.longNumber _), hstays => exact hstays
  | .error (.malformed _ _), _ => trivial

/-- What follows a part of the reader matters for the ends of the text only. -/
theorem bind_congr {first second : α × Cursor → Except ReadError (β × Cursor)}
    (hstays : StaysIn text result)
    (hsame : ∀ a after, after.rest <:+ text → first (a, after) = second (a, after)) :
    result >>= first = result >>= second := by
  match result, hstays with
  | .ok (a, after), hstays => exact hsame a after hstays
  | .error _, _ => rfl

theorem map {f : α × Cursor → β × Cursor} (hstays : StaysIn text result)
    (hf : ∀ a after, (f (a, after)).2 = after) : StaysIn text (result.map f) := by
  match result, hstays with
  | .ok (a, after), hstays =>
      rw [← hf a after] at hstays
      exact hstays
  | .error (.longNumber _), hstays => exact hstays
  | .error (.malformed _ _), _ => trivial

end StaysIn

theorem rest_advance_suffix (cursor : Cursor) (count : Nat) :
    (cursor.advance count).rest <:+ cursor.rest :=
  List.drop_suffix count cursor.rest

theorem rest_skipSpaces_suffix (cursor : Cursor) : cursor.skipSpaces.rest <:+ cursor.rest :=
  rest_advance_suffix _ _

/-- Whatever is read or skipped, the reading of a string goes on with the next character. -/
theorem staysIn_readString (start skipped position : Nat) (read : List CodePoint)
    (text : List Char) : StaysIn text (readString start skipped position read text) := by
  fun_induction readString start skipped position read text with
  | case1 | case4 | case5 | case7 | case11 | case12 => trivial
  | case3 => exact List.suffix_cons _ _
  | case2 | case6 | case8 | case9 | case10 | case13 =>
      rename_i ih
      exact ih.mono (List.suffix_cons _ _)

theorem isPrefix_of_wholePart {whole : List Char} (hwhole : wholePart? text = some whole) :
    whole <+: text ∧ ∀ c ∈ whole, c.isDigit = true := by
  unfold wholePart? at hwhole
  split at hwhole
  next =>
    cases hwhole
    exact ⟨⟨_, rfl⟩, List.forall_mem_singleton.2 rfl⟩
  next =>
    split_ifs at hwhole
    cases hwhole
    exact ⟨List.takeWhile_prefix _, fun _ => List.mem_takeWhile_imp⟩
  next => cases hwhole

theorem staysIn_readNumber (cursor : Cursor) : StaysIn cursor.rest (readNumber cursor) := by
  unfold readNumber
  extract_lets sign
  split
  next => trivial
  next whole hwhole =>
    obtain ⟨hfront, hdigits⟩ := isPrefix_of_wholePart hwhole
    extract_lets afterWhole fraction exponent number
    split_ifs with hlong
    · have hcount : maxDigits < whole.length := by simp_all
      exact ⟨hcount, whole, hfront.isInfix.trans (List.drop_suffix _ _).isInfix, rfl, hdigits⟩
    · exact rest_advance_suffix _ _

theorem rest_skipSpaces_suffix_cons (position : Nat) (c : Char) (rest : List Char) :
    (Cursor.skipSpaces ⟨position, rest⟩).rest <:+ c :: rest :=
  (rest_skipSpaces_suffix _).trans (List.suffix_cons _ _)

theorem rest_behind_suffix (cursor : Cursor) :
    (cursor.skipSpaces.advance 1).skipSpaces.rest <:+ cursor.rest :=
  (rest_skipSpaces_suffix _).trans ((rest_advance_suffix _ _).trans (rest_skipSpaces_suffix _))

/-- A value, the items of an array and the fields of an object, read to the same depth. -/
structure ReadsStayIn (depth : Nat) : Prop where
  value (cursor : Cursor) : StaysIn cursor.rest (readValue depth cursor)
  items (cursor : Cursor) : StaysIn cursor.rest (readItems depth cursor)
  fields (cursor : Cursor) : StaysIn cursor.rest (readFields depth cursor)

namespace ReadsStayIn

theorem succ_value (hreads : ReadsStayIn depth) (cursor : Cursor) :
    StaysIn cursor.rest (readValue (depth + 1) cursor) := by
  unfold readValue
  split
  next => trivial
  next rest hrest =>
    rw [hrest]
    exact ((staysIn_readString _ _ _ _ _).map fun _ _ => rfl).mono (List.suffix_cons _ _)
  next rest hrest =>
    rw [hrest]
    extract_lets inside
    have hinside : inside.rest <:+ '{' :: rest := rest_skipSpaces_suffix_cons _ _ _
    split_ifs
    · exact (rest_advance_suffix _ _).trans hinside
    · exact ((hreads.fields inside).map fun _ _ => rfl).mono hinside
  next rest hrest =>
    rw [hrest]
    extract_lets inside
    have hinside : inside.rest <:+ '[' :: rest := rest_skipSpaces_suffix_cons _ _ _
    split_ifs
    · exact (rest_advance_suffix _ _).trans hinside
    · exact ((hreads.items inside).map fun _ _ => rfl).mono hinside
  next =>
    split
    next => exact rest_advance_suffix _ _
    next => exact staysIn_readNumber cursor

theorem succ_items (hreads : ReadsStayIn depth) (cursor : Cursor) :
    StaysIn cursor.rest (readItems (depth + 1) cursor) := by
  unfold readItems
  refine (hreads.value cursor).bind fun item after _ => ?_
  dsimp only
  split
  next => exact (rest_advance_suffix _ _).trans (rest_skipSpaces_suffix _)
  next =>
    refine StaysIn.mono ?_ (rest_behind_suffix after)
    exact (hreads.items _).bind fun _ _ _ => List.suffix_refl _
  next => trivial

theorem succ_fields (hreads : ReadsStayIn depth) (cursor : Cursor) :
    StaysIn cursor.rest (readFields (depth + 1) cursor) := by
  unfold readFields
  split
  next rest hrest =>
    rw [hrest]
    refine ((staysIn_readString _ _ _ _ _).bind fun name after _ => ?_).mono (List.suffix_cons _ _)
    dsimp only
    split
    next =>
      refine StaysIn.mono ?_ (rest_behind_suffix after)
      refine (hreads.value _).bind fun value last _ => ?_
      dsimp only
      split
      next => exact (rest_advance_suffix _ _).trans (rest_skipSpaces_suffix _)
      next =>
        refine StaysIn.mono ?_ (rest_behind_suffix last)
        exact (hreads.fields _).bind fun _ _ _ => List.suffix_refl _
      next => trivial
    next => trivial
  next => trivial

end ReadsStayIn

theorem readsStayIn (depth : Nat) : ReadsStayIn depth := by
  induction depth with
  | zero => exact ⟨fun _ => trivial, fun _ => trivial, fun _ => trivial⟩
  | succ depth ih => exact ⟨ih.succ_value, ih.succ_items, ih.succ_fields⟩

/-! ## Enough depth -/

/-- One more level of depth changes nothing for texts of this length. -/
structure SettledAt (depth : Nat) : Prop where
  value (cursor : Cursor) (hdepth : 2 * cursor.rest.length ≤ depth) :
    readValue (depth + 1) cursor = readValue depth cursor
  items (cursor : Cursor) (hdepth : 2 * cursor.rest.length + 1 ≤ depth) :
    readItems (depth + 1) cursor = readItems depth cursor
  fields (cursor : Cursor) (hdepth : 2 * cursor.rest.length + 1 ≤ depth) :
    readFields (depth + 1) cursor = readFields depth cursor

theorem length_rest_advance_lt {c : Char} (hrest : cursor.rest = c :: rest) :
    (cursor.advance 1).skipSpaces.rest.length < cursor.rest.length := by
  have hle := (rest_skipSpaces_suffix (cursor.advance 1)).length_le
  have hdrop : (cursor.advance 1).rest = rest := by rw [Cursor.advance, hrest]; rfl
  rw [hdrop] at hle
  rw [hrest, List.length_cons]
  omega

namespace SettledAt

theorem zero : SettledAt 0 where
  value cursor hdepth := by
    have hrest : cursor.rest = [] := List.eq_nil_of_length_eq_zero (by omega)
    rw [readValue, readValue, hrest]
  items _ hdepth := by omega
  fields _ hdepth := by omega

theorem succ_value (hsettled : SettledAt depth) (hdepth : 2 * cursor.rest.length ≤ depth + 1) :
    readValue (depth + 2) cursor = readValue (depth + 1) cursor := by
  have hinside {c : Char} {rest : List Char} (hrest : cursor.rest = c :: rest) :
      2 * (Cursor.skipSpaces ⟨cursor.position + 1, rest⟩).rest.length + 1 ≤ depth := by
    have hle := (rest_skipSpaces_suffix ⟨cursor.position + 1, rest⟩).length_le
    rw [hrest, List.length_cons] at hdepth
    dsimp only at hle
    omega
  rw [readValue, readValue]
  split
  next => rfl
  next => rfl
  next rest hrest =>
    dsimp only
    rw [hsettled.fields _ (hinside hrest)]
  next rest hrest =>
    dsimp only
    rw [hsettled.items _ (hinside hrest)]
  next => rfl

theorem succ_items (hsettled : SettledAt depth) (hdepth : 2 * cursor.rest.length + 1 ≤ depth + 1) :
    readItems (depth + 2) cursor = readItems (depth + 1) cursor := by
  rw [readItems, readItems, hsettled.value cursor (by omega)]
  refine ((readsStayIn depth).value cursor).bind_congr fun item after hafter => ?_
  have hle := ((rest_skipSpaces_suffix after).trans hafter).length_le
  dsimp only
  split
  next => rfl
  next hrest =>
    have hlt := length_rest_advance_lt hrest
    rw [hsettled.items _ (by omega)]
  next => rfl

theorem succ_fields (hsettled : SettledAt depth) (hdepth : 2 * cursor.rest.length + 1 ≤ depth + 1) :
    readFields (depth + 2) cursor = readFields (depth + 1) cursor := by
  rw [readFields, readFields]
  split
  next rest hrest =>
    refine (staysIn_readString _ _ _ _ _).bind_congr fun name after hafter => ?_
    have hle := ((rest_skipSpaces_suffix after).trans hafter).length_le
    have hcons : rest.length < cursor.rest.length := by rw [hrest]; exact Nat.lt_succ_self _
    dsimp only
    split
    next hcolon =>
      have hlt := length_rest_advance_lt hcolon
      rw [hsettled.value _ (by omega)]
      refine ((readsStayIn depth).value _).bind_congr fun value last hlast => ?_
      have hless := ((rest_skipSpaces_suffix last).trans hlast).length_le
      dsimp only
      split
      next => rfl
      next hcomma =>
        have hshort := length_rest_advance_lt hcomma
        rw [hsettled.fields _ (by omega)]
      next => rfl
    next => rfl
  next => rfl

end SettledAt

theorem settledAt (depth : Nat) : SettledAt depth := by
  induction depth with
  | zero => exact .zero
  | succ depth ih =>
      exact ⟨fun _ => ih.succ_value, fun _ => ih.succ_items, fun _ => ih.succ_fields⟩

/-- A depth of twice the length of the text gives the answer of any greater one. -/
theorem readValue_of_depth (hdepth : 2 * cursor.rest.length ≤ depth) (more : Nat) :
    readValue (depth + more) cursor = readValue depth cursor := by
  induction more with
  | zero => rfl
  | succ more ih => rw [← Nat.add_assoc, (settledAt _).value cursor (by omega), ih]

/-! ## Numbers of too many digits -/

/-- A number has too many digits only if the text has them. -/
theorem holdsDigits_of_read (hread : read text = .error (.longNumber count)) :
    maxDigits < count ∧ HoldsDigits text count := by
  have hvalue := ((readsStayIn (2 * text.length + 2)).value (Cursor.skipSpaces ⟨0, text⟩)).mono
    (rest_skipSpaces_suffix _)
  unfold read at hread
  split_ifs at hread
  · cases hread
  · cases hresult : readValue (2 * text.length + 2) (Cursor.skipSpaces ⟨0, text⟩) with
    | ok result =>
        rw [hresult] at hread
        dsimp only [bind, Except.bind] at hread
        split_ifs at hread
        cases hread
    | error error =>
        rw [hresult] at hread hvalue
        cases hread
        exact hvalue

theorem wholePart_of_isDigit (hdigits : ∀ c ∈ text, c.isDigit = true)
    (hfirst : text.head? ≠ some '0') (hne : text ≠ []) : wholePart? text = some text := by
  unfold wholePart?
  split
  next => exact (hfirst rfl).elim
  next c rest _ =>
    rw [if_pos (hdigits c List.mem_cons_self), List.takeWhile_eq_self_iff.2 hdigits]
  next => exact (hne rfl).elim

theorem readNumber_of_isDigit {position : Nat} (hdigits : ∀ c ∈ text, c.isDigit = true)
    (hfirst : text.head? ≠ some '0') (hlong : maxDigits < text.length) :
    readNumber ⟨position, text⟩ = .error (.longNumber text.length) := by
  have hne : text ≠ [] := by
    rintro rfl
    simp at hlong
  have hsign : text.head? ≠ some '-' := by
    intro hhead
    exact absurd (hdigits _ (List.mem_of_mem_head? hhead)) (by decide)
  unfold readNumber
  simp only [if_neg hsign, List.take_zero, List.length_nil, List.drop_zero, Nat.zero_add,
    wholePart_of_isDigit hdigits hfirst hne, List.drop_length, List.drop_nil]
  rw [if_pos (by simpa [fraction, exponent] using hlong)]

theorem isSpace_of_isDigit {c : Char} (hc : c.isDigit = true) : isSpace c = false := by
  have hother {other : Char} (hother : other.isDigit = false) : c ≠ other := by
    rintro rfl
    exact absurd hc (by rw [hother]; decide)
  simp [isSpace, hother]

/-- A value that starts with a digit is a number. -/
theorem readValue_of_isDigit {c : Char} (hc : c.isDigit = true) (depth position : Nat)
    (rest : List Char) :
    readValue (depth + 1) ⟨position, c :: rest⟩ = readNumber ⟨position, c :: rest⟩ := by
  have hother {other : Char} (hother : other.isDigit = false) : c ≠ other := by
    rintro rfl
    exact absurd hc (by rw [hother]; decide)
  have hword : words.find? (fun word => word.1.isPrefixOf (c :: rest)) = none := by
    simp [words, (hother _).symm]
  unfold readValue
  split
  next hnil => cases hnil
  next hcons => exact (hother (by decide) (List.cons.inj hcons).1).elim
  next hcons => exact (hother (by decide) (List.cons.inj hcons).1).elim
  next hcons => exact (hother (by decide) (List.cons.inj hcons).1).elim
  next => rw [hword]

/-- A text of too many digits and nothing else is such a number. -/
theorem read_of_isDigit (hdigits : ∀ c ∈ text, c.isDigit = true) (hfirst : text.head? ≠ some '0')
    (hlong : maxDigits < text.length) : read text = .error (.longNumber text.length) := by
  have hnumber := @readNumber_of_isDigit text 0 hdigits hfirst hlong
  cases text with
  | nil => simp at hlong
  | cons c rest =>
      have hc := hdigits c List.mem_cons_self
      have hmark : (c :: rest).head? ≠ some '\ufeff' := by
        rintro ⟨⟩
        exact absurd hc (by decide)
      have hstart : Cursor.skipSpaces ⟨0, c :: rest⟩ = ⟨0, c :: rest⟩ := by
        simp [Cursor.skipSpaces, Cursor.advance, isSpace_of_isDigit hc]
      unfold read
      rw [hstart, if_neg hmark, readValue_of_isDigit hc, hnumber]
      rfl

end Rebuild.Json
