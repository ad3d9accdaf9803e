import Mathlib.Data.List.TakeWhile
import Rebuild.Proofs.Path.Composition

/-!
# The last name of a path

The written path ends in its last name, behind the slash or the start of the text, so extensions are
taken from the last name alone and changing the extension changes that name only.  A new extension
that begins with a dot makes a proper name of whatever it is put to, so the result is written in
canonical form again.
-/

namespace Rebuild

namespace Path

variable {chars last suffix : List CodePoint} {root : Root} {init : List Text} {name text : Text}

/-- The characters of a text up to its last name. -/
def IsFront (chars : List CodePoint) : Prop :=
  chars = [] ∨ ∃ before, chars = before ++ [.char '/']

def frontOf (root : Root) (init : List Text) : List CodePoint :=
  root.text.toList ++ init.flatMap fun name => name.toList ++ [.char '/']

theorem isFront_frontOf (root : Root) (init : List Text) : IsFront (frontOf root init) := by
  induction init using List.reverseRecOn with
  | nil =>
      cases root with
      | relative => exact Or.inl rfl
      | single => exact Or.inr ⟨[], rfl⟩
      | double => exact Or.inr ⟨[.char '/'], rfl⟩
  | append_singleton before name _ =>
      refine Or.inr ⟨frontOf root before ++ name.toList, ?_⟩
      simp [frontOf]

theorem joined_concat (init : List Text) (name : Text) :
    joined (init ++ [name]) =
      init.flatMap (fun name => name.toList ++ [.char '/']) ++ name.toList := by
  induction init with
  | nil => simp [joined]
  | cons first rest ih =>
      have hstep : joined (first :: (rest ++ [name])) =
          first.toList ++ .char '/' :: joined (rest ++ [name]) := by
        cases rest <;> simp [joined]
      rw [List.cons_append, hstep, ih]
      simp

theorem toList_render_concat (root : Root) (init : List Text) (name : Text) :
    (render ⟨root, init ++ [name]⟩).toList = frontOf root init ++ name.toList := by
  have hnames : ¬(root = .relative ∧ init ++ [name] = []) := by simp
  have hjoined : (Text.intercalate "/" (init ++ [name])).toList = joined (init ++ [name]) := by
    simp [joined]
  unfold render
  rw [if_neg hnames, Text.toList_append, hjoined, joined_concat, frontOf, List.append_assoc]

/-! ## Taking a text apart at its extension -/

def isExtensionChar (c : CodePoint) : Bool :=
  c != .char '.' && c != .char '/'

theorem drop_length_takeWhile {α : Type} (test : α → Bool) (xs : List α) :
    xs.drop (xs.takeWhile test).length = xs.dropWhile test := by
  induction xs with
  | nil => rfl
  | cons x rest ih => by_cases hx : test x <;> simp [hx, ih]

/-- What taking a text apart comes to. -/
inductive SplitCase (text : List CodePoint) : List CodePoint × List CodePoint → Prop
  | none (hnone : ∀ before, text.reverse.dropWhile isExtensionChar ≠ .char '.' :: before) :
      SplitCase text (text, [])
  | dots {before : List CodePoint}
      (hdot : text.reverse.dropWhile isExtensionChar = .char '.' :: before)
      (hdots : (before.takeWhile (· != .char '/')).all (· == .char '.') = true) :
      SplitCase text (text, [])
  | found {before : List CodePoint}
      (hdot : text.reverse.dropWhile isExtensionChar = .char '.' :: before)
      (hstem : (before.takeWhile (· != .char '/')).all (· == .char '.') = false) :
      SplitCase text (before.reverse, .char '.' :: (text.reverse.takeWhile isExtensionChar).reverse)

theorem splitCase_splitExtension (text : List CodePoint) :
    SplitCase text (splitExtension text) := by
  unfold splitExtension
  have hdrop := drop_length_takeWhile isExtensionChar text.reverse
  unfold isExtensionChar at hdrop
  dsimp only
  rw [hdrop]
  split
  next before hdot =>
    split
    next hdots => exact .dots hdot hdots
    next hstem => exact .found hdot (Bool.eq_false_of_not_eq_true hstem)
  next hnone => exact .none hnone

theorem SplitCase.unique {text : List CodePoint} {first second : List CodePoint × List CodePoint}
    (hfirst : SplitCase text first) (hsecond : SplitCase text second) : first = second := by
  cases hfirst <;> cases hsecond <;> grind

theorem splitExtension_parts (text : List CodePoint) :
    (splitExtension text).1 ++ (splitExtension text).2 = text := by
  have hcase := splitCase_splitExtension text
  generalize splitExtension text = parts at hcase
  cases hcase with
  | none => exact List.append_nil text
  | dots => exact List.append_nil text
  | @found before hdot =>
      have hreverse := List.takeWhile_append_dropWhile (p := isExtensionChar) (l := text.reverse)
      rw [hdot] at hreverse
      generalize text.reverse.takeWhile isExtensionChar = tail at hreverse
      calc
        before.reverse ++ .char '.' :: tail.reverse =
            (tail ++ .char '.' :: before).reverse := by simp
        _ = text := by rw [hreverse, List.reverse_reverse]

theorem dropWhile_reverse_eq_nil (hlast : .char '/' ∉ last)
    (hnone : ∀ before, last.reverse.dropWhile isExtensionChar ≠ .char '.' :: before) :
    last.reverse.dropWhile isExtensionChar = [] := by
  cases hdrop : last.reverse.dropWhile isExtensionChar with
  | nil => rfl
  | cons c before =>
      have hmem : c ∈ last.reverse := by
        apply (List.dropWhile_suffix isExtensionChar).subset
        rw [hdrop]
        exact List.mem_cons_self
      have hstop : isExtensionChar c = false := by
        have hhead := List.head?_dropWhile_not isExtensionChar last.reverse
        rw [hdrop] at hhead
        simpa using hhead
      have hdot : c = .char '.' := by
        have hslash : c ≠ .char '/' := fun heq => hlast (heq ▸ List.mem_reverse.1 hmem)
        simpa [isExtensionChar, hslash] using hstop
      exact (hnone before (hdot ▸ hdrop)).elim

theorem IsFront.dropWhile_reverse (hfront : IsFront chars) :
    chars.reverse.dropWhile isExtensionChar = chars.reverse := by
  rcases hfront with rfl | ⟨before, rfl⟩
  · rfl
  · simp [isExtensionChar]

theorem IsFront.takeWhile_reverse (hfront : IsFront chars) :
    chars.reverse.takeWhile (· != .char '/') = [] := by
  rcases hfront with rfl | ⟨before, rfl⟩
  · rfl
  · simp

section Behind

variable {c : CodePoint} {before : List CodePoint}

theorem dropWhile_behind (hdrop : last.reverse.dropWhile isExtensionChar = c :: before) :
    (chars ++ last).reverse.dropWhile isExtensionChar = c :: (before ++ chars.reverse) := by
  rw [List.reverse_append, List.dropWhile_append, hdrop]
  rfl

theorem takeWhile_behind (hdrop : last.reverse.dropWhile isExtensionChar = c :: before) :
    (chars ++ last).reverse.takeWhile isExtensionChar =
      last.reverse.takeWhile isExtensionChar := by
  have hlength : (last.reverse.takeWhile isExtensionChar).length ≠ last.reverse.length := by
    intro hall
    have hboth := congrArg List.length
      (List.takeWhile_append_dropWhile (p := isExtensionChar) (l := last.reverse))
    rw [hdrop, List.length_append, hall] at hboth
    simp at hboth
  rw [List.reverse_append, List.takeWhile_append, if_neg hlength]

/-- The stem of the last name is the same in the whole text. -/
theorem stem_behind (hfront : IsFront chars) (hlast : .char '/' ∉ last)
    (hdrop : last.reverse.dropWhile isExtensionChar = c :: before) :
    (before ++ chars.reverse).takeWhile (· != .char '/') = before.takeWhile (· != .char '/') := by
  have hslash : ∀ other ∈ before, (other != .char '/') = true := by
    intro other hother
    have hmem : other ∈ last.reverse := by
      apply (List.dropWhile_suffix isExtensionChar).subset
      rw [hdrop]
      exact List.mem_cons_of_mem _ hother
    rw [bne_iff_ne]
    exact fun heq => hlast (heq ▸ List.mem_reverse.1 hmem)
  have hself : before.takeWhile (· != .char '/') = before := List.takeWhile_eq_self_iff.2 hslash
  rw [List.takeWhile_append_of_pos hslash, hfront.takeWhile_reverse, hself, List.append_nil]

end Behind

theorem SplitCase.behind {stem extension : List CodePoint} (hfront : IsFront chars)
    (hlast : .char '/' ∉ last) (hcase : SplitCase last (stem, extension)) :
    SplitCase (chars ++ last) (chars ++ stem, extension) := by
  cases hcase with
  | none hnone =>
      refine .none fun before hdot => ?_
      rw [List.reverse_append, List.dropWhile_append, dropWhile_reverse_eq_nil hlast hnone,
        List.isEmpty_nil, if_pos rfl, hfront.dropWhile_reverse] at hdot
      rcases hfront with rfl | ⟨before, rfl⟩
      · cases hdot
      · simp at hdot
  | dots hdot hdots =>
      refine .dots (dropWhile_behind hdot) ?_
      rwa [stem_behind hfront hlast hdot]
  | @found before hdot hstem =>
      have hfound : SplitCase (chars ++ last) ((before ++ chars.reverse).reverse,
          .char '.' :: ((chars ++ last).reverse.takeWhile isExtensionChar).reverse) := by
        refine .found (dropWhile_behind hdot) ?_
        rwa [stem_behind hfront hlast hdot]
      rwa [takeWhile_behind hdot, List.reverse_append, List.reverse_reverse] at hfound

/-- A text is taken apart inside its last name. -/
theorem splitExtension_append (hfront : IsFront chars) (hlast : .char '/' ∉ last) :
    splitExtension (chars ++ last) =
      (chars ++ (splitExtension last).1, (splitExtension last).2) :=
  (splitCase_splitExtension (chars ++ last)).unique
    ((splitCase_splitExtension last).behind hfront hlast)

/-- An ending without a slash is one of the last name. -/
theorem isSuffixOf_append (hfront : IsFront chars) (hsuffix : .char '/' ∉ suffix) :
    suffix.isSuffixOf (chars ++ last) = suffix.isSuffixOf last := by
  rw [Bool.eq_iff_iff, List.isSuffixOf_iff_suffix, List.isSuffixOf_iff_suffix]
  refine ⟨fun hwhole => ?_, fun hlast => hlast.trans (List.suffix_append chars last)⟩
  rcases List.suffix_or_suffix_of_suffix hwhole (List.suffix_append chars last) with h | h
  · exact h
  · -- a longer ending begins inside the front, and has its last slash
    obtain ⟨more, rfl⟩ := h
    rw [List.suffix_append_self_iff] at hwhole
    rcases hfront with rfl | ⟨before, rfl⟩
    · rw [List.suffix_nil.1 hwhole]
      exact List.suffix_refl last
    · rcases List.suffix_concat_iff.1 hwhole with rfl | ⟨inner, rfl, _⟩
      · exact List.suffix_refl last
      · simp at hsuffix

/-! ## Canonical texts -/

theorem isName_of_length (hlength : 2 < name.length) : IsName name := by
  constructor
  · rintro rfl
    exact absurd hlength (by decide)
  · rintro rfl
    exact absurd hlength (by decide)
  · rintro rfl
    exact absurd hlength (by decide)

/-- A name without its extension; that of a declaration is taken off as a whole. -/
def stemOf (name : Text) : Text :=
  Text.ofList
    (if declarationSuffix.toList.isSuffixOf name.toList then
      name.toList.take (name.toList.length - declarationSuffix.toList.length)
    else (splitExtension name.toList).1)

theorem mem_stemOf {c : CodePoint} (hc : c ∈ (stemOf name).toList) : c ∈ name.toList := by
  rw [stemOf, Text.toList_ofList] at hc
  split at hc
  next => exact List.mem_of_mem_take hc
  next => exact mem_of_mem_splitExtension hc

theorem withExtension_canonical (text extension : Text) :
    withExtension (canonical text) extension = withExtension text extension := by
  unfold withExtension
  rw [canonical_canonical]

section Names

variable {extension : Text}

theorem slash_not_mem_of_names (hnames : (ofText text).names = init ++ [name]) :
    .char '/' ∉ name.toList := by
  apply (isNormal_ofText text).slashFree
  rw [hnames]
  exact List.mem_append_right _ List.mem_cons_self

theorem toList_canonical_of_names (hnames : (ofText text).names = init ++ [name]) :
    (canonical text).toList = frontOf (ofText text).root init ++ name.toList := by
  have hpath : ofText text = ⟨(ofText text).root, init ++ [name]⟩ := by
    rw [← hnames]
  rw [canonical, hpath, toList_render_concat]

theorem extension_canonical_of_names (hnames : (ofText text).names = init ++ [name]) :
    Path.extension (canonical text) = Text.ofList (splitExtension name.toList).2 := by
  rw [Path.extension, slashed_eq_self (backslash_not_mem_canonical text),
    toList_canonical_of_names hnames,
    splitExtension_append (isFront_frontOf _ _) (slash_not_mem_of_names hnames)]

theorem isDeclaration_canonical_of_names (hnames : (ofText text).names = init ++ [name]) :
    isDeclaration (canonical text) = declarationSuffix.toList.isSuffixOf name.toList := by
  rw [isDeclaration, slashed_eq_self (backslash_not_mem_canonical text),
    toList_canonical_of_names hnames, isSuffixOf_append (isFront_frontOf _ _) (by decide)]

/-- Another extension changes the last name only. -/
theorem withExtension_of_names (hnames : (ofText text).names = init ++ [name]) :
    withExtension text extension =
      render ⟨(ofText text).root, init ++ [stemOf name ++ extension]⟩ := by
  rw [← Text.toList_inj, toList_render_concat, withExtension]
  rw [isDeclaration_canonical_of_names hnames, toList_canonical_of_names hnames,
    splitExtension_append (isFront_frontOf _ _) (slash_not_mem_of_names hnames),
    Text.toList_append, Text.toList_append, stemOf, Text.toList_ofList, Text.toList_ofList,
    ← List.append_assoc]
  congr 1
  split
  next hsuffix =>
    have hlength := (List.isSuffixOf_iff_suffix.1 hsuffix).length_le
    rw [List.length_append, Nat.add_sub_assoc hlength, List.take_length_add_append]
  next => rfl

theorem isPlain_stemOf_append (hslash : .char '/' ∉ name.toList) (hback : .char '\\' ∉ name.toList)
    (hextension : IsPlain extension) (hlength : 2 < extension.length) :
    IsPlain (stemOf name ++ extension) where
  toIsName := by
    apply isName_of_length
    rw [Text.length_append]
    omega
  slashFree := by
    rw [Text.toList_append, List.mem_append, not_or]
    exact ⟨fun hc => hslash (mem_stemOf hc), hextension.slashFree⟩
  backslashFree := by
    rw [Text.toList_append, List.mem_append, not_or]
    exact ⟨fun hc => hback (mem_stemOf hc), hextension.backslashFree⟩

theorem ofText_withExtension_of_names (hnames : (ofText text).names = init ++ [name])
    (hextension : IsPlain extension) (hlength : 2 < extension.length) :
    ofText (withExtension text extension) =
        ⟨(ofText text).root, init ++ [stemOf name ++ extension]⟩ ∧
      canonical (withExtension text extension) = withExtension text extension := by
  have hmem : name ∈ (ofText text).names := by
    rw [hnames]
    exact List.mem_append_right _ List.mem_cons_self
  have hplain := isPlain_stemOf_append (slash_not_mem_of_names hnames)
    (backslashFree_ofText text name hmem) hextension hlength
  have hstack : (ofText text).root.IsStack (name :: init.reverse) := by
    have hwhole := (isNormal_ofText text).stack
    rw [hnames, List.reverse_append] at hwhole
    exact hwhole
  have hkept : ∀ other ∈ init, other ∈ (ofText text).names := by
    intro other hother
    rw [hnames]
    exact List.mem_append_left _ hother
  have hnormal : IsNormal ⟨(ofText text).root, init ++ [stemOf name ++ extension]⟩ := by
    constructor
    · change (ofText text).root.IsStack (init ++ [stemOf name ++ extension]).reverse
      rw [List.reverse_append, List.reverse_singleton, List.singleton_append,
        ← Root.push_of_isName hplain.toIsName]
      exact hstack.below.push _
    · intro other hother
      rcases List.mem_append.1 hother with hother | hother
      · exact (isNormal_ofText text).slashFree other (hkept other hother)
      · rw [List.mem_singleton.1 hother]
        exact hplain.slashFree
  have hback : BackslashFree ⟨(ofText text).root, init ++ [stemOf name ++ extension]⟩ := by
    intro other hother
    rcases List.mem_append.1 hother with hother | hother
    · exact backslashFree_ofText text other (hkept other hother)
    · rw [List.mem_singleton.1 hother]
      exact hplain.backslashFree
  rw [withExtension_of_names hnames]
  have htext := ofText_render hnormal hback
  exact ⟨htext, by rw [canonical, htext]⟩

end Names

/-! ## Names of source files -/

def IsSourceName (name : Text) : Prop :=
  (splitExtension name.toList).2 = sourceExtension.toList

theorem exists_names_of_extension (htext : canonical text = text)
    (hextension : Path.extension text = sourceExtension) :
    ∃ init name, (ofText text).names = init ++ [name] ∧ IsSourceName name := by
  rcases List.eq_nil_or_concat' (ofText text).names with hnone | ⟨init, name, hnames⟩
  · -- without names the text is that of a root, or a dot
    have hroot : text = render ⟨(ofText text).root, []⟩ := by
      rw [← hnone]
      exact htext.symm
    rw [hroot] at hextension
    cases hcase : (ofText text).root with
    | relative =>
        rw [hcase] at hextension
        exact absurd hextension (by decide +kernel)
    | single =>
        rw [hcase] at hextension
        exact absurd hextension (by decide +kernel)
    | double =>
        rw [hcase] at hextension
        exact absurd hextension (by decide +kernel)
  · refine ⟨init, name, hnames, ?_⟩
    rw [← htext, extension_canonical_of_names hnames] at hextension
    rw [IsSourceName, ← hextension, Text.toList_ofList]

theorem IsSourceName.toList_eq (hname : IsSourceName name) :
    name.toList = (splitExtension name.toList).1 ++ sourceExtension.toList := by
  rw [← hname, splitExtension_parts]

theorem IsSourceName.isName (hname : IsSourceName name) : IsName name := by
  apply isName_of_length
  rw [← Text.length_toList, hname.toList_eq, List.length_append]
  exact Nat.lt_add_left _ (by decide)

theorem IsSourceName.stemOf_append (hname : IsSourceName name)
    (hproper : declarationSuffix.toList.isSuffixOf name.toList = false) :
    stemOf name ++ sourceExtension = name := by
  rw [← Text.toList_inj, Text.toList_append, stemOf, Text.toList_ofList, hproper,
    if_neg Bool.false_ne_true]
  exact hname.toList_eq.symm

theorem exists_names_append (first : Path) {second : Path} (hnames : second.names = init ++ [name])
    (hname : IsName name) : ∃ before, (first ++ second).names = before ++ [name] := by
  by_cases hsecond : second.root = .relative
  · rw [append_of_relative hsecond, hnames, ← List.append_assoc]
    refine ⟨first.root.reduce (first.names ++ init), ?_⟩
    dsimp only
    rw [Root.reduce_append, List.foldl_cons, List.foldl_nil, Root.push_of_isName hname]
    simp
  · rw [append_of_rooted hsecond]
    exact ⟨init, hnames⟩

end Path

namespace Location

theorem exists_names_absolute {here : Location} {text name : Text} {init : List Text}
    (htext : Path.canonical text = text) (hnames : (Path.ofText text).names = init ++ [name])
    (hname : Path.IsName name) : ∃ before, (here.absolute text).names = before ++ [name] := by
  rw [absolute_of_canonical here htext]
  exact Path.exists_names_append here.path hnames hname

end Location

end Rebuild
