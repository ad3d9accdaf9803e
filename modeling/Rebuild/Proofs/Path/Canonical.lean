import Rebuild.Path.Basic
import Mathlib.Tactic

/-!
# Canonical texts

Reading a text leaves the names on a stack in which a `..` lies on nothing but further ones, and
only in a relative path.  Reading such names again changes nothing, and neither does writing them
and splitting the text at its slashes, so the text written for a path reads as that path.  Hence a
canonical text is its own canonical text.
-/

namespace Rebuild

namespace Root

variable {root : Root} {stack names : List Text} {name : Text}

/-- What reading leaves on the stack: no empty names or dots, and a `..` only on others. -/
def IsStack (root : Root) : List Text → Prop
  | [] => True
  | top :: below =>
    (top ≠ "" ∧ top ≠ ".") ∧
      (top = ".." → root = .relative ∧ ∀ name ∈ below, name = "..") ∧ root.IsStack below

theorem IsStack.below {top : Text} {below : List Text}
    (hstack : root.IsStack (top :: below)) : root.IsStack below :=
  hstack.2.2

theorem IsStack.ne_of_mem (hstack : root.IsStack stack) (hname : name ∈ stack) :
    name ≠ "" ∧ name ≠ "." := by
  induction stack with
  | nil => exact (List.not_mem_nil hname).elim
  | cons top below ih =>
      rcases List.mem_cons.1 hname with rfl | hname
      · exact hstack.1
      · exact ih hstack.below hname

theorem IsStack.push (hstack : root.IsStack stack) (name : Text) :
    root.IsStack (root.push stack name) := by
  unfold Root.push
  split
  next => exact hstack
  next hproper =>
    split
    next hname =>
      exact ⟨not_or.1 hproper, fun heq => (hname heq).elim, hstack⟩
    next =>
      cases stack with
      | nil =>
          dsimp only
          split
          next hrelative =>
            exact ⟨⟨by decide, by decide⟩,
              fun _ => ⟨hrelative, fun _ hname => (List.not_mem_nil hname).elim⟩, trivial⟩
          next => exact hstack
      | cons top below =>
          dsimp only
          split
          next htop =>
            obtain ⟨hrelative, hbelow⟩ := hstack.2.1 htop
            refine ⟨⟨by decide, by decide⟩, fun _ => ⟨hrelative, ?_⟩, hstack⟩
            intro other hother
            rcases List.mem_cons.1 hother with rfl | hother
            · exact htop
            · exact hbelow other hother
          next => exact hstack.below

theorem IsStack.foldl_push (hstack : root.IsStack stack) (names : List Text) :
    root.IsStack (names.foldl root.push stack) := by
  induction names generalizing stack with
  | nil => exact hstack
  | cons name rest ih => exact ih (hstack.push name)

theorem mem_push {other : Text} (hmem : other ∈ root.push stack name) :
    other ∈ stack ∨ other = name := by
  unfold Root.push at hmem
  split at hmem
  next => exact Or.inl hmem
  next =>
    split at hmem
    next => exact (List.mem_cons.1 hmem).symm
    next hname =>
      have hname := not_not.1 hname
      cases stack with
      | nil =>
          dsimp only at hmem
          split at hmem
          next => exact Or.inr ((List.mem_singleton.1 hmem).trans hname.symm)
          next => exact Or.inl hmem
      | cons top below =>
          dsimp only at hmem
          split at hmem
          next =>
            rcases List.mem_cons.1 hmem with hother | hother
            · exact Or.inr (hother.trans hname.symm)
            · exact Or.inl hother
          next => exact Or.inl (List.mem_cons_of_mem top hmem)

theorem mem_foldl_push (hmem : name ∈ names.foldl root.push stack) :
    name ∈ stack ∨ name ∈ names := by
  induction names generalizing stack with
  | nil => exact Or.inl hmem
  | cons other rest ih =>
      rw [List.mem_cons]
      rcases ih hmem with hpush | hrest
      · rcases mem_push hpush with hstack | hother
        · exact Or.inl hstack
        · exact Or.inr (Or.inl hother)
      · exact Or.inr (Or.inr hrest)

theorem mem_reduce (hmem : name ∈ root.reduce names) : name ∈ names :=
  (mem_foldl_push (List.mem_reverse.1 hmem)).resolve_left List.not_mem_nil

theorem IsStack.push_eq_cons {top : Text} {below : List Text}
    (hstack : root.IsStack (top :: below)) : root.push below top = top :: below := by
  unfold Root.push
  rw [if_neg (not_or.2 hstack.1)]
  split
  next => rfl
  next htop =>
    have htop := not_not.1 htop
    obtain ⟨hrelative, hbelow⟩ := hstack.2.1 htop
    cases below with
    | nil => simp [hrelative, htop]
    | cons next further => simp [hbelow next List.mem_cons_self, htop]

theorem IsStack.foldl_push_reverse (hstack : root.IsStack stack) :
    stack.reverse.foldl root.push [] = stack := by
  induction stack with
  | nil => rfl
  | cons top below ih =>
      rw [List.reverse_cons, List.foldl_append, ih hstack.below]
      exact hstack.push_eq_cons

theorem IsStack.reduce_eq_self (hstack : root.IsStack names.reverse) :
    root.reduce names = names := by
  unfold reduce
  have hfold := hstack.foldl_push_reverse
  rw [List.reverse_reverse] at hfold
  rw [hfold, List.reverse_reverse]

theorem isStack_reverse_reduce (root : Root) (names : List Text) :
    root.IsStack (root.reduce names).reverse := by
  rw [reduce, List.reverse_reverse]
  have hempty : root.IsStack [] := trivial
  exact hempty.foldl_push names

theorem reduce_replicate_empty (root : Root) (count : Nat) (names : List Text) :
    root.reduce (List.replicate count ("" : Text) ++ names) = root.reduce names := by
  induction count with
  | zero => rfl
  | succ count ih =>
      rw [← ih]
      simp [List.replicate_succ, reduce, Root.push]

/-- The slashes of a root are read as that root when no further slash follows. -/
theorem ofChars_text_append {chars : List CodePoint} (hchars : chars.head? ≠ some (.char '/')) :
    ofChars (root.text.toList ++ chars) = root := by
  cases chars with
  | nil => cases root <;> rfl
  | cons c rest =>
      have hc : c ≠ .char '/' := by simpa using hchars
      cases root <;> simp [ofChars, text, hc]

end Root

namespace Path

variable {path first second : Path} {text : Text}

def joined (names : List Text) : List CodePoint :=
  [.char '/'].intercalate (names.map Text.toList)

/-- A path as reading leaves it. -/
structure IsNormal (path : Path) : Prop where
  stack : path.root.IsStack path.names.reverse
  slashFree : ∀ name ∈ path.names, .char '/' ∉ name.toList

def Avoids (c : CodePoint) (path : Path) : Prop :=
  ∀ name ∈ path.names, c ∉ name.toList

def BackslashFree (path : Path) : Prop :=
  ∀ name ∈ path.names, .char '\\' ∉ name.toList

theorem separator_not_mem_of_mem_splitOn {separator : CodePoint} {chars part : List CodePoint}
    (hpart : part ∈ chars.splitOn separator) : separator ∉ part ∧ part ⊆ chars := by
  induction chars generalizing part with
  | nil => simp_all
  | cons c rest ih =>
      rw [List.splitOn_cons_eq_if_modifyHead] at hpart
      split at hpart
      next =>
        rcases List.mem_cons.1 hpart with rfl | hpart
        · exact ⟨List.not_mem_nil, List.nil_subset _⟩
        · exact ⟨(ih hpart).1, List.subset_cons_of_subset c (ih hpart).2⟩
      next hc =>
        cases hrest : rest.splitOn separator with
        | nil => exact (List.splitOn_ne_nil separator rest hrest).elim
        | cons head tail =>
            rw [hrest] at ih hpart
            rcases List.mem_cons.1 hpart with rfl | hpart
            · obtain ⟨hnot, hsubset⟩ := ih List.mem_cons_self
              refine ⟨?_, List.cons_subset_cons c hsubset⟩
              rw [List.mem_cons, not_or]
              exact ⟨fun heq => hc (beq_iff_eq.2 heq.symm), hnot⟩
            · obtain ⟨hnot, hsubset⟩ := ih (List.mem_cons_of_mem head hpart)
              exact ⟨hnot, List.subset_cons_of_subset c hsubset⟩

theorem slash_not_mem_of_mem_segments {name : Text} (hname : name ∈ segments text) :
    .char '/' ∉ name.toList ∧ name.toList ⊆ text.toList := by
  obtain ⟨part, hpart, rfl⟩ := List.mem_map.1 hname
  rw [Text.toList_ofList]
  exact separator_not_mem_of_mem_splitOn hpart

theorem segments_append_slash (first second : Text) :
    segments (first ++ "/" ++ second) = segments first ++ segments second := by
  simp [segments, List.splitOn_append_cons_self]

theorem segments_eq_singleton (hslash : .char '/' ∉ text.toList) : segments text = [text] := by
  rw [segments, List.splitOn_eq_singleton hslash, List.map_singleton, Text.ofList_toList]

theorem isNormal_parse (text : Text) : (parse text).IsNormal where
  stack := (Root.ofChars text.toList).isStack_reverse_reduce (segments text)
  slashFree := fun _ hname => (slash_not_mem_of_mem_segments (Root.mem_reduce hname)).1

theorem isNormal_append (hfirst : first.IsNormal) (hsecond : second.IsNormal) :
    (first ++ second).IsNormal := by
  change (first.append second).IsNormal
  unfold append
  split
  next =>
    refine ⟨first.root.isStack_reverse_reduce _, fun name hname => ?_⟩
    rcases List.mem_append.1 (Root.mem_reduce hname) with hname | hname
    · exact hfirst.slashFree name hname
    · exact hsecond.slashFree name hname
  next => exact hsecond

theorem avoids_append {c : CodePoint} (hfirst : first.Avoids c) (hsecond : second.Avoids c) :
    (first ++ second).Avoids c := by
  change (first.append second).Avoids c
  unfold append
  split
  next =>
    intro name hname
    rcases List.mem_append.1 (Root.mem_reduce hname) with hname | hname
    · exact hfirst name hname
    · exact hsecond name hname
  next => exact hsecond

/-! ## Writing and reading again -/

theorem head?_joined_ne_slash {names : List Text}
    (hproper : ∀ name ∈ names, name ≠ "" ∧ .char '/' ∉ name.toList) :
    (joined names).head? ≠ some (.char '/') := by
  cases names with
  | nil => simp [joined]
  | cons first rest =>
      obtain ⟨hempty, hslash⟩ := hproper first List.mem_cons_self
      have hchars : first.toList ≠ [] := by simpa using hempty
      obtain ⟨c, tail, hfirst⟩ := List.exists_cons_of_ne_nil hchars
      have hhead : (joined (first :: rest)).head? = some c := by
        cases rest <;> simp [joined, hfirst]
      rw [hhead]
      rintro heq
      apply hslash
      rw [hfirst, Option.some.inj heq]
      exact List.mem_cons_self

theorem IsNormal.proper (hpath : path.IsNormal) :
    ∀ name ∈ path.names, name ≠ "" ∧ .char '/' ∉ name.toList :=
  fun name hname =>
    ⟨(hpath.stack.ne_of_mem (List.mem_reverse.2 hname)).1, hpath.slashFree name hname⟩

theorem exists_splitOn_joined {names : List Text}
    (hslash : ∀ name ∈ names, .char '/' ∉ name.toList) :
    ∃ count, ((joined names).splitOn (.char '/')).map Text.ofList =
      List.replicate count ("" : Text) ++ names := by
  cases names with
  | nil => exact ⟨1, by simp [joined]⟩
  | cons first rest =>
      refine ⟨0, ?_⟩
      rw [joined, List.splitOn_intercalate]
      · simp [Function.comp_def]
      · intro part hpart
        obtain ⟨name, hname, rfl⟩ := List.mem_map.1 hpart
        exact hslash name hname
      · simp

/-- The names between the slashes of a written path: those of the path, behind empty ones for the
slashes of the root. -/
theorem exists_segments_eq (root : Root) {names : List Text}
    (hslash : ∀ name ∈ names, .char '/' ∉ name.toList) :
    ∃ count, segments (root.text ++ Text.intercalate "/" names) =
      List.replicate count ("" : Text) ++ names := by
  have hchars : (root.text ++ Text.intercalate "/" names).toList =
      root.text.toList ++ joined names := by
    simp [joined]
  obtain ⟨count, hjoined⟩ := exists_splitOn_joined hslash
  unfold segments
  rw [hchars]
  cases root with
  | relative => exact ⟨count, hjoined⟩
  | single =>
      refine ⟨count + 1, ?_⟩
      simp [Root.text, List.splitOn_cons_eq_if_modifyHead, hjoined, List.replicate_succ]
  | double =>
      refine ⟨count + 2, ?_⟩
      simp [Root.text, List.splitOn_cons_eq_if_modifyHead, hjoined, List.replicate_succ]

theorem exists_segments_render (hpath : path.IsNormal) :
    ∃ skipped, segments path.render = skipped ++ path.names ∧
      ∀ name ∈ skipped, name = "" ∨ name = "." := by
  unfold render
  split
  next hdot =>
    refine ⟨["."], ?_, fun name hname => Or.inr (List.mem_singleton.1 hname)⟩
    rw [hdot.2]
    decide +kernel
  next =>
    obtain ⟨count, hsegments⟩ := exists_segments_eq path.root hpath.slashFree
    exact ⟨_, hsegments, fun name hname => Or.inl (List.eq_of_mem_replicate hname)⟩

theorem up_mem_segments_render_iff (hpath : path.IsNormal) :
    (".." : Text) ∈ segments path.render ↔ (".." : Text) ∈ path.names := by
  obtain ⟨skipped, hsegments, hskipped⟩ := exists_segments_render hpath
  rw [hsegments, List.mem_append, or_iff_right]
  exact fun hup => absurd (hskipped ".." hup) (by decide)

theorem ofChars_written (root : Root) {names : List Text}
    (hproper : ∀ name ∈ names, name ≠ "" ∧ .char '/' ∉ name.toList) :
    Root.ofChars (root.text ++ Text.intercalate "/" names).toList = root := by
  have hchars : (root.text ++ Text.intercalate "/" names).toList =
      root.text.toList ++ joined names := by
    simp [joined]
  rw [hchars, Root.ofChars_text_append (head?_joined_ne_slash hproper)]

theorem parse_render (hpath : path.IsNormal) : parse path.render = path := by
  unfold render
  split
  next hdot =>
    obtain ⟨root, names⟩ := path
    obtain ⟨rfl, rfl⟩ := hdot
    decide +kernel
  next =>
    -- behind the slashes of the root, a slash stands between two names and nowhere inside one
    obtain ⟨count, hsegments⟩ := exists_segments_eq path.root hpath.slashFree
    unfold parse
    rw [ofChars_written path.root hpath.proper, hsegments]
    dsimp only
    rw [Root.reduce_replicate_empty, hpath.stack.reduce_eq_self]

/-! ## Canonical texts -/

theorem toList_slashed (text : Text) :
    (slashed text).toList = text.toList.map fun c => if c = .char '\\' then .char '/' else c := by
  rw [slashed, Text.toList_map]

theorem backslash_not_mem_slashed (text : Text) : .char '\\' ∉ (slashed text).toList := by
  rw [toList_slashed, List.mem_map]
  rintro ⟨c, _, hc⟩
  split at hc
  next => exact absurd hc (by decide)
  next hne => exact hne hc

theorem slashed_eq_self (htext : .char '\\' ∉ text.toList) : slashed text = text := by
  rw [← Text.toList_inj, toList_slashed]
  conv_rhs => rw [← List.map_id text.toList]
  apply List.map_congr_left
  intro c hc
  rw [if_neg]
  · rfl
  · rintro rfl
    exact htext hc

theorem isNormal_ofText (text : Text) : (ofText text).IsNormal :=
  isNormal_parse (slashed text)

theorem backslashFree_ofText (text : Text) : (ofText text).BackslashFree :=
  fun _ hname hback => backslash_not_mem_slashed text
    ((slash_not_mem_of_mem_segments (Root.mem_reduce hname)).2 hback)

theorem mem_joined {names : List Text} {c : CodePoint} (hc : c ∈ joined names) :
    c = .char '/' ∨ ∃ name ∈ names, c ∈ name.toList := by
  induction names with
  | nil => simp [joined] at hc
  | cons first rest ih =>
      cases rest with
      | nil =>
          refine Or.inr ⟨first, List.mem_cons_self, ?_⟩
          simpa [joined] using hc
      | cons second further =>
          have hsplit : joined (first :: second :: further) =
              first.toList ++ .char '/' :: joined (second :: further) := by
            simp [joined]
          rw [hsplit, List.mem_append, List.mem_cons] at hc
          rcases hc with hc | hc | hc
          · exact Or.inr ⟨first, List.mem_cons_self, hc⟩
          · exact Or.inl hc
          · rcases ih hc with hc | ⟨name, hname, hc⟩
            · exact Or.inl hc
            · exact Or.inr ⟨name, List.mem_cons_of_mem first hname, hc⟩

theorem not_mem_render {c : CodePoint} (hslash : c ≠ .char '/') (hdot : c ≠ .char '.')
    (hpath : path.Avoids c) :
    c ∉ path.render.toList := by
  unfold render
  split
  next => simpa using hdot
  next =>
    rw [Text.toList_append, List.mem_append, not_or]
    constructor
    · cases path.root <;> simp [Root.text, hslash]
    · intro hc
      have hjoined : c ∈ joined path.names := by simpa [joined] using hc
      rcases mem_joined hjoined with heq | ⟨name, hname, hmem⟩
      · exact hslash heq
      · exact hpath name hname hmem

theorem backslash_not_mem_render (hpath : path.BackslashFree) : .char '\\' ∉ path.render.toList :=
  not_mem_render (by decide) (by decide) hpath

theorem ofText_render (hpath : path.IsNormal) (hback : path.BackslashFree) :
    ofText path.render = path := by
  rw [ofText, slashed_eq_self (backslash_not_mem_render hback)]
  exact parse_render hpath

theorem ofText_canonical (text : Text) : ofText (canonical text) = ofText text :=
  ofText_render (isNormal_ofText text) (backslashFree_ofText text)

theorem canonical_canonical (text : Text) : canonical (canonical text) = canonical text := by
  rw [canonical, ofText_canonical, canonical]

theorem canonical_join (first second : Text) :
    canonical (join first second) = join first second := by
  rw [canonical, join, ofText_render]
  · exact isNormal_append (isNormal_ofText first) (isNormal_ofText second)
  · exact avoids_append (backslashFree_ofText first) (backslashFree_ofText second)

theorem isAbsolute_eq_true_iff (text : Text) :
    isAbsolute text = true ↔ (ofText text).root ≠ .relative := by
  change isAbsolute text = true ↔ Root.ofChars (slashed text).toList ≠ .relative
  rw [toList_slashed, isAbsolute]
  cases text.toList with
  | nil => simp [Root.ofChars]
  | cons c rest =>
      rw [List.map_cons]
      by_cases hc : c = .char '/' ∨ c = .char '\\'
      · have hslash : (if c = .char '\\' then .char '/' else c) = .char '/' := by
          rcases hc with rfl | rfl <;> rfl
        rw [hslash]
        simp only [Bool.or_eq_true, beq_iff_eq, hc, true_iff]
        unfold Root.ofChars
        split <;> simp_all
      · obtain ⟨hslash, hback⟩ := not_or.1 hc
        simp [Root.ofChars, hslash, hback]

theorem isAbsolute_canonical (text : Text) :
    isAbsolute (canonical text) = isAbsolute text := by
  rw [Bool.eq_iff_iff, isAbsolute_eq_true_iff, isAbsolute_eq_true_iff, ofText_canonical]

end Path

end Rebuild
