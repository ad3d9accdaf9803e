import Rebuild.Proofs.Path.Characters

/-!
# Paths under a directory

Following one path after another is associative, since reading the names of a relative path first
leaves the same names to be cancelled later.  A path that only leads down is therefore added at the
end of the absolute path of its directory; it can be read off again, as the way from the directory,
and two such paths under one directory lead to one place only when they are the same.
-/

namespace Rebuild

namespace Path

/-- A name that stands for a file or folder and is neither left out nor cancelled. -/
structure IsName (name : Text) : Prop where
  ne_empty : name ≠ ""
  ne_dot : name ≠ "."
  ne_up : name ≠ ".."

/-- A name that also stays one name when backslashes count as slashes. -/
structure IsPlain (name : Text) : Prop extends IsName name where
  slashFree : .char '/' ∉ name.toList
  backslashFree : .char '\\' ∉ name.toList

instance (name : Text) : Decidable (IsPlain name) :=
  decidable_of_iff
    ((name ≠ "" ∧ name ≠ "." ∧ name ≠ "..") ∧ .char '/' ∉ name.toList ∧ .char '\\' ∉ name.toList)
    ⟨fun h => ⟨⟨h.1.1, h.1.2.1, h.1.2.2⟩, h.2.1, h.2.2⟩,
      fun h => ⟨⟨h.ne_empty, h.ne_dot, h.ne_up⟩, h.slashFree, h.backslashFree⟩⟩

end Path

namespace Root

variable {root : Root} {stack names : List Text} {name : Text}

theorem push_of_isName (hname : Path.IsName name) : root.push stack name = name :: stack := by
  unfold Root.push
  rw [if_neg (not_or.2 ⟨hname.ne_empty, hname.ne_dot⟩), if_pos hname.ne_up]

theorem foldl_push_of_isName (hnames : ∀ name ∈ names, Path.IsName name) :
    names.foldl root.push stack = names.reverse ++ stack := by
  induction names generalizing stack with
  | nil => rfl
  | cons name rest ih =>
      rw [List.foldl_cons, push_of_isName (hnames name List.mem_cons_self),
        ih fun other hother => hnames other (List.mem_cons_of_mem name hother)]
      simp

theorem IsStack.isName (hstack : root.IsStack stack) (hroot : root ≠ .relative) :
    ∀ name ∈ stack, Path.IsName name := by
  induction stack with
  | nil => exact fun _ hname => (List.not_mem_nil hname).elim
  | cons top below ih =>
      intro name hname
      rcases List.mem_cons.1 hname with rfl | hname
      · exact ⟨hstack.1.1, hstack.1.2, fun hup => hroot (hstack.2.1 hup).1⟩
      · exact ih hstack.below name hname

theorem IsStack.exists_ups (hstack : root.IsStack stack) :
    ∃ proper count, stack = proper ++ List.replicate count (".." : Text) ∧
      ∀ name ∈ proper, Path.IsName name := by
  induction stack with
  | nil => exact ⟨[], 0, rfl, fun _ hname => (List.not_mem_nil hname).elim⟩
  | cons top below ih =>
      by_cases htop : top = ".."
      · have hups : top :: below = List.replicate (below.length + 1) (".." : Text) := by
          rw [List.replicate_succ, htop, ← List.eq_replicate_of_mem (hstack.2.1 htop).2]
        exact ⟨[], below.length + 1, hups, fun _ hname => (List.not_mem_nil hname).elim⟩
      · obtain ⟨proper, count, hbelow, hproper⟩ := ih hstack.below
        refine ⟨top :: proper, count, by rw [hbelow, List.cons_append], ?_⟩
        intro name hname
        rcases List.mem_cons.1 hname with rfl | hname
        · exact ⟨hstack.1.1, hstack.1.2, htop⟩
        · exact hproper name hname

theorem reduce_append (root : Root) (first second : List Text) :
    root.reduce (first ++ second) =
      (second.foldl root.push (root.reduce first).reverse).reverse := by
  simp [reduce]

theorem reduce_append_of_isName {base : List Text}
    (hnames : ∀ name ∈ names, Path.IsName name) :
    root.reduce (base ++ names) = root.reduce base ++ names := by
  rw [reduce_append, foldl_push_of_isName hnames, List.reverse_append,
    List.reverse_reverse, List.reverse_reverse]

theorem push_cases (root : Root) (stack : List Text) (name : Text) :
    root.push stack name = stack ∨ root.push stack name = name :: stack ∨
      root.push stack name = stack.tail := by
  by_cases hskip : name = "" ∨ name = "."
  · exact .inl (if_pos hskip)
  · by_cases hup : name = ".."
    · subst hup
      cases stack with
      | nil => cases root <;> simp [push]
      | cons top below => by_cases htop : top = ".." <;> simp [push, htop]
    · exact .inr (.inl (push_of_isName ⟨(not_or.1 hskip).1, (not_or.1 hskip).2, hup⟩))

/-- Following names takes off some of the last names and adds names that are followed. -/
theorem exists_foldl_push (root : Root) (stack names : List Text) :
    ∃ added count, names.foldl root.push stack = added ++ stack.drop count ∧
      ∀ name ∈ added, name ∈ names := by
  induction names generalizing stack with
  | nil => exact ⟨[], 0, rfl, fun _ hname => hname⟩
  | cons first rest ih =>
      obtain ⟨added, count, hfold, hadded⟩ := ih (root.push stack first)
      have hrest : ∀ name ∈ added, name ∈ first :: rest :=
        fun name hname => List.mem_cons_of_mem first (hadded name hname)
      rw [List.foldl_cons, hfold]
      rcases root.push_cases stack first with hpush | hpush | hpush
      · exact ⟨added, count, by rw [hpush], hrest⟩
      · cases count with
        | zero =>
            refine ⟨added ++ [first], 0, by simp [hpush], fun name hname => ?_⟩
            rcases List.mem_append.1 hname with hname | hname
            · exact hrest name hname
            · exact List.mem_singleton.1 hname ▸ List.mem_cons_self
        | succ count => exact ⟨added, count, by rw [hpush, List.drop_succ_cons], hrest⟩
      · exact ⟨added, count + 1, by rw [hpush, List.drop_tail], hrest⟩

/-- Reading one more name before following the names or after comes to the same. -/
theorem foldl_push_reverse_push {read : List Text} (hread : Root.relative.IsStack read)
    (root : Root) (stack : List Text) (name : Text) :
    (Root.relative.push read name).reverse.foldl root.push stack =
      root.push (read.reverse.foldl root.push stack) name := by
  have hlast (other : Text) :
      (other :: read).reverse.foldl root.push stack =
        root.push (read.reverse.foldl root.push stack) other := by
    simp
  by_cases hskip : name = "" ∨ name = "."
  · simp [Root.push, hskip]
  · by_cases hup : name = ".."
    · subst hup
      cases read with
      | nil => rfl
      | cons top below =>
          by_cases htop : top = ".."
          · have hpush : Root.relative.push (top :: below) ".." =
                (".." : Text) :: top :: below := by
              simp [Root.push, htop]
            rw [hpush, hlast]
          · have hpush : Root.relative.push (top :: below) ".." = below := by
              simp [Root.push, htop]
            have hname : Path.IsName top := ⟨hread.1.1, hread.1.2, htop⟩
            -- the name is there to be cancelled on either side
            rw [hpush, List.reverse_cons, List.foldl_append, List.foldl_cons, List.foldl_nil,
              push_of_isName hname]
            simp [Root.push, htop]
    · have hname : Path.IsName name := ⟨(not_or.1 hskip).1, (not_or.1 hskip).2, hup⟩
      rw [push_of_isName hname, hlast]

/-- Names can be read on their own before they are followed from somewhere. -/
theorem foldl_push_reduce (root : Root) (stack names : List Text) :
    (Root.relative.reduce names).foldl root.push stack = names.foldl root.push stack := by
  induction names using List.reverseRecOn with
  | nil => rfl
  | append_singleton read name ih =>
      have hread : Root.relative.IsStack (read.foldl Root.relative.push []) := by
        have hempty : Root.relative.IsStack [] := trivial
        exact hempty.foldl_push read
      rw [reduce, List.foldl_append, List.foldl_cons, List.foldl_nil,
        foldl_push_reverse_push hread, List.foldl_append, List.foldl_cons, List.foldl_nil]
      exact congrArg (fun reached => root.push reached name) ih

theorem reduce_append_reduce (root : Root) (first second : List Text) :
    root.reduce (first ++ Root.relative.reduce second) = root.reduce (first ++ second) := by
  rw [reduce_append, foldl_push_reduce, reduce_append]

theorem reduce_reduce_append (root : Root) (first second : List Text) :
    root.reduce (root.reduce first ++ second) = root.reduce (first ++ second) := by
  rw [reduce_append, (root.isStack_reverse_reduce first).reduce_eq_self, reduce_append]

end Root

namespace Path

variable {path : Path} {names first second rest : List Text} {text directory : Text}

theorem append_of_relative {first second : Path} (hsecond : second.root = .relative) :
    first ++ second = ⟨first.root, first.root.reduce (first.names ++ second.names)⟩ :=
  if_pos hsecond

theorem append_of_rooted {first second : Path} (hsecond : second.root ≠ .relative) :
    first ++ second = second :=
  if_neg hsecond

theorem root_of_relative (hrelative : isAbsolute text = false) :
    (ofText text).root = .relative := by
  by_contra hrooted
  rw [(isAbsolute_eq_true_iff text).2 hrooted] at hrelative
  cases hrelative

theorem append_assoc (first second third : Path) :
    first ++ (second ++ third) = (first ++ second) ++ third := by
  by_cases hthird : third.root = .relative
  · by_cases hsecond : second.root = .relative
    · have hinner : (second ++ third).root = .relative := by
        rw [append_of_relative hthird, hsecond]
      rw [append_of_relative hinner, append_of_relative hthird, append_of_relative hthird,
        append_of_relative hsecond, hsecond]
      dsimp only
      rw [Root.reduce_append_reduce, Root.reduce_reduce_append, List.append_assoc]
    · have hinner : (second ++ third).root ≠ .relative := by
        rw [append_of_relative hthird]
        exact hsecond
      rw [append_of_rooted hinner, append_of_rooted hsecond]
  · rw [append_of_rooted hthird, append_of_rooted hthird, append_of_rooted hthird]

/-- The path that leads down through the names. -/
def down (names : List Text) : Path :=
  ⟨.relative, names⟩

theorem append_down (hpath : path.root.IsStack path.names.reverse)
    (hnames : ∀ name ∈ names, IsName name) :
    path ++ down names = ⟨path.root, path.names ++ names⟩ := by
  have hdown : (down names).root = .relative := rfl
  rw [append_of_relative hdown, Root.reduce_append, hpath.reduce_eq_self]
  change (⟨path.root, (names.foldl path.root.push path.names.reverse).reverse⟩ : Path) = _
  rw [Root.foldl_push_of_isName hnames]
  simp

theorem isNormal_down (hnames : ∀ name ∈ names, IsPlain name) : (down names).IsNormal where
  stack := by
    change Root.relative.IsStack names.reverse
    have hfold : names.foldl Root.relative.push [] = names.reverse ++ [] :=
      Root.foldl_push_of_isName fun name hname => (hnames name hname).toIsName
    rw [List.append_nil] at hfold
    have hempty : Root.relative.IsStack [] := trivial
    rw [← hfold]
    exact hempty.foldl_push names
  slashFree := fun name hname => (hnames name hname).slashFree

theorem ofText_render_down (hnames : ∀ name ∈ names, IsPlain name) :
    ofText (down names).render = down names :=
  ofText_render (isNormal_down hnames) fun name hname => (hnames name hname).backslashFree

theorem canonical_render_down (hnames : ∀ name ∈ names, IsPlain name) :
    canonical (down names).render = (down names).render := by
  rw [canonical, ofText_render_down hnames]

theorem isAbsolute_render_down (hnames : ∀ name ∈ names, IsPlain name) :
    isAbsolute (down names).render = false := by
  rw [← Bool.not_eq_true, isAbsolute_eq_true_iff, ofText_render_down hnames]
  exact not_not.2 rfl

theorem ofText_join (first second : Text) :
    ofText (join first second) = ofText first ++ ofText second :=
  ofText_render (isNormal_append (isNormal_ofText first) (isNormal_ofText second))
    (avoids_append (backslashFree_ofText first) (backslashFree_ofText second))

theorem parse_eq_ofText (htext : .char '\\' ∉ text.toList) : parse text = ofText text := by
  rw [ofText, slashed_eq_self htext]

theorem backslash_not_mem_canonical (text : Text) : .char '\\' ∉ (canonical text).toList :=
  backslash_not_mem_render (backslashFree_ofText text)

/-- The text of the place to which the names lead from a directory. -/
def under (directory : Text) (names : List Text) : Text :=
  join directory (down names).render

theorem ofText_under (hnames : ∀ name ∈ names, IsPlain name) :
    ofText (under directory names) =
      ⟨(ofText directory).root, (ofText directory).names ++ names⟩ := by
  rw [under, ofText_join, ofText_render_down hnames]
  exact append_down (isNormal_ofText directory).stack fun name hname => (hnames name hname).toIsName

theorem ofText_dot : ofText "." = ⟨.relative, []⟩ := by
  decide +kernel

theorem canonical_dot : canonical "." = "." := by
  rw [canonical, ofText_dot]
  rfl

/-! ## The way from a directory -/

theorem dropShared_append (names rest : List Text) :
    dropShared names (names ++ rest) = ([], rest) := by
  induction names with
  | nil => cases rest <;> rfl
  | cons name more ih =>
      rw [List.cons_append, dropShared, if_pos rfl]
      exact ih

theorem between_of_names {directory path : Path} (hnames : path.names = directory.names ++ rest) :
    directory.between path = down rest := by
  rw [between, hnames, dropShared_append]
  rfl

end Path

namespace Location

variable {here : Location} {text directory : Text} {names rest : List Text}

theorem absolute_of_canonical (here : Location) (htext : Path.canonical text = text) :
    here.absolute text = here.path ++ Path.ofText text := by
  rw [absolute, Path.parse_eq_ofText]
  rw [← htext]
  exact Path.backslash_not_mem_canonical text

theorem root_absolute_ne (here : Location) (text : Text) :
    (here.absolute text).root ≠ .relative := by
  unfold absolute
  by_cases hrelative : (Path.parse text).root = .relative
  · rw [Path.append_of_relative hrelative]
    exact Root.noConfusion
  · rw [Path.append_of_rooted hrelative]
    exact hrelative

theorem root_absolute_of_canonical (hdirectory : Path.canonical directory = directory)
    (hroot : (Path.ofText directory).root ≠ .double) :
    (here.absolute directory).root = .single := by
  rw [absolute_of_canonical here hdirectory]
  by_cases hrelative : (Path.ofText directory).root = .relative
  · rw [Path.append_of_relative hrelative]
    rfl
  · rw [Path.append_of_rooted hrelative]
    cases hcase : (Path.ofText directory).root <;> simp_all

theorem isStack_absolute (here : Location) (text : Text) :
    (here.absolute text).root.IsStack (here.absolute text).names.reverse := by
  unfold absolute
  by_cases hrelative : (Path.parse text).root = .relative
  · rw [Path.append_of_relative hrelative]
    exact here.path.root.isStack_reverse_reduce _
  · rw [Path.append_of_rooted hrelative]
    exact (Path.isNormal_parse text).stack

theorem isName_of_mem_absolute :
    ∀ name ∈ (here.absolute text).names, Path.IsName name := by
  intro name hname
  exact (here.isStack_absolute text).isName (here.root_absolute_ne text) name
    (List.mem_reverse.2 hname)

theorem isPlain_of_mem_absolute (hhere : ∀ name ∈ here, Path.IsPlain name)
    (htext : .char '\\' ∉ text.toList) :
    ∀ name ∈ (here.absolute text).names, Path.IsPlain name := by
  have hslash : (here.absolute text).Avoids (.char '/') :=
    Path.avoids_append (fun name hname => (hhere name hname).slashFree)
      (Path.isNormal_parse text).slashFree
  have hback : (here.absolute text).Avoids (.char '\\') :=
    avoids_absolute (fun name hname => (hhere name hname).backslashFree) htext
  exact fun name hname =>
    ⟨isName_of_mem_absolute name hname, hslash name hname, hback name hname⟩

/-- A text that leads down from the working directory does so by names of its own. -/
theorem mem_parse_of_absolute (hnames : (here.absolute text).names =
    (here.absolute ".").names ++ names) : ∀ name ∈ names, name ∈ (Path.parse text).names := by
  unfold absolute at hnames
  by_cases hrelative : (Path.parse text).root = .relative
  · have hdot : Path.parse "." = ⟨.relative, []⟩ := by decide +kernel
    rw [hdot, Path.append_of_relative hrelative, Path.append_of_relative rfl] at hnames
    dsimp only at hnames
    rw [List.append_nil, Root.reduce_append] at hnames
    generalize here.path.root.reduce here.path.names = base at hnames
    obtain ⟨added, count, hfold, hadded⟩ :=
      here.path.root.exists_foldl_push base.reverse (Path.parse text).names
    rw [hfold] at hnames
    have hstack := congrArg List.reverse hnames
    rw [List.reverse_reverse, List.reverse_append] at hstack
    conv_rhs at hstack => rw [← List.take_append_drop count base.reverse, ← List.append_assoc]
    have hsplit := List.append_cancel_right hstack
    intro name hname
    apply hadded
    rw [hsplit]
    exact List.mem_append_left _ (List.mem_reverse.2 hname)
  · rw [Path.append_of_rooted hrelative] at hnames
    intro name hname
    rw [hnames]
    exact List.mem_append_right _ hname

/-- What lies inside the directory is reached from it by plain names. -/
def PlainBelow (here : Location) (directory : Text) : Prop :=
  ∀ text names, .char '\\' ∉ text.toList →
    (here.absolute text).names = (here.absolute directory).names ++ names →
      ∀ name ∈ names, Path.IsPlain name

theorem plainBelow_of_isPlain (hhere : ∀ name ∈ here, Path.IsPlain name) (directory : Text) :
    here.PlainBelow directory := by
  intro text names htext hnames name hname
  apply isPlain_of_mem_absolute hhere htext
  rw [hnames]
  exact List.mem_append_right _ hname

theorem isInside_iff :
    here.isInside text directory = true ↔
      (here.absolute directory).root = .single ∧
        ∃ rest, (here.absolute text).names = (here.absolute directory).names ++ rest := by
  unfold isInside Path.contains
  rw [Bool.and_eq_true, beq_iff_eq, List.isPrefixOf_iff_prefix]
  exact and_congr_right fun _ => exists_congr fun _ => eq_comm

theorem relativeTo_of_names
    (hnames : (here.absolute text).names = (here.absolute directory).names ++ rest) :
    here.relativeTo text directory = Path.canonical (Path.down rest).render := by
  rw [relativeTo, Path.between_of_names hnames]

theorem absolute_join (here : Location) (directory text : Text) :
    here.absolute (Path.join directory text) =
      here.absolute (Path.canonical directory) ++ Path.ofText text := by
  rw [absolute_of_canonical here (Path.canonical_join directory text), Path.ofText_join,
    Path.append_assoc, absolute_of_canonical here (Path.canonical_canonical directory),
    Path.ofText_canonical]

/-- A path under a directory is the path of the directory with the names behind it. -/
theorem absolute_under (hdirectory : Path.canonical directory = directory)
    (hnames : ∀ name ∈ names, Path.IsPlain name) :
    here.absolute (Path.under directory names) =
      ⟨(here.absolute directory).root, (here.absolute directory).names ++ names⟩ := by
  rw [Path.under, absolute_join, hdirectory, Path.ofText_render_down hnames]
  exact Path.append_down (here.isStack_absolute directory)
    fun name hname => (hnames name hname).toIsName

/-- Names that lead from one directory to one place are the same. -/
theorem eq_of_absolute_under_eq {others : List Text}
    (hdirectory : Path.canonical directory = directory)
    (hnames : ∀ name ∈ names, Path.IsPlain name) (hothers : ∀ name ∈ others, Path.IsPlain name)
    (hsame : here.absolute (Path.under directory names) =
      here.absolute (Path.under directory others)) : names = others := by
  rw [absolute_under hdirectory hnames, absolute_under hdirectory hothers] at hsame
  exact List.append_cancel_left (Path.mk.inj hsame).2

theorem relativeTo_under (hdirectory : Path.canonical directory = directory)
    (hnames : ∀ name ∈ names, Path.IsPlain name) :
    here.relativeTo (Path.under directory names) directory = (Path.down names).render := by
  have hunder : (here.absolute (Path.under directory names)).names =
      (here.absolute directory).names ++ names := by
    rw [absolute_under hdirectory hnames]
  rw [relativeTo_of_names hunder, Path.canonical_render_down hnames]

/-- Below the working directory no name of the way to it matters. -/
theorem plainBelow_under (hnames : ∀ name ∈ names, Path.IsPlain name) :
    here.PlainBelow (Path.under "." names) := by
  intro text rest htext habsolute name hname
  have hwhole := habsolute
  rw [absolute_under Path.canonical_dot hnames, List.append_assoc] at hwhole
  have hmem := mem_parse_of_absolute hwhole name (List.mem_append_right _ hname)
  have hinside : name ∈ (here.absolute text).names := by
    rw [habsolute]
    exact List.mem_append_right _ hname
  refine ⟨isName_of_mem_absolute name hinside, (Path.isNormal_parse text).slashFree name hmem, ?_⟩
  rw [Path.parse_eq_ofText htext] at hmem
  exact Path.backslashFree_ofText text name hmem

/-- What lies inside a directory is written again as a path under it, to the same place. -/
theorem exists_under_of_isInside (hbelow : here.PlainBelow directory)
    (htext : .char '\\' ∉ text.toList) (hinside : here.isInside text directory = true) :
    ∃ names, (∀ name ∈ names, Path.IsPlain name) ∧
      (here.absolute text).names = (here.absolute directory).names ++ names ∧
      Path.join directory (here.relativeTo text directory) = Path.under directory names := by
  obtain ⟨_, names, hnames⟩ := isInside_iff.1 hinside
  have hplain := hbelow text names htext hnames
  refine ⟨names, hplain, hnames, ?_⟩
  rw [relativeTo_of_names hnames, Path.canonical_render_down hplain, Path.under]

end Location

end Rebuild
