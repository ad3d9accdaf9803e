import Rebuild.Proofs.Path.NormalForm

/-!
# The way from a directory and back

The way from a directory to a path leads up out of what the two do not share and then down to the
path, so following it from the directory ends at the path again, wherever the two lie.  It leads
down alone exactly when the path lies inside the directory.  A text that leads down alone always
ends inside, and it is the very text that is read off from there.
-/

namespace Rebuild

theorem Root.foldl_push_replicate_up {root : Root} {tops stack : List Text}
    (htops : ∀ name ∈ tops, Path.IsName name) :
    (List.replicate tops.length (".." : Text)).foldl root.push (tops ++ stack) = stack := by
  induction tops with
  | nil => rfl
  | cons top rest ih =>
      obtain ⟨htop, hrest⟩ := List.forall_mem_cons.1 htops
      have hpush : root.push (top :: (rest ++ stack)) ".." = rest ++ stack := by
        simp [push, htop.ne_up]
      rw [List.length_cons, List.replicate_succ, List.cons_append, List.foldl_cons, hpush, ih hrest]

namespace Path

variable {first second : List Text} {path : Path} {text : Text}

theorem exists_shared (first second : List Text) :
    ∃ shared, first = shared ++ (dropShared first second).1 ∧
      second = shared ++ (dropShared first second).2 := by
  induction first generalizing second with
  | nil => exact ⟨[], rfl, rfl⟩
  | cons name rest ih =>
      cases second with
      | nil => exact ⟨[], rfl, rfl⟩
      | cons other more =>
          unfold dropShared
          split
          next heq =>
            obtain ⟨shared, hfirst, hsecond⟩ := ih more
            refine ⟨name :: shared, congrArg (name :: ·) hfirst, ?_⟩
            rw [heq]
            exact congrArg (other :: ·) hsecond
          next => exact ⟨[], rfl, rfl⟩

theorem fst_dropShared_eq_nil_iff : (dropShared first second).1 = [] ↔ first <+: second := by
  constructor
  · intro hnone
    obtain ⟨shared, hfirst, hsecond⟩ := exists_shared first second
    rw [hnone, List.append_nil] at hfirst
    exact ⟨_, (congrArg (· ++ (dropShared first second).2) hfirst).trans hsecond.symm⟩
  · rintro ⟨rest, rfl⟩
    rw [dropShared_append]

theorem between_eq (directory path : Path) :
    directory.between path =
      ⟨.relative, List.replicate (dropShared directory.names path.names).1.length (".." : Text) ++
        (dropShared directory.names path.names).2⟩ := by
  rw [between, ← List.map_const']

theorem isNormal_between (directory : Path) (hpath : ∀ name ∈ path.names, IsPlain name) :
    (directory.between path).IsNormal := by
  rw [between_eq]
  constructor
  · dsimp only
    rw [List.reverse_append, List.reverse_replicate]
    apply Root.isStack_append_replicate _ fun hrooted => (hrooted rfl).elim
    exact fun name hname => (hpath name (mem_dropShared (List.mem_reverse.1 hname))).toIsName
  · intro name hname
    rcases List.mem_append.1 hname with hup | hdown
    · rw [List.eq_of_mem_replicate hup]
      decide
    · exact (hpath name (mem_dropShared hdown)).slashFree

theorem backslashFree_between (directory : Path) (hpath : ∀ name ∈ path.names, IsPlain name) :
    (directory.between path).BackslashFree := by
  rw [between_eq]
  intro name hname
  rcases List.mem_append.1 hname with hup | hdown
  · rw [List.eq_of_mem_replicate hup]
    decide
  · exact (hpath name (mem_dropShared hdown)).backslashFree

/-- From the directory the way leads to the path, but for the root, which it does not change. -/
theorem append_between {directory : Path} (hdirectory : ∀ name ∈ directory.names, IsName name)
    (hpath : ∀ name ∈ path.names, IsName name) :
    directory ++ directory.between path = ⟨directory.root, path.names⟩ := by
  obtain ⟨shared, hfirst, hsecond⟩ := exists_shared directory.names path.names
  rw [between_eq, append_of_relative rfl]
  generalize dropShared directory.names path.names = parts at hfirst hsecond
  obtain ⟨up, down⟩ := parts
  dsimp only at hfirst hsecond ⊢
  rw [hfirst] at hdirectory
  rw [hsecond] at hpath
  have hbase : directory.root.reduce (directory.names ++ List.replicate up.length (".." : Text)) =
      shared := by
    rw [hfirst, Root.reduce_append, Root.reduce, Root.foldl_push_of_isName hdirectory,
      List.append_nil, List.reverse_reverse, List.reverse_append, ← List.length_reverse,
      Root.foldl_push_replicate_up, List.reverse_reverse]
    exact fun name hname => hdirectory name (List.mem_append_right _ (List.mem_reverse.1 hname))
  rw [← List.append_assoc, Root.reduce_append_of_isName, hbase, hsecond]
  exact fun name hname => hpath name (List.mem_append_right _ hname)

/-- The way leads down alone exactly when the names of the directory come first. -/
theorem up_not_mem_between_iff {directory : Path} (hpath : ∀ name ∈ path.names, IsName name) :
    (".." : Text) ∉ (directory.between path).names ↔ directory.names <+: path.names := by
  rw [between_eq, ← fst_dropShared_eq_nil_iff, List.mem_append, not_or]
  constructor
  · rintro ⟨hups, -⟩
    by_contra hsome
    exact hups (List.mem_replicate.2 ⟨by simpa using hsome, rfl⟩)
  · intro hnone
    rw [hnone]
    exact ⟨List.not_mem_nil, fun hup => (hpath ".." (mem_dropShared hup)).ne_up rfl⟩

/-- A canonical text without `..` that is not absolute leads down. -/
theorem exists_eq_render_down (htext : canonical text = text)
    (hrelative : isAbsolute text = false) (hup : (".." : Text) ∉ segments text) :
    ∃ names, text = (down names).render ∧ ∀ name ∈ names, IsPlain name := by
  have hnormal := isNormal_ofText text
  have hdown : ofText text = down (ofText text).names := by
    rw [down, ← root_of_relative hrelative]
  refine ⟨(ofText text).names, ?_, fun name hname => ?_⟩
  · rw [← hdown]
    exact htext.symm
  · rw [← htext, canonical, up_mem_segments_render_iff hnormal] at hup
    obtain ⟨hempty, hdot⟩ := hnormal.stack.ne_of_mem (List.mem_reverse.2 hname)
    exact ⟨⟨hempty, hdot, fun heq => hup (heq ▸ hname)⟩, hnormal.slashFree name hname,
      backslashFree_ofText text name hname⟩

theorem root_ne_double (htext : canonical text = text)
    (hslashes : ¬[.char '/', .char '/'] <+: text.toList) :
    (ofText text).root ≠ .double := by
  intro hdouble
  apply hslashes
  have hrooted : ¬((ofText text).root = .relative ∧ (ofText text).names = []) := by
    simp [hdouble]
  rw [← htext, canonical, render, if_neg hrooted, hdouble, Text.toList_append]
  exact List.prefix_append _ _

end Path

namespace Location

variable {here : Location} {text directory : Text}

/-- The names of an absolute path are those that the names of the text reduce to, behind the names
of the working directory if it is relative. -/
theorem reduces_names_absolute (here : Location) (htext : .char '\\' ∉ text.toList) :
    Path.Reduces True
      (if Path.isAbsolute text then Path.segments text else here ++ Path.segments text)
      (here.absolute text).names := by
  have hrooted (root : Root) (hroot : root ≠ .relative) : True = (root ≠ .relative) :=
    (eq_true hroot).symm
  unfold absolute
  split
  next habsolute =>
    rw [Path.isAbsolute_eq_true_iff, ← Path.parse_eq_ofText htext] at habsolute
    rw [Path.append_of_rooted habsolute, hrooted _ habsolute, Root.reduces_iff]
    rfl
  next hrelative =>
    rw [Path.isAbsolute_eq_true_iff, ← Path.parse_eq_ofText htext, not_not] at hrelative
    have hnames : (Path.parse text).names = Root.relative.reduce (Path.segments text) := by
      rw [← hrelative]
      rfl
    rw [Path.append_of_relative hrelative, hnames, Root.reduce_append_reduce,
      hrooted here.path.root Root.noConfusion, Root.reduces_iff]
    rfl

section Plain

variable (hhere : ∀ name ∈ here, Path.IsPlain name)
include hhere

/-- What is read off is the way between the absolute paths, as it is written. -/
theorem relativeTo_eq_render (htext : .char '\\' ∉ text.toList) (directory : Text) :
    here.relativeTo text directory =
        ((here.absolute directory).between (here.absolute text)).render ∧
      Path.ofText (here.relativeTo text directory) =
        (here.absolute directory).between (here.absolute text) := by
  have hplain := isPlain_of_mem_absolute hhere htext
  have hway := Path.ofText_render (Path.isNormal_between (here.absolute directory) hplain)
    (Path.backslashFree_between (here.absolute directory) hplain)
  have hcanonical : here.relativeTo text directory =
      ((here.absolute directory).between (here.absolute text)).render := by
    rw [relativeTo, Path.canonical, hway]
  exact ⟨hcanonical, hcanonical ▸ hway⟩

theorem absolute_join_relativeTo (htext : .char '\\' ∉ text.toList)
    (hdirectory : Path.canonical directory = directory) :
    here.absolute (Path.join directory (here.relativeTo text directory)) =
      ⟨(here.absolute directory).root, (here.absolute text).names⟩ := by
  rw [absolute_join, hdirectory, (relativeTo_eq_render hhere htext directory).2]
  exact Path.append_between isName_of_mem_absolute isName_of_mem_absolute

theorem up_not_mem_relativeTo_iff (htext : .char '\\' ∉ text.toList) :
    (".." : Text) ∉ Path.segments (here.relativeTo text directory) ↔
      (here.absolute directory).names <+: (here.absolute text).names := by
  have hnormal := Path.isNormal_between (here.absolute directory)
    (isPlain_of_mem_absolute hhere htext)
  rw [(relativeTo_eq_render hhere htext directory).1, Path.up_mem_segments_render_iff hnormal]
  exact Path.up_not_mem_between_iff isName_of_mem_absolute

end Plain

/-- Being inside a directory, the way from it and paths joined to it agree, from any working
directory without backslashes: the way leads back to every path, it leads down alone from a
directory to what is inside, and a text that leads down alone is read off as it was joined. -/
theorem reanchoring_exact (hhere : ∀ name ∈ here, Path.IsPlain name)
    (hdirectory : Path.canonical directory = directory)
    (hslashes : ¬[.char '/', .char '/'] <+: directory.toList) :
    (∀ text, Path.canonical text = text →
      Path.Reduces True
          (if Path.isAbsolute text then Path.segments text else here ++ Path.segments text)
          (here.absolute text).names ∧
        (here.isInside text directory = true ↔
          (here.absolute directory).names <+: (here.absolute text).names) ∧
        Path.canonical (here.relativeTo text directory) = here.relativeTo text directory ∧
        Path.isAbsolute (here.relativeTo text directory) = false ∧
        (here.isInside text directory = true ↔
          (".." : Text) ∉ Path.segments (here.relativeTo text directory)) ∧
        (here.absolute (Path.join directory (here.relativeTo text directory))).names =
          (here.absolute text).names) ∧
    ∀ relative, Path.canonical relative = relative → Path.isAbsolute relative = false →
      (".." : Text) ∉ Path.segments relative →
        here.isInside (Path.join directory relative) directory = true ∧
          here.relativeTo (Path.join directory relative) directory = relative := by
  have hroot : (here.absolute directory).root = .single :=
    root_absolute_of_canonical hdirectory (Path.root_ne_double hdirectory hslashes)
  have hinside (text : Text) : here.isInside text directory = true ↔
      (here.absolute directory).names <+: (here.absolute text).names := by
    rw [isInside_iff, and_iff_right hroot]
    exact exists_congr fun rest => eq_comm
  constructor
  · intro text htext
    have hback : .char '\\' ∉ text.toList := htext ▸ Path.backslash_not_mem_canonical text
    obtain ⟨-, hway⟩ := relativeTo_eq_render hhere hback directory
    refine ⟨here.reduces_names_absolute hback, hinside text, Path.canonical_canonical _, ?_, ?_, ?_⟩
    · rw [← Bool.not_eq_true, Path.isAbsolute_eq_true_iff, hway]
      exact not_not.2 rfl
    · rw [hinside, up_not_mem_relativeTo_iff hhere hback]
    · rw [absolute_join_relativeTo hhere hback hdirectory]
  · intro relative hrelative hdown hup
    obtain ⟨names, rfl, hnames⟩ := Path.exists_eq_render_down hrelative hdown hup
    rw [← Path.under, hinside, relativeTo_under hdirectory hnames, absolute_under hdirectory hnames]
    exact ⟨List.prefix_append _ _, rfl⟩

/-- The directory lies beside the working directory, and another one has a name that begins with
the name of the first. -/
theorem reanchoring_exact_beside :
    Location.isInside ["base", "proj"] "/base/lib/a/b.tl" "../lib" = true ∧
      Location.isInside ["base", "proj"] "../library/b.tl" "../lib" = false ∧
      (Location.absolute ["base", "proj"]
          (Path.join "../lib" (Location.relativeTo ["base", "proj"] "c.tl" "../lib"))).names =
        (["base", "proj", "c.tl"] : List Text) ∧
      Location.relativeTo ["base", "proj"] (Path.join "../lib" "a/b.tl") "../lib" = "a/b.tl" := by
  have hhere : ∀ name ∈ (["base", "proj"] : List Text), Path.IsPlain name := by decide
  have hdirectory : Path.canonical "../lib" = "../lib" := by decide +kernel
  obtain ⟨hround, hdown⟩ := reanchoring_exact hhere hdirectory (by decide +kernel)
  have hnames : (Location.absolute ["base", "proj"] "c.tl").names =
      (["base", "proj", "c.tl"] : List Text) := by
    decide +kernel
  refine ⟨(hround "/base/lib/a/b.tl" (by decide +kernel)).2.1.2 (by decide +kernel), ?_, ?_, ?_⟩
  · rw [← Bool.not_eq_true, (hround "../library/b.tl" (by decide +kernel)).2.1]
    decide +kernel
  · rw [← hnames]
    exact (hround "c.tl" (by decide +kernel)).2.2.2.2.2
  · exact (hdown "a/b.tl" (by decide +kernel) (by decide +kernel) (by decide +kernel)).2

end Location

end Rebuild
