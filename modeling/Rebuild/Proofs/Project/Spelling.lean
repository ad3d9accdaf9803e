import Rebuild.Project.Output
import Rebuild.Proofs.Path.NormalForm

/-!
# Outputs of different spellings

Everything about an output is read off the canonical path but for two questions, which are asked of
the text as it is written: whether it ends as a declaration does, and whether it lies in the source
directory.  A text that ends in a slash, a dot or `..` does not end in the last name of its path, so
one for a declaration is not recognised.  A backslash separates names in the canonical path alone,
so a text with one may lie elsewhere than its path.
-/

namespace Rebuild

namespace Path

variable {text first second : Text} {init : List Text} {name : Text}

/-- The last part of the text is the last name of its path. -/
def EndsInName (text : Text) : Prop :=
  ∃ init name, segments (slashed text) = init ++ [name] ∧ IsName name

theorem joined_segments (text : Text) : joined (segments text) = text.toList := by
  simp [joined, segments, Function.comp_def]

theorem isDeclaration_of_segments (hsegments : segments (slashed text) = init ++ [name]) :
    isDeclaration text = declarationSuffix.toList.isSuffixOf name.toList := by
  have hchars : (slashed text).toList = frontOf .relative init ++ name.toList := by
    rw [← joined_segments, hsegments, joined_concat]
    rfl
  rw [isDeclaration, hchars, isSuffixOf_append (isFront_frontOf _ _) (by decide)]

theorem names_of_segments (hsegments : segments (slashed text) = init ++ [name])
    (hname : IsName name) :
    ∃ before, (ofText text).names = before ++ [name] := by
  refine ⟨(ofText text).root.reduce init, ?_⟩
  rw [← Root.reduce_append_of_isName (List.forall_mem_singleton.2 hname), ← hsegments]
  rfl

/-- A text is recognised as a declaration when its path is one and it ends in the name of it. -/
theorem isDeclaration_iff_canonical (text : Text) :
    isDeclaration text = true ↔ isDeclaration (canonical text) = true ∧ EndsInName text := by
  obtain ⟨init, name, hsegments⟩ : ∃ init name, segments (slashed text) = init ++ [name] := by
    refine (List.eq_nil_or_concat' _).resolve_left ?_
    simp [segments, List.splitOn_ne_nil]
  have hends : EndsInName text ↔ IsName name := by
    constructor
    · rintro ⟨others, other, hother, hname⟩
      have hlast := (List.append_inj' (hsegments.symm.trans hother) rfl).2
      exact (List.cons.inj hlast).1 ▸ hname
    · exact fun hname => ⟨init, name, hsegments, hname⟩
  rw [isDeclaration_of_segments hsegments, hends]
  by_cases hname : IsName name
  · obtain ⟨before, hnames⟩ := names_of_segments hsegments hname
    rw [isDeclaration_canonical_of_names hnames, and_iff_left hname]
  · refine iff_of_false (fun hsuffix => hname (isName_of_length ?_)) fun h => hname h.2
    have hlength := (List.isSuffixOf_iff_suffix.1 hsuffix).length_le
    rw [Text.length_toList] at hlength
    exact lt_of_lt_of_le (by decide) hlength

theorem withExtension_congr (hsame : canonical first = canonical second) (extension : Text) :
    withExtension first extension = withExtension second extension := by
  rw [← withExtension_canonical first, hsame, withExtension_canonical]

end Path

namespace Location

variable {here : Location} {text directory first second : Text}

theorem absolute_congr (hfirst : .char '\\' ∉ first.toList) (hsecond : .char '\\' ∉ second.toList)
    (hsame : Path.canonical first = Path.canonical second) :
    here.absolute first = here.absolute second := by
  rw [absolute, absolute, Path.parse_eq_ofText hfirst, Path.parse_eq_ofText hsecond,
    ← Path.ofText_canonical first, hsame, Path.ofText_canonical]

/-- To the file system a text with backslashes alone is one name, which is no directory of a
canonical text. -/
theorem isInside_dot_of_backslash (hdirectory : Path.canonical directory = directory)
    (hslash : .char '/' ∉ text.toList) (hback : .char '\\' ∈ text.toList)
    (hinside : here.isInside text directory = true) : here.isInside "." directory = true := by
  have hname : Path.IsName text := by
    refine ⟨?_, ?_, ?_⟩ <;> rintro rfl <;> simp at hback
  have hhead : text.toList.head? ≠ some (.char '/') := fun heq => hslash (List.mem_of_head? heq)
  have hroot : (Path.parse text).root = .relative := Path.root_parse_eq_relative_iff.2 hhead
  have hone : (Path.parse text).names = [text] := by
    change (Path.parse text).root.reduce (Path.segments text) = [text]
    rw [Path.segments_eq_singleton hslash]
    simp [Root.reduce, Root.push_of_isName hname]
  have hdot : Path.parse "." = ⟨.relative, []⟩ := by decide +kernel
  have hnames : (here.absolute text).names = (here.absolute ".").names ++ [text] := by
    rw [absolute, absolute, hdot, Path.append_of_relative hroot, Path.append_of_relative rfl, hone]
    dsimp only
    rw [List.append_nil, Root.reduce_append_of_isName (List.forall_mem_singleton.2 hname)]
  rw [isInside_iff] at hinside ⊢
  obtain ⟨hsingle, rest, hrest⟩ := hinside
  refine ⟨hsingle, ?_⟩
  have hprefix : (here.absolute directory).names <+: (here.absolute ".").names ++ [text] :=
    ⟨rest, hnames ▸ hrest.symm⟩
  rcases List.prefix_concat_iff.1 hprefix with hwhole | ⟨more, hmore⟩
  · have hmem := mem_parse_of_absolute hwhole text List.mem_cons_self
    have hfree : .char '\\' ∉ directory.toList :=
      hdirectory ▸ Path.backslash_not_mem_canonical directory
    rw [Path.parse_eq_ofText hfree] at hmem
    exact (Path.backslashFree_ofText directory text hmem hback).elim
  · exact ⟨more, hmore.symm⟩

end Location

namespace Config

variable {config : Config} {here : Location} {text first second : Text}

/-- Outputs have a directory of their own. -/
def Mirrors (config : Config) : Prop :=
  ∃ directory, config.buildDir = some directory ∧ directory ≠ ""

/-- The place of the output of a source file that has one. -/
def placeOf (config : Config) (here : Location) (text : Text) : Text :=
  match config.buildDir with
  | none => Path.withExtension text outputExtension
  | some directory =>
    if directory ≠ "" ∧ here.isInside text (config.projectDir here) = true then
      Path.withExtension
        (Path.join (here.projectRelative directory)
          (here.relativeTo text (config.projectDir here))) outputExtension
    else Path.withExtension text outputExtension

theorem outputOf_eq (config : Config) (here : Location) (text : Text) :
    config.outputOf here text =
      if Path.isDeclaration text then none else some (config.placeOf here text) := by
  unfold outputOf placeOf
  cases config.buildDir with
  | none => rfl
  | some directory =>
      dsimp only
      split
      next => rfl
      next => split <;> rfl

theorem ite_none_eq_ite_none_iff {α : Type} {first second : Bool} {x : α} :
    (if first = true then none else some x) = (if second = true then none else some x) ↔
      (first = true ↔ second = true) := by
  cases first <;> cases second <;> simp

theorem outputOf_eq_none_iff :
    config.outputOf here text = none ↔
      Path.isDeclaration (Path.canonical text) = true ∧ Path.EndsInName text := by
  rw [outputOf_eq, ← Path.isDeclaration_iff_canonical]
  simp

theorem placeOf_of_not_mirrors (hbeside : ¬config.Mirrors) :
    config.placeOf here text = Path.withExtension text outputExtension := by
  unfold placeOf
  split
  next => rfl
  next directory hdirectory =>
    rw [if_neg]
    exact fun h => hbeside ⟨directory, hdirectory, h.1⟩

theorem placeOf_congr (hsame : Path.canonical first = Path.canonical second)
    (hplain : config.Mirrors → .char '\\' ∉ first.toList ∧ .char '\\' ∉ second.toList) :
    config.placeOf here first = config.placeOf here second := by
  by_cases hmirrors : config.Mirrors
  · obtain ⟨hfirst, hsecond⟩ := hplain hmirrors
    have habsolute : here.absolute first = here.absolute second :=
      Location.absolute_congr hfirst hsecond hsame
    unfold placeOf Location.isInside Location.relativeTo
    rw [habsolute, Path.withExtension_congr hsame]
  · rw [placeOf_of_not_mirrors hmirrors, placeOf_of_not_mirrors hmirrors,
      Path.withExtension_congr hsame]

/-- A spelling has no output exactly when it ends in the name of a declaration.  Spellings of one
path have one output unless its file is a declaration and only one of them ends in its name; but
where outputs have a directory of their own, this is so for texts without backslashes.  One with
backslashes has its output below that directory only if it lies in the source directory as it is
written; written with backslashes alone, it does not unless the working directory does. -/
theorem outputOf_exact (config : Config) (here : Location) {text other : Text}
    (hsame : Path.canonical text = Path.canonical other) :
    (config.outputOf here text = none ↔
      Path.isDeclaration (Path.canonical text) = true ∧ Path.EndsInName text) ∧
    ((config.Mirrors → .char '\\' ∉ text.toList ∧ .char '\\' ∉ other.toList) →
      (config.outputOf here text = config.outputOf here other ↔
        (Path.isDeclaration (Path.canonical text) = true →
          (Path.EndsInName text ↔ Path.EndsInName other)))) ∧
    (∀ directory, config.buildDir = some directory → directory ≠ "" →
      config.outputOf here text ≠ none →
        config.outputOf here text = some (Path.withExtension
          (if here.isInside text (config.projectDir here) = true then
            Path.join (here.projectRelative directory)
              (here.relativeTo text (config.projectDir here))
          else Path.canonical text) outputExtension)) ∧
    (.char '\\' ∉ text.toList → here.isInside text (config.projectDir here) =
      here.isInside (Path.canonical text) (config.projectDir here)) ∧
    (.char '\\' ∈ text.toList → .char '/' ∉ text.toList →
      here.isInside text (config.projectDir here) = true →
        here.isInside "." (config.projectDir here) = true) := by
  refine ⟨outputOf_eq_none_iff, fun hplain => ?_, fun directory hdirectory hsome houtput => ?_,
    fun hback => ?_, fun hback hslash hinside => ?_⟩
  · rw [outputOf_eq, outputOf_eq, placeOf_congr hsame hplain, ite_none_eq_ite_none_iff,
      Path.isDeclaration_iff_canonical text, Path.isDeclaration_iff_canonical other, ← hsame]
    exact and_congr_right_iff
  · have hproper : Path.isDeclaration text ≠ true := by
      intro hdeclared
      simp [outputOf_eq, hdeclared] at houtput
    rw [outputOf_eq, if_neg hproper, placeOf, hdirectory]
    dsimp only
    split
    next hinside => rw [if_pos hinside.2]
    next houtside =>
      rw [if_neg fun hinside => houtside ⟨hsome, hinside⟩, Path.withExtension_canonical]
  · have habsolute : here.absolute text = here.absolute (Path.canonical text) :=
      Location.absolute_congr hback (Path.backslash_not_mem_canonical text)
        (Path.canonical_canonical text).symm
    rw [Location.isInside, habsolute, Location.isInside]
  · exact Location.isInside_dot_of_backslash (here.canonical_projectRelative _) hslash hback hinside

/-- Outputs of the files in `src` lie in `build`. -/
def mirroring : Config where
  sourceDir := "src"
  buildDir := some ("build" : Text)
  rules := default.rules
  moduleDirs := []

theorem outputOf_exact_mirroring :
    Path.canonical "src//a.tl" = Path.canonical "./src/x/../a.tl" ∧
      mirroring.outputOf ["base"] "src//a.tl" = some ("build/a.lua" : Text) ∧
      mirroring.outputOf ["base"] "src//a.tl" = mirroring.outputOf ["base"] "./src/x/../a.tl" := by
  have hfirst : Path.canonical "src//a.tl" = "src/a.tl" := by decide +kernel
  have hsecond : Path.canonical "./src/x/../a.tl" = "src/a.tl" := by decide +kernel
  have hsame : Path.canonical "src//a.tl" = Path.canonical "./src/x/../a.tl" :=
    hfirst.trans hsecond.symm
  obtain ⟨-, hagree, -⟩ := outputOf_exact mirroring ["base"] hsame
  have hname : Path.IsName "a.tl" := ⟨by decide, by decide, by decide⟩
  refine ⟨hsame, by decide +kernel, (hagree fun _ => by decide +kernel).2 fun _ => ?_⟩
  exact iff_of_true ⟨["src", ""], "a.tl", by decide +kernel, hname⟩
    ⟨[".", "src", "x", ".."], "a.tl", by decide +kernel, hname⟩

/-- A slash behind the name of a declaration gives it an output, and a backslash takes a source file
out of the source directory. -/
theorem spelling_changes_output :
    (Path.canonical "a.d.tl/" = Path.canonical "a.d.tl" ∧
      default.outputOf ["base"] "a.d.tl" = none ∧
      default.outputOf ["base"] "a.d.tl/" = some ("a.lua" : Text)) ∧
    Path.canonical "src\\a.tl" = Path.canonical "src/a.tl" ∧
      mirroring.outputOf ["base"] "src/a.tl" = some ("build/a.lua" : Text) ∧
      mirroring.outputOf ["base"] "src\\a.tl" = some ("src/a.lua" : Text) := by
  have hdeclaration : Path.canonical "a.d.tl" = "a.d.tl" := by decide +kernel
  have hsource : Path.canonical "src/a.tl" = "src/a.tl" := by decide +kernel
  rw [hdeclaration, hsource]
  decide +kernel

end Config

end Rebuild
