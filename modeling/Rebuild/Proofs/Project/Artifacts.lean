import Rebuild.Proofs.FileTree.Writing
import Rebuild.Proofs.Graph.Narrowing
import Rebuild.Proofs.Project.Placement

/-!
# Outputs are no source files

The last name of an output ends in the extension of outputs, and so does the last name of its place.
A file at such a place has no path of a source file, neither where a scan lists it nor where a
module leads to it.  So when outputs are written, no source file is changed and none is added, and a
module that is found at an output from then on is not followed.
-/

namespace Rebuild

namespace Path

variable {text directory name : Text} {init names : List Text} {here : Location}

/-- A place with a last name that ends in the extension of outputs. -/
def IsOutputPlace (names : List Text) : Prop :=
  ∃ init name, names = init ++ [name] ∧ IsPlain name ∧
    Config.outputExtension.toList <:+ name.toList

theorem IsSourceName.not_isOutputPlace (hname : IsSourceName name) :
    ¬IsOutputPlace (init ++ [name]) := by
  rintro ⟨others, other, hnames, _, hsuffix⟩
  have heq := (List.cons.inj (List.append_inj' hnames rfl).2).1
  obtain ⟨stem, hstem⟩ := hsuffix
  have houtput : Config.outputExtension.toList.getLast? = some (.char 'a') := by decide
  have hsource : sourceExtension.toList.getLast? = some (.char 'l') := by decide
  have hlast := congrArg List.getLast? hname.toList_eq
  rw [heq, ← hstem, List.getLast?_append, List.getLast?_append, houtput, hsource] at hlast
  exact absurd (Option.some.inj hlast) (by decide)

/-- The output for a text without names. -/
theorem isOutputPlace_nameless (root : Root) :
    canonical (withExtension (render ⟨root, []⟩) Config.outputExtension) =
        withExtension (render ⟨root, []⟩) Config.outputExtension ∧
      IsOutputPlace (ofText (withExtension (render ⟨root, []⟩) Config.outputExtension)).names := by
  have hnames (name : Text) (hplain : IsPlain name)
      (hsuffix : Config.outputExtension.toList <:+ name.toList) : IsOutputPlace [name] :=
    ⟨[], name, rfl, hplain, hsuffix⟩
  cases root with
  | relative =>
      have hdot : (ofText (withExtension (render ⟨.relative, []⟩) Config.outputExtension)).names =
          (["..lua"] : List Text) := by
        decide +kernel
      rw [hdot]
      exact ⟨by decide +kernel, hnames _ (by decide) (by decide)⟩
  | single =>
      have hslash : (ofText (withExtension (render ⟨.single, []⟩) Config.outputExtension)).names =
          ([".lua"] : List Text) := by
        decide +kernel
      rw [hslash]
      exact ⟨by decide +kernel, hnames _ (by decide) (by decide)⟩
  | double =>
      have hslash : (ofText (withExtension (render ⟨.double, []⟩) Config.outputExtension)).names =
          ([".lua"] : List Text) := by
        decide +kernel
      rw [hslash]
      exact ⟨by decide +kernel, hnames _ (by decide) (by decide)⟩

/-- Whatever the path, with the extension of outputs it names an output. -/
theorem isOutputPlace_withExtension (text : Text) :
    canonical (withExtension text Config.outputExtension) =
        withExtension text Config.outputExtension ∧
      IsOutputPlace (ofText (withExtension text Config.outputExtension)).names := by
  rcases List.eq_nil_or_concat' (ofText text).names with hnone | ⟨init, name, hnames⟩
  · have htext : canonical text = render ⟨(ofText text).root, []⟩ := by
      rw [← hnone]
      rfl
    rw [← withExtension_canonical, htext]
    exact isOutputPlace_nameless (ofText text).root
  · obtain ⟨houtput, hcanonical⟩ :=
      ofText_withExtension_of_names hnames isPlain_outputExtension (by decide)
    have hback : .char '\\' ∉ name.toList := by
      apply backslashFree_ofText text
      rw [hnames]
      exact List.mem_append_right _ List.mem_cons_self
    refine ⟨hcanonical, init, stemOf name ++ Config.outputExtension, by rw [houtput], ?_, ?_⟩
    · exact isPlain_stemOf_append (slash_not_mem_of_names hnames) hback isPlain_outputExtension
        (by decide)
    · rw [Text.toList_append]
      exact List.suffix_append _ _

theorem isOutputPlace_absolute (htext : canonical text = text)
    (hplace : IsOutputPlace (ofText text).names) : IsOutputPlace (here.absolute text).names := by
  obtain ⟨init, name, hnames, hplain, hsuffix⟩ := hplace
  obtain ⟨before, hbefore⟩ := Location.exists_names_absolute htext hnames hplain.toIsName
  exact ⟨before, name, hbefore, hplain, hsuffix⟩

theorem IsSource.not_isOutputPlace (hsource : IsSource text) (htext : canonical text = text) :
    ¬IsOutputPlace (here.absolute text).names := by
  obtain ⟨init, name, hnames, hname⟩ := exists_names_of_extension htext hsource.extension
  obtain ⟨before, hbefore⟩ := Location.exists_names_absolute htext hnames hname.isName
  rw [hbefore]
  exact hname.not_isOutputPlace

/-! ## Paths that are read again -/

theorem segments_of_isFront {front : List CodePoint} (hfront : IsFront front)
    (htext : text.toList = front ++ name.toList) (hslash : .char '/' ∉ name.toList) :
    ∃ before, segments text = before ++ [name] := by
  have hname := segments_eq_singleton hslash
  rcases hfront with rfl | ⟨before, rfl⟩
  · rw [Text.toList_inj.1 htext]
    exact ⟨[], hname⟩
  · refine ⟨segments (Text.ofList before), ?_⟩
    have hwhole : text = Text.ofList before ++ "/" ++ name := by
      rw [← Text.toList_inj, htext]
      simp
    rw [hwhole, segments_append_slash, hname]

theorem IsFront.map_slashed {front : List CodePoint} (hfront : IsFront front) :
    IsFront (front.map fun c => if c = .char '\\' then .char '/' else c) := by
  rcases hfront with rfl | ⟨before, rfl⟩
  · exact .inl rfl
  · exact .inr ⟨_, List.map_append⟩

/-- Backslashes in the names before it do not touch the last name of a path. -/
theorem exists_names_ofText_down (hname : IsPlain name) :
    ∃ before, (ofText (down (init ++ [name])).render).names = before ++ [name] := by
  have hfront := (isFront_frontOf .relative init).map_slashed
  have hkept :
      name.toList.map (fun c => if c = .char '\\' then .char '/' else c) = name.toList := by
    rw [← toList_slashed, slashed_eq_self hname.backslashFree]
  have htext : (slashed (down (init ++ [name])).render).toList =
      (frontOf .relative init).map (fun c => if c = .char '\\' then .char '/' else c) ++
        name.toList := by
    rw [toList_slashed, down, toList_render_concat, List.map_append, hkept]
  obtain ⟨before, hsegments⟩ := segments_of_isFront hfront htext hname.slashFree
  refine ⟨(Root.ofChars (slashed (down (init ++ [name])).render).toList).reduce before, ?_⟩
  rw [ofText, parse, hsegments]
  dsimp only
  rw [Root.reduce_append, List.foldl_cons, List.foldl_nil, Root.push_of_isName hname.toIsName]
  simp

theorem exists_names_ofText_under (hname : IsPlain name) :
    ∃ before, (ofText (under directory (init ++ [name]))).names = before ++ [name] := by
  obtain ⟨before, hbefore⟩ : ∃ before, (ofText (down (init ++ [name])).render).names =
      before ++ [name] := exists_names_ofText_down hname
  rw [under, ofText_join]
  exact exists_names_append _ hbefore hname.toIsName

theorem IsSource.not_isOutputPlace_under (hsource : IsSource (under directory names)) :
    ¬IsOutputPlace names := by
  rintro ⟨init, name, rfl, hplain, hsuffix⟩
  obtain ⟨before, hbefore⟩ : ∃ before, (ofText (under directory (init ++ [name]))).names =
      before ++ [name] := exists_names_ofText_under hplain
  obtain ⟨others, other, hothers, hother⟩ :=
    exists_names_of_extension (canonical_join directory _) hsource.extension
  rw [under] at hbefore
  exact hother.not_isOutputPlace ⟨before, name, hothers.symm.trans hbefore, hplain, hsuffix⟩

end Path

theorem Config.isOutputPlace_of_outputOf {config : Config} {here : Location}
    {source output : Text} (houtput : config.outputOf here source = some output) :
    Path.canonical output = output ∧ Path.IsOutputPlace (here.absolute output).names := by
  have hextension (text : Text) (htext : Path.withExtension text outputExtension = output) :
      Path.canonical output = output ∧ Path.IsOutputPlace (here.absolute output).names := by
    obtain ⟨hcanonical, hplace⟩ := Path.isOutputPlace_withExtension text
    rw [htext] at hcanonical hplace
    exact ⟨hcanonical, Path.isOutputPlace_absolute hcanonical hplace⟩
  unfold outputOf at houtput
  split at houtput
  next => cases houtput
  next =>
    dsimp only at houtput
    split at houtput
    next => exact hextension source (Option.some.inj houtput)
    next =>
      split at houtput
      next => exact hextension _ (Option.some.inj houtput)
      next => exact hextension source (Option.some.inj houtput)

/-- A module at the place of an output is not recorded under the path of a source file. -/
theorem Setting.not_isOutputPlace_of_key {ε : Type} {setting : Setting ε} {found : Text}
    (hscope : ∀ directory, setting.scope = some directory →
      Path.canonical directory = directory)
    (hfound : Path.canonical found = found) (hkey : Path.IsSource (setting.key found)) :
    ¬Path.IsOutputPlace (setting.here.absolute found).names := by
  unfold key at hkey
  split at hkey
  next =>
    rw [hfound] at hkey
    exact hkey.not_isOutputPlace hfound
  next directory hdirectory =>
    have hdirectory := hscope directory hdirectory
    split at hkey
    next hinside =>
      obtain ⟨_, rest, hnames⟩ := Location.isInside_iff.1 hinside
      have hunder : Path.join directory (setting.here.relativeTo found directory) =
          Path.under directory rest := by
        rw [Location.relativeTo_of_names hnames, Path.under, Path.join, Path.join,
          Path.ofText_canonical]
      rw [hunder] at hkey
      rintro ⟨init, name, hplace, hplain, hsuffix⟩
      rcases List.eq_nil_or_concat' rest with rfl | ⟨others, other, rfl⟩
      · -- the module is where the source directory is, and its path is that of the directory
        rw [Path.under_nil hdirectory] at hkey
        rw [List.append_nil] at hnames
        exact hkey.not_isOutputPlace hdirectory
          ⟨init, name, hnames.symm.trans hplace, hplain, hsuffix⟩
      · rw [hnames, ← List.append_assoc] at hplace
        have heq := (List.cons.inj (List.append_inj' hplace rfl).2).1
        exact hkey.not_isOutputPlace_under ⟨others, other, rfl, heq ▸ hplain, heq ▸ hsuffix⟩
    next =>
      rw [hfound] at hkey
      exact hkey.not_isOutputPlace hfound

end Rebuild
