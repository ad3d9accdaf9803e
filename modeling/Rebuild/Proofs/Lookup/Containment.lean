import Rebuild.Lookup.Resolve
import Rebuild.Proofs.Path.LastName

/-!
# Where the candidates of a module lie

The dots of a reference have become slashes before its text is read as a path, so that the only
dots left are those of the template, in the last name.  None of the names leads up, and all of them
are added to the search directory.  A reference that begins with a slash or a backslash is followed
from the root instead, whatever the directory.
-/

namespace Rebuild

namespace Root

variable {root : Root} {stack names : List Text}

/-- Where no name leads up, reading leaves out the empty names and keeps the others. -/
theorem foldl_push_of_flat (hnames : ∀ name ∈ names, name = "" ∨ Path.IsName name) :
    names.foldl root.push stack = (names.filter (· ≠ ("" : Text))).reverse ++ stack := by
  induction names generalizing stack with
  | nil => rfl
  | cons name rest ih =>
      obtain ⟨hname, hrest⟩ := List.forall_mem_cons.1 hnames
      rw [List.foldl_cons, ih hrest]
      rcases hname with rfl | hname
      · simp [push]
      · simp [push_of_isName hname, hname.ne_empty]

end Root

namespace Path

variable {front last : List CodePoint} {text name : Text}

theorem isName_of_dotless (hname : name ≠ "") (hdot : .char '.' ∉ name.toList) : IsName name := by
  refine ⟨hname, ?_, ?_⟩
  · rintro rfl
    exact hdot (by simp)
  · rintro rfl
    exact hdot (by simp)

/-- The names of a text in two parts, of which the second belongs to the last name. -/
theorem exists_segments_eq_concat (htext : text.toList = front ++ last) (hlast : .char '/' ∉ last) :
    ∃ init kept, segments text = init ++ [Text.ofList (kept ++ last)] ∧
      ∀ name ∈ init, name.toList ⊆ front := by
  by_cases hslash : .char '/' ∈ front
  · -- the last slash of the front is the first one from behind
    obtain ⟨kept, before, hfront, hkept⟩ :=
      List.eq_append_cons_of_mem (List.mem_reverse.2 hslash)
    have hparts : front = before.reverse ++ .char '/' :: kept.reverse := by
      simpa using congrArg List.reverse hfront
    have hwhole : text =
        Text.ofList before.reverse ++ "/" ++ Text.ofList (kept.reverse ++ last) := by
      rw [← Text.toList_inj, htext, hparts]
      simp
    have hsingle : segments (Text.ofList (kept.reverse ++ last)) = [_] :=
      segments_eq_singleton (by simp [hkept, hlast])
    refine ⟨segments (Text.ofList before.reverse), kept.reverse, ?_, ?_⟩
    · rw [hwhole, segments_append_slash, hsingle]
    · intro name hname
      have hsubset := (slash_not_mem_of_mem_segments hname).2
      rw [Text.toList_ofList] at hsubset
      rw [hparts]
      exact List.Subset.trans hsubset (List.subset_append_left _ _)
  · have hnone : .char '/' ∉ text.toList := by simp [htext, hslash, hlast]
    refine ⟨[], front, ?_, by simp⟩
    rw [segments_eq_singleton hnone, ← htext, Text.ofList_toList]
    rfl

/-- The names that a text is read as when none of them leads up. -/
def properSegments (text : Text) : List Text :=
  (segments (slashed text)).filter (· ≠ ("" : Text))

theorem properSegments_of_dotless (htext : (slashed text).toList = front ++ last)
    (hdot : .char '.' ∉ front) (hslash : .char '/' ∉ last) (hlength : 2 < last.length) :
    (ofText text).names = properSegments text ∧ properSegments text ≠ [] ∧
      ∀ name ∈ properSegments text, IsPlain name := by
  obtain ⟨init, kept, hsegments, hinit⟩ := exists_segments_eq_concat htext hslash
  have hlast : IsName (Text.ofList (kept ++ last)) := by
    apply isName_of_length
    simp
    omega
  have hflat : ∀ name ∈ segments (slashed text), name = "" ∨ IsName name := by
    intro name hname
    rw [hsegments, List.mem_append, List.mem_singleton] at hname
    rcases hname with hname | rfl
    · by_cases hempty : name = ""
      · exact .inl hempty
      · exact .inr (isName_of_dotless hempty fun hmem => hdot (hinit name hname hmem))
    · exact .inr hlast
  refine ⟨?_, ?_, ?_⟩
  · change (Root.ofChars _).reduce _ = _
    rw [Root.reduce, Root.foldl_push_of_flat hflat]
    simp [properSegments]
  · apply List.ne_nil_of_mem (a := Text.ofList (kept ++ last))
    rw [properSegments, hsegments, List.mem_filter]
    exact ⟨List.mem_append_right _ List.mem_cons_self, decide_eq_true hlast.ne_empty⟩
  · intro name hname
    have hmem : name ∈ segments (slashed text) := List.mem_of_mem_filter hname
    have hne : name ≠ "" := by simpa using List.of_mem_filter hname
    obtain ⟨hfree, hsubset⟩ := slash_not_mem_of_mem_segments hmem
    exact ⟨(hflat name hmem).resolve_left hne, hfree,
      fun hback => backslash_not_mem_slashed text (hsubset hback)⟩

end Path

namespace SearchDirs

variable {reference template path : Text} {preferSource : Bool}

/-- What the templates add to a stem, cut in front of the first dot. -/
def endings : List (Text × Text) :=
  [("", ".tl"), ("", ".d.tl"), ("/init", ".tl"), ("/init", ".d.tl"), ("", ".lua"),
    ("/init", ".lua")]

/-- The first part belongs to the names before the last one, and the second to the last. -/
structure IsEnding (before last : Text) : Prop where
  markFree : .char '?' ∉ (before ++ last).toList
  backslashFree : .char '\\' ∉ (before ++ last).toList
  dotFree : .char '.' ∉ before.toList
  slashFree : .char '/' ∉ last.toList
  length : 2 < last.toList.length

theorem isEnding_of_mem_endings {ending : Text × Text} (hending : ending ∈ endings) :
    IsEnding ending.1 ending.2 := by
  have hall : ∀ ending ∈ endings, .char '?' ∉ (ending.1 ++ ending.2).toList ∧
      .char '\\' ∉ (ending.1 ++ ending.2).toList ∧ .char '.' ∉ ending.1.toList ∧
      .char '/' ∉ ending.2.toList ∧ 2 < ending.2.toList.length := by
    decide +kernel
  obtain ⟨hmark, hback, hdot, hslash, hlength⟩ := hall ending hending
  exact ⟨hmark, hback, hdot, hslash, hlength⟩

theorem exists_ending_of_mem_templates (htemplate : template ∈ templates preferSource) :
    ∃ ending ∈ endings, template = "?" ++ (ending.1 ++ ending.2) := by
  have hall : ∀ template ∈ sourceTemplates ++ compiledTemplates,
      ∃ ending ∈ endings, template = "?" ++ (ending.1 ++ ending.2) := by
    decide +kernel
  apply hall
  cases preferSource with
  | true => exact htemplate
  | false => exact List.mem_append.2 (List.mem_append.1 htemplate).symm

theorem fill_mark_append {ending : Text} (hending : .char '?' ∉ ending.toList) (stem : Text) :
    fill ("?" ++ ending) stem = stem ++ ending := by
  have hkept : ending.toList.flatMap (fun c => if c = .char '?' then stem.toList else [c]) =
      ending.toList := by
    have hsingle (c : CodePoint) (hc : c ∈ ending.toList) :
        (if c = .char '?' then stem.toList else [c]) = [c] := by
      rw [if_neg]
      rintro rfl
      exact hending hc
    rw [List.flatMap_congr hsingle, List.flatMap_singleton']
  rw [← Text.toList_inj, fill, Text.toList_ofList, Text.toList_append, List.flatMap_append,
    hkept]
  simp

theorem exists_fill_eq (htemplate : template ∈ templates preferSource) (stem : Text) :
    ∃ before last, IsEnding before last ∧ fill template stem = stem ++ (before ++ last) := by
  obtain ⟨ending, hending, rfl⟩ := exists_ending_of_mem_templates htemplate
  have hparts := isEnding_of_mem_endings hending
  exact ⟨ending.1, ending.2, hparts, fill_mark_append hparts.markFree stem⟩

theorem toList_stem (reference : Text) :
    (stem reference).toList =
      reference.toList.map fun c => if c = .char '.' then .char '/' else c := by
  rw [stem, Text.toList_map]

theorem dot_not_mem_slashed_stem (reference : Text) :
    .char '.' ∉ (Path.slashed (stem reference)).toList := by
  simp only [Path.toList_slashed, toList_stem, List.map_map, List.mem_map, Function.comp_apply]
  rintro ⟨c, -, hc⟩
  by_cases hdot : c = .char '.'
  · simp [hdot] at hc
  · by_cases hback : c = .char '\\' <;> simp_all

/-- The path that a template makes of a name for a module starts where the name does. -/
theorem isAbsolute_fill (hreference : isMalformed reference = false)
    (htemplate : template ∈ templates preferSource) :
    Path.isAbsolute (fill template (stem reference)) = Path.isAbsolute reference := by
  obtain ⟨before, last, -, hfill⟩ := exists_fill_eq htemplate (stem reference)
  rw [hfill, Path.isAbsolute, Path.isAbsolute, Text.toList_append, toList_stem]
  cases hchars : reference.toList with
  | nil => simp [isMalformed, hchars] at hreference
  | cons c rest =>
      have hc : c ≠ .char '.' := by
        rintro rfl
        simp [isMalformed, hchars] at hreference
      simp [hc]

/-- The names that a template makes of a reference, in which none leads up. -/
def namesOf (template reference : Text) : List Text :=
  Path.properSegments (fill template (stem reference))

theorem names_fill (htemplate : template ∈ templates preferSource) (reference : Text) :
    (Path.ofText (fill template (stem reference))).names = namesOf template reference ∧
      namesOf template reference ≠ [] ∧
      ∀ name ∈ namesOf template reference, Path.IsPlain name := by
  obtain ⟨before, last, hending, hfill⟩ := exists_fill_eq htemplate (stem reference)
  have htext : (Path.slashed (fill template (stem reference))).toList =
      ((Path.slashed (stem reference)).toList ++ before.toList) ++ last.toList := by
    have hkept := congrArg Text.toList (Path.slashed_eq_self hending.backslashFree)
    rw [Path.toList_slashed] at hkept
    rw [hfill, Path.toList_slashed, Text.toList_append, List.map_append, hkept,
      ← Path.toList_slashed, Text.toList_append, List.append_assoc]
  refine Path.properSegments_of_dotless htext ?_ hending.slashFree hending.length
  rw [List.mem_append, not_or]
  exact ⟨dot_not_mem_slashed_stem reference, hending.dotFree⟩

theorem join_fill_of_relative (hreference : isMalformed reference = false)
    (htemplate : template ∈ templates preferSource) (hrelative : Path.isAbsolute reference = false)
    (directory : Text) :
    Path.join directory (fill template (stem reference)) =
      Path.under directory (namesOf template reference) := by
  obtain ⟨hnames, -, hplain⟩ := names_fill htemplate reference
  have hroot : (Path.ofText (fill template (stem reference))).root = .relative := by
    by_contra hrooted
    rw [← ne_eq, ← Path.isAbsolute_eq_true_iff, isAbsolute_fill hreference htemplate] at hrooted
    simp [hrelative] at hrooted
  have hdown : Path.ofText (fill template (stem reference)) =
      Path.down (namesOf template reference) := by
    rw [← hnames, Path.down, ← hroot]
  rw [Path.under, Path.join, Path.join, hdown, Path.ofText_render_down hplain]

theorem join_fill_of_rooted (hreference : isMalformed reference = false)
    (htemplate : template ∈ templates preferSource) (hrooted : Path.isAbsolute reference = true)
    (directory : Text) :
    Path.join directory (fill template (stem reference)) =
      Path.canonical (fill template (stem reference)) := by
  rw [← isAbsolute_fill hreference htemplate, Path.isAbsolute_eq_true_iff] at hrooted
  rw [Path.join, Path.append_of_rooted hrooted, Path.canonical]

/-- The candidates below one directory, or at the root. -/
def candidatesIn (directory reference : Text) (preferSource : Bool) : List Text :=
  (templates preferSource).map fun template =>
    Path.join directory (fill template (stem reference))

theorem candidates_eq_flatMap (dirs : SearchDirs) (reference : Text) (preferSource : Bool) :
    dirs.candidates reference preferSource =
      dirs.directories.flatMap fun directory => candidatesIn directory reference preferSource :=
  rfl

theorem candidatesIn_of_rooted (hreference : isMalformed reference = false)
    (hrooted : Path.isAbsolute reference = true) (preferSource : Bool) (directory : Text) :
    candidatesIn directory reference preferSource =
        (templates preferSource).map (fun template =>
          Path.canonical (fill template (stem reference))) ∧
      ∀ path ∈ candidatesIn directory reference preferSource, Path.isAbsolute path = true := by
  have hcandidates : candidatesIn directory reference preferSource =
      (templates preferSource).map fun template =>
        Path.canonical (fill template (stem reference)) :=
    List.map_congr_left fun template htemplate =>
      join_fill_of_rooted hreference htemplate hrooted directory
  refine ⟨hcandidates, ?_⟩
  rw [hcandidates]
  intro path hpath
  obtain ⟨template, htemplate, rfl⟩ := List.mem_map.1 hpath
  rw [Path.isAbsolute_canonical, isAbsolute_fill hreference htemplate, hrooted]

theorem canonical_of_mem_ofList {directories : List Text} {directory : Text}
    (hmem : directory ∈ (ofList directories).directories) :
    Path.canonical directory = directory := by
  obtain ⟨text, -, rfl⟩ := List.mem_map.1 hmem
  exact Path.canonical_canonical text

theorem root_of_mem_ofList {directories : List Text} {directory : Text}
    (hdirectories : ∀ text ∈ directories, (Path.ofText text).root ≠ .double)
    (hmem : directory ∈ (ofList directories).directories) :
    (Path.ofText directory).root ≠ .double := by
  obtain ⟨text, htext, rfl⟩ := List.mem_map.1 hmem
  rw [Path.ofText_canonical]
  split at htext
  · rw [List.mem_singleton.1 htext, Path.ofText_dot]
    exact Root.noConfusion
  · exact hdirectories text htext

end SearchDirs

namespace Location

variable {here : Location} {directory path : Text} {names : List Text}

/-- The path leads from the directory down to something in it. -/
def LeadsInto (here : Location) (directory path : Text) : Prop :=
  here.isInside path directory = true ∧
    ∃ names, names ≠ [] ∧ (∀ name ∈ names, Path.IsPlain name) ∧ path = Path.under directory names

theorem leadsInto_under (hdirectory : Path.canonical directory = directory)
    (hroot : (Path.ofText directory).root ≠ .double) (hsome : names ≠ [])
    (hnames : ∀ name ∈ names, Path.IsPlain name) :
    here.LeadsInto directory (Path.under directory names) := by
  refine ⟨isInside_iff.2 ⟨root_absolute_of_canonical hdirectory hroot, names, ?_⟩, names, hsome,
    hnames, rfl⟩
  rw [absolute_under hdirectory hnames]

theorem leadsInto_of_mem_candidatesIn {reference : Text} {preferSource : Bool}
    (hdirectory : Path.canonical directory = directory)
    (hroot : (Path.ofText directory).root ≠ .double)
    (hreference : SearchDirs.isMalformed reference = false)
    (hrelative : Path.isAbsolute reference = false)
    (hpath : path ∈ SearchDirs.candidatesIn directory reference preferSource) :
    here.LeadsInto directory path := by
  obtain ⟨template, htemplate, rfl⟩ := List.mem_map.1 hpath
  obtain ⟨-, hsome, hplain⟩ := SearchDirs.names_fill htemplate reference
  rw [SearchDirs.join_fill_of_relative hreference htemplate hrelative]
  exact leadsInto_under hdirectory hroot hsome hplain

end Location

namespace Workspace

variable {ws : Workspace} {reference path : Text} {preferSource : Bool}

theorem exists_directory_of_resolve {dirs : SearchDirs}
    (hfound : ws.resolve dirs reference preferSource = some path) :
    ws.isFile path = true ∧ ∃ directory ∈ dirs.directories,
      path ∈ SearchDirs.candidatesIn directory reference preferSource := by
  unfold resolve at hfound
  split at hfound
  next => cases hfound
  next =>
    refine ⟨List.find?_some hfound, ?_⟩
    exact List.mem_flatMap.1 (List.mem_of_find?_eq_some hfound)

theorem find?_flatMap_const {α β : Type} {xs : List α} (hsome : xs ≠ []) (ys : List β)
    (p : β → Bool) : (xs.flatMap fun _ => ys).find? p = ys.find? p := by
  induction xs with
  | nil => exact (hsome rfl).elim
  | cons x rest ih =>
      rw [List.flatMap_cons, List.find?_append]
      cases rest with
      | nil => simp
      | cons y more =>
          rw [ih (by simp)]
          cases ys.find? p <;> rfl

/-- At the root a module is searched once, and the directories play no part. -/
theorem resolve_of_rooted (hreference : SearchDirs.isMalformed reference = false)
    (hrooted : Path.isAbsolute reference = true) (directories : List Text) :
    ws.resolve (SearchDirs.ofList directories) reference preferSource =
      ((SearchDirs.templates preferSource).map fun template =>
        Path.canonical (SearchDirs.fill template (SearchDirs.stem reference))).find? ws.isFile := by
  have hsome : (SearchDirs.ofList directories).directories ≠ [] := by
    cases directories <;> simp [SearchDirs.ofList]
  have hcandidates (directory : Text) :=
    (SearchDirs.candidatesIn_of_rooted hreference hrooted preferSource directory).1
  rw [resolve, hreference, if_neg (by simp), SearchDirs.candidates_eq_flatMap]
  simp only [hcandidates]
  exact find?_flatMap_const hsome _ _

/-- A reference without a slash or backslash at the start never leaves the search directories.  One
that has it is looked up at the root, where none of them counts. -/
theorem resolve_contained (ws : Workspace) (directories : List Text) (reference : Text)
    (preferSource : Bool)
    (hdirectories : ∀ directory ∈ directories, (Path.ofText directory).root ≠ .double)
    (hreference : SearchDirs.isMalformed reference = false) :
    (SearchDirs.ofList directories).candidates reference preferSource =
        (SearchDirs.ofList directories).directories.flatMap (fun directory =>
          SearchDirs.candidatesIn directory reference preferSource) ∧
      (Path.isAbsolute reference = false →
        (∀ directory ∈ (SearchDirs.ofList directories).directories,
          ∀ path ∈ SearchDirs.candidatesIn directory reference preferSource,
            ws.location.LeadsInto directory path) ∧
        ∀ path, ws.resolve (SearchDirs.ofList directories) reference preferSource = some path →
          ws.isFile path = true ∧
            ∃ directory ∈ (SearchDirs.ofList directories).directories,
              ws.location.LeadsInto directory path) ∧
      (Path.isAbsolute reference = true →
        (∀ directory, ∀ path ∈ SearchDirs.candidatesIn directory reference preferSource,
          Path.isAbsolute path = true) ∧
        ws.resolve (SearchDirs.ofList directories) reference preferSource =
          ((SearchDirs.templates preferSource).map fun template => Path.canonical
            (SearchDirs.fill template (SearchDirs.stem reference))).find? ws.isFile) := by
  refine ⟨rfl, fun hrelative => ?_, fun hrooted => ⟨fun directory => ?_, ?_⟩⟩
  · have hinto : ∀ directory ∈ (SearchDirs.ofList directories).directories,
        ∀ path ∈ SearchDirs.candidatesIn directory reference preferSource,
          ws.location.LeadsInto directory path := by
      intro directory hdirectory path hpath
      have hcanonical := SearchDirs.canonical_of_mem_ofList hdirectory
      have hroot := SearchDirs.root_of_mem_ofList hdirectories hdirectory
      exact Location.leadsInto_of_mem_candidatesIn hcanonical hroot hreference hrelative hpath
    refine ⟨hinto, fun path hfound => ?_⟩
    obtain ⟨hfile, directory, hdirectory, hpath⟩ := exists_directory_of_resolve hfound
    exact ⟨hfile, directory, hdirectory, hinto directory hdirectory path hpath⟩
  · exact (SearchDirs.candidatesIn_of_rooted hreference hrooted preferSource directory).2
  · exact resolve_of_rooted hreference hrooted directories

/-- A library beside the project, and a file that is in no directory of modules. -/
def besideLibrary : Workspace where
  root :=
    .folder "base" (.ofSeconds 0 0)
      (.folder "lib" (.ofSeconds 0 0)
          (.folder "a" (.ofSeconds 0 0)
            (.folder "b?" (.ofSeconds 0 0) (.file "c.tl" ⟨[], .ofSeconds 0 0⟩ .empty) .empty)
            .empty) <|
        .folder "proj" (.ofSeconds 0 0)
          (.folder "src" (.ofSeconds 0 0) .empty <| .file "x.tl" ⟨[], .ofSeconds 0 0⟩ .empty)
          .empty)
      .empty
  rootModified := .ofSeconds 0 0
  location := (["base", "proj"] : List Text)

theorem resolve_contained_beside :
    besideLibrary.resolve (.ofList ["src", "..\\lib/"]) "a\\b?..c" false =
        some ("../lib/a/b?/c.tl" : Text) ∧
      ∃ directory ∈ (SearchDirs.ofList ["src", "..\\lib/"]).directories,
        besideLibrary.location.LeadsInto directory "../lib/a/b?/c.tl" := by
  have hdirectories : ∀ directory ∈ (["src", "..\\lib/"] : List Text),
      (Path.ofText directory).root ≠ .double := by
    decide +kernel
  have hfound : besideLibrary.resolve (.ofList ["src", "..\\lib/"]) "a\\b?..c" false =
      some ("../lib/a/b?/c.tl" : Text) := by
    decide +kernel
  have hcontained := resolve_contained besideLibrary ["src", "..\\lib/"] "a\\b?..c" false
    hdirectories (by decide +kernel)
  exact ⟨hfound, ((hcontained.2.1 (by decide +kernel)).2 _ hfound).2⟩

/-- The reference is looked up at the root and found outside the only directory. -/
theorem resolve_outside :
    (∀ directory ∈ (["src"] : List Text), (Path.ofText directory).root ≠ .double) ∧
      SearchDirs.isMalformed "/base/proj/x" = false ∧
      besideLibrary.resolve (.ofList ["src"]) "/base/proj/x" true =
        some ("/base/proj/x.tl" : Text) ∧
      besideLibrary.location.isInside "/base/proj/x.tl" "src" = false := by
  decide +kernel

end Workspace

end Rebuild
