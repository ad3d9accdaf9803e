import Rebuild.Proofs.Lookup.Containment
import Rebuild.Proofs.Project.Selection

/-!
# The directories of a module search

A module is looked for in one directory after the other, so that a directory that has been searched
before never decides.  Directories inside the working directory are searched under relative paths
even when the configuration names them from the root; what is found there is found under both names
or under neither.
-/

namespace Rebuild

/-! ## Directories that stand in the list already -/

theorem findSome?_append_cons_of_mem {α β : Type} {xs : List α} {x : α} (hmem : x ∈ xs)
    (ys : List α) (f : α → Option β) :
    (xs ++ x :: ys).findSome? f = (xs ++ ys).findSome? f := by
  rw [List.findSome?_append, List.findSome?_append]
  cases hfirst : xs.findSome? f with
  | some y => rfl
  | none => rw [List.findSome?_cons, List.findSome?_eq_none_iff.1 hfirst x hmem]

theorem findSome?_congr {α β : Type} {xs : List α} {f g : α → Option β}
    (hsame : ∀ x ∈ xs, f x = g x) : xs.findSome? f = xs.findSome? g := by
  induction xs with
  | nil => rfl
  | cons x rest ih =>
      obtain ⟨hfirst, hrest⟩ := List.forall_mem_cons.1 hsame
      rw [List.findSome?_cons, List.findSome?_cons, hfirst, ih hrest]

namespace Config

variable {texts directories : List Text} {directory : Text}

/-- A search that stops where it finds something does not notice the directories left out. -/
theorem findSome?_addDirectories {β : Type} (f : Text → Option β) :
    (addDirectories directories texts).findSome? f =
      (directories ++ texts.map Path.canonical).findSome? f := by
  induction texts generalizing directories with
  | nil => rw [addDirectories, List.map_nil, List.append_nil]
  | cons text rest ih =>
      rw [addDirectories, List.map_cons]
      split
      next hmem => rw [ih, findSome?_append_cons_of_mem hmem]
      next => rw [ih, List.append_assoc, List.singleton_append]

theorem mem_addDirectories :
    directory ∈ addDirectories directories texts ↔
      directory ∈ directories ∨ directory ∈ texts.map Path.canonical := by
  induction texts generalizing directories with
  | nil => simp [addDirectories]
  | cons text rest ih =>
      rw [addDirectories]
      split
      next hmem =>
        rw [ih, List.map_cons, List.mem_cons]
        constructor
        · rintro (hin | hrest)
          · exact .inl hin
          · exact .inr (.inr hrest)
        · rintro (hin | rfl | hrest)
          · exact .inl hin
          · exact .inl hmem
          · exact .inr hrest
      next => rw [ih, List.mem_append, List.mem_singleton, List.map_cons, List.mem_cons, or_assoc]

variable {config : Config}

theorem canonical_of_mem_searchDirs (hmem : directory ∈ config.searchDirs) :
    Path.canonical directory = directory := by
  rcases mem_addDirectories.1 hmem with hnone | htexts
  · cases hnone
  · obtain ⟨text, -, rfl⟩ := List.mem_map.1 htexts
    exact Path.canonical_canonical text

theorem searchDirs_ne_nil (config : Config) : config.searchDirs ≠ [] := by
  have hsource : Path.canonical config.sourceDir ∈ config.searchDirs :=
    mem_addDirectories.2 (.inr (List.mem_map_of_mem (by simp)))
  exact List.ne_nil_of_mem hsource

end Config

theorem SearchDirs.directories_ofList {texts : List Text} (hsome : texts ≠ []) :
    (ofList texts).directories = texts.map Path.canonical := by
  rw [ofList, List.isEmpty_eq_false_iff.2 hsome, if_neg Bool.false_ne_true]

/-! ## One place under two names -/

namespace Path

variable {text directory : Text} {names : List Text}

theorem askable_iff_avoids (htext : canonical text = text) :
    Askable text ↔ ∀ point : CodePoint, point.IsBarred → (ofText text).Avoids point := by
  refine forall₂_congr fun point hbarred => ?_
  have hforeign := isForeign_of_isBarred hbarred
  constructor
  · exact fun hnot => avoids_parse (not_mem_slashed hforeign hnot)
  · intro havoids
    rw [← htext]
    exact not_mem_render hforeign.slash hforeign.dot havoids

theorem canonical_under (directory : Text) (names : List Text) :
    canonical (under directory names) = under directory names :=
  canonical_join _ _

theorem isAbsolute_under (hnames : ∀ name ∈ names, IsPlain name) :
    isAbsolute (under directory names) = isAbsolute directory := by
  rw [Bool.eq_iff_iff, isAbsolute_eq_true_iff, isAbsolute_eq_true_iff, ofText_under hnames]

end Path

namespace Workspace

variable {ws : Workspace} {config : Config} {directory reference inner outer text : Text}
  {names : List Text} {entry : Entry} {preferSource : Bool}

/-- From the root a canonical text leads to its place, whether or not the working directory is
there. -/
theorem locate_of_rooted (htext : Path.canonical text = text)
    (hrooted : (Path.ofText text).root ≠ .relative) :
    ws.locate text = ws.top.descend (ws.namesOf text) := by
  -- for a workspace that is entered at its root the location is there
  let base : Workspace := { ws with location := [] }
  have hthere : base.IsThere := fun count => by
    rw [List.take_nil]
    exact ⟨ws.rootModified, ws.root, rfl⟩
  have hlocate : ws.locate text = base.locate text := by
    rw [← Path.ofChars_of_canonical htext] at hrooted
    simp only [locate, if_neg hrooted, base]
  rw [hlocate, locate_canonical hthere htext, namesOf_of_rooted htext hrooted,
    namesOf_of_rooted htext hrooted]
  rfl

theorem isName_of_mem_location (hhere : ws.location.path.IsNormal) :
    ∀ name ∈ ws.location, Path.IsName name := fun name hname =>
  hhere.stack.isName Root.noConfusion name (List.mem_reverse.2 hname)

/-- What is found below the working directory is found through it. -/
theorem isThere_of_descend (hhere : ws.location.path.IsNormal)
    (hnames : ∀ name ∈ names, Path.IsName name) (hsome : names ≠ [])
    (hdescend : ws.top.descend (ws.location ++ names) = .ok entry) : ws.IsThere := by
  have hall : ∀ name ∈ ws.location ++ names, Path.IsName name :=
    List.forall_mem_append.2 ⟨isName_of_mem_location hhere, hnames⟩
  have hfollow : ws.root.follow ws.rootModified [] (ws.location ++ names) = .ok entry :=
    (Folder.follow_of_isName hall).trans hdescend
  intro count
  exact Folder.Trail.start.hasFolder_of_follow hsome hfollow count

/-- A relative and a rooted text for one place below the working directory lead to the same. -/
theorem locate_eq_ok_iff_of_below (hhere : ws.location.path.IsNormal)
    (hinner : Path.canonical inner = inner) (houter : Path.canonical outer = outer)
    (hrelative : Path.isAbsolute inner = false) (hrooted : Path.isAbsolute outer = true)
    (hsame : ws.namesOf inner = ws.namesOf outer)
    (hbelow : ws.namesOf outer = ws.location ++ names) (hsome : names ≠ []) :
    ws.locate inner = .ok entry ↔ ws.locate outer = .ok entry := by
  have hout : ws.locate outer = ws.top.descend (ws.namesOf outer) :=
    locate_of_rooted houter ((Path.isAbsolute_eq_true_iff outer).1 hrooted)
  have hin (hthere : ws.IsThere) : ws.locate inner = ws.locate outer := by
    rw [locate_canonical hthere hinner, hsame, hout]
  constructor
  · intro hlocate
    have hroot : Root.ofChars inner.toList = .relative := by
      rw [Path.ofChars_of_canonical hinner, Path.root_of_relative hrelative]
    rw [← hin (isThere_of_locate hroot hlocate)]
    exact hlocate
  · intro hlocate
    rw [hin ?_]
    · exact hlocate
    · rw [hout, hbelow] at hlocate
      refine isThere_of_descend hhere (fun name hname => ?_) hsome hlocate
      have hmem : name ∈ ws.namesOf outer := by
        rw [hbelow]
        exact List.mem_append_right _ hname
      exact Location.isName_of_mem_absolute name hmem

theorem namesOf_under_projectRelative (hhere : ws.location.path.IsNormal)
    (hdirectory : Path.canonical directory = directory)
    (hnames : ∀ name ∈ names, Path.IsPlain name) :
    ws.namesOf (Path.under (ws.location.projectRelative directory) names) =
      ws.namesOf (Path.under directory names) := by
  have hback : .char '\\' ∉ directory.toList :=
    hdirectory ▸ Path.backslash_not_mem_canonical directory
  rw [namesOf_under (ws.location.canonical_projectRelative directory) hnames,
    namesOf_under hdirectory hnames, namesOf_projectRelative hhere hback]

/-- The names of the relative path are some of those of the other, and the rest is the location. -/
theorem askable_iff_of_below (hask : ∀ name ∈ ws.location, Askable name)
    (hinner : Path.canonical inner = inner) (houter : Path.canonical outer = outer)
    (hrooted : Path.isAbsolute outer = true)
    (hbelow : ws.namesOf outer = ws.location ++ (Path.ofText inner).names) :
    Askable inner ↔ Askable outer := by
  have hnames : ws.namesOf outer = (Path.ofText outer).names :=
    namesOf_of_rooted houter ((Path.isAbsolute_eq_true_iff outer).1 hrooted)
  rw [Path.askable_iff_avoids hinner, Path.askable_iff_avoids houter]
  refine forall₂_congr fun point hbarred => ?_
  rw [Path.Avoids, Path.Avoids, ← hnames, hbelow, List.forall_mem_append]
  exact (and_iff_right fun name hname => hask name hname point hbarred).symm

/-- What lies in a directory is a file under the name that the directory has from the working
directory exactly when it is one under the name that it is given. -/
theorem isFile_under_projectRelative (hhere : ws.location.path.IsNormal)
    (hask : ∀ name ∈ ws.location, Askable name)
    (hdirectory : Path.canonical directory = directory)
    (hnames : ∀ name ∈ names, Path.IsPlain name) (hsome : names ≠ []) :
    ws.isFile (Path.under (ws.location.projectRelative directory) names) =
      ws.isFile (Path.under directory names) := by
  have hback : .char '\\' ∉ directory.toList :=
    hdirectory ▸ Path.backslash_not_mem_canonical directory
  rcases projectRelative_cases hhere hback with
    hcanonical | ⟨habsolute, rest, hplain, hplace, hdown⟩
  · rw [hcanonical, hdirectory]
  · have hsame := namesOf_under_projectRelative hhere hdirectory hnames
    have hbelow : ws.namesOf (Path.under directory names) = ws.location ++ (rest ++ names) := by
      rw [namesOf_under hdirectory hnames, hplace, List.append_assoc]
    have hinner : (Path.ofText (Path.under (ws.location.projectRelative directory) names)).names =
        rest ++ names := by
      rw [Path.ofText_under hnames, hdown, Path.ofText_render_down hplain]
      rfl
    have hrelative :
        Path.isAbsolute (Path.under (ws.location.projectRelative directory) names) = false := by
      rw [Path.isAbsolute_under hnames, hdown, Path.isAbsolute_render_down hplain]
    have hrooted : Path.isAbsolute (Path.under directory names) = true :=
      (Path.isAbsolute_under hnames).trans habsolute
    rw [Bool.eq_iff_iff, isFile_iff, isFile_iff,
      askable_iff_of_below hask (Path.canonical_under _ _) (Path.canonical_under _ _) hrooted
        (hinner ▸ hbelow)]
    refine and_congr_right fun _ => exists_congr fun file => ?_
    exact locate_eq_ok_iff_of_below hhere (Path.canonical_under _ _) (Path.canonical_under _ _)
      hrelative hrooted hsame hbelow (List.append_ne_nil_of_right_ne_nil rest hsome)

/-! ## The search -/

theorem resolve_eq_findSome? (dirs : SearchDirs)
    (hreference : SearchDirs.isMalformed reference = false) :
    ws.resolve dirs reference preferSource = dirs.directories.findSome? fun directory =>
      (SearchDirs.candidatesIn directory reference preferSource).find? ws.isFile := by
  rw [resolve, hreference, if_neg Bool.false_ne_true, SearchDirs.candidates_eq_flatMap,
    List.find?_flatMap]

/-- In one directory the same template wins under both names of the directory. -/
theorem find?_candidatesIn_projectRelative (hhere : ws.location.path.IsNormal)
    (hask : ∀ name ∈ ws.location, Askable name)
    (hreference : SearchDirs.isMalformed reference = false)
    (hdirectory : Path.canonical directory = directory) :
    ((SearchDirs.candidatesIn (ws.location.projectRelative directory) reference
        preferSource).find? ws.isFile).map ws.namesOf =
      ((SearchDirs.candidatesIn directory reference preferSource).find? ws.isFile).map
        ws.namesOf := by
  by_cases hrooted : Path.isAbsolute reference = true
  · have hcandidates (directory : Text) :=
      (SearchDirs.candidatesIn_of_rooted hreference hrooted preferSource directory).1
    rw [hcandidates, hcandidates]
  · rw [Bool.not_eq_true] at hrooted
    have hunder (directory : Text) {template : Text}
        (htemplate : template ∈ SearchDirs.templates preferSource) :=
      SearchDirs.join_fill_of_relative hreference htemplate hrooted directory
    rw [SearchDirs.candidatesIn, SearchDirs.candidatesIn, List.find?_map, List.find?_map,
      Option.map_map, Option.map_map]
    have hfound : (SearchDirs.templates preferSource).find? (ws.isFile ∘ fun template =>
          Path.join (ws.location.projectRelative directory)
            (SearchDirs.fill template (SearchDirs.stem reference))) =
        (SearchDirs.templates preferSource).find? (ws.isFile ∘ fun template =>
          Path.join directory (SearchDirs.fill template (SearchDirs.stem reference))) := by
      refine List.find?_congr fun template htemplate => ?_
      obtain ⟨-, hsome, hplain⟩ := SearchDirs.names_fill htemplate reference
      rw [Function.comp_apply, Function.comp_apply, hunder _ htemplate, hunder _ htemplate]
      exact isFile_under_projectRelative hhere hask hdirectory hplain hsome
    rw [hfound]
    refine Option.map_congr fun template hwinner => ?_
    have htemplate := List.mem_of_find?_eq_some hwinner
    obtain ⟨-, -, hplain⟩ := SearchDirs.names_fill htemplate reference
    rw [Function.comp_apply, Function.comp_apply, hunder _ htemplate, hunder _ htemplate]
    exact namesOf_under_projectRelative hhere hdirectory hplain

theorem resolve_searchDirs (ws : Workspace) (config : Config) (reference : Text)
    (preferSource : Bool) :
    ws.resolve (.ofList config.searchDirs) reference preferSource =
      ws.resolve (.ofList (config.moduleDirs ++ [config.sourceDir])) reference preferSource := by
  cases hreference : SearchDirs.isMalformed reference with
  | true => rw [resolve, resolve, hreference, if_pos rfl, if_pos rfl]
  | false =>
      have hcanonical : config.searchDirs.map Path.canonical = config.searchDirs := by
        rw [List.map_congr_left fun _ => Config.canonical_of_mem_searchDirs, List.map_id']
      rw [resolve_eq_findSome? _ hreference, resolve_eq_findSome? _ hreference,
        SearchDirs.directories_ofList config.searchDirs_ne_nil, hcanonical,
        SearchDirs.directories_ofList (by simp), Config.searchDirs,
        Config.findSome?_addDirectories, List.nil_append]

theorem map_namesOf_resolve_moduleSearch (hhere : ws.location.path.IsNormal)
    (hask : ∀ name ∈ ws.location, Askable name) :
    (ws.resolve (config.moduleSearch ws.location) reference preferSource).map ws.namesOf =
      (ws.resolve (.ofList config.searchDirs) reference preferSource).map ws.namesOf := by
  cases hreference : SearchDirs.isMalformed reference with
  | true => rw [resolve, resolve, hreference, if_pos rfl, if_pos rfl]
  | false =>
      have hsome := config.searchDirs_ne_nil
      rw [resolve_eq_findSome? _ hreference, resolve_eq_findSome? _ hreference,
        Config.moduleSearch, SearchDirs.directories_ofList (by simpa using hsome),
        SearchDirs.directories_ofList hsome, List.map_map, List.findSome?_map, List.findSome?_map,
        List.map_findSome?, List.map_findSome?]
      refine findSome?_congr fun directory hmem => ?_
      have hdirectory := Config.canonical_of_mem_searchDirs hmem
      simp only [Function.comp_apply, Location.canonical_projectRelative, hdirectory]
      exact find?_candidatesIn_projectRelative hhere hask hreference hdirectory

/-- Leaving out the directories that stand in the list already changes nothing, whatever the files
and the reference.  From a working directory with a well-formed name, the directories as they are
seen from it and the directories as they are given find the same references, in the same places. -/
theorem module_search_exact (ws : Workspace) (config : Config) (reference : Text)
    (preferSource : Bool) :
    ws.resolve (.ofList config.searchDirs) reference preferSource =
        ws.resolve (.ofList (config.moduleDirs ++ [config.sourceDir])) reference preferSource ∧
      (ws.location.path.IsNormal → (∀ name ∈ ws.location, Askable name) →
        (ws.resolve (config.moduleSearch ws.location) reference preferSource).map ws.namesOf =
          (ws.resolve (.ofList config.searchDirs) reference preferSource).map ws.namesOf) :=
  ⟨ws.resolve_searchDirs config reference preferSource,
    fun hhere hask => map_namesOf_resolve_moduleSearch hhere hask⟩

/-- The project directory under its full name, the library beside it, and the project directory
twice more. -/
def repeatedDirs : Config :=
  { Config.default with moduleDirs := (["/base/proj/", "../lib", "../lib/..//proj"] : List Text) }

theorem module_search_exact_repeatedDirs :
    besideLibrary.location.path.IsNormal ∧
      (∀ name ∈ besideLibrary.location, Askable name) ∧
      repeatedDirs.searchDirs = (["/base/proj", "../lib", "../proj", "."] : List Text) ∧
      besideLibrary.resolve (.ofList repeatedDirs.searchDirs) "x" true =
        some ("/base/proj/x.tl" : Text) ∧
      besideLibrary.resolve (repeatedDirs.moduleSearch besideLibrary.location) "x" true =
        some ("x.tl" : Text) ∧
      besideLibrary.namesOf "x.tl" = besideLibrary.namesOf "/base/proj/x.tl" := by
  have hhere : besideLibrary.location.path.IsNormal :=
    isNormal_path (by decide +kernel : ∀ name ∈ (["base", "proj"] : List Text), Path.IsPlain name)
  have hask : ∀ name ∈ besideLibrary.location, Askable name := by
    simp only [← refusal?_eq_none_iff]
    decide +kernel
  have hfound : besideLibrary.resolve (.ofList repeatedDirs.searchDirs) "x" true =
      some ("/base/proj/x.tl" : Text) := by
    decide +kernel
  have hsearch : besideLibrary.resolve (repeatedDirs.moduleSearch besideLibrary.location) "x" true =
      some ("x.tl" : Text) := by
    decide +kernel
  have hsame := (module_search_exact besideLibrary repeatedDirs "x" true).2 hhere hask
  rw [hfound, hsearch] at hsame
  exact ⟨hhere, hask, by decide +kernel, hfound, hsearch, Option.some.inj hsame⟩

end Workspace

end Rebuild
