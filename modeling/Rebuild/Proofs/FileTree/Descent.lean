import Rebuild.Proofs.FileTree.Files
import Rebuild.Proofs.Path.Composition

/-!
# The place that a path names

A path text is followed name by name, with every `..` leaving a folder that has to be there, while
the place it names is computed from the names alone.  The two agree as long as only folders are
left.  In a canonical text nothing but the working directory is ever left, so when that is there,
the text leads to just what stands at its place.
-/

namespace Rebuild

theorem Path.canonical_ne_empty (text : Text) : canonical text ≠ "" := by
  intro hempty
  have hpath := ofText_canonical text
  rw [hempty] at hpath
  rw [canonical, ← hpath] at hempty
  exact absurd hempty (by decide +kernel)

theorem Path.ofChars_of_canonical {text : Text} (htext : canonical text = text) :
    Root.ofChars text.toList = (ofText text).root := by
  have hparse := parse_eq_ofText (htext ▸ backslash_not_mem_canonical text)
  rw [← hparse]
  rfl

/-- Every file in an entry, with the names that lead to it; there are none for the entry itself. -/
def Entry.files : Entry → List (List Text × File)
  | .file data => [([], data)]
  | .folder _ inner => inner.files

/-- Follows names down from an entry. -/
def Entry.descend : Entry → List Text → Except PathFault Entry
  | entry, [] => .ok entry
  | .file _, _ :: _ => .error .notDirectory
  | .folder _ inner, name :: names =>
    match inner.find? name with
    | none => .error .missing
    | some entry => entry.descend names

/-- Whether the names lead to a folder. -/
def Entry.HasFolder (entry : Entry) (names : List Text) : Prop :=
  ∃ modified inner, entry.descend names = .ok (.folder modified inner)

namespace Folder

variable {tree here inner root : Folder} {modified rootModified innerModified : Timestamp}
  {above : List (Timestamp × Folder)} {stack names first second rest : List Text}
  {name : Text} {data : File} {entry : Entry}

theorem mem_files_of_find? (hfind : tree.find? name = some entry)
    (hmem : (names, data) ∈ entry.files) : (name :: names, data) ∈ tree.files := by
  induction tree with
  | empty => cases hfind
  | file other otherData rest ih =>
      unfold find? at hfind
      split at hfind
      next heq =>
        cases hfind
        cases List.mem_singleton.1 hmem
        rw [heq]
        exact List.mem_cons_self
      next => exact List.mem_cons_of_mem _ (ih hfind)
  | folder other otherModified otherInner rest _ ih =>
      unfold find? at hfind
      unfold files
      split at hfind
      next heq =>
        cases hfind
        rw [heq]
        exact List.mem_append_left _ (List.mem_map.2 ⟨(names, data), hmem, rfl⟩)
      next => exact List.mem_append_right _ (ih hfind)

/-- What all folders have that the start and the folders around it have, the folder at the end of
the way has. -/
theorem follow_folder_of {P : Folder → Prop}
    (hinner : ∀ (tree inner : Folder) name modified, P tree →
      tree.find? name = some (.folder modified inner) → P inner)
    (hhere : P here) (habove : ∀ outer ∈ above, P outer.2)
    (hfollow : here.follow modified above names = .ok (.folder innerModified inner)) :
    P inner := by
  induction names generalizing here modified above with
  | nil =>
      cases hfollow
      exact hhere
  | cons name rest ih =>
      unfold follow at hfollow
      split at hfollow
      next => exact ih hhere habove hfollow
      next =>
        split at hfollow
        next =>
          cases above with
          | nil => exact ih hhere habove hfollow
          | cons outer further =>
              exact ih (habove outer List.mem_cons_self)
                (fun other hother => habove other (List.mem_cons_of_mem outer hother)) hfollow
        next =>
          split at hfollow
          next => cases hfollow
          next nextModified next hfind =>
            refine ih (hinner here next name nextModified hhere hfind) ?_ hfollow
            intro outer houter
            rcases List.mem_cons.1 houter with rfl | houter
            · exact hhere
            · exact habove outer houter
          next =>
            split at hfollow
            next => cases hfollow
            next => cases hfollow

theorem follow_cons_of_skipped (hskip : name = "" ∨ name = ".") :
    here.follow modified above (name :: names) = here.follow modified above names := by
  conv_lhs => unfold follow
  rw [if_pos hskip]

theorem follow_append_of_skipped (hskip : ∀ name ∈ names, name = "" ∨ name = ".") :
    here.follow modified above (names ++ rest) = here.follow modified above rest := by
  induction names with
  | nil => rfl
  | cons name more ih =>
      rw [List.cons_append, follow_cons_of_skipped (hskip name List.mem_cons_self)]
      exact ih fun other hother => hskip other (List.mem_cons_of_mem name hother)

theorem follow_cons_of_isName (hname : Path.IsName name) :
    here.follow modified above (name :: names) =
      match here.find? name with
      | none => .error .missing
      | some (.folder innerModified inner) =>
        inner.follow innerModified ((modified, here) :: above) names
      | some (.file data) => if names = [] then .ok (.file data) else .error .notDirectory := by
  conv_lhs => unfold follow
  exact (if_neg (not_or.2 ⟨hname.ne_empty, hname.ne_dot⟩)).trans (if_neg hname.ne_up)

theorem follow_of_isName (hnames : ∀ name ∈ names, Path.IsName name) :
    here.follow modified above names = (Entry.folder modified here).descend names := by
  induction names generalizing here modified above with
  | nil => rfl
  | cons name rest ih =>
      have hname := hnames name List.mem_cons_self
      have hrest : ∀ other ∈ rest, Path.IsName other :=
        fun other hother => hnames other (List.mem_cons_of_mem name hother)
      rw [follow_cons_of_isName hname, Entry.descend]
      cases here.find? name with
      | none => rfl
      | some entry =>
          cases entry with
          | file => cases rest <;> rfl
          | folder innerModified inner => exact ih hrest

/-- A folder, the folders around it, and the names that lead to it from the root, with the last name
first. -/
inductive Trail (rootModified : Timestamp) (root : Folder) :
    List Text → Timestamp → Folder → List (Timestamp × Folder) → Prop
  | start : Trail rootModified root [] rootModified root []
  | enter {stack : List Text} {modified innerModified : Timestamp} {here inner : Folder}
      {above : List (Timestamp × Folder)} {name : Text}
      (htrail : Trail rootModified root stack modified here above) (hname : Path.IsName name)
      (hfind : here.find? name = some (.folder innerModified inner)) :
      Trail rootModified root (name :: stack) innerModified inner ((modified, here) :: above)

namespace Trail

theorem descend_append (htrail : Trail rootModified root stack modified here above)
    (names : List Text) :
    (Entry.folder rootModified root).descend (stack.reverse ++ names) =
      (Entry.folder modified here).descend names := by
  induction htrail generalizing names with
  | start => rfl
  | enter _ _ hfind ih =>
      rw [List.reverse_cons, List.append_assoc, ih, List.singleton_append, Entry.descend, hfind]

theorem hasFolder (htrail : Trail rootModified root stack modified here above) :
    (Entry.folder rootModified root).HasFolder stack.reverse := by
  have hdescend := htrail.descend_append []
  rw [List.append_nil] at hdescend
  exact ⟨modified, here, hdescend⟩

theorem exists_find? (htrail : Trail rootModified root stack modified here above)
    (hfolder : (Entry.folder rootModified root).HasFolder (name :: stack).reverse) :
    ∃ innerModified inner, here.find? name = some (.folder innerModified inner) := by
  obtain ⟨innerModified, inner, hdescend⟩ := hfolder
  rw [List.reverse_cons, htrail.descend_append, Entry.descend] at hdescend
  split at hdescend
  next => cases hdescend
  next hfind =>
    cases hdescend
    exact ⟨innerModified, inner, hfind⟩

/-- What following one name from a folder comes to. -/
inductive Step (rootModified : Timestamp) (root : Folder) (stack : List Text)
    (modified : Timestamp) (here : Folder) (above : List (Timestamp × Folder)) (name : Text) :
    Prop
  | onward {nextModified : Timestamp} {next : Folder} {around : List (Timestamp × Folder)}
      (htrail : Trail rootModified root (Root.single.push stack name) nextModified next around)
      (hfollow : ∀ rest, here.follow modified above (name :: rest) =
        next.follow nextModified around rest)
  | down (hname : Path.IsName name)
      (hnone : ∀ innerModified inner, here.find? name ≠ some (.folder innerModified inner))

theorem step (htrail : Trail rootModified root stack modified here above) (name : Text) :
    Step rootModified root stack modified here above name := by
  by_cases hskip : name = "" ∨ name = "."
  · have hpush : Root.single.push stack name = stack := if_pos hskip
    exact .onward (by rwa [hpush]) fun rest => follow_cons_of_skipped hskip
  · by_cases hup : name = ".."
    · subst hup
      cases htrail with
      | start => exact .onward .start fun rest => rfl
      | @enter stack _ _ _ _ _ top htrail htop =>
          have hpush : Root.single.push (top :: stack) ".." = stack := by
            simp [Root.push, htop.ne_up]
          exact .onward (by rwa [hpush]) fun rest => rfl
    · have hname : Path.IsName name := ⟨(not_or.1 hskip).1, (not_or.1 hskip).2, hup⟩
      by_cases hfind : ∃ innerModified inner, here.find? name = some (.folder innerModified inner)
      · obtain ⟨innerModified, inner, hfind⟩ := hfind
        have hnext := htrail.enter hname hfind
        have hpush : Root.single.push stack name = name :: stack := Root.push_of_isName hname
        rw [← hpush] at hnext
        exact .onward hnext fun rest => by rw [follow_cons_of_isName hname, hfind]
      · exact .down hname (by simpa using hfind)

/-- Names that lead through folders only can be followed first. -/
theorem follow_append (htrail : Trail rootModified root stack modified here above)
    (hstages : ∀ count,
      (Entry.folder rootModified root).HasFolder
        ((names.take count).foldl Root.single.push stack).reverse) :
    ∃ nextModified next around,
      Trail rootModified root (names.foldl Root.single.push stack) nextModified next around ∧
        ∀ rest, here.follow modified above (names ++ rest) =
          next.follow nextModified around rest := by
  induction names generalizing stack modified here above with
  | nil => exact ⟨modified, here, above, htrail, fun _ => rfl⟩
  | cons name more ih =>
      have hmore : ∀ count, (Entry.folder rootModified root).HasFolder
          ((more.take count).foldl Root.single.push (Root.single.push stack name)).reverse :=
        fun count => hstages (count + 1)
      cases htrail.step name with
      | onward hnext hfollow =>
          obtain ⟨lastModified, last, around, hlast, hrest⟩ := ih hnext hmore
          exact ⟨lastModified, last, around, hlast, fun rest => (hfollow _).trans (hrest rest)⟩
      | down hname hnone =>
          have hfolder := hstages 1
          rw [List.take_succ_cons, List.take_zero, List.foldl_cons, List.foldl_nil,
            Root.push_of_isName hname] at hfolder
          obtain ⟨innerModified, inner, hfind⟩ := htrail.exists_find? hfolder
          exact (hnone innerModified inner hfind).elim

/-- Names that are followed and lead on led through folders only. -/
theorem hasFolder_of_follow (htrail : Trail rootModified root stack modified here above)
    (hrest : rest ≠ []) (hfollow : here.follow modified above (names ++ rest) = .ok entry)
    (count : Nat) :
    (Entry.folder rootModified root).HasFolder
      ((names.take count).foldl Root.single.push stack).reverse := by
  induction names generalizing stack modified here above count with
  | nil =>
      rw [List.take_nil]
      exact htrail.hasFolder
  | cons name more ih =>
      cases count with
      | zero => exact htrail.hasFolder
      | succ count =>
          cases htrail.step name with
          | onward hnext honward =>
              rw [List.cons_append, honward] at hfollow
              exact ih hnext hfollow count
          | down hname hnone =>
              rw [List.cons_append, follow_cons_of_isName hname] at hfollow
              split at hfollow
              next => cases hfollow
              next innerModified inner hfind => exact (hnone innerModified inner hfind).elim
              next =>
                rw [if_neg (List.append_ne_nil_of_right_ne_nil more hrest)] at hfollow
                cases hfollow

/-- Leaving folders is always possible. -/
theorem follow_ups (htrail : Trail rootModified root stack modified here above) (count : Nat) :
    ∃ nextModified next around,
      Trail rootModified root ((List.replicate count (".." : Text)).foldl Root.single.push stack)
        nextModified next around ∧
        ∀ rest, here.follow modified above (List.replicate count (".." : Text) ++ rest) =
          next.follow nextModified around rest := by
  induction count generalizing stack modified here above with
  | zero => exact ⟨modified, here, above, htrail, fun _ => rfl⟩
  | succ count ih =>
      cases htrail.step ".." with
      | onward hnext hfollow =>
          obtain ⟨lastModified, last, around, hlast, hrest⟩ := ih hnext
          exact ⟨lastModified, last, around, hlast, fun rest => (hfollow _).trans (hrest rest)⟩
      | down hname => exact (hname.ne_up rfl).elim

end Trail

end Folder

namespace Workspace

variable {ws : Workspace} {text : Text} {entry : Entry}

/-- The root with everything in it. -/
def top (ws : Workspace) : Entry :=
  .folder ws.rootModified ws.root

/-- Whether the working directory, and every folder that its names go through, is there. -/
def IsThere (ws : Workspace) : Prop :=
  ∀ count, ws.top.HasFolder (Root.single.reduce (ws.location.take count))

/-- Whatever a relative text leads to, it does so from the working directory. -/
theorem isThere_of_locate (hrelative : Root.ofChars text.toList = .relative)
    (hlocate : ws.locate text = .ok entry) : ws.IsThere := by
  unfold locate at hlocate
  rw [hrelative] at hlocate
  split at hlocate
  next => cases hlocate
  next =>
    intro count
    apply Folder.Trail.start.hasFolder_of_follow _ hlocate
    rw [Path.segments, Ne, List.map_eq_nil_iff]
    exact List.splitOn_ne_nil _ _

theorem namesOf_of_relative (htext : Path.canonical text = text)
    (hrelative : (Path.ofText text).root = .relative) :
    ws.namesOf text = Root.single.reduce (ws.location ++ (Path.ofText text).names) := by
  rw [namesOf, Location.absolute_of_canonical _ htext, Path.append_of_relative hrelative]
  rfl

theorem namesOf_of_rooted (htext : Path.canonical text = text)
    (hrooted : (Path.ofText text).root ≠ .relative) :
    ws.namesOf text = (Path.ofText text).names := by
  rw [namesOf, Location.absolute_of_canonical _ htext, Path.append_of_rooted hrooted]

/-- A canonical text leads to what stands at its place. -/
theorem locate_canonical (hthere : ws.IsThere) (htext : Path.canonical text = text) :
    ws.locate text = ws.top.descend (ws.namesOf text) := by
  have hnormal := Path.isNormal_ofText text
  obtain ⟨skipped, hsegments, hskip⟩ := Path.exists_segments_render hnormal
  change Path.segments (Path.canonical text) = _ at hsegments
  rw [htext] at hsegments
  unfold locate top
  dsimp only
  rw [if_neg (htext ▸ Path.canonical_ne_empty text), Path.ofChars_of_canonical htext, hsegments]
  split
  next hrelative =>
    obtain ⟨proper, count, hnames, hproper⟩ := hnormal.stack.exists_ups
    have hnames : (Path.ofText text).names =
        List.replicate count (".." : Text) ++ proper.reverse := by
      rw [← List.reverse_reverse (Path.ofText text).names, hnames, List.reverse_append,
        List.reverse_replicate]
    have hproper : ∀ name ∈ proper.reverse, Path.IsName name := by
      intro name hname
      exact hproper name (List.mem_reverse.1 hname)
    -- the working directory is entered, then left for every `..`, and then the way leads down
    obtain ⟨_, _, _, hinside, hfirst⟩ := Folder.Trail.start.follow_append hthere
    obtain ⟨_, _, _, houtside, hsecond⟩ := hinside.follow_ups count
    rw [hfirst, Folder.follow_append_of_skipped hskip, hnames, hsecond,
      Folder.follow_of_isName hproper, ← houtside.descend_append,
      namesOf_of_relative htext hrelative, hnames, Root.reduce, List.foldl_append,
      List.foldl_append, Root.foldl_push_of_isName hproper, List.reverse_append,
      List.reverse_reverse]
  next hrooted =>
    have hnames : ∀ name ∈ (Path.ofText text).names, Path.IsName name :=
      fun name hname => hnormal.stack.isName hrooted name (List.mem_reverse.2 hname)
    rw [List.nil_append, Folder.follow_append_of_skipped hskip, Folder.follow_of_isName hnames,
      namesOf_of_rooted htext hrooted]

end Workspace

end Rebuild
