import Rebuild.FileTree.SourceFiles
import Rebuild.Proofs.FileTree.Descent
import Rebuild.Proofs.Order.Sorted

/-!
# Walking a directory

The source files below a directory are listed by taking all files, sorting them by their names and
leaving out what the rules do not admit.  A walk does the same from the top down: it visits the
entries of a folder in the order of their names, takes a file when the rules select it, and enters a
folder unless its name is skipped.  The names in a folder are distinct, so everything behind one
name stands before everything behind the next, and the walk meets the files in the sorted order.
-/

namespace Rebuild

namespace Folder

def entryNames : Folder → List Text
  | .empty => []
  | .file name _ rest => name :: rest.entryNames
  | .folder name _ _ rest => name :: rest.entryNames

/-- Whether no folder has two entries of one name. -/
def HasDistinctNames : Folder → Prop
  | .empty => True
  | .file name _ rest => name ∉ rest.entryNames ∧ rest.HasDistinctNames
  | .folder name _ inner rest =>
    name ∉ rest.entryNames ∧ inner.HasDistinctNames ∧ rest.HasDistinctNames

/-- Whether names lead down to a file. -/
inductive HasFile : Folder → List Text → Prop
  | last {tree : Folder} {name : Text} {data : File}
      (hfind : tree.find? name = some (.file data)) : HasFile tree [name]
  | enter {tree inner : Folder} {name : Text} {modified : Timestamp} {names : List Text}
      (hfind : tree.find? name = some (.folder modified inner)) (hfile : HasFile inner names) :
      HasFile tree (name :: names)

/-- What is found behind each name of a folder, put in the order of the names. -/
def inOrder (visited : List (Text × List (List Text))) : List (List Text) :=
  (Order.sortBy (fun a b => decide (a.1 ≤ b.1)) visited).flatMap (·.2)

/-- What a walk finds behind each name of a folder to which the names above lead. -/
def visits (rules : ScanRules) (above : List Text) :
    Folder → List (Text × List (List Text))
  | .empty => []
  | .file name _ rest =>
    let path := Text.intercalate "/" (above ++ [name])
    let taken := Glob.isSelected path rules.included rules.excluded
    (name, if taken then [above ++ [name]] else []) :: visits rules above rest
  | .folder name _ inner rest =>
    let found := if rules.skips name then [] else inOrder (visits rules (above ++ [name]) inner)
    (name, found) :: visits rules above rest

/-- The names that lead to the files that a walk takes. -/
def walk (rules : ScanRules) (tree : Folder) : List (List Text) :=
  inOrder (visits rules [] tree)

variable {tree inner rest : Folder} {name : Text} {names above found : List Text}
  {modified : Timestamp} {entry : Entry} {rules : ScanRules}
  {visited : List (Text × List (List Text))}

/-! ## Trees with distinct names -/

theorem mem_entryNames_of_find? (hfind : tree.find? name = some entry) :
    name ∈ tree.entryNames := by
  induction tree with
  | empty => cases hfind
  | file other data rest ih =>
      unfold find? at hfind
      split at hfind
      next heq => exact heq ▸ List.mem_cons_self
      next => exact List.mem_cons_of_mem other (ih hfind)
  | folder other modified inner rest _ ih =>
      unfold find? at hfind
      split at hfind
      next heq => exact heq ▸ List.mem_cons_self
      next => exact List.mem_cons_of_mem other (ih hfind)

theorem HasDistinctNames.nodup (htree : tree.HasDistinctNames) : tree.entryNames.Nodup := by
  induction tree with
  | empty => exact List.nodup_nil
  | file name data rest ih => exact List.nodup_cons.2 ⟨htree.1, ih htree.2⟩
  | folder name modified inner rest _ ih => exact List.nodup_cons.2 ⟨htree.1, ih htree.2.2⟩

theorem HasDistinctNames.of_find? (htree : tree.HasDistinctNames)
    (hfind : tree.find? name = some (.folder modified inner)) : inner.HasDistinctNames := by
  induction tree with
  | empty => cases hfind
  | file other data rest ih =>
      unfold find? at hfind
      split at hfind
      next => cases hfind
      next => exact ih htree.2 hfind
  | folder other otherModified otherInner rest _ ih =>
      unfold find? at hfind
      split at hfind
      next =>
        cases hfind
        exact htree.2.1
      next => exact ih htree.2.2 hfind

theorem HasFile.mono {other : Folder} (hfile : tree.HasFile names)
    (hfind : ∀ name entry, tree.find? name = some entry → other.find? name = some entry) :
    other.HasFile names := by
  cases hfile with
  | last hfound => exact .last (hfind _ _ hfound)
  | enter hfound hinner => exact .enter (hfind _ _ hfound) hinner

theorem exists_mem_files_of_hasFile (hfile : tree.HasFile names) :
    ∃ data, (names, data) ∈ tree.files := by
  induction hfile with
  | last hfind => exact ⟨_, mem_files_of_find? hfind List.mem_cons_self⟩
  | enter hfind _ ih =>
      obtain ⟨data, hmem⟩ := ih
      exact ⟨data, mem_files_of_find? hfind hmem⟩

/-- Where the names are distinct, no entry hides another, so the files listed are those that names
lead to. -/
theorem HasDistinctNames.mem_files_iff (htree : tree.HasDistinctNames) :
    names ∈ tree.files.map (·.1) ↔ tree.HasFile names := by
  constructor
  · intro hmem
    induction tree generalizing names with
    | empty => cases hmem
    | file name data rest ih =>
        rcases List.mem_cons.1 hmem with rfl | hmem
        · exact .last (if_pos rfl)
        · refine (ih htree.2 hmem).mono fun other entry hfind => ?_
          have hne : name ≠ other := fun heq => htree.1 (heq ▸ mem_entryNames_of_find? hfind)
          exact (if_neg hne).trans hfind
    | folder name modified inner rest ihInner ih =>
        obtain ⟨hname, hinner, hrest⟩ := htree
        simp only [files, List.map_append, List.mem_append, List.map_map] at hmem
        rcases hmem with hmem | hmem
        · obtain ⟨file, hfile, rfl⟩ := List.mem_map.1 hmem
          exact .enter (if_pos rfl) (ihInner hinner (List.mem_map_of_mem hfile))
        · refine (ih hrest hmem).mono fun other entry hfind => ?_
          have hne : name ≠ other := fun heq => hname (heq ▸ mem_entryNames_of_find? hfind)
          exact (if_neg hne).trans hfind
  · intro hfile
    obtain ⟨data, hmem⟩ := exists_mem_files_of_hasFile hfile
    exact List.mem_map.2 ⟨(names, data), hmem, rfl⟩

theorem HasFile.head_mem (hfile : tree.HasFile (name :: names)) : name ∈ tree.entryNames := by
  cases hfile with
  | last hfind => exact mem_entryNames_of_find? hfind
  | enter hfind => exact mem_entryNames_of_find? hfind

theorem HasDistinctNames.nodup_files (htree : tree.HasDistinctNames) :
    (tree.files.map (·.1)).Nodup := by
  induction tree with
  | empty => exact List.nodup_nil
  | file name data rest ih =>
      refine List.nodup_cons.2 ⟨fun hmem => ?_, ih htree.2⟩
      exact htree.1 (htree.2.mem_files_iff.1 hmem).head_mem
  | folder name modified inner rest ihInner ih =>
      obtain ⟨hname, hinner, hrest⟩ := htree
      have hbehind : (inner.files.map fun file => (name :: file.1, file.2)).map (·.1) =
          (inner.files.map (·.1)).map (name :: ·) := by
        simp
      rw [files, List.map_append, hbehind, List.nodup_append]
      refine ⟨(ihInner hinner).map (List.cons_injective), ih hrest, ?_⟩
      intro first hfirst second hsecond hsame
      obtain ⟨behind, -, rfl⟩ := List.mem_map.1 hfirst
      subst hsame
      exact hname (hrest.mem_files_iff.1 hsecond).head_mem

/-! ## What a walk finds -/

theorem mem_inOrder : found ∈ inOrder visited ↔ ∃ entry ∈ visited, found ∈ entry.2 := by
  simp [inOrder]

/-- A walk takes the files that the rules select and that no skipped folder holds. -/
theorem mem_visits_iff :
    (∃ entry ∈ visits rules above tree, found ∈ entry.2) ↔
      ∃ file ∈ tree.files, found = above ++ file.1 ∧ file.1.dropLast.any rules.skips = false ∧
        Glob.isSelected (Text.intercalate "/" found) rules.included rules.excluded = true := by
  induction tree generalizing above with
  | empty => simp [visits, files]
  | file name data rest ih =>
      rw [visits, files, List.exists_mem_cons_iff, List.exists_mem_cons_iff]
      refine or_congr ?_ ih
      dsimp only
      split <;> simp_all
  | folder name modified inner rest ihInner ih =>
      simp only [visits, files, List.exists_mem_cons_iff, List.mem_append, or_and_right, exists_or]
      refine or_congr ?_ ih
      have hlast : ∀ file ∈ inner.files, (name :: file.1).dropLast = name :: file.1.dropLast :=
        fun file hfile => List.dropLast_cons_of_ne_nil (ne_nil_of_mem_files hfile)
      simp only [List.mem_map, exists_exists_and_eq_and]
      cases hskip : rules.skips name with
      | true =>
          simp only [if_true, List.not_mem_nil, false_iff]
          rintro ⟨file, hfile, -, hfolders, -⟩
          rw [hlast file hfile, List.any_cons, hskip] at hfolders
          cases hfolders
      | false =>
          have hfolders : ∀ file ∈ inner.files, (name :: file.1).dropLast.any rules.skips =
              file.1.dropLast.any rules.skips := by
            intro file hfile
            rw [hlast file hfile, List.any_cons, hskip, Bool.false_or]
          simp only [Bool.false_eq_true, if_false, mem_inOrder, ihInner]
          refine exists_congr fun file => and_congr_right fun hfile => ?_
          rw [hfolders file hfile, List.append_assoc, List.singleton_append]

/-- What a walk finds behind the names of one folder is in order once it is behind each name. -/
theorem pairwise_inOrder (hdistinct : (visited.map (·.1)).Nodup)
    (hvisited : ∀ entry ∈ visited, entry.2.Pairwise (· < ·) ∧
      ∀ found ∈ entry.2, ∃ rest, found = above ++ entry.1 :: rest) :
    (inOrder visited).Pairwise (· < ·) := by
  have hnames : ((Order.sortBy (fun a b => decide (a.1 ≤ b.1)) visited).map (·.1)).Pairwise
      (· < ·) := by
    rw [Order.map_sortBy (fun a b => decide (a ≤ b)) (·.1) visited]
    exact Order.increasing_sortTexts hdistinct
  rw [inOrder, List.pairwise_flatMap]
  constructor
  · intro entry hentry
    exact (hvisited entry (Order.mem_sortBy.1 hentry)).1
  · refine (List.pairwise_map.1 hnames).imp_of_mem ?_
    intro first second hfirst hsecond hlt found hfound other hother
    obtain ⟨rest, rfl⟩ := (hvisited first (Order.mem_sortBy.1 hfirst)).2 found hfound
    obtain ⟨more, rfl⟩ := (hvisited second (Order.mem_sortBy.1 hsecond)).2 other hother
    exact List.append_left_lt (List.cons_lt_cons_iff.2 (.inl hlt))

theorem map_fst_visits : (visits rules above tree).map (·.1) = tree.entryNames := by
  induction tree generalizing above with
  | empty => rfl
  | file name data rest ih => simp [visits, entryNames, ih]
  | folder name modified inner rest _ ih => simp [visits, entryNames, ih]

theorem pairwise_visits (htree : tree.HasDistinctNames) :
    ∀ entry ∈ visits rules above tree, entry.2.Pairwise (· < ·) ∧
      ∀ found ∈ entry.2, ∃ rest, found = above ++ entry.1 :: rest := by
  induction tree generalizing above with
  | empty => simp [visits]
  | file name data rest ih =>
      intro entry hentry
      rcases List.mem_cons.1 hentry with rfl | hentry
      · dsimp only
        split <;> simp
      · exact ih htree.2 entry hentry
  | folder name modified inner rest ihInner ih =>
      obtain ⟨hname, hinner, hrest⟩ := htree
      intro entry hentry
      rcases List.mem_cons.1 hentry with rfl | hentry
      · dsimp only
        split
        next => simp
        next =>
          constructor
          · apply pairwise_inOrder _ (ihInner hinner)
            rw [map_fst_visits]
            exact hinner.nodup
          · intro found hfound
            obtain ⟨entry, hmem, hfound⟩ := mem_inOrder.1 hfound
            obtain ⟨rest, rfl⟩ := (ihInner hinner entry hmem).2 found hfound
            exact ⟨entry.1 :: rest, by simp⟩
      · exact ih hrest entry hentry

theorem pairwise_walk (htree : tree.HasDistinctNames) :
    (tree.walk rules).Pairwise (· < ·) := by
  apply pairwise_inOrder _ (pairwise_visits htree)
  rw [map_fst_visits]
  exact htree.nodup

theorem mem_walk_iff :
    names ∈ tree.walk rules ↔ names ∈ tree.files.map (·.1) ∧ rules.admits names = true := by
  rw [walk, mem_inOrder, mem_visits_iff]
  simp only [ScanRules.admits, List.mem_map, Bool.and_eq_true, Bool.not_eq_true', List.nil_append]
  grind

/-- Sorting and filtering all files comes to what the walk finds. -/
theorem filter_sortBy_files (htree : tree.HasDistinctNames) :
    (Order.sortBy Order.namesPrecede (tree.files.map (·.1))).filter rules.admits =
      tree.walk rules := by
  have hsorted := (Order.increasing_sortNames htree.nodup_files).filter rules.admits
  refine hsorted.eq_of_mem_iff (pairwise_walk htree) fun names => ?_
  rw [List.mem_filter, Order.mem_sortBy, mem_walk_iff]

end Folder

namespace Workspace

variable {ws : Workspace} {directory : Text} {folder : Folder}

/-- What the root has, and each folder hands on to those in it, the folder at a path has. -/
theorem of_folderAt? {P : Folder → Prop} (hroot : P ws.root)
    (hinner : ∀ (tree inner : Folder) name modified, P tree →
      tree.find? name = some (.folder modified inner) → P inner)
    (hfolder : ws.folderAt? directory = some folder) : P folder := by
  unfold folderAt? at hfolder
  split at hfolder
  next hlocate =>
    cases hfolder
    unfold locate at hlocate
    split at hlocate
    next => cases hlocate
    next =>
      exact Folder.follow_folder_of hinner hroot
        (fun _ houter => (List.not_mem_nil houter).elim) hlocate
  next => cases hfolder

/-- The source files below a directory are those that a walk through it takes, which enters no
folder with a skipped name: each selected file that is in no such folder, once, and in increasing
order of the names that lead to it. -/
theorem sourceFiles_exact (htree : ws.root.HasDistinctNames) (directory : Text)
    (rules : ScanRules) :
    (ws.folderAt? directory = none → ws.sourceFiles directory rules = []) ∧
    ∀ folder, ws.folderAt? directory = some folder →
      ws.sourceFiles directory rules = (folder.walk rules).map (fun names =>
        Path.join directory (Text.intercalate "/" names)) ∧
      (folder.walk rules).Pairwise (· < ·) ∧
      ∀ names, names ∈ folder.walk rules ↔ folder.HasFile names ∧
        (∀ name ∈ names.dropLast, ∀ pattern ∈ rules.skipped, Glob.isMatch name pattern = false) ∧
        Glob.isSelected (Text.intercalate "/" names) rules.included rules.excluded = true := by
  constructor
  · intro hnone
    rw [sourceFiles, hnone]
  · intro folder hfolder
    have hdistinct : folder.HasDistinctNames :=
      of_folderAt? htree (fun _ _ _ _ htree hfind => htree.of_find? hfind) hfolder
    refine ⟨?_, Folder.pairwise_walk hdistinct, fun names => ?_⟩
    · rw [sourceFiles, hfolder, ← Folder.filter_sortBy_files hdistinct]
    · rw [Folder.mem_walk_iff, hdistinct.mem_files_iff]
      simp [ScanRules.admits, ScanRules.skips]

/-- Folders of skipped names at two depths, a file of such a name, and two folders whose order is
not that of the texts behind them. -/
def nested : Workspace where
  root :=
    .folder "src" (.ofSeconds 0 0)
      (.file "z.tl" ⟨[], .ofSeconds 0 0⟩ <|
        .folder "a-b" (.ofSeconds 0 0) (.file "x.tl" ⟨[], .ofSeconds 0 0⟩ .empty) <|
        .folder ".git" (.ofSeconds 0 0) (.file "q.tl" ⟨[], .ofSeconds 0 0⟩ .empty) <|
        .folder "a" (.ofSeconds 0 0)
          (.folder "build" (.ofSeconds 0 0) (.file "y.tl" ⟨[], .ofSeconds 0 0⟩ .empty) <|
            .file "x.tl" ⟨[], .ofSeconds 0 0⟩ <| .file ".git" ⟨[], .ofSeconds 0 0⟩ .empty)
        .empty) .empty
  rootModified := .ofSeconds 0 0
  location := []

def nestedRules : ScanRules where
  included := (["**/*.tl", "*/.git"] : List Text)
  excluded := (["z*"] : List Text)
  skipped := ([".git", "b*"] : List Text)

theorem sourceFiles_exact_nested :
    nested.root.HasDistinctNames ∧
      nested.sourceFiles "./src/" nestedRules =
        (["src/a/.git", "src/a/x.tl", "src/a-b/x.tl"] : List Text) ∧
      ∃ folder, nested.folderAt? "./src/" = some folder ∧
        folder.walk nestedRules =
          ([["a", ".git"], ["a", "x.tl"], ["a-b", "x.tl"]] : List (List Text)) ∧
        nested.sourceFiles "./src/" nestedRules = (folder.walk nestedRules).map (fun names =>
          Path.join "./src/" (Text.intercalate "/" names)) := by
  have htree : nested.root.HasDistinctNames := by
    simp [nested, Folder.HasDistinctNames, Folder.entryNames]
  have hfolder : (nested.folderAt? "./src/").map (·.walk nestedRules) =
      some ([["a", ".git"], ["a", "x.tl"], ["a-b", "x.tl"]] : List (List Text)) := by
    decide +kernel
  obtain ⟨folder, hfolder, hwalk⟩ := Option.map_eq_some_iff.1 hfolder
  refine ⟨htree, by decide +kernel, folder, hfolder, hwalk, ?_⟩
  exact ((sourceFiles_exact htree "./src/" nestedRules).2 folder hfolder).1

end Workspace

end Rebuild
