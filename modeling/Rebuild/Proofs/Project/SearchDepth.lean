import Rebuild.Project.Sources
import Rebuild.Proofs.FileTree.Files
import Rebuild.Proofs.Graph.Depth
import Rebuild.Proofs.Require.Names

/-!
# Insertions in a workspace are never too deep

Each reference of a file is one of its string literals, each literal takes up a character of its
own, and each character a byte of its own.  So the files of a workspace hold no more references than
bytes, the modules they lead to have no more places than that, and the depth that a workspace allows
is enough for every insertion into every graph.
-/

namespace Rebuild

namespace Workspace

def fileNames (file : File) : List Text :=
  match Text.decodeUtf8 file.content with
  | .error _ => []
  | .ok text => (Require.literalNames (Text.unifyNewlines text)).map Text.ofString

/-- All names that can be required anywhere in a workspace. -/
def requiredNames (ws : Workspace) : List Text :=
  ws.root.allFiles.flatMap fileNames

theorem length_fileNames_le (file : File) : (fileNames file).length ≤ file.content.length := by
  unfold fileNames
  split
  next => exact Nat.zero_le _
  next text htext =>
    rw [List.length_map]
    calc
      (Require.literalNames (Text.unifyNewlines text)).length ≤
          (Text.unifyNewlines text).length := Require.length_literalNames_le _
      _ ≤ text.length := Text.length_unifyNewlines_le text
      _ ≤ file.content.length := Text.length_le_of_decodeUtf8 htext

theorem length_requiredNames_le (ws : Workspace) :
    ws.requiredNames.length ≤ ws.root.byteCount := by
  rw [requiredNames, List.length_flatMap, Folder.byteCount_eq_sum]
  exact List.sum_le_sum fun file _ => length_fileNames_le file

theorem mem_requiredNames_of_scan {ws : Workspace} {path : Text} {references : List Text}
    (hscan : ws.scan path = .refs references) :
    ∀ reference ∈ references, reference ∈ ws.requiredNames := by
  unfold scan at hscan
  split at hscan
  next => cases hscan
  next => cases hscan
  next => cases hscan
  next text htext =>
    split at hscan
    next found hfound =>
      cases hscan
      intro reference hreference
      obtain ⟨name, hname, rfl⟩ := List.mem_map.1 hreference
      obtain ⟨file, hfile, raw, hraw, rfl⟩ := exists_file_of_readText htext
      refine List.mem_flatMap.2 ⟨file, hfile, ?_⟩
      rw [fileNames, hraw]
      exact List.mem_map_of_mem (Require.mem_literalNames_of_references hfound name hname)
    next => cases hscan
    next => cases hscan
    next => cases hscan

/-- The places of all modules that can be required, and the path of the file itself. -/
def searchTargets (ws : Workspace) (dirs : SearchDirs) (scope : Option Text) (file : Text) :
    Finset Text :=
  (Path.canonical file :: ws.requiredNames.filterMap fun reference =>
    (ws.resolve dirs reference true).map fun found =>
      Path.canonical (Insertion.target ws.location scope found).1).toFinset

theorem card_searchTargets_le (ws : Workspace) (dirs : SearchDirs) (scope : Option Text)
    (file : Text) : (ws.searchTargets dirs scope file).card < ws.searchDepth := by
  have hcard : (ws.searchTargets dirs scope file).card ≤ ws.requiredNames.length + 1 := by
    refine (List.toFinset_card_le _).trans ?_
    rw [List.length_cons]
    exact Nat.succ_le_succ (List.length_filterMap_le _ _)
  have hnames := ws.length_requiredNames_le
  unfold searchDepth
  omega

theorem leadsTo_searchTargets (ws : Workspace) (dirs : SearchDirs) (scope : Option Text)
    (file : Text) :
    Insertion.LeadsTo (ws.sources dirs) ws.location scope (ws.searchTargets dirs scope file) := by
  intro path _ references _ reference found hreferences hreference hfound
  have hscan : ws.scan path = .refs references := hreferences
  have hresolve : ws.resolve dirs reference true = some found := hfound
  rw [searchTargets, List.mem_toFinset]
  apply List.mem_cons_of_mem
  rw [List.mem_filterMap]
  refine ⟨reference, mem_requiredNames_of_scan hscan reference hreference, ?_⟩
  rw [hresolve]
  rfl

/-- No insertion of a file of a workspace, into whatever graph, uses up the depth it is given. -/
theorem insertFile_stop_ne_tooDeep (ws : Workspace) (dirs : SearchDirs) (scope : Option Text)
    (graph : Graph) (file : Text) :
    (ws.insertFile dirs scope graph file).stop ≠ some .tooDeep := by
  rw [insertFile, Graph.insert, Insertion.stop_finish]
  apply Insertion.visit_stop_ne_tooDeep (ws.leadsTo_searchTargets dirs scope file)
  · simp [searchTargets]
  · exact (Finset.card_filter_le _ _).trans_lt (ws.card_searchTargets_le dirs scope file)
  · simp [Insertion.start]

end Workspace

end Rebuild
