import Rebuild.FileTree.Workspace
import Rebuild.Proofs.Text.Utf8

/-!
# Files that can be read

A path text is refused outright only for a NUL character in it, or for half of a surrogate pair
that has no form in file names.  Wherever any other path leads, the file at its end is one of the
files of the tree.  The text of a file has no more characters than the file has bytes.
-/

namespace Rebuild

def NulFree (text : Text) : Prop :=
  .char '\x00' ∉ text.toList

namespace Text

/-- Whether every half of a surrogate pair in a text stands for a byte. -/
def HasForm (text : Text) : Prop :=
  ∀ offset, .half offset ∈ text.toList → isByte offset = true

theorem encodeErrorFrom_eq_none_iff {hasForm : Fin 0x800 → Bool} {position : Nat}
    {points : List CodePoint} :
    encodeErrorFrom hasForm position points = none ↔
      ∀ offset, .half offset ∈ points → hasForm offset = true := by
  induction points generalizing position with
  | nil => simp [encodeErrorFrom]
  | cons point rest ih =>
      cases point with
      | char c => simp [encodeErrorFrom, ih]
      | half offset =>
          unfold encodeErrorFrom
          split
          next hform =>
            rw [ih]
            refine forall_congr' fun other => ?_
            simp only [List.mem_cons, CodePoint.half.injEq]
            exact ⟨fun h hmem => hmem.elim (fun heq => heq ▸ hform) h, fun h hmem => h (.inr hmem)⟩
          next hform =>
            refine iff_of_false nofun fun h => hform (h offset List.mem_cons_self)

theorem nameError?_eq_none_iff {text : Text} : text.nameError? = none ↔ text.HasForm :=
  encodeErrorFrom_eq_none_iff

end Text

/-- Whether a text that holds the code point is refused as a path. -/
def CodePoint.IsBarred : CodePoint → Prop
  | .char c => c = '\x00'
  | .half offset => Text.isByte offset = false

/-- A path text that can be asked for at all. -/
def Askable (text : Text) : Prop :=
  ∀ point : CodePoint, point.IsBarred → point ∉ text.toList

theorem askable_iff {text : Text} : Askable text ↔ NulFree text ∧ text.HasForm := by
  constructor
  · intro hask
    refine ⟨hask (.char '\x00') rfl, fun offset hmem => ?_⟩
    by_contra hform
    exact hask (.half offset) (Bool.eq_false_of_not_eq_true hform) hmem
  · rintro ⟨hnul, hform⟩ point hbarred hmem
    cases point with
    | char c =>
        cases hbarred
        exact hnul hmem
    | half offset => exact Bool.false_ne_true (hbarred.symm.trans (hform offset hmem))

theorem refusal?_eq_none_iff {text : Text} : refusal? text = none ↔ Askable text := by
  rw [askable_iff, ← Text.nameError?_eq_none_iff]
  unfold refusal?
  cases text.nameError? with
  | some error => simp
  | none => simp [NulFree]

/-- A path is not refused for what it leads to. -/
theorem refusal?_ne_fault {text path : Text} {what : PathFault} :
    refusal? text ≠ some (.fault what path) := by
  unfold refusal?
  split
  next => nofun
  next => split <;> nofun

theorem isNone_refusal?_iff {text : Text} : (refusal? text).isNone = true ↔ Askable text := by
  rw [Option.isNone_iff_eq_none, refusal?_eq_none_iff]

namespace Text

theorem length_unifyNewlines_le (text : List Char) :
    (unifyNewlines text).length ≤ text.length := by
  induction text using unifyNewlines.induct with
  | case1 => exact le_refl 0
  | case2 rest ih =>
      simp only [unifyNewlines, List.length_cons]
      omega
  | case3 c rest _ ih =>
      rw [unifyNewlines, List.length_cons, List.length_cons]
      · omega
      · assumption

theorem length_le_of_decodeUtf8 {bytes : List UInt8} {text : List Char}
    (htext : decodeUtf8 bytes = .ok text) : text.length ≤ bytes.length := by
  rw [decodeUtf8_eq_ok_iff] at htext
  subst htext
  induction text with
  | nil => exact le_rfl
  | cons c rest ih =>
      have hc := List.length_pos_of_ne_nil (String.utf8EncodeChar_ne_nil (c := c))
      rw [List.flatMap_cons, List.length_append, List.length_cons]
      omega

end Text

namespace Folder

def allFiles (tree : Folder) : List File :=
  tree.files.map (·.2)

theorem allFiles_folder (name : Text) (modified : Timestamp) (inner rest : Folder) :
    (Folder.folder name modified inner rest).allFiles = inner.allFiles ++ rest.allFiles := by
  simp [allFiles, files]

theorem ne_nil_of_mem_files {tree : Folder} {names : List Text} {data : File}
    (hmem : (names, data) ∈ tree.files) : names ≠ [] := by
  induction tree with
  | empty => cases hmem
  | file old oldData rest ih =>
      rcases List.mem_cons.1 hmem with heq | hmem
      · cases heq
        exact List.cons_ne_nil _ _
      · exact ih hmem
  | folder old oldModified oldInner rest _ ih =>
      rcases List.mem_append.1 hmem with hmem | hmem
      · obtain ⟨found, _, heq⟩ := List.mem_map.1 hmem
        cases heq
        exact List.cons_ne_nil _ _
      · exact ih hmem

theorem mem_allFiles_of_find? {tree : Folder} {name : Text} {file : File}
    (hfind : tree.find? name = some (.file file)) : file ∈ tree.allFiles := by
  induction tree with
  | empty => cases hfind
  | file other data rest ih =>
      unfold find? at hfind
      split at hfind
      next =>
        cases hfind
        exact List.mem_cons_self
      next => exact List.mem_cons_of_mem data (ih hfind)
  | folder other modified inner rest _ ih =>
      unfold find? at hfind
      rw [allFiles_folder]
      split at hfind
      next => cases hfind
      next => exact List.mem_append_right _ (ih hfind)

theorem allFiles_subset_of_find? {tree inner : Folder} {name : Text} {modified : Timestamp}
    (hfind : tree.find? name = some (.folder modified inner)) :
    inner.allFiles ⊆ tree.allFiles := by
  induction tree with
  | empty => cases hfind
  | file other data rest ih =>
      unfold find? at hfind
      split at hfind
      next => cases hfind
      next => exact fun file hfile => List.mem_cons_of_mem data (ih hfind hfile)
  | folder other otherModified otherInner rest _ ih =>
      unfold find? at hfind
      rw [allFiles_folder]
      split at hfind
      next =>
        cases hfind
        exact List.subset_append_left _ _
      next => exact List.Subset.trans (ih hfind) (List.subset_append_right _ _)

/-- Wherever names lead to a file, it is a file of the tree, if the start and the folders around it
hold no others. -/
theorem mem_allFiles_of_follow {root here : Folder} {modified : Timestamp}
    {above : List (Timestamp × Folder)} {names : List Text} {file : File}
    (hhere : here.allFiles ⊆ root.allFiles)
    (habove : ∀ outer ∈ above, outer.2.allFiles ⊆ root.allFiles)
    (hfollow : here.follow modified above names = .ok (.file file)) :
    file ∈ root.allFiles := by
  induction names generalizing here modified above with
  | nil => cases hfollow
  | cons name rest ih =>
      unfold follow at hfollow
      split at hfollow
      next => exact ih hhere habove hfollow
      next =>
        split at hfollow
        next =>
          cases above with
          | nil => exact ih hhere habove hfollow
          | cons outer further =>
              exact ih (habove outer List.mem_cons_self)
                (fun other hother => habove other (List.mem_cons_of_mem outer hother)) hfollow
        next =>
          split at hfollow
          next => cases hfollow
          next innerModified inner hfind =>
            refine ih (List.Subset.trans (allFiles_subset_of_find? hfind) hhere) ?_ hfollow
            intro outer houter
            rcases List.mem_cons.1 houter with rfl | houter
            · exact hhere
            · exact habove outer houter
          next data hfind =>
            split at hfollow
            next =>
              cases hfollow
              exact hhere (mem_allFiles_of_find? hfind)
            next => cases hfollow

theorem byteCount_eq_sum (tree : Folder) :
    tree.byteCount = (tree.allFiles.map fun file => file.content.length).sum := by
  unfold byteCount allFiles
  induction tree.files with
  | nil => rfl
  | cons file rest ih => simp [ih]

end Folder

namespace Workspace

theorem isFile_iff {ws : Workspace} {text : Text} :
    ws.isFile text = true ↔ Askable text ∧ ∃ file, ws.locate text = .ok (.file file) := by
  unfold isFile
  rw [Bool.and_eq_true, isNone_refusal?_iff]
  refine and_congr_right fun _ => ?_
  split
  next file hfile => exact iff_of_true rfl ⟨file, hfile⟩
  next hnone => exact iff_of_false Bool.false_ne_true fun ⟨file, hfile⟩ => hnone file hfile

theorem isFolder_iff {ws : Workspace} {text : Text} :
    ws.isFolder text = true ↔
      Askable text ∧ ∃ modified folder, ws.locate text = .ok (.folder modified folder) := by
  unfold isFolder
  rw [Bool.and_eq_true, isNone_refusal?_iff]
  refine and_congr_right fun _ => ?_
  split
  next modified folder hfolder => exact iff_of_true rfl ⟨modified, folder, hfolder⟩
  next hnone =>
    exact iff_of_false Bool.false_ne_true fun ⟨modified, folder, hfolder⟩ =>
      hnone modified folder hfolder

theorem mem_allFiles_of_locate {ws : Workspace} {text : Text} {file : File}
    (hlocate : ws.locate text = .ok (.file file)) : file ∈ ws.root.allFiles := by
  unfold locate at hlocate
  split at hlocate
  next => cases hlocate
  next =>
    exact Folder.mem_allFiles_of_follow (List.Subset.refl _)
      (fun _ houter => (List.not_mem_nil houter).elim) hlocate

theorem exists_file_of_readText {ws : Workspace} {path : Text} {text : List Char}
    (htext : ws.readText path = .ok text) :
    ∃ file ∈ ws.root.allFiles, ∃ raw,
      Text.decodeUtf8 file.content = .ok raw ∧ text = Text.unifyNewlines raw := by
  unfold readText readBytes at htext
  dsimp only at htext
  split at htext
  next => cases htext
  next bytes hbytes =>
    split at htext
    next => cases htext
    next raw hraw =>
      cases htext
      split at hbytes
      next => cases hbytes
      next =>
        split at hbytes
        next file hlocate =>
          cases hbytes
          exact ⟨file, mem_allFiles_of_locate hlocate, raw, hraw, rfl⟩
        next => cases hbytes
        next => cases hbytes

end Workspace

end Rebuild
