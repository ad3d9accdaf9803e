import Rebuild.Graph.SourceTable
import Rebuild.Proofs.Graph.Insertion
import Rebuild.Proofs.Path.Canonical

/-!
# Fixed answers

A setting is a parser and a resolver that always give the same answers, together with the working
directory and the scope.  It settles under which path a module is recorded, whether it is inserted,
which paths may become nodes, and what the modules of a node are once its references have been
followed.
-/

namespace Rebuild

/-- A path that becomes a node if its file is accepted. -/
structure Path.IsSource (path : Text) : Prop where
  relative : Path.isAbsolute path = false
  extension : Path.extension path = Path.sourceExtension

namespace Node

variable {reference path : Text} {modules : List (Text × Text)}

theorem mem_keys_putModule {other : Text} :
    other ∈ (putModule reference path modules).map Prod.fst ↔
      other = reference ∨ other ∈ modules.map Prod.fst := by
  induction modules with
  | nil => simp [putModule]
  | cons pair rest ih =>
      unfold putModule
      split
      next heq => simp [← heq]
      next =>
        rw [List.map_cons, List.mem_cons, ih, List.map_cons, List.mem_cons]
        exact or_left_comm

theorem nodup_keys_putModule (hdistinct : (modules.map Prod.fst).Nodup) :
    ((putModule reference path modules).map Prod.fst).Nodup := by
  induction modules with
  | nil => simp [putModule]
  | cons pair rest ih =>
      rw [List.map_cons, List.nodup_cons] at hdistinct
      unfold putModule
      split
      next heq =>
        rw [List.map_cons, List.nodup_cons]
        exact ⟨heq ▸ hdistinct.1, hdistinct.2⟩
      next hne =>
        rw [List.map_cons, List.nodup_cons, mem_keys_putModule, not_or]
        exact ⟨⟨hne, hdistinct.1⟩, ih hdistinct.2⟩

theorem mem_putModule_iff (hdistinct : (modules.map Prod.fst).Nodup) {other target : Text} :
    (other, target) ∈ putModule reference path modules ↔
      (other = reference ∧ target = path) ∨ (other ≠ reference ∧ (other, target) ∈ modules) := by
  induction modules with
  | nil => simp [putModule]
  | cons pair rest ih =>
      rw [List.map_cons, List.nodup_cons] at hdistinct
      unfold putModule
      split
      next heq =>
        have hrest : (other, target) ∈ rest → other ≠ reference := by
          rintro hmem rfl
          exact hdistinct.1 (heq ▸ List.mem_map_of_mem (f := Prod.fst) hmem)
        grind
      next hne =>
        rw [List.mem_cons, ih hdistinct.2, List.mem_cons]
        grind

end Node

/-- A parser and a resolver whose answers never change, with the working directory and the scope
for which modules are inserted. -/
structure Setting (ε : Type) where
  parse : Text → Scanned ε
  lookup : Text → Option Text
  here : Location
  scope : Option Text

namespace Setting

variable {ε : Type}

/-- Sources that give the answers of the setting in every state. -/
structure Answers {σ : Type} (setting : Setting ε) (sources : Sources σ ε) : Prop where
  requires : ∀ path state, (sources.requires path state).1 = setting.parse path
  resolve : ∀ reference state, (sources.resolve reference state).1 = setting.lookup reference

structure Admissible (setting : Setting ε) (path : Text) : Prop where
  relative : Path.isAbsolute path = false
  extension : Path.extension path = Path.sourceExtension
  accepted : ∃ references, setting.parse path = .refs references

/-- A module found at this path is inserted in turn. -/
def Expandable (setting : Setting ε) (found : Text) : Prop :=
  match setting.scope with
  | none => True
  | some directory => setting.here.isInside found directory = true

/-- The path that is recorded for a module found at `found`. -/
def key (setting : Setting ε) (found : Text) : Text :=
  match setting.scope with
  | none => Path.canonical found
  | some directory =>
    if setting.here.isInside found directory then
      Path.join directory (setting.here.relativeTo found directory)
    else Path.canonical found

/-- The file at `source` requires a module that is found at `found`. -/
def Finds (setting : Setting ε) (source found : Text) : Prop :=
  ∃ references, setting.parse source = .refs references ∧
    ∃ reference ∈ references, setting.lookup reference = some found

/-- With a file, all its modules that are inserted and may become nodes are in the set. -/
def KeepsModules (setting : Setting ε) (files : Set Text) : Prop :=
  ∀ source ∈ files, ∀ found, setting.Finds source found → setting.Expandable found →
    setting.Admissible (setting.key found) → setting.key found ∈ files

structure Closed (setting : Setting ε) (roots : List Text) (files : Set Text) : Prop where
  roots : ∀ root ∈ roots, setting.Admissible (Path.canonical root) →
    Path.canonical root ∈ files
  modules : setting.KeepsModules files

/-- The modules of a node after the given references have been followed. -/
def recorded (setting : Setting ε) (references : List Text) : List (Text × Text) :=
  references.foldl
    (fun modules reference =>
      match setting.lookup reference with
      | some found => Node.putModule reference (setting.key found) modules
      | none => modules)
    []

/-- A graph to which the roots have been inserted, one after the other, by insertions that
returned. -/
inductive Built (setting : Setting ε) : List Text → Graph → Prop
  | empty : Built setting [] .empty
  | insert {σ : Type} {roots paths : List Text} {graph : Graph} {sources : Sources σ ε}
      (hbuilt : Built setting roots graph) (hanswers : setting.Answers sources) (depth : Nat)
      (text : Text) (state : σ)
      (hverdict :
        (graph.insert sources setting.here setting.scope depth text state).verdict = .ok paths) :
      Built setting (roots ++ [text])
        (graph.insert sources setting.here setting.scope depth text state).graph

variable {setting : Setting ε}

theorem fst_target (found : Text) :
    (Insertion.target setting.here setting.scope found).1 = setting.key found := by
  unfold Insertion.target key
  cases setting.scope with
  | none => rfl
  | some directory =>
      dsimp only
      by_cases hinside : setting.here.isInside found directory = true <;> simp [hinside]

theorem snd_target (found : Text) :
    (Insertion.target setting.here setting.scope found).2 = true ↔ setting.Expandable found := by
  unfold Insertion.target Expandable
  cases setting.scope with
  | none => simp
  | some directory =>
      dsimp only
      by_cases hinside : setting.here.isInside found directory = true <;> simp [hinside]

theorem canonical_key (found : Text) :
    Path.canonical (setting.key found) = setting.key found := by
  unfold key
  cases setting.scope with
  | none => exact Path.canonical_canonical found
  | some directory =>
      dsimp only
      split
      next => exact Path.canonical_join _ _
      next => exact Path.canonical_canonical found

theorem key_of_not_expandable {found : Text} (hout : ¬setting.Expandable found) :
    setting.key found = Path.canonical found := by
  unfold key
  unfold Expandable at hout
  cases hscope : setting.scope with
  | none => rfl
  | some directory =>
      rw [hscope] at hout
      exact if_neg hout

theorem recorded_append_of_some {references : List Text} {reference found : Text}
    (hfound : setting.lookup reference = some found) :
    setting.recorded (references ++ [reference]) =
      Node.putModule reference (setting.key found) (setting.recorded references) := by
  simp [recorded, hfound]

theorem recorded_append_of_none {references : List Text} {reference : Text}
    (hfound : setting.lookup reference = none) :
    setting.recorded (references ++ [reference]) = setting.recorded references := by
  simp [recorded, hfound]

theorem nodup_keys_recorded (references : List Text) :
    ((setting.recorded references).map Prod.fst).Nodup := by
  induction references using List.reverseRecOn with
  | nil => exact List.nodup_nil
  | append_singleton done reference ih =>
      cases hfound : setting.lookup reference with
      | none => rwa [recorded_append_of_none hfound]
      | some found =>
          rw [recorded_append_of_some hfound]
          exact Node.nodup_keys_putModule ih

theorem mem_recorded_iff {references : List Text} {reference path : Text} :
    (reference, path) ∈ setting.recorded references ↔
      reference ∈ references ∧
        ∃ found, setting.lookup reference = some found ∧ path = setting.key found := by
  induction references using List.reverseRecOn with
  | nil => simp [recorded]
  | append_singleton done other ih =>
      rw [List.mem_append, List.mem_singleton]
      cases hfound : setting.lookup other with
      | none =>
          rw [recorded_append_of_none hfound, ih]
          refine and_congr_left fun hsome => (or_iff_left ?_).symm
          rintro rfl
          obtain ⟨found, hother, _⟩ := hsome
          rw [hfound] at hother
          cases hother
      | some found =>
          rw [recorded_append_of_some hfound,
            Node.mem_putModule_iff (nodup_keys_recorded done), ih]
          constructor
          · rintro (⟨rfl, rfl⟩ | ⟨_, hdone, hpath⟩)
            · exact ⟨Or.inr rfl, found, hfound, rfl⟩
            · exact ⟨Or.inl hdone, hpath⟩
          · rintro ⟨hmem, other', hother, rfl⟩
            by_cases heq : reference = other
            · subst heq
              rw [hfound] at hother
              cases hother
              exact Or.inl ⟨rfl, rfl⟩
            · exact Or.inr ⟨heq, hmem.resolve_right heq, other', hother, rfl⟩

end Setting

/-- The setting in which the answers are those of a table. -/
def SourceTable.setting (table : SourceTable) (here : Location) (scope : Option Text) :
    Setting Empty where
  parse path :=
    match table.files.lookup path with
    | some (some references) => .refs references
    | _ => .rejected "syntax error"
  lookup reference := table.modules.lookup reference
  here := here
  scope := scope

theorem SourceTable.answers (table : SourceTable) (here : Location) (scope : Option Text) :
    (table.setting here scope).Answers table.sources :=
  ⟨fun _ _ => rfl, fun _ _ => rfl⟩

end Rebuild
