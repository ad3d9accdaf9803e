import Rebuild.Text.Basic

/-!
# Sets of paths

A set of paths is the strictly increasing list of its members, so two sets with the same members
are the same value, and a set is shown in the order of its paths.
-/

namespace Rebuild

structure PathSet where
  toList : List Text
  increasing : toList.Pairwise (· < ·)
  deriving DecidableEq

namespace PathSet

/-- Adds `x` to a list and goes on with `tail` from the place where it stands. -/
def mergeHead (x : Text) (tail : List Text → List Text) : List Text → List Text
  | [] => x :: tail []
  | y :: rest =>
    if x < y then x :: tail (y :: rest)
    else if x = y then x :: tail rest
    else y :: mergeHead x tail rest

def merge : List Text → List Text → List Text
  | [], ys => ys
  | x :: xs, ys => mergeHead x (merge xs) ys

theorem mem_mergeHead {x z : Text} {tail : List Text → List Text} {xs : List Text}
    (htail : ∀ ys, z ∈ tail ys ↔ z ∈ xs ∨ z ∈ ys) (ys : List Text) :
    z ∈ mergeHead x tail ys ↔ z ∈ x :: xs ∨ z ∈ ys := by
  induction ys with
  | nil => simp [mergeHead, htail]
  | cons y rest ih =>
    unfold mergeHead
    split
    · simp [htail, or_assoc]
    · split
      · rename_i heq
        subst heq
        simp only [List.mem_cons, htail]
        grind
      · simp only [List.mem_cons, ih]
        grind

theorem mem_merge {z : Text} (xs ys : List Text) :
    z ∈ merge xs ys ↔ z ∈ xs ∨ z ∈ ys := by
  induction xs generalizing ys with
  | nil => simp [merge]
  | cons x rest ih => exact mem_mergeHead ih ys

theorem increasing_mergeHead {x : Text} {tail : List Text → List Text} {xs ys : List Text}
    (hmem : ∀ zs z, z ∈ tail zs ↔ z ∈ xs ∨ z ∈ zs)
    (htail : ∀ zs, zs.Pairwise (· < ·) → (tail zs).Pairwise (· < ·))
    (hx : ∀ z ∈ xs, x < z) (hys : ys.Pairwise (· < ·)) :
    (mergeHead x tail ys).Pairwise (· < ·) := by
  induction ys with
  | nil =>
    refine List.pairwise_cons.2 ⟨fun z hz => ?_, htail [] List.Pairwise.nil⟩
    exact hx z (by simpa [hmem] using hz)
  | cons y rest ih =>
    obtain ⟨hy, hrest⟩ := List.pairwise_cons.1 hys
    unfold mergeHead
    split
    · rename_i hlt
      refine List.pairwise_cons.2 ⟨fun z hz => ?_, htail _ hys⟩
      rcases (hmem _ z).1 hz with h | h
      · exact hx z h
      · rcases List.mem_cons.1 h with rfl | h
        · exact hlt
        · exact Text.lt_trans hlt (hy z h)
    · rename_i hnlt
      split
      · rename_i heq
        subst heq
        refine List.pairwise_cons.2 ⟨fun z hz => ?_, htail _ hrest⟩
        rcases (hmem _ z).1 hz with h | h
        · exact hx z h
        · exact hy z h
      · rename_i hne
        have hgt : y < x := by grind
        refine List.pairwise_cons.2 ⟨fun z hz => ?_, ih hrest⟩
        rcases (mem_mergeHead (fun ys => hmem ys z) rest).1 hz with h | h
        · rcases List.mem_cons.1 h with rfl | h
          · exact hgt
          · exact Text.lt_trans hgt (hx z h)
        · exact hy z h

theorem increasing_merge {xs ys : List Text} (hxs : xs.Pairwise (· < ·))
    (hys : ys.Pairwise (· < ·)) : (merge xs ys).Pairwise (· < ·) := by
  induction xs generalizing ys with
  | nil => exact hys
  | cons x rest ih =>
    obtain ⟨hx, hrest⟩ := List.pairwise_cons.1 hxs
    exact increasing_mergeHead (fun zs z => mem_merge rest zs) (fun zs hzs => ih hrest hzs) hx hys

def empty : PathSet := ⟨[], List.Pairwise.nil⟩

instance : EmptyCollection PathSet := ⟨empty⟩

instance : Inhabited PathSet := ⟨empty⟩

instance : Membership Text PathSet := ⟨fun set path => path ∈ set.toList⟩

instance (path : Text) (set : PathSet) : Decidable (path ∈ set) :=
  inferInstanceAs (Decidable (path ∈ set.toList))

def union (first second : PathSet) : PathSet :=
  ⟨merge first.toList second.toList, increasing_merge first.increasing second.increasing⟩

instance : Union PathSet := ⟨union⟩

def singleton (path : Text) : PathSet :=
  ⟨[path], List.pairwise_singleton _ _⟩

def insert (path : Text) (set : PathSet) : PathSet :=
  singleton path ∪ set

def ofList (paths : List Text) : PathSet :=
  paths.foldr insert ∅

def size (set : PathSet) : Nat :=
  set.toList.length

theorem mem_def {path : Text} {set : PathSet} : path ∈ set ↔ path ∈ set.toList :=
  Iff.rfl

@[simp] theorem not_mem_empty {path : Text} : ¬path ∈ (∅ : PathSet) :=
  List.not_mem_nil

@[simp] theorem mem_union {path : Text} {first second : PathSet} :
    path ∈ first ∪ second ↔ path ∈ first ∨ path ∈ second :=
  mem_merge _ _

@[simp] theorem mem_insert {path other : Text} {set : PathSet} :
    other ∈ set.insert path ↔ other = path ∨ other ∈ set := by
  change other ∈ singleton path ∪ set ↔ _
  rw [mem_union]
  simp [singleton, mem_def]

@[simp] theorem mem_ofList {path : Text} {paths : List Text} :
    path ∈ ofList paths ↔ path ∈ paths := by
  induction paths with
  | nil => simp [ofList]
  | cons first rest ih =>
    change path ∈ (ofList rest).insert first ↔ _
    rw [mem_insert, ih, List.mem_cons]

end PathSet

end Rebuild
