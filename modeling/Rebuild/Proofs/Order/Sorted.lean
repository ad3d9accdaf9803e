import Rebuild.Order.PathSet
import Rebuild.Order.Sort
import Mathlib.Tactic

/-!
# Sorted lists and sets

Sorting rearranges a list so that every element may stand before all that follow it, and texts
without repetition are then in strictly increasing order.  A set of paths is settled by its members.
-/

namespace Rebuild

namespace Order

/-! ## The library's sort -/

section Sorting

variable {α β : Type} {before : α → α → Bool} {xs : List α}

theorem insertBy_eq_orderedInsert (before : α → α → Bool) (x : α) (xs : List α) :
    insertBy before x xs = xs.orderedInsert (fun a b => before a b = true) x := by
  induction xs with
  | nil => rfl
  | cons y rest ih => rw [insertBy, List.orderedInsert_cons, ih]

theorem sortBy_eq_insertionSort (before : α → α → Bool) (xs : List α) :
    sortBy before xs = xs.insertionSort fun a b => before a b = true := by
  induction xs with
  | nil => rfl
  | cons x rest ih =>
      rw [List.insertionSort_cons, ← ih]
      exact insertBy_eq_orderedInsert before x _

theorem perm_sortBy (before : α → α → Bool) (xs : List α) : (sortBy before xs).Perm xs := by
  rw [sortBy_eq_insertionSort]
  exact List.perm_insertionSort _ xs

@[simp] theorem mem_sortBy {x : α} : x ∈ sortBy before xs ↔ x ∈ xs :=
  (perm_sortBy before xs).mem_iff

theorem pairwise_sortBy (htotal : ∀ a b, before a b = true ∨ before b a = true)
    (htrans : ∀ a b c, before a b = true → before b c = true → before a c = true)
    (xs : List α) : (sortBy before xs).Pairwise fun a b => before a b = true := by
  have := Std.Total.mk htotal
  have := IsTrans.mk htrans
  rw [sortBy_eq_insertionSort]
  exact List.pairwise_insertionSort _ xs

theorem map_sortBy (before : β → β → Bool) (f : α → β) (xs : List α) :
    (sortBy (fun a b => before (f a) (f b)) xs).map f = sortBy before (xs.map f) := by
  rw [sortBy_eq_insertionSort, sortBy_eq_insertionSort]
  exact List.map_insertionSort _ _ f xs fun _ _ _ _ => Iff.rfl

/-- Different elements of which one may stand before the other are in strict order. -/
theorem increasing_sortBy {lt : α → α → Prop}
    (htotal : ∀ a b, before a b = true ∨ before b a = true)
    (htrans : ∀ a b c, before a b = true → before b c = true → before a c = true)
    (hstrict : ∀ a b, before a b = true → a ≠ b → lt a b) (hdistinct : xs.Nodup) :
    (sortBy before xs).Pairwise lt := by
  have hnodup : (sortBy before xs).Nodup := (perm_sortBy _ xs).nodup_iff.2 hdistinct
  exact (pairwise_sortBy htotal htrans xs).imp₂ hstrict hnodup

end Sorting

theorem increasing_sortTexts {texts : List Text} (hdistinct : texts.Nodup) :
    (sortTexts texts).Pairwise (· < ·) := by
  apply increasing_sortBy _ _ _ hdistinct
  · intro a b
    simpa using Text.le_total a b
  · intro a b c hab hbc
    simp only [decide_eq_true_eq] at hab hbc ⊢
    exact Text.le_trans hab hbc
  · intro a b hab hne
    simp only [decide_eq_true_eq] at hab
    exact Text.not_le.1 fun hba => hne (Text.le_antisymm hab hba)

theorem namesPrecede_iff {first second : List Text} :
    namesPrecede first second = true ↔ ¬second < first := by
  induction first generalizing second with
  | nil => simp [namesPrecede]
  | cons a as ih =>
      cases second with
      | nil => simp [namesPrecede]
      | cons b bs =>
          simp only [namesPrecede, Bool.or_eq_true, Bool.and_eq_true, decide_eq_true_eq,
            beq_iff_eq, ih, List.cons_lt_cons_iff, not_or, not_and]
          constructor
          · rintro (hlt | ⟨rfl, hrest⟩)
            · refine ⟨Text.lt_asymm hlt, ?_⟩
              rintro rfl
              exact (Text.lt_irrefl _ hlt).elim
            · exact ⟨Text.lt_irrefl _, fun _ => hrest⟩
          · rintro ⟨hle, hrest⟩
            by_cases hsame : b = a
            · exact .inr ⟨hsame.symm, hrest hsame⟩
            · refine .inl (Text.not_le.1 fun hba => ?_)
              exact hsame (Text.le_antisymm hba (Text.not_lt.1 hle))

theorem increasing_sortNames {lists : List (List Text)} (hdistinct : lists.Nodup) :
    (sortBy namesPrecede lists).Pairwise (· < ·) := by
  have hstrict (a b : List Text) (hab : ¬b < a) (hne : a ≠ b) : a < b := by
    by_contra hba
    exact hne (List.le_antisymm hab hba)
  apply increasing_sortBy _ _ _ hdistinct
  · intro a b
    rw [namesPrecede_iff, namesPrecede_iff, ← not_and_or]
    exact fun hboth => List.lt_asymm hboth.1 hboth.2
  · intro a b c hab hbc
    rw [namesPrecede_iff] at *
    intro hca
    by_cases hsame : a = b
    · exact hbc (hsame ▸ hca)
    · exact hbc (List.lt_trans hca (hstrict a b hab hsame))
  · intro a b hab hne
    exact hstrict a b (namesPrecede_iff.1 hab) hne

end Order

namespace PathSet

theorem nodup_toList (set : PathSet) : set.toList.Nodup :=
  set.increasing.imp (S := (· ≠ ·)) fun hlt => Text.ne_of_lt hlt

/-- A set that holds another one and has no more members is the same set. -/
theorem eq_of_subset_of_size_le {first second : PathSet}
    (hsubset : ∀ path ∈ first, path ∈ second) (hsize : second.size ≤ first.size) :
    first = second := by
  have hperm : first.toList.Perm second.toList :=
    (List.subperm_of_subset first.nodup_toList fun path hpath =>
      hsubset path hpath).perm_of_length_le hsize
  have hlist : first.toList = second.toList :=
    hperm.eq_of_pairwise (fun a b _ _ hab hba => (Text.lt_asymm hab hba).elim)
      first.increasing second.increasing
  cases first
  cases second
  cases hlist
  rfl

theorem ext_mem {first second : PathSet}
    (hmem : ∀ path, path ∈ first ↔ path ∈ second) : first = second := by
  have hperm : first.toList.Perm second.toList :=
    (List.perm_ext_iff_of_nodup first.nodup_toList second.nodup_toList).2 hmem
  exact eq_of_subset_of_size_le (fun path hpath => (hmem path).1 hpath) hperm.length_eq.ge

end PathSet

end Rebuild
