import Rebuild.Text.CodePoint

/-!
# Texts

Paths, names, patterns and messages are texts: finite sequences of code points, halves of surrogate
pairs included.  Texts are ordered by the first code point in which they differ.
-/

namespace Rebuild

structure Text where
  ofList ::
  toList : List CodePoint
  deriving DecidableEq

namespace Text

def ofString (string : String) : Text :=
  ⟨string.toList.map .char⟩

instance : Coe String Text := ⟨ofString⟩

instance : Inhabited Text := ⟨""⟩

instance : Append Text := ⟨fun first second => ⟨first.toList ++ second.toList⟩⟩

instance : LT Text := ⟨fun first second => first.toList < second.toList⟩

instance : LE Text := ⟨fun first second => first.toList ≤ second.toList⟩

instance (first second : Text) : Decidable (first < second) :=
  inferInstanceAs (Decidable (first.toList < second.toList))

instance (first second : Text) : Decidable (first ≤ second) :=
  inferInstanceAs (Decidable (first.toList ≤ second.toList))

def length (text : Text) : Nat :=
  text.toList.length

def map (change : CodePoint → CodePoint) (text : Text) : Text :=
  ⟨text.toList.map change⟩

/-- The texts one after the other, with a separator between them. -/
def intercalate (separator : Text) (texts : List Text) : Text :=
  ⟨separator.toList.intercalate (texts.map toList)⟩

variable {first second third : Text}

@[simp] theorem toList_inj : first.toList = second.toList ↔ first = second :=
  ⟨fun h => congrArg ofList h, fun h => congrArg toList h⟩

@[simp] theorem ofList_toList (text : Text) : ofList text.toList = text :=
  rfl

@[simp] theorem ofList_nil : ofList [] = "" :=
  rfl

theorem toList_ofList (points : List CodePoint) : (ofList points).toList = points :=
  rfl

@[simp] theorem toList_ofString (string : String) :
    (ofString string).toList = string.toList.map .char :=
  rfl

@[simp] theorem ofString_inj {front back : String} :
    ofString front = ofString back ↔ front = back := by
  rw [← toList_inj, toList_ofString, toList_ofString,
    List.map_inj_right fun _ _ => CodePoint.char.inj]
  exact String.toList_inj

@[simp] theorem toList_append : (first ++ second).toList = first.toList ++ second.toList :=
  rfl

@[simp] theorem toList_map {change : CodePoint → CodePoint} :
    (first.map change).toList = first.toList.map change :=
  rfl

@[simp] theorem toList_intercalate {texts : List Text} :
    (first.intercalate texts).toList = first.toList.intercalate (texts.map toList) :=
  rfl

@[simp] theorem intercalate_nil : first.intercalate [] = "" :=
  rfl

@[simp] theorem length_toList : first.toList.length = first.length :=
  rfl

@[simp] theorem toList_eq_nil_iff : first.toList = [] ↔ first = "" := by
  rw [← toList_inj]
  rfl

@[simp] theorem length_ofList (points : List CodePoint) :
    (ofList points).length = points.length :=
  rfl

theorem append_assoc : first ++ second ++ third = first ++ (second ++ third) :=
  congrArg ofList (List.append_assoc _ _ _)

@[simp] theorem empty_append : "" ++ first = first :=
  rfl

@[simp] theorem append_empty : first ++ "" = first :=
  congrArg ofList (List.append_nil _)

@[simp] theorem length_append : (first ++ second).length = first.length + second.length :=
  List.length_append

@[simp] theorem append_right_inj (text : Text) :
    text ++ first = text ++ second ↔ first = second := by
  rw [← toList_inj, ← toList_inj, toList_append, toList_append, List.append_right_inj]

@[simp] theorem append_left_inj (text : Text) :
    first ++ text = second ++ text ↔ first = second := by
  rw [← toList_inj, ← toList_inj, toList_append, toList_append, List.append_left_inj]

instance : Std.LawfulOrderLT Text := ⟨fun first second =>
  (Std.LawfulOrderLT.lt_iff (α := List CodePoint) first.toList second.toList)⟩

instance : Std.IsLinearOrder Text where
  le_refl _ := List.le_refl _
  le_trans _ _ _ := List.le_trans
  le_antisymm _ _ hle hge := toList_inj.1 (List.le_antisymm hle hge)
  le_total _ _ := List.le_total _ _

theorem lt_irrefl (text : Text) : ¬text < text :=
  List.lt_irrefl _

theorem lt_trans : first < second → second < third → first < third :=
  List.lt_trans

theorem lt_asymm : first < second → ¬second < first :=
  List.lt_asymm

theorem le_trans : first ≤ second → second ≤ third → first ≤ third :=
  List.le_trans

theorem le_total (first second : Text) : first ≤ second ∨ second ≤ first :=
  List.le_total _ _

theorem le_antisymm : first ≤ second → second ≤ first → first = second :=
  fun hle hge => toList_inj.1 (List.le_antisymm hle hge)

theorem not_lt : ¬first < second ↔ second ≤ first :=
  List.not_lt

theorem not_le : ¬first ≤ second ↔ second < first :=
  List.not_le

theorem ne_of_lt : first < second → first ≠ second := by
  rintro hlt rfl
  exact lt_irrefl _ hlt

end Text

end Rebuild
