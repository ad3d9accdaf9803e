/-!
# Code points

A text is a sequence of code points.  Almost all of them are characters; the others are the halves
of surrogate pairs, one of which may stand by itself where an escape spells it.  Such a half has a
place in the order of the code points, but UTF-8 has no form for it.
-/

namespace Rebuild

inductive CodePoint where
  | char (c : Char)
  | half (offset : Fin 0x800)
  deriving DecidableEq

namespace CodePoint

instance : Coe Char CodePoint := ⟨char⟩

def firstHalf : Nat := 0xd800

def toNat : CodePoint → Nat
  | .char c => c.toNat
  | .half offset => firstHalf + offset

def isHalf : CodePoint → Bool
  | .char _ => false
  | .half _ => true

/-- The code point of a number of at most four hexadecimal digits. -/
def ofUnit (unit : Nat) : CodePoint :=
  if firstHalf ≤ unit then
    if h : unit - firstHalf < 0x800 then .half ⟨unit - firstHalf, h⟩ else .char (Char.ofNat unit)
  else .char (Char.ofNat unit)

instance : LT CodePoint := ⟨fun first second => first.toNat < second.toNat⟩

instance : LE CodePoint := ⟨fun first second => first.toNat ≤ second.toNat⟩

instance (first second : CodePoint) : Decidable (first < second) :=
  inferInstanceAs (Decidable (first.toNat < second.toNat))

instance (first second : CodePoint) : Decidable (first ≤ second) :=
  inferInstanceAs (Decidable (first.toNat ≤ second.toNat))

theorem toNat_ne_of_half (c : Char) (offset : Fin 0x800) : c.toNat ≠ firstHalf + offset := by
  have hoffset := offset.isLt
  rcases c.valid with hlow | ⟨hhigh, _⟩
  · have : c.toNat < 0xd800 := hlow
    simp only [firstHalf]
    omega
  · have : 0xdfff < c.toNat := hhigh
    simp only [firstHalf]
    omega

theorem toNat_injective {first second : CodePoint} (h : first.toNat = second.toNat) :
    first = second := by
  cases first with
  | char c =>
    cases second with
    | char d => exact congrArg char (Char.toNat_inj.1 h)
    | half offset => exact (toNat_ne_of_half c offset h).elim
  | half offset =>
    cases second with
    | char d => exact (toNat_ne_of_half d offset h.symm).elim
    | half other => exact congrArg half (Fin.ext (Nat.add_left_cancel h))

instance : Std.LawfulOrderLT CodePoint := ⟨fun first second =>
  (Nat.lt_iff_le_and_not_ge (m := first.toNat) (n := second.toNat))⟩

instance : Std.IsLinearOrder CodePoint where
  le_refl _ := Nat.le_refl _
  le_trans _ _ _ := Nat.le_trans
  le_antisymm _ _ hle hge := toNat_injective (Nat.le_antisymm hle hge)
  le_total first second := Nat.le_total first.toNat second.toNat

end CodePoint

end Rebuild
