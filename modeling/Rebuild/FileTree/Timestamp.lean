/-!
# Modification times

A modification time is kept to the nanosecond but compared at the precision of a double: the
nanoseconds are turned into seconds and added to the whole seconds, and each of these two steps
rounds to 53 significant bits.  Far from the epoch two times a few nanoseconds apart are therefore
equal.  All values involved are multiples of `2 ^ -82`, so the comparison is one of integers in
that unit.
-/

namespace Rebuild

/-- Nanoseconds since the epoch. -/
structure Timestamp where
  nanoseconds : Int
  deriving DecidableEq

namespace Timestamp

def perSecond : Int := 1000000000

def ofSeconds (seconds nanoseconds : Int) : Timestamp :=
  ⟨seconds * perSecond + nanoseconds⟩

/-- The nearest number of at most 53 significant bits; a tie goes to the even one. -/
def roundNat (n : Nat) : Nat :=
  let unit := Nat.pow 2 (Nat.log2 n - 52)
  let quotient := n / unit
  let twice := 2 * (n % unit)
  if twice < unit ∨ (twice = unit ∧ quotient % 2 = 0) then quotient * unit
  else (quotient + 1) * unit

def round (n : Int) : Int :=
  if n < 0 then -(roundNat n.natAbs : Int) else roundNat n.natAbs

/-- A second in the unit of comparison: the 82nd power of two. -/
def second : Int := 4835703278458516698824704

/-- The double nearest to a billionth of a second, in the unit of comparison. -/
def billionth : Int := 4835703278458517

/-- The time as it is compared. -/
def instant (time : Timestamp) : Int :=
  let seconds := time.nanoseconds.fdiv perSecond
  let fraction := time.nanoseconds.fmod perSecond
  round (seconds * second + round (billionth * fraction))

def isBefore (first second : Timestamp) : Bool :=
  first.instant < second.instant

end Timestamp

end Rebuild
