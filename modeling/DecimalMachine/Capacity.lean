/-
  Capacity: how many cells or characters there can be in a row.
-/
namespace DecimalMachine

/-- Why there cannot be so many in a row: some would have no index, or there is no room. -/
inductive CapacityFault
  | noIndex
  | noRoom
deriving DecidableEq

namespace CapacityFault

/-- What is said of a fault. Nothing is said when there is no room. -/
def message : CapacityFault → String
  | noIndex => "cannot fit 'int' into an index-sized integer"
  | noRoom => ""

end CapacityFault

namespace Capacity

/-- An index takes 64 bits, one of them for the sign. -/
def indices : Nat := Nat.pow 2 63

/-- For so many there is room. -/
def room : Nat := Nat.pow 10 10

def check (count : Nat) : Except CapacityFault Unit :=
  if indices ≤ count then .error .noIndex
  else if room < count then .error .noRoom
  else .ok ()

theorem check_eq_ok_iff {count : Nat} : check count = .ok () ↔ count ≤ room := by
  have h : room < indices := by decide
  rw [check]
  grind

theorem lt_of_check {count : Nat} (h : check count = .ok ()) : count < indices :=
  Nat.lt_of_le_of_lt (check_eq_ok_iff.1 h) (by decide)

end Capacity

end DecimalMachine
