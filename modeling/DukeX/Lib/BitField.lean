import Mathlib

/-!
# Bit fields of a word

A mask picks a field of a word; reading shifts the field down to bit zero, writing shifts the value
up and leaves the bits outside the mask alone.
-/

namespace DukeX.Lib

variable {w : Nat}

def getMask (v mask : BitVec w) : BitVec w :=
  (v &&& mask) >>> mask.ctz.toNat

def setMask (v mask x : BitVec w) : BitVec w :=
  (v &&& ~~~mask) ||| ((x <<< mask.ctz.toNat) &&& mask)

theorem or_and_of_disjoint {w : Nat} {a b : BitVec w} (x : BitVec w) (h : a &&& b = 0) :
    (x ||| a) &&& b = x &&& b := by
  apply BitVec.eq_of_getElem_eq
  intro i hi
  have hbit : (a[i] && b[i]) = false := by
    rw [← BitVec.getElem_and, h]
    exact BitVec.getElem_zero hi
  rw [BitVec.getElem_and, BitVec.getElem_and, BitVec.getElem_or, Bool.and_or_distrib_right, hbit,
    Bool.or_false]

end DukeX.Lib
