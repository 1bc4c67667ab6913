import Mathlib

/-!
# The hash table of object handles

`ramht_hash` of `hw/xbox/nv2a/pfifo.c`, and when it passes the assertion of `ramht_lookup`.
-/

namespace DukeX.Nv2a

def foldHandle (bits : Nat) : Nat → Nat → Nat → Nat
  | 0, hash, _ => hash
  | rounds + 1, hash, handle =>
    if handle = 0 then hash
    else foldHandle bits rounds (hash ^^^ (handle &&& (2 ^ bits - 1))) (handle >>> bits)

def ramhtHash (size channelId handle : Nat) : Nat :=
  let bits := size + 12 - 1
  foldHandle bits 32 0 handle ^^^ (channelId <<< (bits - 4))

theorem foldHandle_zero (bits rounds hash : Nat) : foldHandle bits rounds hash 0 = hash := by
  cases rounds with
  | zero => rfl
  | succ rounds => rw [foldHandle, if_pos rfl]

theorem foldHandle_succ (bits rounds hash handle : Nat) :
    foldHandle bits (rounds + 1) hash handle =
      foldHandle bits rounds (hash ^^^ (handle % 2 ^ bits)) (handle >>> bits) := by
  rw [foldHandle, Nat.and_two_pow_sub_one_eq_mod]
  split
  next h => simp [h, foldHandle_zero]
  next => rfl

def handleBit (size handle i : Nat) : Bool :=
  decide (i < 4) && (handle.testBit (size + 7 + i) ^^ handle.testBit (2 * size + 18 + i) ^^
    handle.testBit (3 * size + 29 + i))

theorem testBit_ramhtHash {size channelId handle : Nat} (hh : handle < 2 ^ 32) (i : Nat) :
    (ramhtHash size channelId handle).testBit (size + 7 + i) =
      (handleBit size handle i ^^ channelId.testBit i) := by
  -- Three rounds use up a handle of 32 bits.
  have hsmall : handle >>> (size + 11) >>> (size + 11) >>> (size + 11) = 0 := by
    rw [← Nat.shiftRight_add, ← Nat.shiftRight_add]
    apply Nat.shiftRight_eq_zero
    exact hh.trans_le (Nat.pow_le_pow_right Nat.two_pos (by omega))
  have hnext : size + 11 + (size + 7 + i) = 2 * size + 18 + i := by omega
  have hlast : size + 11 + (2 * size + 18 + i) = 3 * size + 29 + i := by omega
  have hlow : size + 7 + i < size + 11 ↔ i < 4 := by omega
  change (foldHandle (size + 11) 32 0 handle ^^^ channelId <<< (size + 7)).testBit _ = _
  rw [foldHandle_succ, foldHandle_succ, foldHandle_succ, hsmall, foldHandle_zero]
  simp only [Nat.testBit_xor, Nat.testBit_mod_two_pow, Nat.testBit_shiftRight, Nat.zero_testBit,
    Nat.testBit_shiftLeft, hnext, hlast, hlow, Nat.add_sub_cancel_left, handleBit]
  cases decide (i < 4) <;> simp

/-- **A handle hashes into the table** exactly when, in the three highest bits of the hash, what comes
from the handle is what comes from the channel. -/
theorem ramhtHash_inside_iff (size channelId handle : Nat) (hc : channelId < 32)
    (hh : handle < 2 ^ 32) :
    ramhtHash size channelId handle * 8 < 2 ^ (size + 12) ↔
      ∀ i ∈ [2, 3, 4], handleBit size handle i = channelId.testBit i := by
  have hpow : 2 ^ (size + 12) = 2 ^ (size + 9) * 8 := Nat.pow_add 2 (size + 9) 3
  rw [hpow, Nat.mul_lt_mul_right (by decide)]
  constructor
  · intro hlt i hi
    have hge : 2 ≤ i := by
      revert i
      decide
    have hbit : (ramhtHash size channelId handle).testBit (size + 7 + i) = false :=
      Nat.testBit_lt_two_pow (hlt.trans_le (Nat.pow_le_pow_right Nat.two_pos (by omega)))
    rw [testBit_ramhtHash hh] at hbit
    exact bne_eq_false_iff_eq.mp hbit
  · intro hcancel
    apply Nat.lt_pow_two_of_testBit
    intro j hj
    obtain ⟨i, rfl⟩ := Nat.exists_eq_add_of_le (show size + 7 ≤ j by omega)
    rw [testBit_ramhtHash hh]
    by_cases hi : i < 5
    · have hmem : i ∈ [2, 3, 4] := by simp; omega
      rw [hcancel i hmem, Bool.xor_self]
    · have hbit : channelId.testBit i = false :=
        Nat.testBit_lt_two_pow (hc.trans_le (Nat.pow_le_pow_right Nat.two_pos (Nat.le_of_not_lt hi)))
      rw [handleBit, hbit, decide_eq_false (by omega)]
      rfl

theorem ramhtHash_inside_small : ramhtHash 0 0 0x1FF * 8 < 2 ^ 12 :=
  (ramhtHash_inside_iff 0 0 0x1FF (by decide) (by decide)).mpr (by decide)

/-- In a table of 4 KiB the handle 0x200 hashes to the first byte after it. -/
theorem ramhtHash_outside : ramhtHash 0 0 0x200 * 8 = 2 ^ 12 := by decide

end DukeX.Nv2a
