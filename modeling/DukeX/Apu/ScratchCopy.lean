import DukeX.Lib.Store

/-!
# The scratch circular buffer

`scratch_circular_copy` of `hw/xbox/mcpx/apu/dsp/dsp_dma.c` moves bytes between a buffer and a
circle of scratch memory, a run up to the wrap at a time.
-/

namespace DukeX.Apu

open Lib

structure Transfer where
  buf : Store
  scratch : Store

def rwByte (direction : Bool) (i addr : Nat) (t : Transfer) : Transfer :=
  if direction then { t with scratch := Function.update t.scratch addr (t.buf i) }
  else { t with buf := Function.update t.buf i (t.scratch addr) }

def scratchRw (direction : Bool) (bufOffset addr len : Nat) (t : Transfer) : Transfer :=
  (List.range len).foldl
    (fun t j => rwByte direction (bufOffset + j) ((addr + j) % 2 ^ 32) t) t

def copyLoop (base size : Nat) (direction : Bool) :
    Nat → Nat → Nat → Nat → Transfer → Option (Transfer × Nat)
  | _, offset, 0, _, t => some (t, offset)
  | 0, _, _ + 1, _, _ => none
  | fuel + 1, offset, transferSize + 1, bufOffset, t =>
    let bytesUntilWrap := size - offset
    let chunk := min (transferSize + 1) bytesUntilWrap
    let t := scratchRw direction bufOffset ((base + offset) % 2 ^ 32) chunk t
    let offset := offset + chunk
    let offset := if offset ≥ size then 0 else offset
    copyLoop base size direction fuel offset (transferSize + 1 - chunk) (bufOffset + chunk) t

def scratchCircularCopy (fuel base offset size transferSize : Nat) (direction : Bool)
    (t : Transfer) : Option (Transfer × Nat) :=
  copyLoop base size direction fuel (if offset ≥ size then 0 else offset) transferSize 0 t

def circular (base size offset bufOffset count : Nat) (direction : Bool) (t : Transfer) : Transfer :=
  (List.range count).foldl
    (fun t i => rwByte direction (bufOffset + i) ((base + (offset + i) % size) % 2 ^ 32) t) t

variable {base size offset bufOffset : Nat} {direction : Bool} {t : Transfer}

theorem scratchRw_eq {len : Nat} (h : offset + len ≤ size) :
    scratchRw direction bufOffset ((base + offset) % 2 ^ 32) len t =
      circular base size offset bufOffset len direction t := by
  apply List.foldl_ext
  intro t j hj
  have hlt := List.mem_range.mp hj
  rw [Nat.mod_add_mod, Nat.add_assoc, Nat.mod_eq_of_lt (a := offset + j) (by omega)]

theorem circular_add (a b : Nat) :
    circular base size offset bufOffset (a + b) direction t =
      circular base size ((offset + a) % size) (bufOffset + a) b direction
        (circular base size offset bufOffset a direction t) := by
  simp only [circular, List.range_add, List.foldl_append, List.foldl_map, Nat.mod_add_mod,
    Nat.add_assoc]

theorem copyLoop_eq {fuel transferSize : Nat} (hoffset : offset < size)
    (hfuel : transferSize ≤ fuel) :
    copyLoop base size direction fuel offset transferSize bufOffset t =
      some (circular base size offset bufOffset transferSize direction t,
        (offset + transferSize) % size) := by
  induction fuel generalizing offset transferSize bufOffset t with
  | zero =>
    obtain rfl := Nat.le_zero.mp hfuel
    exact congrArg (fun o => some (t, o)) (Nat.mod_eq_of_lt hoffset).symm
  | succ fuel ih =>
    cases transferSize with
    | zero => exact congrArg (fun o => some (t, o)) (Nat.mod_eq_of_lt hoffset).symm
    | succ count =>
      simp only [copyLoop]
      generalize hchunk : min (count + 1) (size - offset) = chunk
      -- The code compares with the end; a run never passes it, so that is the remainder.
      have hwrap : (if offset + chunk ≥ size then 0 else offset + chunk) =
          (offset + chunk) % size := by
        split
        next h =>
          have hfull : offset + chunk = size := by omega
          rw [hfull, Nat.mod_self]
        next h => exact (Nat.mod_eq_of_lt (by omega)).symm
      have hcount : count + 1 = chunk + (count + 1 - chunk) := by omega
      have hrun : offset + chunk ≤ size := by omega
      rw [hwrap, ih (Nat.mod_lt _ (by omega)) (by omega), scratchRw_eq hrun]
      generalize count + 1 - chunk = rest at hcount
      rw [hcount, circular_add, Nat.mod_add_mod, Nat.add_assoc]

/-- **The copy is modular**: it ends, byte `i` goes to or comes from the scratch address `o + i` steps
around the circle, and the offset has gone around with it. -/
theorem scratchCircularCopy_modular (fuel base offset size length : Nat) (direction : Bool)
    (t : Transfer) (hsize : 1 ≤ size) (hfuel : length ≤ fuel) :
    let o := if offset < size then offset else 0
    scratchCircularCopy fuel base offset size length direction t =
      some ((List.range length).foldl
        (fun t i => rwByte direction i ((base + (o + i) % size) % 2 ^ 32) t) t,
        (o + length) % size) := by
  intro o
  have ho : (if offset ≥ size then 0 else offset) = o := by
    simp only [o]
    split <;> split <;> omega
  have hlt : o < size := by
    simp only [o]
    split <;> omega
  rw [scratchCircularCopy, ho, copyLoop_eq hlt hfuel]
  simp only [circular, Nat.zero_add]

theorem scratchCircularCopy_twice :
    (scratchCircularCopy 7 0x100 2 3 7 true ⟨fun i => UInt8.ofNat i, fun _ => 0⟩).map
      (fun r => (r.1.scratch.read 0x0FF 5, r.2)) = some ([0, 4, 5, 6, 0], 0) := by
  rw [scratchCircularCopy_modular 7 0x100 2 3 7 true _ (by decide) (by decide)]
  decide

end DukeX.Apu
