import DukeX.Lib.Store

/-!
# `Data` accessors

The private `Data` extension at the end of `FATXHDDCloudSaveStore.swift`: fixed-width integers read
from and written into a byte buffer with shifts and masks.
-/

namespace DukeX.Swift

open DukeX.Lib

abbrev Data := List UInt8

def byte (data : Data) (offset : Nat) : Nat := (data.getD offset 0).toNat

theorem byte_lt (data : Data) (offset : Nat) : byte data offset < 256 := UInt8.toNat_lt _

def uint16LE (data : Data) (offset : Nat) : Nat :=
  byte data offset ||| (byte data (offset + 1) <<< 8)

def uint32LE (data : Data) (offset : Nat) : Nat :=
  uint16LE data offset ||| (uint16LE data (offset + 2) <<< 16)

def uint32BE (data : Data) (offset : Nat) : Nat :=
  (byte data offset <<< 24) ||| (byte data (offset + 1) <<< 16) |||
    (byte data (offset + 2) <<< 8) ||| byte data (offset + 3)

def uint64BE (data : Data) (offset : Nat) : Nat :=
  (uint32BE data offset <<< 32) ||| uint32BE data (offset + 4)

def setByte (data : Data) (offset value : Nat) : Data := data.set offset (UInt8.ofNat (value &&& 0xFF))

def writeUInt16LE (data : Data) (value offset : Nat) : Data :=
  setByte (setByte data offset value) (offset + 1) (value >>> 8)

def writeUInt16BE (data : Data) (value offset : Nat) : Data :=
  setByte (setByte data offset (value >>> 8)) (offset + 1) value

def writeUInt32LE (data : Data) (value offset : Nat) : Data :=
  writeUInt16LE (writeUInt16LE data (value &&& 0xFFFF) offset) ((value >>> 16) &&& 0xFFFF)
    (offset + 2)

def writeUInt64BE (data : Data) (value offset : Nat) : Data :=
  let d := setByte data offset (value >>> 56)
  let d := setByte d (offset + 1) (value >>> 48)
  let d := setByte d (offset + 2) (value >>> 40)
  let d := setByte d (offset + 3) (value >>> 32)
  let d := setByte d (offset + 4) (value >>> 24)
  let d := setByte d (offset + 5) (value >>> 16)
  let d := setByte d (offset + 6) (value >>> 8)
  setByte d (offset + 7) value

/-! ## Reads are positional values -/

variable {a b i value offset offset' : Nat}

theorem or_shiftLeft (h : a < 2 ^ i) : a ||| (b <<< i) = a + 2 ^ i * b := by
  rw [Nat.or_comm, ← Nat.shiftLeft_add_eq_or_of_lt h, Nat.shiftLeft_eq]
  ring

theorem shiftLeft_or (h : a < 2 ^ i) : (b <<< i) ||| a = a + 2 ^ i * b := by
  rw [Nat.or_comm, or_shiftLeft h]

section

variable (data : Data) (offset : Nat)

theorem uint16LE_eq :
    uint16LE data offset = byte data offset + 256 * byte data (offset + 1) :=
  or_shiftLeft (byte_lt data offset)

theorem uint16LE_lt : uint16LE data offset < 2 ^ 16 := by
  grind [byte_lt, uint16LE_eq]

theorem uint32LE_eq :
    uint32LE data offset = byte data offset + 256 * (byte data (offset + 1) +
      256 * (byte data (offset + 2) + 256 * byte data (offset + 3))) := by
  grind [uint16LE_lt, uint32LE, or_shiftLeft, uint16LE_eq]

theorem uint32LE_lt : uint32LE data offset < 2 ^ 32 := by
  grind [byte_lt, uint32LE_eq]

theorem uint32BE_eq :
    uint32BE data offset = byte data (offset + 3) + 256 * (byte data (offset + 2) +
      256 * (byte data (offset + 1) + 256 * byte data offset)) := by
  have h1 := byte_lt data (offset + 1)
  have h2 := byte_lt data (offset + 2)
  have h3 := byte_lt data (offset + 3)
  have e1 : (byte data offset <<< 24) ||| (byte data (offset + 1) <<< 16)
      = (byte data (offset + 1) + 2 ^ 8 * byte data offset) <<< 16 := by
    rw [show byte data offset <<< 24 = (byte data offset <<< 8) <<< 16 by
      rw [← Nat.shiftLeft_add], ← Nat.shiftLeft_or_distrib, shiftLeft_or (by omega)]
  have e2 : (byte data offset <<< 24) ||| (byte data (offset + 1) <<< 16) |||
      (byte data (offset + 2) <<< 8) = (byte data (offset + 2) + 2 ^ 8 *
        (byte data (offset + 1) + 2 ^ 8 * byte data offset)) <<< 8 := by
    rw [e1, show (byte data (offset + 1) + 2 ^ 8 * byte data offset) <<< 16
      = ((byte data (offset + 1) + 2 ^ 8 * byte data offset) <<< 8) <<< 8 by
      rw [← Nat.shiftLeft_add], ← Nat.shiftLeft_or_distrib, shiftLeft_or (by omega)]
  unfold uint32BE
  rw [e2, shiftLeft_or (by omega)]
  ring

theorem uint32BE_lt : uint32BE data offset < 2 ^ 32 := by
  grind [byte_lt, uint32BE_eq]

theorem uint64BE_eq :
    uint64BE data offset = uint32BE data (offset + 4) + 2 ^ 32 * uint32BE data offset :=
  shiftLeft_or (uint32BE_lt data (offset + 4))

theorem uint64BE_lt : uint64BE data offset < 2 ^ 64 := by
  grind [uint32BE_lt, uint64BE_eq]

end

theorem uint64BE_read (b : Store) (offset : Nat) {count k : Nat} (hk : k + 8 ≤ count) :
    uint64BE (b.read offset count) k = uint64BE (b.read (offset + k) 8) 0 := by
  have hbyte : ∀ i, i < 8 → byte (b.read offset count) (k + i) = byte (b.read (offset + k) 8) i := by
    grind [byte, Store.getD_read]
  simp only [uint64BE_eq, uint32BE_eq, Nat.add_assoc, Nat.zero_add, Nat.reduceAdd]
  grind

/-! ## Writes, byte by byte -/

section

variable (data : Data)

@[simp] theorem length_setByte (offset value : Nat) :
    (setByte data offset value).length = data.length := by
  simp [setByte]

theorem byte_setByte (offset value i : Nat) :
    byte (setByte data offset value) i =
      if offset = i ∧ i < data.length then value % 256 else byte data i := by
  have hmask : value &&& 0xFF = value % 256 := Nat.and_two_pow_sub_one_eq_mod value 8
  unfold byte setByte
  simp only [List.getD_eq_getElem?_getD, List.getElem?_set, hmask]
  by_cases h : offset = i
  · subst h
    by_cases hl : offset < data.length
    · simp [hl]
    · simp [hl]
  · simp [h]

@[simp] theorem length_writeUInt16LE (value offset : Nat) :
    (writeUInt16LE data value offset).length = data.length := by
  simp [writeUInt16LE]

@[simp] theorem length_writeUInt32LE (value offset : Nat) :
    (writeUInt32LE data value offset).length = data.length := by
  simp [writeUInt32LE]

theorem byte_writeUInt16LE (value offset i : Nat) :
    byte (writeUInt16LE data value offset) i =
      if offset + 1 = i ∧ i < data.length then value / 256 % 256
      else if offset = i ∧ i < data.length then value % 256 else byte data i := by
  simp only [writeUInt16LE, byte_setByte, length_setByte, Nat.shiftRight_eq_div_pow]

theorem byte_writeUInt32LE (value offset i : Nat) :
    byte (writeUInt32LE data value offset) i =
      if offset ≤ i ∧ i < offset + 4 ∧ i < data.length
      then value / 256 ^ (i - offset) % 256 else byte data i := by
  have h0 : value &&& 0xFFFF = value % 65536 := Nat.and_two_pow_sub_one_eq_mod value 16
  have h1 : value >>> 16 &&& 0xFFFF = value / 65536 % 65536 := by
    rw [show (0xFFFF : Nat) = 2 ^ 16 - 1 by norm_num, Nat.and_two_pow_sub_one_eq_mod,
      Nat.shiftRight_eq_div_pow]
  simp only [writeUInt32LE, byte_writeUInt16LE, length_writeUInt16LE, h0, h1]
  by_cases hi : offset ≤ i ∧ i < offset + 4
  · obtain ⟨k, rfl⟩ := Nat.exists_eq_add_of_le hi.1
    have hk : k < 4 := by omega
    simp only [Nat.add_sub_cancel_left]
    interval_cases k <;> simp <;> split <;> omega
  · rw [if_neg (by omega), if_neg (by omega), if_neg (by omega), if_neg (by omega),
      if_neg (by omega)]

theorem uint32LE_writeUInt32LE (hv : value < 2 ^ 32)
    (hl : offset + 4 ≤ data.length) : uint32LE (writeUInt32LE data value offset) offset = value := by
  rw [uint32LE_eq]
  simp only [byte_writeUInt32LE]
  rw [if_pos (by omega), if_pos (by omega), if_pos (by omega), if_pos (by omega)]
  simp only [Nat.sub_self, Nat.add_sub_cancel_left]
  omega

theorem uint32LE_writeUInt32LE_of_disjoint (h : offset' + 4 ≤ offset ∨ offset + 4 ≤ offset') :
    uint32LE (writeUInt32LE data value offset) offset' = uint32LE data offset' := by
  rw [uint32LE_eq, uint32LE_eq]
  simp only [byte_writeUInt32LE]
  rw [if_neg (by omega), if_neg (by omega), if_neg (by omega), if_neg (by omega)]

theorem uint32LE_writeUInt16LE_of_disjoint (h : offset' + 4 ≤ offset ∨ offset + 2 ≤ offset') :
    uint32LE (writeUInt16LE data value offset) offset' = uint32LE data offset' := by
  rw [uint32LE_eq, uint32LE_eq]
  simp only [byte_writeUInt16LE]
  grind

end

theorem writeUInt16LE_fresh (value : Nat) :
    writeUInt16LE (List.replicate 2 0) value 0 = leBytes 2 value := by
  have h0 : value &&& 0xFF = value % 256 := Nat.and_two_pow_sub_one_eq_mod value 8
  have h1 : value >>> 8 &&& 0xFF = value / 256 % 256 := by
    rw [show (0xFF : Nat) = 2 ^ 8 - 1 by norm_num, Nat.and_two_pow_sub_one_eq_mod,
      Nat.shiftRight_eq_div_pow]
  simp [writeUInt16LE, setByte, leBytes, List.replicate, h0, h1]

theorem writeUInt32LE_fresh (value : Nat) :
    writeUInt32LE (List.replicate 4 0) value 0 = leBytes 4 value := by
  refine List.ext_getElem (by simp) fun i h1 h2 => ?_
  have hi : i < 4 := by simpa using h1
  have key := byte_writeUInt32LE (List.replicate 4 0) value 0 i
  rw [if_pos ⟨Nat.zero_le _, by omega, by simpa using hi⟩] at key
  rw [byte, List.getD_eq_getElem?_getD, List.getElem?_eq_getElem h1, Option.getD_some] at key
  refine UInt8.toNat_inj.mp (key.trans ?_)
  interval_cases i <;> simp [leBytes, Nat.div_div_eq_div_mul]

theorem length_writeUInt64BE (data : Data) (value offset : Nat) :
    (writeUInt64BE data value offset).length = data.length := by
  simp [writeUInt64BE]

theorem length_writeUInt16BE (data : Data) (value offset : Nat) :
    (writeUInt16BE data value offset).length = data.length := by
  simp [writeUInt16BE]

theorem uint64BE_writeUInt64BE_fresh (h : value < 2 ^ 64) :
    uint64BE (writeUInt64BE (List.replicate 8 0) value 0) 0 = value := by
  rw [uint64BE_eq, uint32BE_eq, uint32BE_eq]
  simp only [writeUInt64BE, byte_setByte, length_setByte, List.length_replicate,
    Nat.shiftRight_eq_div_pow]
  norm_num
  omega

end DukeX.Swift
