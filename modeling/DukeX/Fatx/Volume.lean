import DukeX.Swift.Data
import DukeX.Swift.Failure

/-!
# FATX geometry

`FATXVolume.init` and `layoutType`: where the allocation table and the data area of a partition lie.
-/

namespace DukeX.Fatx

open DukeX.Lib DukeX.Swift

def sectorSize : Nat := 512
def superblockSize : Nat := 4096
def fatxSignature : Data := [0x46, 0x41, 0x54, 0x58]

def roundUp (value alignment : Nat) : Nat := ((value + alignment - 1) / alignment) * alignment

theorem le_roundUp (value : Nat) {alignment : Nat} (h : 0 < alignment) :
    value ≤ roundUp value alignment := by
  have h1 := Nat.div_add_mod (value + alignment - 1) alignment
  have h2 := Nat.mod_lt (value + alignment - 1) h
  rw [Nat.mul_comm] at h1
  unfold roundUp
  omega

def checkedSub (a b : Nat) : Except Halt Nat :=
  if b ≤ a then .ok (a - b) else .error .trap

structure Layout where
  entrySize : Nat
  clusterCount : Nat
  fatSize : Nat
  entrySize_eq : entrySize = 2 ∨ entrySize = 4
  count_lt : clusterCount < 2 ^ 32
  count_small : entrySize = 2 → clusterCount < 65525
  fat_fits : clusterCount * entrySize ≤ fatSize

def layoutOf (entrySize clusters : Nat) (hs : entrySize = 2 ∨ entrySize = 4)
    (hc : entrySize = 2 → clusters < 65525) : Except Halt Layout :=
  if h : clusters < 2 ^ 32 then
    .ok
      { entrySize, clusterCount := clusters
        fatSize := roundUp (clusters * entrySize) superblockSize
        entrySize_eq := hs, count_lt := h, count_small := hc
        fat_fits := le_roundUp _ (by decide) }
  else .error .trap

def layoutClusters (partitionSize clusterSize entrySize : Nat) : Except Halt Nat := do
  let space ← checkedSub partitionSize superblockSize
  let estimated := space / (clusterSize + entrySize)
  let fatBytes := roundUp (max estimated 1 * entrySize) superblockSize
  let rest ← checkedSub space fatBytes
  return rest / clusterSize

def layoutType (partitionSize clusterSize : Nat) : Except Halt Layout := do
  let clusters ← layoutClusters partitionSize clusterSize 2
  if h : clusters < 65525 then
    layoutOf 2 clusters (.inl rfl) fun _ => h
  else
    let clusters ← layoutClusters partitionSize clusterSize 4
    if clusters ≥ 65525 then
      layoutOf 4 clusters (.inr rfl) fun h => absurd h (by decide)
    else
      -- neither width is self-consistent: the source falls back to 32-bit entries
      let space ← checkedSub partitionSize superblockSize
      layoutOf 4 (space / (clusterSize + 4)) (.inr rfl) fun h => absurd h (by decide)

/-- An opened FATX partition. -/
structure FATXVolume where
  partitionStart : Nat
  partitionSize : Nat
  sectorsPerCluster : Nat
  rootDirectoryCluster : Nat
  entrySize : Nat
  clusterSize : Nat
  fatStart : Nat
  dataStart : Nat
  clusterCount : Nat
  sectors_pos : 0 < sectorsPerCluster
  root_pos : 0 < rootDirectoryCluster
  clusterSize_eq : clusterSize = sectorsPerCluster * sectorSize
  entrySize_eq : entrySize = 2 ∨ entrySize = 4
  count_lt : clusterCount < 2 ^ 32
  count_small : entrySize = 2 → clusterCount < 65525
  fat_fits : fatStart + clusterCount * entrySize ≤ dataStart

def FATXVolume.init (partitionStart partitionSize : Nat) (header : Data) :
    Except Halt FATXVolume := do
  let sectorsPerCluster := uint32LE header 8
  let rootDirectoryCluster := uint32LE header 12
  if h : 0 < sectorsPerCluster ∧ 0 < rootDirectoryCluster then
    let type ← layoutType partitionSize (sectorsPerCluster * sectorSize)
    return {
      partitionStart, partitionSize, sectorsPerCluster, rootDirectoryCluster
      entrySize := type.entrySize
      clusterSize := sectorsPerCluster * sectorSize
      fatStart := partitionStart + superblockSize
      dataStart := partitionStart + superblockSize + type.fatSize
      clusterCount := type.clusterCount
      sectors_pos := h.1
      root_pos := h.2
      clusterSize_eq := rfl
      entrySize_eq := type.entrySize_eq
      count_lt := type.count_lt
      count_small := type.count_small
      fat_fits := Nat.add_le_add_left type.fat_fits _ }
  else throw (.thrown .invalidFATXVolume)

namespace FATXVolume

variable (v : FATXVolume)

def fatOffset (cluster : Nat) : Nat := v.fatStart + (cluster - 1) * v.entrySize

def dataOffset (cluster : Nat) : Nat := v.dataStart + (cluster - 1) * v.clusterSize

def endOfChainValue : Nat := if v.entrySize = 2 then 0xFFF8 else 0xFFFFFFF8

def isEndOfChain (value : Nat) : Bool :=
  if v.entrySize = 2 then 0xFFF8 ≤ value else 0xFFFFFFF8 ≤ value

def inRange (cluster : Nat) : Bool := 0 < cluster ∧ cluster ≤ v.clusterCount

def recordsPerCluster : Nat := v.clusterSize / 64

variable {v}

variable {c c' : Nat}

theorem inRange_iff : v.inRange c = true ↔ 0 < c ∧ c ≤ v.clusterCount := by
  simp [inRange]

theorem isEndOfChain_iff {x : Nat} : v.isEndOfChain x = true ↔ v.endOfChainValue ≤ x := by
  unfold isEndOfChain endOfChainValue
  split <;> simp

theorem isEndOfChain_endOfChainValue : v.isEndOfChain v.endOfChainValue = true :=
  isEndOfChain_iff.mpr (Nat.le_refl _)

theorem endOfChainValue_pos : 0 < v.endOfChainValue := by
  unfold endOfChainValue; split <;> decide

theorem endOfChainValue_lt : v.endOfChainValue < 256 ^ v.entrySize := by
  unfold endOfChainValue
  rcases v.entrySize_eq with h | h <;> simp [h]

theorem clusterSize_pos : 0 < v.clusterSize := by
  rw [v.clusterSize_eq]
  exact Nat.mul_pos v.sectors_pos (by decide)

theorem recordsPerCluster_mul : 64 * v.recordsPerCluster = v.clusterSize := by
  rw [recordsPerCluster, v.clusterSize_eq]
  unfold sectorSize
  omega

theorem recordsPerCluster_pos : 0 < v.recordsPerCluster := by
  have h1 := v.recordsPerCluster_mul
  have h2 := v.clusterSize_pos
  omega

theorem inRange_lt (h : v.inRange c = true) : c < 256 ^ v.entrySize := by
  have hc := (inRange_iff.mp h).2
  rcases v.entrySize_eq with hs | hs
  · have := v.count_small hs
    rw [hs]; norm_num; omega
  · have := v.count_lt
    rw [hs]; norm_num; omega

theorem inRange_lt_word (h : v.inRange c = true) : c < 2 ^ 32 :=
  (inRange_iff.mp h).2.trans_lt v.count_lt

theorem slots_disjoint (size : Nat) {i j : Nat} (hne : i ≠ j) :
    i * size + size ≤ j * size ∨ j * size + size ≤ i * size := by
  rw [← Nat.succ_mul, ← Nat.succ_mul]
  rcases Nat.lt_or_gt_of_ne hne with hlt | hlt
  · exact .inl (Nat.mul_le_mul_right size hlt)
  · exact .inr (Nat.mul_le_mul_right size hlt)

theorem fatOffset_disjoint (h : v.inRange c = true) (h' : v.inRange c' = true)
    (hne : c ≠ c') : v.fatOffset c + v.entrySize ≤ v.fatOffset c' ∨
      v.fatOffset c' + v.entrySize ≤ v.fatOffset c := by
  have hc := inRange_iff.mp h
  have hc' := inRange_iff.mp h'
  have hslots := slots_disjoint v.entrySize (show c - 1 ≠ c' - 1 by omega)
  unfold fatOffset
  omega

theorem dataOffset_disjoint (h : v.inRange c = true) (h' : v.inRange c' = true)
    (hne : c ≠ c') : v.dataOffset c + v.clusterSize ≤ v.dataOffset c' ∨
      v.dataOffset c' + v.clusterSize ≤ v.dataOffset c := by
  have hc := inRange_iff.mp h
  have hc' := inRange_iff.mp h'
  have hslots := slots_disjoint v.clusterSize (show c - 1 ≠ c' - 1 by omega)
  unfold dataOffset
  omega

theorem fatOffset_le_dataOffset (h : v.inRange c = true) (c' : Nat) :
    v.fatOffset c + v.entrySize ≤ v.dataOffset c' := by
  have hc := inRange_iff.mp h
  have hfit := v.fat_fits
  have := Nat.mul_le_mul_right v.entrySize (show (c - 1) + 1 ≤ v.clusterCount by omega)
  rw [Nat.add_mul] at this
  unfold fatOffset dataOffset
  omega

end FATXVolume

end DukeX.Fatx
