import DukeX.Fatx.Volume

/-!
# The qcow2 image

`Qcow2DiskImage`, the disk image the save store opens when the HDD file starts with the qcow2 magic:
its header, the two-level map from guest to host clusters, and the allocation of host clusters with
their reference counts.
-/

namespace DukeX.Qcow2

open DukeX.Lib DukeX.Swift
open DukeX.Fatx (roundUp)

/-! ## The file -/

structure HostFile where
  bytes : Store
  size : Nat
  beyond : ∀ a, size ≤ a → bytes a = 0

def HostFile.write (f : HostFile) (offset : Nat) (data : Data) : HostFile where
  bytes := f.bytes.write offset data
  size := max f.size (if data = [] then 0 else offset + data.length)
  beyond a ha := by
    by_cases hd : data = []
    · rw [hd, Store.write_nil]
      exact f.beyond a (by omega)
    · rw [if_neg hd] at ha
      rw [Store.write_outside (by omega)]
      exact f.beyond a (by omega)

structure ImageState where
  file : HostFile
  l1Table : List Nat
  /-- One outcome for each call still to come, `true` for a failure; none left, none fails. -/
  faults : List Bool

abbrev ImageM := EStateM Halt ImageState

def handleCall : ImageM Unit := fun s =>
  match s.faults with
  | [] => .ok () s
  | false :: rest => .ok () { s with faults := rest }
  | true :: rest => .error .io { s with faults := rest }

def checked (value : Nat) : ImageM Nat := if value < 2 ^ 64 then return value else throw .trap

def toInt (value : Nat) : ImageM Nat := if value < 2 ^ 63 then return value else throw .trap

def seek (offset : Nat) : ImageM Unit := do
  handleCall
  if offset < 2 ^ 63 then return () else throw .io

def readHandle (offset count : Nat) : ImageM Data := do
  seek offset
  handleCall
  return (← get).file.bytes.read offset count

def writeHandle (offset : Nat) (data : Data) : ImageM Unit := do
  seek offset
  handleCall
  modify fun s => { s with file := s.file.write offset data }

def seekToEnd : ImageM Nat := do
  handleCall
  return (← get).file.size

def copiedFlag : Nat := 2 ^ 63
def compressedFlag : Nat := 2 ^ 62
def offsetMask : Nat := 0x00FFFFFFFFFFFE00

structure Qcow2DiskImage where
  readOnly : Bool
  clusterBits : Nat
  l1TableOffset : Nat
  l1Size : Nat
  refcountTableOffset : Nat
  refcountTableClusters : Nat
  virtualSize : Nat

namespace Qcow2DiskImage

variable (img : Qcow2DiskImage)

def clusterSize : Nat := if img.clusterBits < 64 then 2 ^ img.clusterBits else 0

def l2Entries : Nat := img.clusterSize / 8

def init (readOnly : Bool) : ImageM Qcow2DiskImage := do
  let header ← readHandle 0 104
  if uint32BE header 0 ≠ 0x514649FB then
    throw (.thrown (.unsupportedHDDFormat "The HDD image is not qcow2."))
  let version := uint32BE header 4
  if ¬ (version = 2 ∨ version = 3) then
    throw (.thrown (.unsupportedHDDFormat s!"Unsupported qcow2 version {version}."))
  if uint32BE header 32 ≠ 0 then
    throw (.thrown (.unsupportedHDDFormat "Encrypted qcow2 HDD images are not supported."))
  let incompatibleFeatures := if 3 ≤ version then uint64BE header 72 else 0
  if incompatibleFeatures &&& 0xFFFFFFFFFFFFFFFE ≠ 0 then
    throw (.thrown (.unsupportedHDDFormat
      "This qcow2 HDD uses unsupported incompatible features."))
  let img : Qcow2DiskImage :=
    { readOnly
      virtualSize := uint64BE header 24
      clusterBits := uint32BE header 20
      l1Size := uint32BE header 36
      l1TableOffset := uint64BE header 40
      refcountTableOffset := uint64BE header 48
      refcountTableClusters := uint32BE header 56 }
  let l1Data ← readHandle img.l1TableOffset (img.l1Size * 8)
  modify fun s => { s with l1Table := (List.range img.l1Size).map fun i => uint64BE l1Data (i * 8) }
  return img

/-! ## Host clusters -/

def writeZeroCluster (offset : Nat) : ImageM Unit := do
  let count ← toInt img.clusterSize
  writeHandle offset (List.replicate count 0)

def writeEntry (value offset : Nat) : ImageM Unit :=
  writeHandle offset (writeUInt64BE (List.replicate 8 0) value 0)

def tableEntries : ImageM Nat := do
  let bytes ← checked (img.refcountTableClusters * img.clusterSize)
  return bytes / 8

def entriesPerBlock : Nat := img.clusterSize / 2

def refcountBlock (count : Nat → ImageM Unit) (tableEntryOffset : Nat) : ImageM Nat := do
  let entry ← readHandle tableEntryOffset 8
  let blockOffset := uint64BE entry 0 &&& offsetMask
  if blockOffset ≠ 0 then return blockOffset
  else do
    let size ← seekToEnd
    let blockOffset := roundUp size img.clusterSize
    img.writeZeroCluster blockOffset
    writeEntry blockOffset tableEntryOffset
    count blockOffset
    return blockOffset

def setRefcountLoop : Nat → Nat → Nat → ImageM Unit
  | 0, _, _ => throw .trap
  | depth + 1, hostOffset, value => do
    let hostCluster := hostOffset / img.clusterSize
    let blockIndex := hostCluster / img.entriesPerBlock
    let entryIndex := hostCluster % img.entriesPerBlock
    let tableEntries ← img.tableEntries
    if blockIndex < tableEntries then do
      let tableEntryOffset ← checked (img.refcountTableOffset + blockIndex * 8)
      let blockOffset ← img.refcountBlock (fun o => setRefcountLoop depth o 1) tableEntryOffset
      writeHandle (blockOffset + entryIndex * 2) (writeUInt16BE (List.replicate 2 0) value 0)
    else throw (.thrown (.unsupportedHDDFormat
      "The qcow2 refcount table needs to grow before save import can continue."))

def setRefcount (hostOffset value : Nat) : ImageM Unit :=
  if img.entriesPerBlock = 0 then throw .trap
  else img.setRefcountLoop (img.refcountTableClusters * img.clusterSize / 8 * img.entriesPerBlock + 2)
    hostOffset value

def allocateHostCluster : ImageM Nat := do
  let size ← seekToEnd
  let cluster := roundUp size img.clusterSize
  img.writeZeroCluster cluster
  img.setRefcount cluster 1
  return cluster

def l2TableOffset (l1Index : Nat) (allocate : Bool) : ImageM (Option Nat) := do
  let s ← get
  let l2Offset := s.l1Table.getD l1Index 0 &&& offsetMask
  if l2Offset ≠ 0 then return some l2Offset
  else if allocate then do
    let l2Offset ← img.allocateHostCluster
    modify fun s => { s with l1Table := s.l1Table.set l1Index (l2Offset ||| copiedFlag) }
    let entryOffset ← checked (img.l1TableOffset + l1Index * 8)
    writeEntry (l2Offset ||| copiedFlag) entryOffset
    return some l2Offset
  else return none

def dataOffset (entryOffset : Nat) (allocate : Bool) : ImageM (Option Nat) := do
  let entry ← readHandle entryOffset 8
  let l2Entry := uint64BE entry 0
  if l2Entry &&& compressedFlag ≠ 0 then
    throw (.thrown (.unsupportedHDDFormat
      "Compressed qcow2 clusters are not supported for save sync."))
  else
    let physical := l2Entry &&& offsetMask
    if physical ≠ 0 then return some physical
    else if allocate then do
      let physical ← img.allocateHostCluster
      writeEntry (physical ||| copiedFlag) entryOffset
      return some physical
    else return none

def physicalOffset (guestOffset : Nat) (allocate : Bool) : ImageM (Option Nat) :=
  if img.l2Entries = 0 then throw .trap
  else do
    let guestCluster := guestOffset / img.clusterSize
    let l1Index := guestCluster / img.l2Entries
    let l2Index := guestCluster % img.l2Entries
    let s ← get
    if l1Index < s.l1Table.length then do
      let table ← img.l2TableOffset l1Index allocate
      match table with
      | none => return none
      | some l2Offset => img.dataOffset (l2Offset + l2Index * 8) allocate
    else return none

def chunkCount (cursor remaining : Nat) : ImageM Nat :=
  if img.clusterSize = 0 then throw .trap
  else do
    let left ← toInt (img.clusterSize - cursor % img.clusterSize)
    return min remaining left

def readChunk (cursor count : Nat) : ImageM Data := do
  let physical ← img.physicalOffset cursor false
  match physical with
  | some physical => readHandle (physical + cursor % img.clusterSize) count
  | none => return List.replicate count 0

def readLoop : Nat → Nat → Nat → ImageM Data
  | 0, _, _ => return []
  | rounds + 1, cursor, remaining =>
    if 0 < remaining then do
      let count ← img.chunkCount cursor remaining
      let chunk ← img.readChunk cursor count
      let cursor ← checked (cursor + count)
      let rest ← readLoop rounds cursor (remaining - count)
      return chunk ++ rest
    else return []

def read (offset count : Nat) : ImageM Data := img.readLoop count offset count

def writeChunk (cursor : Nat) (chunk : Data) : ImageM Unit := do
  let physical ← img.physicalOffset cursor true
  match physical with
  | some physical => writeHandle (physical + cursor % img.clusterSize) chunk
  | none => throw (.thrown (.unsupportedHDDFormat "Could not allocate qcow2 storage."))

def writeLoop : Nat → Nat → Data → ImageM Unit
  | 0, _, _ => return ()
  | rounds + 1, cursor, data =>
    if 0 < data.length then do
      let count ← img.chunkCount cursor data.length
      img.writeChunk cursor (data.take count)
      let cursor ← checked (cursor + count)
      writeLoop rounds cursor (data.drop count)
    else return ()

def write (offset : Nat) (data : Data) : ImageM Unit :=
  if img.readOnly then throw (.thrown .readOnlyImage) else img.writeLoop data.length offset data

end Qcow2DiskImage

end DukeX.Qcow2
