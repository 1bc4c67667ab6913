import DukeX.Fatx.Directory

/-!
# Writing to a volume

The mutating half of `FATXVolume`: cluster allocation, directory growth, directory records, file
writes and the recursive import of a host directory.
-/

namespace DukeX.Fatx

open DukeX.Lib DukeX.Swift

/-! ## Host directories -/

inductive HostNode where
  | file (name : String) (data : Data)
  | dir (name : String) (children : List HostNode)

def HostNode.name : HostNode → String
  | .file name _ => name
  | .dir name _ => name

mutual

@[elab_as_elim]
theorem HostNode.induct {P : HostNode → Prop} (file : ∀ name data, P (.file name data))
    (dir : ∀ name children, (∀ n ∈ children, P n) → P (.dir name children)) : ∀ n, P n
  | .file name data => file name data
  | .dir name children => dir name children (HostNode.inductAll file dir children)

theorem HostNode.inductAll {P : HostNode → Prop} (file : ∀ name data, P (.file name data))
    (dir : ∀ name children, (∀ n ∈ children, P n) → P (.dir name children)) :
    ∀ ns : List HostNode, ∀ n ∈ ns, P n
  | [], _, h => absurd h List.not_mem_nil
  | n :: ns, m, h => (List.mem_cons.mp h).elim
      (fun heq => heq ▸ HostNode.induct file dir n) (HostNode.inductAll file dir ns m)

end

mutual

def HostNode.Everywhere (p : HostNode → Prop) : HostNode → Prop
  | .file name data => p (.file name data)
  | .dir name children => p (.dir name children) ∧ HostNode.EverywhereAll p children

def HostNode.EverywhereAll (p : HostNode → Prop) : List HostNode → Prop
  | [] => True
  | n :: ns => n.Everywhere p ∧ HostNode.EverywhereAll p ns

end

variable {p : HostNode → Prop}

theorem HostNode.everywhereAll_iff {ns : List HostNode} :
    HostNode.EverywhereAll p ns ↔ ∀ n ∈ ns, n.Everywhere p := by
  induction ns with
  | nil => simp [HostNode.EverywhereAll]
  | cons n ns ih =>
    unfold HostNode.EverywhereAll
    rw [ih, List.forall_mem_cons]

theorem HostNode.everywhere_dir {name : String} {children : List HostNode} :
    (HostNode.dir name children).Everywhere p ↔
      p (.dir name children) ∧ ∀ n ∈ children, n.Everywhere p := by
  conv_lhs => unfold HostNode.Everywhere
  rw [HostNode.everywhereAll_iff]

theorem HostNode.Everywhere.here {n : HostNode} (h : n.Everywhere p) : p n := by
  cases n with
  | file name data => exact h
  | dir name children => exact (HostNode.everywhere_dir.mp h).1

def isHidden (name : String) : Bool := name.toList.head? == some '.'

def isStorable (name : String) : Bool := !name.isEmpty && (utf8 name).length ≤ 42

def isHexDigit (c : Char) : Bool :=
  let n := c.toNat
  (0x30 ≤ n && n ≤ 0x39) || (0x41 ≤ n && n ≤ 0x46) || (0x61 ≤ n && n ≤ 0x66) ||
    (0xFF10 ≤ n && n ≤ 0xFF19) || (0xFF21 ≤ n && n ≤ 0xFF26) || (0xFF41 ≤ n && n ≤ 0xFF46)

def isTitleID (value : String) : Bool := value.length == 8 && value.toList.all isHexDigit

theorem isStorable_of_isTitleID {value : String} (h : isTitleID value = true) :
    isStorable value = true := by
  simp only [isTitleID, Bool.and_eq_true, beq_iff_eq] at h
  have hle := length_utf8_le value
  have hne : value.isEmpty = false := by
    by_contra hne
    rw [Bool.not_eq_false, String.isEmpty_iff] at hne
    rw [hne] at h
    exact absurd h.1 (by decide)
  simp only [isStorable, hne, Bool.not_false, Bool.true_and, decide_eq_true_eq]
  omega

def sortVisible (F : Foundation) (children : List HostNode) : List HostNode :=
  (children.filter fun c => !isHidden c.name).insertionSort
    fun a b => F.standardAscending b.name a.name = false

mutual

def HostNode.listed (F : Foundation) : HostNode → HostNode
  | .file name data => .file name data
  | .dir name children => .dir name (sortVisible F (listedAll F children))

def listedAll (F : Foundation) : List HostNode → List HostNode
  | [] => []
  | child :: rest => child.listed F :: listedAll F rest

end

def listing (F : Foundation) (children : List HostNode) : List HostNode :=
  sortVisible F (listedAll F children)

namespace FATXVolume

variable (v : FATXVolume) (F : Foundation)

def allocateScan (count : Nat) : List Nat → List Nat → DiskM (List Nat)
  | [], clusters => return clusters
  | cluster :: rest, clusters =>
    if clusters.length < count then do
      let entry ← v.readFAT cluster
      let clusters := if entry = 0 then clusters ++ [cluster] else clusters
      if cluster = 0xFFFFFFFF then throw .trap
      else allocateScan count rest clusters
    else return clusters

def linkClusters : List Nat → DiskM Unit
  | [] => return ()
  | cluster :: rest => do
    v.writeFAT cluster (rest.head?.getD v.endOfChainValue)
    writeImage (v.dataOffset cluster) (List.replicate v.clusterSize 0)
    linkClusters rest

def allocateClusters (count : Nat) : DiskM (List Nat) :=
  if 0 < count then do
    let clusters ← v.allocateScan count (List.range' 1 v.clusterCount) []
    if clusters.length = count then
      v.linkClusters clusters
      return clusters
    else throw (.thrown .volumeFull)
  else return []

def appendCluster (startCluster : Nat) : DiskM Nat := do
  let chain ← v.clusterChain startCluster
  match chain.getLast? with
  | none => throw (.thrown .invalidFATXVolume)
  | some last =>
    let clusters ← v.allocateClusters 1
    let newCluster := clusters.headD 0
    v.writeFAT last newCluster
    v.writeFAT newCluster v.endOfChainValue
    return newCluster

def freeRecord (block : Data) : Option Nat :=
  (List.range v.recordsPerCluster).find? fun index => isFreeMark (byte block (index * 64))

def freeSlotLoop : List Nat → DiskM (Option Nat)
  | [] => return none
  | cluster :: rest => do
    let data ← readImage (v.dataOffset cluster) v.clusterSize
    match v.freeRecord data with
    | some index => return some (v.dataOffset cluster + index * 64)
    | none => freeSlotLoop rest

def freeDirectorySlot (directoryCluster : Nat) : DiskM Nat := do
  let chain ← v.clusterChain directoryCluster
  let slot ← v.freeSlotLoop chain
  match slot with
  | some offset => return offset
  | none =>
    let newCluster ← v.appendCluster directoryCluster
    return v.dataOffset newCluster

def recordFor (entry : FATXDirectoryEntry) (timestamp : Nat × Nat) : Data :=
  let data : Data := List.replicate 64 0xFF
  let nameData := (utf8 entry.name).take 42
  let data := setByte data 0 nameData.length
  let data := data.set 1 entry.attributes
  let data := splice data 2 nameData
  let data := writeUInt32LE data entry.startCluster 44
  let data := writeUInt32LE data entry.size 48
  let data := writeUInt16LE data timestamp.1 52
  let data := writeUInt16LE data timestamp.2 54
  let data := writeUInt16LE data timestamp.1 56
  let data := writeUInt16LE data timestamp.2 58
  let data := writeUInt16LE data timestamp.1 60
  writeUInt16LE data timestamp.2 62

def fatTimestamp : DiskM (Nat × Nat) := fun d =>
  .ok (F.clock d.stamps) { d with stamps := d.stamps + 1 }

def writeDirectoryEntry (entry : FATXDirectoryEntry) (directoryCluster : Nat) : DiskM Unit := do
  let entries ← v.directoryEntries directoryCluster
  match entries.find? fun e => F.caseInsensitiveSame e.name entry.name with
  | some existing => throw (.thrown (.pathAlreadyExists existing.name))
  | none =>
    let slot ← v.freeDirectorySlot directoryCluster
    let timestamp ← fatTimestamp F
    writeImage slot (recordFor entry timestamp)

def ensureDirectory (name : String) (parentCluster : Nat) : DiskM FATXDirectoryEntry := do
  let existing ← attempt Halt.isError (v.directory F name parentCluster)
  match existing with
  | some entry => return entry
  | none =>
    let clusters ← v.allocateClusters 1
    let entry : FATXDirectoryEntry :=
      { name, attributes := 0x10, size := 0, startCluster := clusters.headD 0, entryOffset := 0 }
    v.writeDirectoryEntry F entry parentCluster
    return entry

def writeChunks : List Nat → Data → DiskM Unit
  | [], _ => return ()
  | cluster :: rest, data => do
    let count := min data.length v.clusterSize
    let chunk := data.take count ++ List.replicate (v.clusterSize - count) 0
    writeImage (v.dataOffset cluster) chunk
    writeChunks rest (data.drop count)

def clustersNeeded (count : Nat) : Nat := max 1 ((count + v.clusterSize - 1) / v.clusterSize)

def writeFile (name : String) (data : Data) (directoryCluster : Nat) : DiskM Unit := do
  let clusters ← v.allocateClusters (v.clustersNeeded data.length)
  v.writeChunks clusters data
  -- `UInt32(data.count)`
  if data.length < 2 ^ 32 then
    v.writeDirectoryEntry F
      { name, attributes := 0x20, size := data.length, startCluster := clusters.headD 0,
        entryOffset := 0 } directoryCluster
  else throw .trap

mutual

def importChild : HostNode → Nat → DiskM Unit
  | .file name data, directoryCluster => do
    storageCall
    if isStorable name then
      storageCall
      v.writeFile F name data directoryCluster
    else return ()
  | .dir name children, directoryCluster => do
    storageCall
    if isStorable name then
      let entry ← v.ensureDirectory F name directoryCluster
      storageCall
      importListed children entry.startCluster
    else return ()

def importListed : List HostNode → Nat → DiskM Unit
  | [], _ => return ()
  | child :: rest, directoryCluster => do
    importChild child directoryCluster
    importListed rest directoryCluster

end

def importChildren (children : List HostNode) (directoryCluster : Nat) : DiskM Unit := do
  storageCall
  v.importListed F (listing F children) directoryCluster

def importDirectory (children : List HostNode) (name : String) (parentCluster : Nat) :
    DiskM Unit := do
  let destination ← v.ensureDirectory F name parentCluster
  v.importChildren F children destination.startCluster

end FATXVolume

end DukeX.Fatx
