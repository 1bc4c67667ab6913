import DukeX.Fatx.Disk

/-!
# Reading directories

`clusterChain`, `directoryEntries`, `directory(named:in:)` and `readFile`.
-/

namespace DukeX.Fatx

open DukeX.Lib DukeX.Swift

/-! ## Entries -/

structure DateComponents where
  year : Nat
  month : Nat
  day : Nat
  hour : Nat
  minute : Nat
  second : Nat
  deriving DecidableEq

def dateFromFAT (date time : Nat) : Option DateComponents :=
  let year := 1980 + ((date >>> 9) &&& 0x7F)
  let month := (date >>> 5) &&& 0x0F
  let day := date &&& 0x1F
  let hour := (time >>> 11) &&& 0x1F
  let minute := (time >>> 5) &&& 0x3F
  let second := (time &&& 0x1F) * 2
  if 1 ≤ month ∧ month ≤ 12 ∧ 1 ≤ day ∧ day ≤ 31 ∧ hour ≤ 23 ∧ minute ≤ 59 ∧ second ≤ 59 then
    some { year, month, day, hour, minute, second }
  else none

structure FATXDirectoryEntry where
  name : String
  attributes : UInt8
  size : Nat
  startCluster : Nat
  entryOffset : Nat
  modifiedDate : Option DateComponents := none
  deriving DecidableEq

def FATXDirectoryEntry.isDirectory (e : FATXDirectoryEntry) : Bool := e.attributes &&& 0x10 != 0

theorem isDirectory_congr {e e' : FATXDirectoryEntry} (h : e.attributes = e'.attributes) :
    e.isDirectory = e'.isDirectory := by
  rw [FATXDirectoryEntry.isDirectory, FATXDirectoryEntry.isDirectory, h]

variable {e : FATXDirectoryEntry}

theorem isDirectory_of_file (h : e.attributes = 0x20) : e.isDirectory = false := by
  rw [FATXDirectoryEntry.isDirectory, h]
  decide

theorem isDirectory_of_directory (h : e.attributes = 0x10) : e.isDirectory = true := by
  rw [FATXDirectoryEntry.isDirectory, h]
  decide

def stringFromUTF8 (data : Data) : Option String := String.fromUTF8? ⟨data.toArray⟩

def utf8 (name : String) : Data := name.toByteArray.data.toList

theorem stringFromUTF8_utf8 (name : String) : stringFromUTF8 (utf8 name) = some name := by
  unfold stringFromUTF8 utf8 String.fromUTF8?
  rw [Array.toArray_toList, dif_pos name.isValidUTF8]
  rfl

theorem utf8_eq_flatMap (name : String) :
    utf8 name = name.toList.flatMap String.utf8EncodeChar := by
  unfold utf8
  conv_lhs => rw [← String.ofList_toList (s := name), String.toByteArray_ofList, List.utf8Encode]
  simp

theorem length_utf8_le (name : String) : (utf8 name).length ≤ 4 * name.length := by
  rw [utf8_eq_flatMap, ← String.length_toList]
  induction name.toList with
  | nil => simp
  | cons c l ih =>
    have := c.utf8Size_le_four
    grind [String.length_utf8EncodeChar]

theorem utf8_eq_nil_iff {name : String} : utf8 name = [] ↔ name.isEmpty = true := by
  rw [utf8, Array.toList_eq_nil_iff, ← Array.size_eq_zero_iff]
  exact beq_iff_eq.symm

def isFreeMark (nameLength : Nat) : Bool := nameLength = 0x00 ∨ nameLength = 0xE5 ∨ nameLength = 0xFF

def record (block : Data) (index : Nat) : Data := (block.drop (index * 64)).take 64

def parseRecord (record : Data) (entryOffset : Nat) : Option FATXDirectoryEntry :=
  let nameLength := byte record 0
  if nameLength = 0x00 then none
  else if nameLength = 0xE5 ∨ nameLength = 0xFF then none
  else if ¬ nameLength ≤ 42 then none
  else
    match stringFromUTF8 ((record.drop 2).take nameLength) with
    | none => none
    | some name =>
      if name.isEmpty then none
      else some {
        name
        attributes := record.getD 1 0
        size := uint32LE record 48
        startCluster := uint32LE record 44
        entryOffset
        modifiedDate := dateFromFAT (uint16LE record 56) (uint16LE record 58) }

theorem parseRecord_of_free {r : Data} {o : Nat} (h : isFreeMark (byte r 0) = true) :
    parseRecord r o = none := by
  simp only [isFreeMark, decide_eq_true_eq] at h
  unfold parseRecord
  rcases h with h | h | h <;> simp [h]

theorem of_parseRecord {r : Data} {o : Nat}
    (h : parseRecord r o = some e) : e.entryOffset = o ∧ e.startCluster = uint32LE r 44 ∧
      e.attributes = r.getD 1 0 ∧ e.size = uint32LE r 48 := by
  unfold parseRecord at h
  grind

/-! ## The tables a directory is read from -/

namespace FATXVolume

variable (v : FATXVolume)

def next (a : ClusterStore) (c : Nat) : Option Nat :=
  if v.isEndOfChain (a.fat c) then none else some (a.fat c)

def chainOf (a : ClusterStore) (c : Nat) : List Nat :=
  walk v.inRange (v.next a) (v.clusterCount + 1) [] c

def clusterEntries (c : Nat) (block : Data) : List FATXDirectoryEntry :=
  (List.range v.recordsPerCluster).filterMap fun i =>
    parseRecord (record block i) (v.dataOffset c + i * 64)

def entriesOf (a : ClusterStore) (c : Nat) : List FATXDirectoryEntry :=
  (v.chainOf a c).flatMap fun k => v.clusterEntries k (a.data k)

def lookup (F : Foundation) (a : ClusterStore) (name : String) (c : Nat) :
    Option FATXDirectoryEntry :=
  (v.entriesOf a c).find? fun e => e.isDirectory && F.caseInsensitiveSame e.name name

def collect (a : ClusterStore) : List Nat → Nat → Data
  | [], _ => []
  | c :: cs, remaining =>
    let count := min remaining v.clusterSize
    (a.data c).take count ++ (if remaining ≤ count then [] else collect a cs (remaining - count))

def contents (a : ClusterStore) (e : FATXDirectoryEntry) : Data :=
  if 0 < e.size ∧ 0 < e.startCluster then v.collect a (v.chainOf a e.startCluster) e.size else []

def clusterChainLoop : Nat → List Nat → Nat → DiskM (List Nat)
  | 0, chain, _ => return chain
  | fuel + 1, chain, current =>
    if v.inRange current ∧ current ∉ chain then do
      let next ← v.readFAT current
      if v.isEndOfChain next then return chain ++ [current]
      else clusterChainLoop fuel (chain ++ [current]) next
    else return chain

def clusterChain (cluster : Nat) : DiskM (List Nat) :=
  if 0 < cluster then v.clusterChainLoop (v.clusterCount + 1) [] cluster else return []

def directoryEntriesLoop : List Nat → DiskM (List FATXDirectoryEntry)
  | [] => return []
  | c :: cs => do
    let data ← readImage (v.dataOffset c) v.clusterSize
    let rest ← directoryEntriesLoop cs
    return v.clusterEntries c data ++ rest

def directoryEntries (cluster : Nat) : DiskM (List FATXDirectoryEntry) := do
  let chain ← v.clusterChain cluster
  v.directoryEntriesLoop chain

def directory (F : Foundation) (name : String) (parentCluster : Nat) :
    DiskM FATXDirectoryEntry := do
  let entries ← v.directoryEntries parentCluster
  match entries.find? fun e => e.isDirectory && F.caseInsensitiveSame e.name name with
  | some entry => return entry
  | none => throw (.thrown (.pathMissing name))

def readFileLoop : List Nat → Nat → DiskM Data
  | [], _ => return []
  | c :: cs, remaining => do
    let count := min remaining v.clusterSize
    let data ← readImage (v.dataOffset c) count
    if remaining ≤ count then return data
    else
      let rest ← readFileLoop cs (remaining - count)
      return data ++ rest

def readFile (entry : FATXDirectoryEntry) : DiskM Data :=
  if 0 < entry.size ∧ 0 < entry.startCluster then do
    let chain ← v.clusterChain entry.startCluster
    v.readFileLoop chain entry.size
  else return []

/-! ## The code computes the tables' functions -/

variable {v}

theorem reads_clusterChainLoop (fuel : Nat) (chain : List Nat) (c : Nat) :
    Reads (v.clusterChainLoop fuel chain c)
      (fun b => .ok (walk v.inRange (v.next (v.view b)) fuel chain c)) := by
  induction fuel generalizing chain c with
  | zero => exact .pure _
  | succ fuel ih =>
    unfold clusterChainLoop
    by_cases hc : v.inRange c ∧ c ∉ chain
    · rw [if_pos hc]
      refine (reads_readFAT hc.1).bind_ok (g := fun n b =>
        if v.isEndOfChain n then .ok (chain ++ [c])
        else .ok (walk v.inRange (v.next (v.view b)) fuel (chain ++ [c]) n))
        (fun n _ _ => .ite (.pure _) (ih _ _)) |>.congr fun b => ?_
      simp only [walk, hc, next, not_false_eq_true, and_self, if_true]
      by_cases he : v.isEndOfChain ((v.view b).fat c) = true <;> simp [he]
    · rw [if_neg hc]
      refine (Reads.pure _).congr fun b => ?_
      rw [walk, if_neg hc]

theorem chainOf_zero (a : ClusterStore) : v.chainOf a 0 = [] := by
  simp [chainOf, walk, inRange]

theorem reads_clusterChain (c : Nat) :
    Reads (v.clusterChain c) (fun b => .ok (v.chainOf (v.view b) c)) := by
  unfold clusterChain
  by_cases hc : 0 < c
  · rw [if_pos hc]
    exact reads_clusterChainLoop (v.clusterCount + 1) [] c
  · rw [if_neg hc, show c = 0 by omega]
    exact (Reads.pure _).congr fun b => by rw [chainOf_zero]

theorem inRange_of_mem_chainOf {a : ClusterStore} {c k : Nat} (h : k ∈ v.chainOf a c) :
    v.inRange k = true :=
  walk_ok (by simp) k h

theorem reads_directoryEntriesLoop (cs : List Nat) (hcs : ∀ c ∈ cs, v.inRange c = true) :
    Reads (v.directoryEntriesLoop cs)
      (fun b => .ok (cs.flatMap fun k => v.clusterEntries k ((v.view b).data k))) := by
  induction cs with
  | nil => exact .pure _
  | cons c cs ih =>
    unfold directoryEntriesLoop
    refine (reads_readImage _ _).bind_ok (g := fun data b => .ok (v.clusterEntries c data ++
      cs.flatMap fun k => v.clusterEntries k ((v.view b).data k)))
      (fun data _ _ => (ih fun k hk => hcs k (by simp [hk])).bind_ok
        (g := fun rest _ => .ok (v.clusterEntries c data ++ rest)) fun _ _ _ => .pure _)
      |>.congr fun b => ?_
    rw [List.flatMap_cons, view_data (hcs c (by simp))]

theorem reads_directoryEntries (c : Nat) :
    Reads (v.directoryEntries c) (fun b => .ok (v.entriesOf (v.view b) c)) := by
  unfold directoryEntries
  exact (reads_clusterChain c).bind_ok (g := fun chain b =>
    .ok (chain.flatMap fun k => v.clusterEntries k ((v.view b).data k))) fun chain b h =>
      reads_directoryEntriesLoop chain fun k hk => inRange_of_mem_chainOf (h ▸ hk)

theorem reads_directory (F : Foundation) (name : String) (c : Nat) :
    Reads (v.directory F name c) (fun b =>
      match v.lookup F (v.view b) name c with
      | some entry => .ok entry
      | none => .error (.thrown (.pathMissing name))) := by
  unfold directory
  refine (reads_directoryEntries c).bind_ok (g := fun es _ =>
    match es.find? fun e => e.isDirectory && F.caseInsensitiveSame e.name name with
    | some entry => .ok entry
    | none => .error (.thrown (.pathMissing name))) fun es _ _ => ?_
  cases es.find? fun e => e.isDirectory && F.caseInsensitiveSame e.name name with
  | some entry => exact .pure _
  | none => exact .throw _

theorem wp_directory (F : Foundation) (name : String) (c : Nat) (s : Disk) :
    wp (v.directory F name c)
      (fun e s' => s.Quiet s' ∧ v.lookup F (v.view s.bytes) name c = some e)
      (fun e s' => s.Quiet s' ∧ e.isError = true ∧
        (s.faults = [] → v.lookup F (v.view s.bytes) name c = none)) s := by
  refine wp_mono (reads_directory F name c s) ?_ ?_
  · grind
  · rintro e s' ⟨hq, he | ⟨rfl, hne⟩⟩
    · dsimp only at he
      split at he
      · cases he
      · cases he
        exact ⟨hq, rfl, fun _ => ‹_›⟩
    · exact ⟨hq, rfl, fun h0 => absurd h0 hne⟩

theorem wp_attempt_directory (F : Foundation) (name : String) (c : Nat) (s : Disk) :
    wp (attempt Halt.isError (v.directory F name c))
      (fun r s' => s.Quiet s' ∧ (∀ e, r = some e → v.lookup F (v.view s.bytes) name c = some e) ∧
        (s.faults = [] → r = v.lookup F (v.view s.bytes) name c)) (fun _ _ => False) s := by
  refine wp_attempt.mpr (wp_mono (wp_directory F name c s) ?_ ?_)
  · simp_all
  · simp_all

theorem read_take (b : Store) (offset : Nat) {count n : Nat} (h : count ≤ n) :
    (b.read offset n).take count = b.read offset count := by
  rw [Store.read, ← List.map_take, List.take_range, Nat.min_eq_left h, Store.read]

theorem reads_readFileLoop (cs : List Nat) (hcs : ∀ c ∈ cs, v.inRange c = true) (remaining : Nat) :
    Reads (v.readFileLoop cs remaining) (fun b => .ok (v.collect (v.view b) cs remaining)) := by
  induction cs generalizing remaining with
  | nil => exact .pure _
  | cons c cs ih =>
    have hdata : ∀ b : Store, ((v.view b).data c).take (min remaining v.clusterSize)
        = b.read (v.dataOffset c) (min remaining v.clusterSize) := fun b => by
      rw [view_data (hcs c (by simp)), read_take _ _ (Nat.min_le_right ..)]
    unfold readFileLoop
    refine (reads_readImage _ _).bind_ok (g := fun data b =>
      if remaining ≤ min remaining v.clusterSize then .ok data
      else .ok (data ++ v.collect (v.view b) cs (remaining - min remaining v.clusterSize)))
      (fun data _ _ => .ite (.pure _) ((ih (fun k hk => hcs k (by simp [hk])) _).bind_ok
        (g := fun rest _ => .ok (data ++ rest)) fun _ _ _ => .pure _)) |>.congr fun b => ?_
    rw [collect, hdata]
    split <;> simp

theorem reads_readFile (e : FATXDirectoryEntry) :
    Reads (v.readFile e) (fun b => .ok (v.contents (v.view b) e)) := by
  unfold readFile
  by_cases hc : 0 < e.size ∧ 0 < e.startCluster
  · simp only [contents, if_pos hc]
    exact (reads_clusterChain e.startCluster).bind_ok (g := fun chain b =>
      .ok (v.collect (v.view b) chain e.size)) fun chain b h =>
        reads_readFileLoop chain (fun k hk => inRange_of_mem_chainOf (h ▸ hk)) _
  · simp only [contents, if_neg hc]
    exact .pure _

end FATXVolume

end DukeX.Fatx
