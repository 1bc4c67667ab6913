import DukeX.Qcow2.Image

/-!
# The qcow2 format

What the bytes of an image mean, independently of the code that edits them: the entries of the
tables, the reference count of a host cluster, the classification of guest clusters that the
emulator's block driver makes (`qcow2_get_cluster_type`), and what every structure of the image
refers to.
-/

namespace DukeX.Qcow2

open DukeX.Lib DukeX.Swift
open DukeX.Fatx (roundUp)

/-! ## Entries -/

def entry64 (b : Store) (offset : Nat) : Nat := uint64BE (b.read offset 8) 0

def entry16 (b : Store) (offset : Nat) : Nat := (b offset).toNat * 256 + (b (offset + 1)).toNat

def hostOffset (entry : Nat) : Nat := entry &&& offsetMask

def blockOffset (entry : Nat) : Nat := entry / 512 * 512

theorem hostOffset_eq (entry : Nat) : hostOffset entry = entry / 512 % 2 ^ 47 * 512 := by
  have hmask : offsetMask = (2 ^ 47 - 1) <<< 9 := by decide
  rw [hostOffset, hmask, show (512 : Nat) = 2 ^ 9 from rfl, ← Nat.shiftRight_eq_div_pow,
    ← Nat.and_two_pow_sub_one_eq_mod, ← Nat.shiftLeft_eq]
  refine Nat.eq_of_testBit_eq fun i => ?_
  simp only [Nat.testBit_and, Nat.testBit_shiftLeft, Nat.testBit_shiftRight]
  by_cases hi : 9 ≤ i
  · simp [hi]
  · simp [hi]

theorem hostOffset_lt (entry : Nat) : hostOffset entry < 2 ^ 56 := by
  rw [hostOffset_eq]
  omega

theorem hostOffset_zero : hostOffset 0 = 0 := rfl

theorem or_copiedFlag {offset : Nat} (h : offset < 2 ^ 63) :
    offset ||| copiedFlag = offset + 2 ^ 63 := by
  have := or_shiftLeft (b := 1) h
  rwa [show 1 <<< 63 = copiedFlag from rfl, Nat.mul_one] at this

theorem hostOffset_or_copiedFlag {offset : Nat} (h : offset < 2 ^ 56) (h512 : offset % 512 = 0) :
    hostOffset (offset ||| copiedFlag) = offset := by
  rw [or_copiedFlag (by omega), hostOffset_eq]
  omega

theorem blockOffset_eq {offset : Nat} (h512 : offset % 512 = 0) : blockOffset offset = offset := by
  unfold blockOffset
  omega

theorem hostOffset_eq_blockOffset (entry : Nat) (h : blockOffset entry < 2 ^ 56) :
    hostOffset entry = blockOffset entry := by
  rw [hostOffset_eq]
  unfold blockOffset at h ⊢
  omega

def isCompressed (entry : Nat) : Prop := entry &&& compressedFlag ≠ 0

instance (entry : Nat) : Decidable (isCompressed entry) := inferInstanceAs (Decidable (_ ≠ _))

theorem isCompressed_iff (entry : Nat) : isCompressed entry ↔ entry / 2 ^ 62 % 2 = 1 := by
  rw [isCompressed, compressedFlag, Nat.and_two_pow, Nat.testBit_eq_decide_div_mod_eq]
  by_cases h : entry / 2 ^ 62 % 2 = 1 <;> simp

theorem not_isCompressed_zero : ¬ isCompressed 0 := by decide

theorem not_isCompressed_or_copiedFlag {offset : Nat} (h : offset < 2 ^ 56) :
    ¬ isCompressed (offset ||| copiedFlag) := by
  rw [or_copiedFlag (by omega), isCompressed_iff]
  omega

inductive ClusterType where
  | unallocated
  | zeroPlain
  | zeroAlloc
  | normal
  | compressed
  deriving DecidableEq, Repr

def clusterType (l2Entry : Nat) : ClusterType :=
  if isCompressed l2Entry then .compressed
  else if l2Entry &&& 1 ≠ 0 then
    if hostOffset l2Entry ≠ 0 then .zeroAlloc else .zeroPlain
  else if hostOffset l2Entry = 0 then .unallocated
  else .normal

theorem clusterType_or_copiedFlag {offset : Nat} (h : offset < 2 ^ 56) (h512 : offset % 512 = 0)
    (h0 : offset ≠ 0) : clusterType (offset ||| copiedFlag) = .normal := by
  have hbit : (offset ||| copiedFlag) &&& 1 = 0 := by
    rw [or_copiedFlag (by omega), Nat.and_one_is_mod]
    omega
  rw [clusterType, if_neg (not_isCompressed_or_copiedFlag h), if_neg (by rw [hbit]; simp),
    hostOffset_or_copiedFlag h h512, if_neg h0]

/-! ## References -/

inductive Ref where
  | header
  | l1 (i : Nat)
  | table (i : Nat)
  | block (k : Nat)
  | l2 (i : Nat)
  | data (i j p : Nat)
  deriving DecidableEq

namespace Qcow2DiskImage

variable (img : Qcow2DiskImage)

def tableLength : Nat := img.refcountTableClusters * img.clusterSize / 8

def hosts (l2Entry : Nat) : List Nat :=
  if isCompressed l2Entry then
    let shift := 62 - (img.clusterBits - 8)
    let offset := l2Entry % 2 ^ shift
    let sectors := l2Entry / 2 ^ shift % 2 ^ (img.clusterBits - 8) + 1
    let first := offset / img.clusterSize
    let last := (offset / 512 * 512 + sectors * 512 - 1) / img.clusterSize
    (List.range' first (last - first + 1)).map (· * img.clusterSize)
  else if hostOffset l2Entry = 0 then [] else [hostOffset l2Entry]

def place (l1 : Nat → Nat) (b : Store) : Ref → Option Nat
  | .header => some 0
  | .l1 i => if i * img.clusterSize < img.l1Size * 8 then
      some (img.l1TableOffset + i * img.clusterSize) else none
  | .table i => if i < img.refcountTableClusters then
      some (img.refcountTableOffset + i * img.clusterSize) else none
  | .block k => if k < img.tableLength then
      let offset := blockOffset (entry64 b (img.refcountTableOffset + k * 8))
      if offset = 0 then none else some offset
    else none
  | .l2 i => if i < img.l1Size ∧ hostOffset (l1 i) ≠ 0 then some (hostOffset (l1 i)) else none
  | .data i j p => if i < img.l1Size ∧ hostOffset (l1 i) ≠ 0 ∧ j < img.l2Entries then
      (img.hosts (entry64 b (hostOffset (l1 i) + j * 8)))[p]? else none

def refcount (b : Store) (cluster : Nat) : Nat :=
  match img.place (fun _ => 0) b (.block (cluster / img.entriesPerBlock)) with
  | none => 0
  | some offset => entry16 b (offset + cluster % img.entriesPerBlock * 2)

def refcountOrder (b : Store) : Nat :=
  if uint32BE (b.read 4 4) 0 < 3 then 4 else uint32BE (b.read 96 4) 0

def fileEnd (f : HostFile) : Nat := roundUp f.size img.clusterSize

/-- **The metadata is in order**: refcounts have 16 bits, and the header, the tables, the refcount
blocks and everything the guest is mapped to are distinct host clusters of the file. -/
structure Sound (l1 : Nat → Nat) (f : HostFile) : Prop where
  bits : 9 ≤ img.clusterBits ∧ img.clusterBits ≤ 21
  order : refcountOrder f.bytes = 4
  aligned : ∀ r o, img.place l1 f.bytes r = some o → o % img.clusterSize = 0
  below : ∀ r o, img.place l1 f.bytes r = some o → o < img.fileEnd f
  distinct : ∀ r r' o, img.place l1 f.bytes r = some o → img.place l1 f.bytes r' = some o → r = r'

def Counted (l1 : Nat → Nat) (b : Store) : Prop :=
  ∀ r o, img.place l1 b r = some o → img.refcount b (o / img.clusterSize) = 1

def Same (b b' : Store) (o : Nat) : Prop := ∀ a, o ≤ a → a < o + img.clusterSize → b' a = b a

def l2EntryOf (l1 : Nat → Nat) (b : Store) (guestCluster : Nat) : Nat :=
  let i := guestCluster / img.l2Entries
  if i < img.l1Size ∧ hostOffset (l1 i) ≠ 0 then
    entry64 b (hostOffset (l1 i) + guestCluster % img.l2Entries * 8)
  else 0

def guest (l1 : Nat → Nat) (b behind inflated : Store) : Store := fun a =>
  if a < img.virtualSize then
    let l2Entry := img.l2EntryOf l1 b (a / img.clusterSize)
    match clusterType l2Entry with
    | .unallocated => behind a
    | .zeroPlain => 0
    | .zeroAlloc => 0
    | .normal => b (hostOffset l2Entry + a % img.clusterSize)
    | .compressed => inflated a
  else 0

def l1OnDisk (b : Store) (i : Nat) : Nat := entry64 b (img.l1TableOffset + i * 8)

/-! ## Entries and clusters under a write -/

end Qcow2DiskImage

variable {b b' : Store} {offset o : Nat} {data : Data}

theorem entry64_congr (h : ∀ a, offset ≤ a → a < offset + 8 → b' a = b a) :
    entry64 b' offset = entry64 b offset := by
  rw [entry64, entry64, Store.read_congr h]

theorem entry16_congr (h : ∀ a, offset ≤ a → a < offset + 2 → b' a = b a) :
    entry16 b' offset = entry16 b offset := by
  rw [entry16, entry16, h offset (by omega) (by omega), h (offset + 1) (by omega) (by omega)]

theorem entry64_zero (h : ∀ a, offset ≤ a → a < offset + 8 → b a = 0) : entry64 b offset = 0 := by
  have hread : b.read offset 8 = List.replicate 8 0 := by
    rw [Store.read_congr (b := fun _ => 0) h]
    simp [Store.read]
  rw [entry64, hread]
  decide

theorem entry16_zero (h : ∀ a, offset ≤ a → a < offset + 2 → b a = 0) : entry16 b offset = 0 := by
  rw [entry16, h offset (by omega) (by omega), h (offset + 1) (by omega) (by omega)]
  decide

theorem entry64_write {value : Nat} (h : value < 2 ^ 64) :
    entry64 (b.write offset (writeUInt64BE (List.replicate 8 0) value 0)) offset = value := by
  have hlen : (writeUInt64BE (List.replicate 8 0) value 0).length = 8 := length_writeUInt64BE ..
  have hread := Store.read_write_same b offset (writeUInt64BE (List.replicate 8 0) value 0)
  rw [hlen] at hread
  rw [entry64, hread, uint64BE_writeUInt64BE_fresh h]

theorem entry16_write_one :
    entry16 (b.write offset (writeUInt16BE (List.replicate 2 0) 1 0)) offset = 1 := by
  have h0 : b.write offset (writeUInt16BE (List.replicate 2 0) 1 0) (offset + 0) = 0 :=
    Store.write_inside (by decide)
  have h1 : b.write offset (writeUInt16BE (List.replicate 2 0) 1 0) (offset + 1) = 1 :=
    Store.write_inside (by decide)
  rw [Nat.add_zero] at h0
  rw [entry16, h0, h1]
  decide

theorem disjoint_of_aligned {size o' : Nat} (h : o % size = 0) (h' : o' % size = 0)
    (hne : o ≠ o') : o + size ≤ o' ∨ o' + size ≤ o := by
  obtain ⟨k, rfl⟩ := Nat.dvd_of_mod_eq_zero h
  obtain ⟨k', rfl⟩ := Nat.dvd_of_mod_eq_zero h'
  rcases Nat.lt_or_ge k k' with hlt | hge
  · left
    have := Nat.mul_le_mul_left size (Nat.succ_le_of_lt hlt)
    rwa [Nat.mul_succ] at this
  · right
    have hlt : k' < k := lt_of_le_of_ne hge fun heq => hne (by rw [heq])
    have := Nat.mul_le_mul_left size (Nat.succ_le_of_lt hlt)
    rwa [Nat.mul_succ] at this

theorem le_of_aligned {size o' : Nat} (h : o % size = 0) (h' : o' % size = 0) (hlt : o < o') :
    o + size ≤ o' := by
  rcases disjoint_of_aligned h h' (Nat.ne_of_lt hlt) with hle | hle
  · exact hle
  · omega

namespace Qcow2DiskImage

variable {img : Qcow2DiskImage} {l1 : Nat → Nat} {f f' : HostFile} {r : Ref}

theorem Same.of_bytes (h : b' = b) : img.Same b b' o := fun _ _ _ => by rw [h]

theorem Same.trans {b'' : Store} (h : img.Same b b' o) (h' : img.Same b' b'' o) :
    img.Same b b'' o := fun a h1 h2 => (h' a h1 h2).trans (h a h1 h2)

theorem Same.write {at' : Nat} (ho : o % img.clusterSize = 0) (ho' : at' % img.clusterSize = 0)
    (hne : o ≠ at') (hle : at' ≤ offset) (hfit : offset + data.length ≤ at' + img.clusterSize) :
    img.Same b (b.write offset data) o := by
  intro a h1 h2
  refine Store.write_outside ?_
  rcases disjoint_of_aligned ho ho' hne with h | h <;> omega

end Qcow2DiskImage

end DukeX.Qcow2
