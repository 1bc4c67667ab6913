import DukeX.Fatx.Partition
import DukeX.Fatx.Safety

/-!
# A volume as `create_fatx_image` writes it

The desktop part of the repository formats memory units itself: a superblock, one word for the
allocation table, zeros.
-/

namespace DukeX.Fatx

open DukeX.Lib DukeX.Swift

/-! ## The writer -/

def fatxSuperblock (volumeId : Nat) : Data :=
  fatxSignature ++ leBytes 4 volumeId ++ leBytes 4 4 ++ leBytes 4 1 ++ leBytes 2 0 ++
    List.replicate 4078 0xFF

def emptyFat : Data := leBytes 4 0xfffffff8

/-- Where `fseek(fp, size - 1, SEEK_SET)` leaves the file; for size 0 the offset is negative, the
call fails and the position stays behind the table. -/
def lastByteOffset (size : Nat) : Nat := if size = 0 then 4100 else size - 1

def createFatxImage (volumeId size : Nat) : Store :=
  ((Store.write (fun _ => 0) 0 (fatxSuperblock volumeId)).write 4096 emptyFat).write
    (lastByteOffset size) [0]

def createFatxLength (size : Nat) : Nat := max 4100 (lastByteOffset size + 1)

theorem length_fatxSuperblock (volumeId : Nat) : (fatxSuperblock volumeId).length = 4096 := by
  simp only [fatxSuperblock, List.length_append, length_leBytes, List.length_replicate]
  rfl

theorem uint32LE_fatxSuperblock_sectors (volumeId : Nat) :
    uint32LE (fatxSuperblock volumeId) 8 = 4 := by
  unfold fatxSuperblock
  generalize List.replicate 4078 (0xFF : UInt8) = padding
  simp [uint32LE, uint16LE, byte, fatxSignature, leBytes]

theorem uint32LE_fatxSuperblock_root (volumeId : Nat) :
    uint32LE (fatxSuperblock volumeId) 12 = 1 := by
  unfold fatxSuperblock
  generalize List.replicate 4078 (0xFF : UInt8) = padding
  simp [uint32LE, uint16LE, byte, fatxSignature, leBytes]

theorem createFatxImage_zero {volumeId size a : Nat} (ha : 4100 ≤ a) :
    createFatxImage volumeId size a = 0 := by
  have hlen := length_fatxSuperblock volumeId
  unfold createFatxImage
  by_cases hlast : a = lastByteOffset size
  · rw [hlast]
    exact Store.write_inside (i := 0) (by simp)
  · rw [Store.write_outside (by simp only [List.length_singleton]; omega),
      Store.write_outside (by simp only [emptyFat, length_leBytes]; omega),
      Store.write_outside (by omega)]

theorem read_createFatxImage {volumeId size : Nat} (hsize : 2 * superblockSize ≤ size) :
    (createFatxImage volumeId size).read 0 4096 = fatxSuperblock volumeId ∧
      (createFatxImage volumeId size).read 4096 4 = emptyFat := by
  have hlen := length_fatxSuperblock volumeId
  have hlast : 4100 ≤ lastByteOffset size := by
    unfold lastByteOffset
    unfold superblockSize at hsize
    split <;> omega
  unfold createFatxImage
  constructor
  · rw [Store.read_write_disjoint _ (by omega), Store.read_write_disjoint _ (by omega)]
    exact hlen ▸ Store.read_write_same ..
  · rw [Store.read_write_disjoint _ (by omega)]
    exact Store.read_write_same _ _ emptyFat

section Open

variable {F : Foundation} {b : Store}

theorem wp_findEPartitionLoop {E : Halt → Prop} {Q : FATXVolume → Prop} (hE : ∀ e, e ≠ .trap → E e)
    {candidates : List FATXPartitionCandidate} {fallback : Option FATXVolume} {d d' : Disk}
    (hd : d.Quiet d') (hfallback : ∀ v, fallback = some v → Q v)
    (h : ∀ c ∈ candidates, (d.bytes.read c.offset superblockSize).take 4 = fatxSignature →
      (∀ e, FATXVolume.init c.offset c.size (d.bytes.read c.offset superblockSize) = .error e → E e) ∧
      ∀ v, FATXVolume.init c.offset c.size (d.bytes.read c.offset superblockSize) = .ok v → Q v) :
    wp (findEPartitionLoop F candidates fallback) (fun v d' => d.Quiet d' ∧ Q v)
      (fun e d' => d.Quiet d' ∧ E e) d' := by
  induction candidates generalizing fallback d' with
  | nil =>
    cases fallback with
    | none => exact ⟨hd, hE _ (by simp)⟩
    | some v => exact ⟨hd, hfallback v rfl⟩
  | cons candidate rest ih =>
    obtain ⟨hc, hrest⟩ := List.forall_mem_cons.mp h
    unfold findEPartitionLoop
    refine wp_ite (fun _ => ?_) fun _ => ih hd hfallback hrest
    refine wp_seq (reads_readImage candidate.offset superblockSize d') ?_ fun e d1 hread =>
      ⟨hd.trans hread.1, hE e (by grind)⟩
    rintro header d1 ⟨hq1, hheader⟩
    have hd1 := hd.trans hq1
    have hheader := Except.ok.inj hheader
    -- the header is the one of the image
    rw [hd.1] at hheader
    rw [hheader] at hc
    refine wp_ite (fun hsig => ?_) fun _ => ih hd1 hfallback hrest
    obtain ⟨herror, hok⟩ := hc hsig
    cases hinit : FATXVolume.init candidate.offset candidate.size header with
    | error e => exact ⟨hd1, herror e hinit⟩
    | ok volume =>
      have hfound : ∀ v, some volume = some v → Q v := by
        rintro v ⟨⟩
        exact hok volume hinit
      refine wp_bind.mpr (wp_pure.mpr ?_)
      refine wp_ite (fun _ => ⟨hd1, hok volume hinit⟩) fun _ => wp_ite (fun _ => ih hd1 hfound hrest) fun _ => ?_
      refine wp_seq (FATXVolume.wp_attempt_directory F "UDATA" volume.rootDirectoryCluster d1) ?_
        fun _ _ h => h.elim
      rintro udata d2 ⟨hq2, -⟩
      refine ih (hd1.trans hq2) (fun v hv => ?_) hrest
      by_cases hu : udata.isSome = true
      · exact hfound v (by rwa [if_pos hu] at hv)
      · exact hfallback v (by rwa [if_neg hu] at hv)

end Open

variable {volumeId size : Nat}

theorem candidate_of_signature {candidate : FATXPartitionCandidate}
    (hmem : candidate ∈ partitionCandidates (createFatxLength size))
    (hsig : ((createFatxImage volumeId size).read candidate.offset superblockSize).take 4 =
      fatxSignature) :
    candidate.offset = 0 ∧ candidate.size = createFatxLength size := by
  rw [FATXVolume.read_take _ _ (by decide)] at hsig
  -- anywhere else the image is zero
  have hoffset : candidate.offset < 4100 := by
    by_contra hge
    have hfirst := congrArg (List.getD · 0 0) hsig
    rw [Store.getD_read _ _ (by decide), createFatxImage_zero (by omega)] at hfirst
    exact absurd hfirst (by decide)
  obtain ⟨standard, hstandard, hsome⟩ := List.mem_filterMap.mp hmem
  have hcases : standard.offset = 0 ∧ standard.size = createFatxLength size ∨
      4100 ≤ standard.offset := by
    simp only [standardCandidates, List.mem_cons, List.not_mem_nil, or_false] at hstandard
    rcases hstandard with rfl | rfl | rfl | rfl | rfl | rfl <;>
      first | exact .inl ⟨rfl, rfl⟩ | exact .inr (by decide)
  by_cases hlt : standard.offset < createFatxLength size
  · rw [if_pos hlt] at hsome
    dsimp only at hsome
    by_cases hmax : superblockSize ≤ createFatxLength size - standard.offset
    · rw [if_pos hmax] at hsome
      cases hsome
      dsimp only at hoffset ⊢
      omega
    · rw [if_neg hmax] at hsome
      cases hsome
  · rw [if_neg hlt] at hsome
    cases hsome

/-- What is opened on a fresh image. -/
structure FreshVolume (size : Nat) (v : FATXVolume) : Prop where
  size_ge : 2 * superblockSize ≤ size
  root : v.rootDirectoryCluster = 1
  fatStart : v.fatStart = 4096
  entrySize : v.entrySize = (chosenLayout (size - superblockSize) 2048).1
  clusterCount : v.clusterCount = (chosenLayout (size - superblockSize) 2048).2

theorem freshVolume_of_open {F : Foundation} {d d' : Disk} {v : FATXVolume}
    (hb : d.bytes = createFatxImage volumeId size)
    (hopen : findEPartition F (createFatxLength size) d = .ok v d') : FreshVolume size v := by
  refine (Lib.wp.ok (wp_findEPartitionLoop (E := fun _ => True) (Q := FreshVolume size) (fun _ _ => trivial)
    (.refl d) (fun _ h => by cases h) fun candidate hmem hsig => ⟨fun _ _ => trivial, fun v hinit => ?_⟩)
    hopen).2
  rw [hb] at hsig hinit
  obtain ⟨hoffset, hsize⟩ := candidate_of_signature hmem hsig
  rw [hoffset, hsize] at hinit
  have htwo := two_pages_of_init hinit
  have hlength : createFatxLength size = size := by
    unfold createFatxLength lastByteOffset superblockSize at *
    by_cases hzero : size = 0
    · rw [if_pos hzero] at htwo
      omega
    · rw [if_neg hzero] at htwo ⊢
      omega
  rw [hlength] at hinit htwo
  rw [show superblockSize = 4096 from rfl, (read_createFatxImage htwo).1] at hinit
  have hspc : uint32LE (fatxSuperblock volumeId) 8 = 4 := uint32LE_fatxSuperblock_sectors volumeId
  have hroot : uint32LE (fatxSuperblock volumeId) 12 = 1 := uint32LE_fatxSuperblock_root volumeId
  rcases init_cases 0 size (fatxSuperblock volumeId) (by omega) (by omega) with ⟨-, htrap⟩ |
    ⟨l, v', hl, hv', -, -, -, hes, hcount, -, hfat, hrootv⟩
  · rw [htrap] at hinit
    cases hinit
  · cases hv'.symm.trans hinit
    rw [hspc, show 4 * sectorSize = 2048 from rfl] at hl
    rcases @layoutType_cases size 2048 (by decide) htwo with ⟨-, htrap⟩ | ⟨l', hl', hles, hln, -⟩
    · rw [htrap] at hl
      cases hl
    · cases hl'.symm.trans hl
      exact ⟨htwo, hrootv.trans hroot, hfat, hes.trans hles, hcount.trans hln⟩

theorem chosenLayout_small {space : Nat} (hspace : superblockSize ≤ space)
    (hlt : space < 134326272) :
    (chosenLayout space 2048).1 = 2 ∧
      ((chosenLayout space 2048).2 = 0 ↔ space < 6144) ∧
      ((chosenLayout space 2048).2 ≤ 1 ↔ space < 8192) := by
  have hcount : afterTable space 2048 2 / 2048 < 65525 ∧
      (afterTable space 2048 2 / 2048 = 0 ↔ space < 6144) ∧
      (afterTable space 2048 2 / 2048 ≤ 1 ↔ space < 8192) := by
    unfold afterTable roundUp superblockSize at *
    omega
  unfold chosenLayout
  rw [if_pos hcount.1]
  exact ⟨rfl, hcount.2⟩

theorem chosenLayout_large {space : Nat} (hge : 134326272 ≤ space) :
    (chosenLayout space 2048).1 = 4 ∧ 0 < (chosenLayout space 2048).2 := by
  have hcount : ¬ afterTable space 2048 2 / 2048 < 65525 := by
    unfold afterTable roundUp superblockSize
    omega
  unfold chosenLayout
  rw [if_neg hcount]
  split
  · exact ⟨rfl, by dsimp only; omega⟩
  · exact ⟨rfl, by dsimp only; omega⟩

/-! ## What is seen on it -/

def SeesFresh (v : FATXVolume) (b : Store) : Prop :=
  (∃ d', v.clusterChain v.rootDirectoryCluster ⟨b, [], 0⟩ = .ok [v.rootDirectoryCluster] d') ∧
    ∀ c, 2 ≤ c → c ≤ v.clusterCount → ∃ d', v.readFAT c ⟨b, [], 0⟩ = .ok 0 d'

theorem returns_iff {α : Type} {m : DiskM α} {f : Store → α} (hm : Reads m (fun b => .ok (f b)))
    (b : Store) (a : α) : (∃ d', m ⟨b, [], 0⟩ = .ok a d') ↔ f b = a := by
  obtain ⟨x, d', hrun, -, rfl⟩ := Lib.wp.total (hm.wp_of_no_faults (d := ⟨b, [], 0⟩) rfl rfl)
  rw [hrun]
  constructor
  · rintro ⟨_, heq⟩
    cases heq
    rfl
  · rintro rfl
    exact ⟨d', rfl⟩

theorem seesFresh_iff (v : FATXVolume) (b : Store) (hroot : v.rootDirectoryCluster = 1) :
    SeesFresh v b ↔ v.chainOf (v.view b) 1 = [1] ∧
      ∀ c, 2 ≤ c → c ≤ v.clusterCount → (v.view b).fat c = 0 := by
  unfold SeesFresh
  rw [hroot, returns_iff (FATXVolume.reads_clusterChain 1)]
  refine and_congr_right fun _ => forall₃_congr fun c hc hle => ?_
  exact returns_iff (FATXVolume.reads_readFAT (FATXVolume.inRange_iff.mpr ⟨by omega, hle⟩)) b 0

section Table

variable {v : FATXVolume}

theorem fat_beyond (hv : FreshVolume size v) {c : Nat} (hc : v.inRange c = true)
    (hge : 4 ≤ (c - 1) * v.entrySize) : (v.view (createFatxImage volumeId size)).fat c = 0 := by
  rw [FATXVolume.view_fat hc, FATXVolume.fatOffset, hv.fatStart]
  have hzero : (createFatxImage volumeId size).read (4096 + (c - 1) * v.entrySize) v.entrySize =
      List.replicate v.entrySize 0 := by
    refine List.eq_replicate_iff.mpr ⟨Store.length_read .., fun x hx => ?_⟩
    obtain ⟨i, -, rfl⟩ := List.mem_map.mp hx
    exact createFatxImage_zero (by omega)
  rw [hzero, leNat_replicate_zero]

theorem fat_word (hv : FreshVolume size v) {c : Nat} (hc : v.inRange c = true)
    (hle : (c - 1) * v.entrySize + v.entrySize ≤ 4) :
    (v.view (createFatxImage volumeId size)).fat c =
      leNat ((emptyFat.drop ((c - 1) * v.entrySize)).take v.entrySize) := by
  have hword : (createFatxImage volumeId size).read 4096 4 = emptyFat :=
    (read_createFatxImage hv.size_ge).2
  rw [FATXVolume.view_fat hc, FATXVolume.fatOffset, hv.fatStart, ← hword]
  congr 1
  refine List.ext_getElem (by simp; omega) fun i h1 h2 => ?_
  simp [Store.read, Nat.add_assoc]

theorem chainOf_root_of_end (hin : v.inRange 1 = true) {a : ClusterStore}
    (hend : v.isEndOfChain (a.fat 1) = true) : v.chainOf a 1 = [1] := by
  rw [FATXVolume.chainOf, walk, if_pos ⟨hin, by simp⟩]
  simp [FATXVolume.next, hend]

theorem seesFresh_wide (hv : FreshVolume size v) (hes : v.entrySize = 4) (hn : 0 < v.clusterCount) :
    SeesFresh v (createFatxImage volumeId size) := by
  have hin : v.inRange 1 = true := FATXVolume.inRange_iff.mpr ⟨by omega, by omega⟩
  refine (seesFresh_iff v _ hv.root).mpr ⟨chainOf_root_of_end hin ?_, fun c hc hle => ?_⟩
  · rw [fat_word hv hin (by omega), hes, FATXVolume.isEndOfChain, hes]
    decide
  · refine fat_beyond hv (FATXVolume.inRange_iff.mpr ⟨by omega, hle⟩) ?_
    rw [hes]
    omega

theorem seesFresh_narrow_iff (hv : FreshVolume size v) (hes : v.entrySize = 2) :
    SeesFresh v (createFatxImage volumeId size) ↔ v.clusterCount = 1 := by
  rw [seesFresh_iff v _ hv.root]
  constructor
  · intro ⟨hchain, hfree⟩
    have hin : v.inRange 1 = true :=
      FATXVolume.inRange_of_mem_chainOf (hchain ▸ List.mem_singleton_self 1)
    have hpos := (FATXVolume.inRange_iff.mp hin).2
    by_contra hne
    have hin2 : v.inRange 2 = true := FATXVolume.inRange_iff.mpr ⟨by omega, by omega⟩
    have hzero := hfree 2 (by omega) (by omega)
    rw [fat_word hv hin2 (by omega), hes] at hzero
    exact absurd hzero (by decide)
  · intro hone
    have hin : v.inRange 1 = true := FATXVolume.inRange_iff.mpr ⟨by omega, by omega⟩
    refine ⟨chainOf_root_of_end hin ?_, fun c hc hle => by omega⟩
    rw [fat_word hv hin (by omega), hes, FATXVolume.isEndOfChain, hes]
    decide

end Table

/-- On an image `create_fatx_image` wrote, whenever it is opened, the root directory is a chain of
one cluster and every other cluster is free exactly for the sizes with one cluster or with 32-bit
entries. -/
theorem seesFresh_of_open_iff (F : Foundation) (volumeId size : Nat) (d d' : Disk) (v : FATXVolume)
    (hb : d.bytes = createFatxImage volumeId size)
    (hopen : findEPartition F (createFatxLength size) d = .ok v d') :
    SeesFresh v (createFatxImage volumeId size) ↔
      10240 ≤ size ∧ size < 12288 ∨ 134330368 ≤ size := by
  have hv := freshVolume_of_open hb hopen
  have htwo := hv.size_ge
  have hes := hv.entrySize
  have hn := hv.clusterCount
  unfold superblockSize at htwo
  by_cases hlarge : 134330368 ≤ size
  · obtain ⟨hfour, hpos⟩ := @chosenLayout_large (size - superblockSize) (by unfold superblockSize; omega)
    rw [hfour] at hes
    rw [← hn] at hpos
    exact ⟨fun _ => .inr hlarge, fun _ => seesFresh_wide hv hes hpos⟩
  · obtain ⟨htwo', hnone, hone⟩ := @chosenLayout_small (size - superblockSize)
      (by unfold superblockSize; omega) (by unfold superblockSize; omega)
    rw [htwo'] at hes
    rw [← hn] at hnone hone
    rw [seesFresh_narrow_iff hv hes]
    unfold superblockSize at hnone hone
    omega

theorem seesFresh_one_cluster :
    ∃ v d', findEPartition plainFoundation (createFatxLength 10240) ⟨createFatxImage 7 10240, [], 0⟩ =
      .ok v d' ∧ SeesFresh v (createFatxImage 7 10240) := by
  have hok : (match findEPartition plainFoundation (createFatxLength 10240)
      ⟨createFatxImage 7 10240, [], 0⟩ with | .ok _ _ => true | .error _ _ => false) = true := by
    decide +kernel
  cases hrun : findEPartition plainFoundation (createFatxLength 10240)
      ⟨createFatxImage 7 10240, [], 0⟩ with
  | ok v d' =>
    exact ⟨v, d', rfl, (seesFresh_of_open_iff plainFoundation 7 10240 _ d' v rfl hrun).mpr
      (by decide)⟩
  | error e d' =>
    rw [hrun] at hok
    cases hok

/-- On a memory unit of 8 MiB the entry of cluster 2 is `0xFFFF`. -/
theorem seesFresh_fails :
    ∃ v d' d'', findEPartition plainFoundation (createFatxLength 8388608)
        ⟨createFatxImage 7 8388608, [], 0⟩ = .ok v d' ∧
      2 ≤ v.clusterCount ∧ v.readFAT 2 ⟨createFatxImage 7 8388608, [], 0⟩ = .ok 0xFFFF d'' := by
  have hok : (match findEPartition plainFoundation (createFatxLength 8388608)
      ⟨createFatxImage 7 8388608, [], 0⟩ with | .ok _ _ => true | .error _ _ => false) = true := by
    decide +kernel
  cases hrun : findEPartition plainFoundation (createFatxLength 8388608)
      ⟨createFatxImage 7 8388608, [], 0⟩ with
  | ok v d' =>
    have hv : FreshVolume 8388608 v := freshVolume_of_open rfl hrun
    have hes : v.entrySize = 2 := hv.entrySize.trans (by decide +kernel)
    have hn : v.clusterCount = 4090 := hv.clusterCount.trans (by decide +kernel)
    have hin : v.inRange 2 = true := FATXVolume.inRange_iff.mpr ⟨by omega, by omega⟩
    obtain ⟨d'', hread⟩ := (returns_iff (FATXVolume.reads_readFAT hin)
      (createFatxImage 7 8388608) 0xFFFF).mpr (by
        rw [fat_word hv hin (by omega), hes]
        decide)
    exact ⟨v, d', d'', rfl, by omega, hread⟩
  | error e d' =>
    rw [hrun] at hok
    cases hok

end DukeX.Fatx
