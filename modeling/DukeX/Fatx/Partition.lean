import DukeX.Fatx.Directory

/-!
# Finding the partition, and what its geometry is worth

`findEPartition` tries six places of an image and opens what carries the FATX signature.
-/

namespace DukeX.Fatx

open DukeX.Lib DukeX.Swift

structure FATXPartitionCandidate where
  offset : Nat
  size : Nat
  isPreferredEPartition : Bool
  deriving DecidableEq

def cachePartitionSize : Nat := 0x2EE00000
def systemPartitionSize : Nat := 0x1F400000
def ePartitionOffset : Nat := 0xABE80000
def ePartitionSize : Nat := 0x131F00000

def standardCandidates (virtualSize : Nat) : List FATXPartitionCandidate := [
  { offset := ePartitionOffset, size := ePartitionSize, isPreferredEPartition := true },
  { offset := 0, size := virtualSize, isPreferredEPartition := false },
  { offset := 0x00080000, size := cachePartitionSize, isPreferredEPartition := false },
  { offset := 0x2EE80000, size := cachePartitionSize, isPreferredEPartition := false },
  { offset := 0x5DC80000, size := cachePartitionSize, isPreferredEPartition := false },
  { offset := 0x8CA80000, size := systemPartitionSize, isPreferredEPartition := false }]

def partitionCandidates (virtualSize : Nat) : List FATXPartitionCandidate :=
  (standardCandidates virtualSize).filterMap fun candidate =>
    if candidate.offset < virtualSize then
      let maximumSize := virtualSize - candidate.offset
      if superblockSize ≤ maximumSize then
        some { candidate with size := min candidate.size maximumSize }
      else none
    else none

def findEPartitionLoop (F : Foundation) :
    List FATXPartitionCandidate → Option FATXVolume → DiskM FATXVolume
  | [], some volume => return volume
  | [], none => throw (.thrown .fatxPartitionMissing)
  | candidate :: rest, fallback =>
    if superblockSize ≤ candidate.size then do
      let header ← readImage candidate.offset superblockSize
      if header.take 4 = fatxSignature then do
        let volume ← match FATXVolume.init candidate.offset candidate.size header with
          | .ok volume => pure volume
          | .error e => throw e
        if candidate.isPreferredEPartition then return volume
        else if fallback.isNone then findEPartitionLoop F rest (some volume)
        else do
          let udata ← attempt Halt.isError (volume.directory F "UDATA" volume.rootDirectoryCluster)
          findEPartitionLoop F rest (if udata.isSome then some volume else fallback)
      else findEPartitionLoop F rest fallback
    else findEPartitionLoop F rest fallback

def findEPartition (F : Foundation) (virtualSize : Nat) : DiskM FATXVolume :=
  findEPartitionLoop F (partitionCandidates virtualSize) none

/-! ## The table and the clusters -/

theorem roundUp_page_lt (n : Nat) : roundUp n superblockSize < n + superblockSize := by
  unfold roundUp superblockSize
  omega

theorem roundUp_page_mono {n m : Nat} (h : n ≤ m) :
    roundUp n superblockSize ≤ roundUp m superblockSize := by
  unfold roundUp superblockSize
  omega

theorem roundUp_page_le_page {n : Nat} (h : n ≤ superblockSize) :
    roundUp n superblockSize ≤ superblockSize := by
  unfold roundUp superblockSize at *
  omega

theorem entry_le_roundUp_page {n es : Nat} (hes : es = 2 ∨ es = 4)
    (h : ¬ superblockSize ∣ n * es) : n * es + es ≤ roundUp (n * es) superblockSize := by
  unfold roundUp superblockSize at *
  rcases hes with rfl | rfl <;> omega

theorem roundUp_page_of_dvd {n : Nat} (h : superblockSize ∣ n) : roundUp n superblockSize = n := by
  unfold roundUp superblockSize at *
  omega

section Layout

variable {space cs es : Nat}

def afterTable (space clusterSize entrySize : Nat) : Nat :=
  space - roundUp (max (space / (clusterSize + entrySize)) 1 * entrySize) superblockSize

/-- The estimated table ends with a page and what the estimate leaves over holds one more cluster. -/
def Spills (space clusterSize entrySize : Nat) : Prop :=
  0 < space / (clusterSize + entrySize) ∧
    superblockSize ∣ space / (clusterSize + entrySize) * entrySize ∧
    clusterSize ≤ space % (clusterSize + entrySize)

instance (space clusterSize entrySize : Nat) : Decidable (Spills space clusterSize entrySize) := by
  unfold Spills
  infer_instance

theorem space_eq (space cs es : Nat) :
    space = space / (cs + es) * cs + space / (cs + es) * es + space % (cs + es) := by
  grind [Nat.div_add_mod]

theorem table_le (hes : es = 2 ∨ es = 4) (hcs : 512 ≤ cs) (hspace : superblockSize ≤ space) :
    roundUp (max (space / (cs + es)) 1 * es) superblockSize ≤ space := by
  have hdiv := space_eq space cs es
  have hdata := Nat.mul_le_mul_left (space / (cs + es)) hcs
  generalize space / (cs + es) = est at hdiv hdata ⊢
  by_cases hest : est < 8
  · -- a table of one page
    refine (roundUp_page_le_page ?_).trans hspace
    have hn : max est 1 ≤ 8 := by omega
    calc max est 1 * es ≤ 8 * 4 := Nat.mul_le_mul hn (by omega)
      _ ≤ superblockSize := by decide
  · have hlt := roundUp_page_lt (est * es)
    rw [Nat.max_eq_left (by omega)]
    unfold superblockSize at hlt ⊢
    omega

theorem table_eq (hest : 0 < space / (cs + es)) :
    max (space / (cs + es)) 1 * es = space / (cs + es) * es := by
  rw [Nat.max_eq_left hest]

theorem afterTable_of_spills (hspill : Spills space cs es) :
    afterTable space cs es =
      space / (cs + es) * cs + space % (cs + es) := by
  obtain ⟨hest, hdvd, -⟩ := hspill
  have hdiv := space_eq space cs es
  rw [afterTable, table_eq hest, roundUp_page_of_dvd hdvd]
  omega

theorem count_of_spills (hes : es ≤ 4) (hcs : 512 ≤ cs) (hspill : Spills space cs es) :
    afterTable space cs es / cs = space / (cs + es) + 1 := by
  have hrem : space % (cs + es) < cs + es := Nat.mod_lt _ (by omega)
  have hle := hspill.2.2
  rw [afterTable_of_spills hspill, Nat.mul_comm, Nat.mul_add_div (by omega)]
  congr 1
  refine Nat.div_eq_of_lt_le ?_ ?_ <;> omega

theorem count_le_of_not_spills (hes : es = 2 ∨ es = 4) (hcs : 512 ≤ cs)
    (hspace : superblockSize ≤ space) (hspill : ¬ Spills space cs es) :
    afterTable space cs es / cs ≤ space / (cs + es) := by
  have hrem : space % (cs + es) < cs + es := Nat.mod_lt _ (by omega)
  have hfit := table_le hes hcs hspace
  have hdiv := space_eq space cs es
  refine Nat.le_of_lt_succ ((Nat.div_lt_iff_lt_mul (by omega)).mpr ?_)
  rw [Nat.succ_mul, afterTable]
  unfold Spills at hspill
  generalize space % (cs + es) = rest at hspill hrem hdiv
  generalize space / (cs + es) = est at hspill hdiv hfit ⊢
  have htable := le_roundUp (max est 1 * es) (show 0 < superblockSize by decide)
  by_cases hest : est = 0
  · subst hest
    rw [Nat.max_eq_right (Nat.zero_le 1)] at htable hfit ⊢
    omega
  · rw [Nat.max_eq_left (Nat.pos_of_ne_zero hest)] at htable hfit ⊢
    -- the table has room for another entry, or the remainder has none for another cluster
    by_cases hdvd : superblockSize ∣ est * es
    · have hsmall : rest < cs := by
        grind
      omega
    · have hroom := entry_le_roundUp_page hes hdvd
      omega

end Layout

/-! ## What `init` computes -/

def chosenLayout (space clusterSize : Nat) : Nat × Nat :=
  if afterTable space clusterSize 2 / clusterSize < 65525 then
    (2, afterTable space clusterSize 2 / clusterSize)
  else if 65525 ≤ afterTable space clusterSize 4 / clusterSize then
    (4, afterTable space clusterSize 4 / clusterSize)
  else (4, space / (clusterSize + 4))

variable {size cs : Nat}

theorem ok_bind {α β : Type} (a : α) (f : α → Except Halt β) : (Except.ok a >>= f) = f a := by
  cases h : f a <;> exact h

theorem error_bind {α β : Type} (e : Halt) (f : α → Except Halt β) :
    ((Except.error e : Except Halt α) >>= f) = .error e := rfl

theorem checkedSub_of_le {a b : Nat} (h : b ≤ a) : checkedSub a b = .ok (a - b) := if_pos h

theorem checkedSub_of_lt {a b : Nat} (h : a < b) : checkedSub a b = .error .trap :=
  if_neg (Nat.not_le_of_lt h)

theorem layoutClusters_eq {es : Nat} (hes : es = 2 ∨ es = 4) (hcs : 512 ≤ cs)
    (hsize : 2 * superblockSize ≤ size) :
    layoutClusters size cs es = .ok (afterTable (size - superblockSize) cs es / cs) := by
  have hspace : superblockSize ≤ size - superblockSize := by omega
  rw [layoutClusters, checkedSub_of_le (by omega), ok_bind]
  simp [checkedSub_of_le, table_le, afterTable, hes, hcs, hspace]

theorem layoutClusters_trap {es : Nat} (hes : 0 < es) (hsize : size < 2 * superblockSize) :
    layoutClusters size cs es = .error .trap := by
  rw [layoutClusters]
  by_cases hsub : superblockSize ≤ size
  · have hpos : 0 < max ((size - superblockSize) / (cs + es)) 1 * es := Nat.mul_pos (by omega) hes
    have hpage : superblockSize ≤ roundUp (max ((size - superblockSize) / (cs + es)) 1 * es) superblockSize := by
      generalize max ((size - superblockSize) / (cs + es)) 1 * es = bytes at hpos ⊢
      unfold roundUp superblockSize
      omega
    rw [checkedSub_of_le hsub, ok_bind]
    dsimp only
    rw [checkedSub_of_lt (by omega), error_bind]
  · rw [checkedSub_of_lt (by omega), error_bind]

theorem layoutType_trap (hsize : size < 2 * superblockSize) : layoutType size cs = .error .trap := by
  rw [layoutType, layoutClusters_trap (by decide) hsize, error_bind]

theorem layoutOf_cases {es n : Nat} {hs : es = 2 ∨ es = 4} {hc : es = 2 → n < 65525} :
    (2 ^ 32 ≤ n ∧ layoutOf es n hs hc = .error .trap) ∨
      ∃ l, layoutOf es n hs hc = .ok l ∧ l.entrySize = es ∧ l.clusterCount = n ∧
        l.fatSize = roundUp (n * es) superblockSize := by
  by_cases h : n < 2 ^ 32
  · rw [layoutOf, dif_pos h]
    exact .inr ⟨_, rfl, rfl, rfl, rfl⟩
  · rw [layoutOf, dif_neg h]
    exact .inl ⟨Nat.le_of_not_lt h, rfl⟩

theorem layoutType_cases (hcs : 512 ≤ cs) (hsize : 2 * superblockSize ≤ size) :
    (2 ^ 32 ≤ (chosenLayout (size - superblockSize) cs).2 ∧ layoutType size cs = .error .trap) ∨
      ∃ l, layoutType size cs = .ok l ∧ l.entrySize = (chosenLayout (size - superblockSize) cs).1 ∧
        l.clusterCount = (chosenLayout (size - superblockSize) cs).2 ∧
        l.fatSize = roundUp ((chosenLayout (size - superblockSize) cs).2 *
          (chosenLayout (size - superblockSize) cs).1) superblockSize := by
  rw [layoutType, layoutClusters_eq (.inl rfl) hcs hsize, layoutClusters_eq (.inr rfl) hcs hsize,
    ok_bind, ok_bind, checkedSub_of_le (by omega), ok_bind]
  generalize size - superblockSize = space
  unfold chosenLayout
  generalize afterTable space cs 2 / cs = n2
  generalize afterTable space cs 4 / cs = n4
  by_cases h2 : n2 < 65525
  · rw [if_pos h2, dif_pos h2]
    exact layoutOf_cases
  · rw [if_neg h2, dif_neg h2]
    by_cases h4 : 65525 ≤ n4
    · rw [if_pos h4, if_pos h4]
      exact layoutOf_cases
    · rw [if_neg h4, if_neg h4]
      exact layoutOf_cases

theorem layoutType_error (hcs : 512 ≤ cs) {e : Halt} (h : layoutType size cs = .error e) :
    e = .trap := by
  by_cases hsize : 2 * superblockSize ≤ size
  · rcases layoutType_cases hcs hsize with ⟨-, htrap⟩ | ⟨l, hok, -⟩
    · rw [htrap] at h
      exact (Except.error.inj h).symm
    · rw [hok] at h
      cases h
  · rw [layoutType_trap (Nat.lt_of_not_le hsize)] at h
    exact (Except.error.inj h).symm

/-! ## Sound geometry -/

/-- The clusters a volume counts, their entries and the superblock lie inside the partition, and
no cluster number reads as an end of chain in a table of 16-bit entries. -/
structure FATXVolume.SoundGeometry (v : FATXVolume) : Prop where
  table : v.fatStart + v.clusterCount * v.entrySize ≤ v.dataStart
  data : ∀ c, v.inRange c = true → v.partitionStart ≤ v.dataOffset c ∧
    v.dataOffset c + v.clusterSize ≤ v.partitionStart + v.partitionSize
  marks : v.entrySize = 2 → ∀ c, v.inRange c = true → c < 0xFFF8

/-- The sizes for which the estimate works out. -/
def SoundSize (size clusterSize : Nat) : Prop :=
  2 * superblockSize ≤ size ∧
    if afterTable (size - superblockSize) clusterSize 2 / clusterSize < 65525 then
      ¬ Spills (size - superblockSize) clusterSize 2
    else if 65525 ≤ afterTable (size - superblockSize) clusterSize 4 / clusterSize then
      ¬ Spills (size - superblockSize) clusterSize 4 ∧
        afterTable (size - superblockSize) clusterSize 4 / clusterSize < 2 ^ 32
    else
      roundUp ((size - superblockSize) / (clusterSize + 4) * 4) superblockSize ≤
        (size - superblockSize) / (clusterSize + 4) * 4 +
          (size - superblockSize) % (clusterSize + 4)

instance (size clusterSize : Nat) : Decidable (SoundSize size clusterSize) := by
  unfold SoundSize
  infer_instance

def Holds (size clusterSize entrySize n : Nat) : Prop :=
  superblockSize + roundUp (n * entrySize) superblockSize + n * clusterSize ≤ size

theorem holds_zero {es : Nat} (hsize : superblockSize ≤ size) : Holds size cs es 0 := by
  unfold Holds roundUp superblockSize at *
  omega

theorem holds_iff_not_spills {es : Nat} (hes : es = 2 ∨ es = 4) (hcs : 512 ≤ cs)
    (hsize : 2 * superblockSize ≤ size) :
    Holds size cs es (afterTable (size - superblockSize) cs es / cs) ↔
      ¬ Spills (size - superblockSize) cs es := by
  have hspace : superblockSize ≤ size - superblockSize := by omega
  obtain ⟨space, rfl⟩ : ∃ space, size = space + superblockSize := ⟨_, (Nat.sub_add_cancel (by omega)).symm⟩
  rw [Nat.add_sub_cancel] at hspace ⊢
  constructor
  · intro hholds hspill
    have hrem : space % (cs + es) < cs + es := Nat.mod_lt _ (by omega)
    have hdiv := space_eq space cs es
    have hpage : superblockSize + space / (cs + es) * es ≤
        roundUp ((space / (cs + es) + 1) * es) superblockSize := by
      obtain ⟨k, hk⟩ := hspill.2.1
      rw [Nat.add_mul, hk]
      unfold roundUp superblockSize
      omega
    rw [Holds, count_of_spills (by omega) hcs hspill, Nat.add_mul (space / (cs + es)) 1 cs] at hholds
    have : es < superblockSize := by
      unfold superblockSize
      omega
    omega
  · intro hspill
    have hcount := count_le_of_not_spills hes hcs hspace hspill
    have hfit := table_le hes hcs hspace
    have htable : roundUp (afterTable space cs es / cs * es) superblockSize ≤
        roundUp (max (space / (cs + es)) 1 * es) superblockSize :=
      roundUp_page_mono (Nat.mul_le_mul_right es (hcount.trans (Nat.le_max_left ..)))
    have hdata := Nat.div_mul_le_self (afterTable space cs es) cs
    unfold Holds
    unfold afterTable at hdata htable ⊢
    omega

theorem estimate_lt_of_few (hcs : 512 ≤ cs) {space : Nat} (hspace : superblockSize ≤ space)
    (hfew : afterTable space cs 4 / cs < 65525) : space / (cs + 4) < 2 ^ 32 := by
  have hdata := (Nat.div_lt_iff_lt_mul (by omega)).mp hfew
  have hdiv := space_eq space cs 4
  have hlt := roundUp_page_lt (max (space / (cs + 4)) 1 * 4)
  have hest : space / (cs + 4) < 65534 := by
    refine Nat.lt_of_mul_lt_mul_right (a := cs) ?_
    unfold afterTable superblockSize at *
    omega
  omega

theorem soundSize_iff (hcs : 512 ≤ cs) (hsize : 2 * superblockSize ≤ size) :
    SoundSize size cs ↔ (chosenLayout (size - superblockSize) cs).2 < 2 ^ 32 ∧
      Holds size cs (chosenLayout (size - superblockSize) cs).1
        (chosenLayout (size - superblockSize) cs).2 := by
  have h2 := holds_iff_not_spills (.inl rfl) hcs hsize
  have h4 := holds_iff_not_spills (.inr rfl) hcs hsize
  have hspace : superblockSize ≤ size - superblockSize := by omega
  have hback : size = size - superblockSize + superblockSize := by omega
  unfold SoundSize chosenLayout
  generalize size - superblockSize = space at *
  by_cases hn2 : afterTable space cs 2 / cs < 65525
  · simp only [if_pos hn2]
    grind
  · simp only [if_neg hn2]
    by_cases hn4 : 65525 ≤ afterTable space cs 4 / cs
    · simp only [if_pos hn4]
      grind
    · simp only [if_neg hn4]
      have hest := estimate_lt_of_few hcs hspace (Nat.lt_of_not_le hn4)
      have hdiv := space_eq space cs 4
      unfold Holds
      exact ⟨fun h => ⟨hest, by omega⟩, fun h => ⟨hsize, by omega⟩⟩

theorem init_cases (start size : Nat) (header : Data) (hspc : 0 < uint32LE header 8)
    (hroot : 0 < uint32LE header 12) :
    (layoutType size (uint32LE header 8 * sectorSize) = .error .trap ∧
      FATXVolume.init start size header = .error .trap) ∨
    ∃ l v, layoutType size (uint32LE header 8 * sectorSize) = .ok l ∧
      FATXVolume.init start size header = .ok v ∧ v.partitionStart = start ∧
      v.partitionSize = size ∧ v.clusterSize = uint32LE header 8 * sectorSize ∧
      v.entrySize = l.entrySize ∧ v.clusterCount = l.clusterCount ∧
      v.dataStart = start + superblockSize + l.fatSize ∧
      v.fatStart = start + superblockSize ∧ v.rootDirectoryCluster = uint32LE header 12 := by
  have hguard : 0 < uint32LE header 8 ∧ 0 < uint32LE header 12 := ⟨hspc, hroot⟩
  rw [FATXVolume.init]
  simp only [dif_pos hguard]
  cases hlayout : layoutType size (uint32LE header 8 * sectorSize) with
  | ok l =>
    simp_all
  | error e =>
    refine .inl ?_
    have he : e = .trap := layoutType_error (Nat.le_mul_of_pos_left sectorSize hspc) hlayout
    rw [error_bind, he]
    exact ⟨rfl, rfl⟩

theorem two_pages_of_init {start size : Nat} {header : Data} {v : FATXVolume}
    (h : FATXVolume.init start size header = .ok v) : 2 * superblockSize ≤ size := by
  by_contra hsize
  by_cases hguard : 0 < uint32LE header 8 ∧ 0 < uint32LE header 12
  · rcases init_cases start size header hguard.1 hguard.2 with ⟨-, htrap⟩ | ⟨l, v', hl, -⟩
    · rw [htrap] at h
      cases h
    · rw [layoutType_trap (Nat.lt_of_not_le hsize)] at hl
      cases hl
  · rw [FATXVolume.init] at h
    simp only [dif_neg hguard] at h
    cases h

theorem FATXVolume.sound_iff (v : FATXVolume) {fatSize : Nat}
    (hdata : v.dataStart = v.partitionStart + superblockSize + fatSize) :
    v.SoundGeometry ↔ v.clusterCount = 0 ∨
      superblockSize + fatSize + v.clusterCount * v.clusterSize ≤ v.partitionSize := by
  constructor
  · intro hsound
    by_cases hzero : v.clusterCount = 0
    · exact .inl hzero
    · refine .inr ?_
      have hlast := (hsound.data v.clusterCount
        (FATXVolume.inRange_iff.mpr ⟨Nat.pos_of_ne_zero hzero, Nat.le_refl _⟩)).2
      have hmul := Nat.succ_mul (v.clusterCount - 1) v.clusterSize
      grind [FATXVolume.dataOffset]
  · intro h
    refine ⟨v.fat_fits, fun c hc => ?_, fun hes c hc => ?_⟩
    · obtain ⟨hpos, hle⟩ := FATXVolume.inRange_iff.mp hc
      have hmul := Nat.mul_le_mul_right v.clusterSize (show c - 1 + 1 ≤ v.clusterCount by omega)
      rw [Nat.add_mul, Nat.one_mul] at hmul
      unfold FATXVolume.dataOffset
      omega
    · have hsmall := v.count_small hes
      have hle := (FATXVolume.inRange_iff.mp hc).2
      omega

/-- `init` does not stop the process and computes a sound geometry exactly for the sizes for which
its estimates work out. -/
theorem geometry_sound_iff (start size : Nat) (header : Data) (hspc : 0 < uint32LE header 8) :
    (FATXVolume.init start size header ≠ .error .trap ∧
      ∀ v, FATXVolume.init start size header = .ok v → v.SoundGeometry) ↔
      (0 < uint32LE header 12 → SoundSize size (uint32LE header 8 * sectorSize)) := by
  have hcs : 512 ≤ uint32LE header 8 * sectorSize := Nat.le_mul_of_pos_left sectorSize hspc
  by_cases hroot : 0 < uint32LE header 12
  · refine Iff.trans ?_ (forall_prop_of_true hroot).symm
    by_cases hsize : 2 * superblockSize ≤ size
    · rw [soundSize_iff hcs hsize]
      rcases layoutType_cases hcs hsize with ⟨hcount, htrap⟩ | ⟨l, hok, hes, hn, hfat⟩
      · grind [init_cases]
      · rcases init_cases start size header hspc hroot with ⟨hl, -⟩ |
          ⟨l', v, hl, hinit, hstart, hpart, hclus, hves, hvn, hvdata, -⟩
        · rw [hok] at hl
          cases hl
        · cases hok.symm.trans hl
          have hdata : v.dataStart = v.partitionStart + superblockSize + l.fatSize := by
            rw [hvdata, hstart]
          have hsound := v.sound_iff hdata
          have hcount := l.count_lt
          rw [hpart, hclus, hvn, hfat, hn] at hsound
          rw [hn] at hcount
          constructor
          · intro h
            refine ⟨hcount, ?_⟩
            rcases hsound.mp (h.2 v hinit) with hzero | hholds
            · rw [hzero]
              exact holds_zero (by omega)
            · exact hholds
          · intro h
            rw [hinit]
            refine ⟨fun h => (nomatch h), fun v' hv' => ?_⟩
            cases hv'
            exact hsound.mpr (.inr h.2)
    · rcases init_cases start size header hspc hroot with ⟨-, hinit⟩ | ⟨l, v, hl, -⟩
      · exact ⟨fun h => absurd hinit h.1, fun h => absurd h.1 hsize⟩
      · rw [layoutType_trap (Nat.lt_of_not_le hsize)] at hl
        cases hl
  · have hguard : ¬ (0 < uint32LE header 8 ∧ 0 < uint32LE header 12) := fun h => hroot h.2
    have hinit : FATXVolume.init start size header = .error (.thrown .invalidFATXVolume) := by
      rw [FATXVolume.init]
      simp only [dif_neg hguard]
      rfl
    rw [hinit]
    exact ⟨fun _ h => absurd h hroot, fun _ => ⟨by simp, fun v h => nomatch h⟩⟩

def sectorHeader : Data := fatxSignature ++ [0, 0, 0, 0] ++ [1, 0, 0, 0] ++ [1, 0, 0, 0]

theorem geometry_sound_retail :
    FATXVolume.init ePartitionOffset ePartitionSize sectorHeader ≠ .error .trap ∧
      ∀ v, FATXVolume.init ePartitionOffset ePartitionSize sectorHeader = .ok v → v.SoundGeometry :=
  (geometry_sound_iff ePartitionOffset ePartitionSize sectorHeader (by decide)).mpr
    fun _ => by decide +kernel

/-- An image of one page stops the process, and on one of 1057280 bytes the last of the 2049
clusters counted ends 4096 bytes behind the partition. -/
theorem geometry_unsound :
    ⟨0, 4096, false⟩ ∈ partitionCandidates 4096 ∧
      FATXVolume.init 0 4096 sectorHeader = .error .trap ∧
    ⟨0, 1057280, false⟩ ∈ partitionCandidates 1057280 ∧
      ∃ v, FATXVolume.init 0 1057280 sectorHeader = .ok v ∧ v.clusterCount = 2049 ∧
        v.dataOffset 2049 + v.clusterSize = 1057280 + 4096 := by
  have htrap : FATXVolume.init 0 4096 sectorHeader = .error .trap := by
    rcases init_cases 0 4096 sectorHeader (by decide) (by decide) with ⟨-, h⟩ | ⟨l, v, hl, -⟩
    · exact h
    · rw [layoutType_trap (by decide)] at hl
      cases hl
  have hchosen : chosenLayout (1057280 - superblockSize) (uint32LE sectorHeader 8 * sectorSize) =
      (2, 2049) := by decide +kernel
  refine ⟨by decide, htrap, by decide, ?_⟩
  rcases @layoutType_cases 1057280 (uint32LE sectorHeader 8 * sectorSize) (by decide) (by decide) with
    ⟨hcount, -⟩ | ⟨l, hl, -, hn, hfat⟩
  · rw [hchosen] at hcount
    exact absurd hcount (by decide)
  · rcases init_cases 0 1057280 sectorHeader (by decide) (by decide) with ⟨htrap, -⟩ |
      ⟨l', v, hl', hinit, -, -, hclus, -, hvn, hdata, -⟩
    · rw [hl] at htrap
      cases htrap
    · cases hl.symm.trans hl'
      rw [hchosen] at hn hfat
      refine ⟨v, hinit, hvn.trans hn, ?_⟩
      rw [FATXVolume.dataOffset, hdata, hclus, hfat]
      decide +kernel

end DukeX.Fatx
