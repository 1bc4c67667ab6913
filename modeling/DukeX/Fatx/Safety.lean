import DukeX.Fatx.Simulation

/-!
# An import damages nothing

With the import shown to be a run, what it may not do is settled by what no run does.
-/

namespace DukeX.Fatx

open DukeX.Lib DukeX.Swift

namespace FATXVolume

variable (v : FATXVolume) (F : Foundation)

def InOrder (b : Store) : Prop := v.WellFormed [v.rootDirectoryCluster] (v.view b)

/-- Every file and directory of the first image is on the second. -/
def Keeps (b b' : Store) : Prop := v.Extends [v.rootDirectoryCluster] (v.view b) (v.view b')

variable {v F} {s : Disk}

theorem licence_any : v.Licence F (fun _ _ _ _ => True) (fun _ _ _ _ => True) where
  mono _ _ _ := trivial
  file _ _ _ _ _ := trivial
  dir _ _ _ _ _ := trivial
  enter _ _ _ _ _ _ _ := trivial
  loose _ _ := trivial

theorem Progress.safe {put : List Nat → ClusterStore → Nat → FATXDirectoryEntry → Prop}
    {R' : List Nat} {s' : Disk} (h : v.Progress put [v.rootDirectoryCluster] s R' s')
    (hwf : v.InOrder s.bytes) : v.InOrder s'.bytes ∧ v.Keeps s.bytes s'.bytes := by
  obtain ⟨hwf', hext, hsub⟩ := h.1.preserves (x := (_, v.view s.bytes)) hwf
  exact ⟨hwf'.anti hsub, hext⟩

/-- **Importing a save never damages what is on the disk.** Into any directory of a volume that is
in order, for any host directory and any title ID: whether the import returns or stops, the
volume is in order and has everything it had. -/
theorem importDirectory_safe (v : FATXVolume) (F : Foundation) (children : List HostNode)
    (titleID : String) (parentCluster : Nat) (s : Disk) (hid : isTitleID titleID = true)
    (hwf : v.InOrder s.bytes)
    (hparent : v.Place [v.rootDirectoryCluster] (v.view s.bytes) parentCluster) :
    wp (v.importDirectory F children titleID parentCluster)
      (fun _ s' => v.InOrder s'.bytes ∧ v.Keeps s.bytes s'.bytes)
      (fun _ s' => v.InOrder s'.bytes ∧ v.Keeps s.bytes s'.bytes) s := by
  refine wp_mono (wp_importDirectory licence_any (isStorable_of_isTitleID hid) hwf hparent trivial)
    ?_ ?_
  · rintro _ s' ⟨_, hp, _⟩
    exact hp.safe hwf
  · rintro _ s' ⟨_, hp⟩
    exact hp.safe hwf

/-! ## A volume to try it on -/

theorem wellFormed_of_empty {a : ClusterStore} {c : Nat} {l : List Nat} (hl : v.FatChain a c l)
    (hempty : v.entriesOf a c = []) : v.WellFormed [c] a := by
  have hreach : ∀ e, ¬ v.Reachable [c] a e := by
    intro e he
    induction he with
    | root hc he =>
      rw [List.mem_singleton.mp hc, hempty] at he
      cases he
    | child _ _ _ ih => exact ih
  have hobject : ∀ o, v.Present [c] a o → o = .root c := by
    intro o ho
    cases o with
    | root k => rw [List.mem_singleton.mp ho]
    | entry e => exact absurd ho (hreach e)
  refine ⟨fun o ho _ => ?_, fun o o' ho ho' hne => ?_⟩
  · rw [hobject o ho]
    exact ⟨l, hl⟩
  · exact absurd ((hobject o ho).trans (hobject o' ho').symm) hne

end FATXVolume

theorem entrySize_two : 2 = 2 ∨ 2 = 4 := .inl rfl

def smallVolume : FATXVolume where
  partitionStart := 0
  partitionSize := 0x3000
  sectorsPerCluster := 1
  rootDirectoryCluster := 1
  entrySize := 2
  clusterSize := 512
  fatStart := 4096
  dataStart := 8192
  clusterCount := 8
  sectors_pos := by decide
  root_pos := by decide
  clusterSize_eq := by decide
  entrySize_eq := entrySize_two
  count_lt := by decide
  count_small _ := by decide
  fat_fits := by decide

def blankImage : Store := fun a => if a = 4096 ∨ a = 4097 then 0xFF else 0

def blankDisk (faults : List Bool) : Disk := { bytes := blankImage, faults, stamps := 0 }

def plainFoundation : Foundation where
  caseInsensitiveSame a b := a == b
  standardAscending a b := a < b
  uppercased a := a
  clock _ := (0x21, 0)

theorem chain_blankImage : smallVolume.FatChain (smallVolume.view blankImage) 1 [1] :=
  ⟨.last (by decide +kernel), by decide⟩

theorem entriesOf_blankImage : smallVolume.entriesOf (smallVolume.view blankImage) 1 = [] := by
  have hdata : (smallVolume.view blankImage).data 1 = List.replicate 512 0 := by decide +kernel
  rw [chain_blankImage.entriesOf_eq, List.flatMap_singleton, hdata]
  exact FATXVolume.clusterEntries_zero 1

theorem bytes_blankDisk (faults : List Bool) : (blankDisk faults).bytes = blankImage := rfl

theorem inOrder_blankDisk (faults : List Bool) : smallVolume.InOrder (blankDisk faults).bytes := by
  rw [bytes_blankDisk]
  exact FATXVolume.wellFormed_of_empty chain_blankImage entriesOf_blankImage

theorem place_root (b : Store) : smallVolume.Place [1] (smallVolume.view b) 1 :=
  .inl ⟨Nat.one_ne_zero, .inl (List.mem_singleton_self 1)⟩

set_option maxRecDepth 4096 in
theorem importDirectory_safe_blank :
    wp (smallVolume.importDirectory plainFoundation [.file "SaveMeta.xbx" [1, 2, 3]] "4D530002" 1)
      (fun _ s' => smallVolume.InOrder s'.bytes ∧
        smallVolume.Keeps (blankDisk [false, true]).bytes s'.bytes)
      (fun _ s' => smallVolume.InOrder s'.bytes ∧
        smallVolume.Keeps (blankDisk [false, true]).bytes s'.bytes)
      (blankDisk [false, true]) :=
  FATXVolume.importDirectory_safe smallVolume plainFoundation [.file "SaveMeta.xbx" [1, 2, 3]]
    "4D530002" 1 (blankDisk [false, true]) (by decide +kernel) (inOrder_blankDisk _) (place_root _)

end DukeX.Fatx
