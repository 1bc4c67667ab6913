import DukeX.CloudSaves.Export
import DukeX.Fatx.Traced

/-!
# Importing an archive

`importArchive` unpacks an archive and copies the tree to a new directory of `UDATA`.
-/

namespace DukeX.CloudSaves

open DukeX.Lib DukeX.Swift DukeX.Fatx

def unpack (extracted : Option (List HostNode)) : DiskM (List HostNode) :=
  match extracted with
  | some children => pure children
  | none => throw .io

def importOpened (F : Foundation) (volume : FATXVolume) (normalizedTitleID : String)
    (extracted : Option (List HostNode)) : DiskM Bool := do
  let udata ← volume.ensureDirectory F "UDATA" volume.rootDirectoryCluster
  let existing ← attempt Halt.isError (volume.directory F normalizedTitleID udata.startCluster)
  if existing.isSome then return false
  else do
    -- the temporary directory
    storageCall
    let children ← unpack extracted
    volume.importDirectory F children normalizedTitleID udata.startCluster
    return true

def importArchive (F : Foundation) (virtualSize : Nat) (titleID : String)
    (extracted : Option (List HostNode)) : DiskM Bool := do
  let normalizedTitleID := F.uppercased titleID
  if isTitleID normalizedTitleID then do
    let volume ← findEPartition F virtualSize
    importOpened F volume normalizedTitleID extracted
  else throw (.thrown (.invalidTitleID titleID))

section Kept

variable (v : FATXVolume) (F : Foundation)

mutual

/-- Directory `d` has the file with its bytes, or a directory of that name up to case with
everything of it that is visible and can be stored. -/
def Kept (a : ClusterStore) : HostNode → Nat → Prop
  | .file name data, d =>
    ∃ e ∈ v.entriesOf a d, e.isDirectory = false ∧ e.name = name ∧ v.contents a e = data
  | .dir name children, d =>
    ∃ e ∈ v.entriesOf a d, e.isDirectory = true ∧
      (e.name = name ∨ F.caseInsensitiveSame e.name name = true) ∧ KeptAll a children e.startCluster

def KeptAll (a : ClusterStore) : List HostNode → Nat → Prop
  | [], _ => True
  | child :: rest, d => (FATXVolume.Storable child → Kept a child d) ∧ KeptAll a rest d

end

variable {v F} {a : ClusterStore}

variable {ns : List HostNode} {d : Nat}

theorem keptAll_iff :
    KeptAll v F a ns d ↔ ∀ n ∈ ns, FATXVolume.Storable n → Kept v F a n d := by
  induction ns with
  | nil =>
    simp [KeptAll]
  | cons n ns ih =>
    unfold KeptAll
    rw [ih, List.forall_mem_cons]

theorem containedAll_iff :
    v.ContainedAll F a ns d ↔ ∀ n ∈ ns, isStorable n.name = true → v.Contained F a n d := by
  induction ns with
  | nil =>
    simp [FATXVolume.ContainedAll]
  | cons n ns ih =>
    simp [FATXVolume.ContainedAll, ih]

theorem mem_listing {n : HostNode} (hn : n ∈ ns) (hvisible : isHidden n.name = false) :
    n.listed F ∈ listing F ns := by
  simp [listing, sortVisible, FATXVolume.listedAll_eq, List.mem_map_of_mem, FATXVolume.name_listed,
    hn, hvisible]

theorem keptAll_of_containedAll
    (ih : ∀ n ∈ ns, ∀ d, v.Contained F a (n.listed F) d → Kept v F a n d)
    (h : v.ContainedAll F a (listing F ns) d) : KeptAll v F a ns d := by
  refine keptAll_iff.mpr fun n hn hstorable => ?_
  refine ih n hn d (containedAll_iff.mp h _ (mem_listing hn hstorable.1) ?_)
  rw [FATXVolume.name_listed]
  exact hstorable.2

theorem kept_of_contained (n : HostNode) :
    ∀ d, v.Contained F a (n.listed F) d → Kept v F a n d := by
  induction n using HostNode.induct with
  | file name data =>
    simp [HostNode.listed, FATXVolume.Contained, Kept]
  | dir name children ih =>
    intro d h
    unfold HostNode.listed FATXVolume.Contained at h
    obtain ⟨e, he, hdir, hname, hall⟩ := h
    unfold Kept
    exact ⟨e, he, hdir, hname, keptAll_of_containedAll ih hall⟩

end Kept

/-! ## Wherever the import stops -/

section Run

variable {F : Foundation} {v : FATXVolume} {virtualSize : Nat} {titleID : String}
variable {extracted : Option (List HostNode)} {s s' : Disk}

def savedTitle (titleID : String) (extracted : Option (List HostNode)) : HostNode :=
  .dir "UDATA" [.dir titleID (extracted.getD [])]

theorem isHidden_of_isTitleID (h : isTitleID titleID = true) : isHidden titleID = false := by
  rw [isTitleID, Bool.and_eq_true, beq_iff_eq] at h
  rw [isHidden, beq_eq_false_iff_ne]
  intro hdot
  have hmem : '.' ∈ titleID.toList := List.mem_of_mem_head? hdot
  exact absurd (List.all_eq_true.mp h.2 '.' hmem) (by decide)

theorem listed_savedTitle (h : isTitleID titleID = true) (extracted : Option (List HostNode)) :
    (savedTitle titleID extracted).listed F =
      .dir "UDATA" [.dir titleID (listing F (extracted.getD []))] := by
  have hvisible : isHidden (HostNode.dir titleID (listing F (extracted.getD []))).name = false :=
    isHidden_of_isTitleID h
  change HostNode.dir "UDATA" (sortVisible F [.dir titleID (listing F (extracted.getD []))]) = _
  rw [sortVisible, List.filter_singleton, hvisible]
  rfl

theorem place_rootDirectory (v : FATXVolume) (a : ClusterStore) :
    v.Place [v.rootDirectoryCluster] a v.rootDirectoryCluster :=
  .inl ⟨v.root_pos.ne', .inl (List.mem_singleton_self _)⟩

/-- The title's directory is in `UDATA`, with everything of the tree that is visible and can be
stored. -/
def Stored (v : FATXVolume) (F : Foundation) (a : ClusterStore) (titleID : String)
    (children : List HostNode) : Prop :=
  ∃ udata ∈ v.entriesOf a v.rootDirectoryCluster, udata.isDirectory = true ∧
    (udata.name = "UDATA" ∨ F.caseInsensitiveSame udata.name "UDATA" = true) ∧
    Kept v F a (.dir titleID children) udata.startCluster

theorem wp_importOpened (hid : isTitleID titleID = true) (hwf : v.InOrder s.bytes) :
    wp (importOpened F v titleID extracted)
      (fun done s' => ∃ R',
        v.Progress (v.Asked F v.rootDirectoryCluster (savedTitle titleID extracted))
          [v.rootDirectoryCluster] s R' s' ∧
        (done = true → v.AllLinkable → Stored v F (v.view s'.bytes) titleID (extracted.getD [])))
      (fun _ s' => ∃ R',
        v.Progress (v.Asked F v.rootDirectoryCluster (savedTitle titleID extracted))
        [v.rootDirectoryCluster] s R' s') s := by
  have hroot := place_rootDirectory v (v.view s.bytes)
  have hlisted := @listed_savedTitle F _ hid extracted
  unfold importOpened
  refine wp_seq (FATXVolume.wp_ensureDirectory_licensed FATXVolume.licence_asked (by decide) hwf
    hroot fun _ => ⟨hroot, _, hlisted.symm, fun _ => .here⟩) ?_ fun _ _ h => h
  rintro udata s1 ⟨R1, hp1, hplace1, hctx1, hfound⟩
  refine wp_seq (FATXVolume.wp_attempt_directory F titleID udata.startCluster s1) ?_ fun _ _ h =>
    h.elim
  rintro existing s2 ⟨hq2, -⟩
  have hp2 := hp1.trans (.of_quiet hq2)
  refine wp_ite (fun _ => ⟨R1, hp2, nofun⟩) fun _ => ?_
  refine wp_seq (FATXVolume.wp_storageCall s2) ?_ fun _ _ hq => ⟨R1, hp2.trans (.of_quiet hq)⟩
  intro _ s3 hq3
  have hq3 := hq2.trans hq3
  have hp3 := hp1.trans (.of_quiet hq3)
  cases extracted with
  | none => exact ⟨R1, hp3⟩
  | some children =>
    refine wp_bind.mpr (wp_pure.mpr ?_)
    have hwf1 := hp1.wellFormed hwf
    refine wp_seq
      (FATXVolume.wp_importDirectory FATXVolume.licence_asked (isStorable_of_isTitleID hid)
      (hq3.1 ▸ hwf1) (hq3.1 ▸ hplace1) (hq3.1 ▸ hctx1 _ List.mem_cons_self)) ?_ ?_
    · rintro _ s4 ⟨R4, hp4, hcont⟩
      refine ⟨R4, hp3.trans hp4, fun _ hall => ?_⟩
      obtain ⟨e, he, hdir, hname, hstart⟩ := hfound hall
      have hlate := ((hp1.place hwf hroot).entries
        (((FATXVolume.Progress.of_quiet hq3).trans hp4).extends hwf1) he)
      refine ⟨e, hlate, hdir, hname, ?_⟩
      rw [hstart]
      exact kept_of_contained (.dir titleID children) _ (hcont hall)
    · rintro _ s4 ⟨R4, hp4⟩
      exact ⟨R4, hp3.trans hp4⟩

theorem quiet_of_open {s1 : Disk} (hopen : findEPartition F virtualSize s = .ok v s1) :
    s.Quiet s1 :=
  (wp.ok (wp_findEPartitionLoop (E := fun _ => True) (Q := fun _ => True)
    (fun _ _ => trivial) (.refl s)
    (fun _ _ => trivial) fun _ _ _ => ⟨fun _ _ => trivial, fun _ _ => trivial⟩) hopen).1

theorem wp_importArchive {s1 : Disk} (hopen : findEPartition F virtualSize s = .ok v s1)
    (hwf : v.InOrder s.bytes) :
    wp (importArchive F virtualSize titleID extracted)
      (fun done s' => ∃ R', v.Run
          (v.Asked F v.rootDirectoryCluster (savedTitle (F.uppercased titleID) extracted))
          ([v.rootDirectoryCluster], v.view s.bytes) (R', v.view s'.bytes) ∧
        (done = true → v.AllLinkable →
          Stored v F (v.view s'.bytes) (F.uppercased titleID) (extracted.getD [])))
      (fun _ s' => ∃ R', v.Run
        (v.Asked F v.rootDirectoryCluster (savedTitle (F.uppercased titleID) extracted))
        ([v.rootDirectoryCluster], v.view s.bytes) (R', v.view s'.bytes)) s := by
  have hbytes := (quiet_of_open hopen).1
  unfold importArchive
  refine wp_ite (fun hid => ?_) fun _ => ⟨_, .refl⟩
  refine wp_bind.mpr ((wp_of_eq_ok hopen).mpr ?_)
  rw [← hbytes] at hwf ⊢
  refine wp_mono (wp_importOpened hid hwf) ?_ ?_
  · intro done s' ⟨R', hp, hstored⟩
    exact ⟨R', hp.1, hstored⟩
  · intro _ s' ⟨R', hp⟩
    exact ⟨R', hp.1⟩

theorem traced_of_run (hall : v.AllLinkable) (hwf : v.InOrder s.bytes) {n : HostNode}
    {R' : List Nat}
    (hrun : v.Run (v.Asked F v.rootDirectoryCluster n) ([v.rootDirectoryCluster], v.view s.bytes)
      (R', v.view s'.bytes)) :
    v.Traced F v.rootDirectoryCluster n [v.rootDirectoryCluster] (v.view s.bytes)
      [v.rootDirectoryCluster] (v.view s'.bytes) := by
  obtain ⟨-, -, hsub⟩ := FATXVolume.Run.preserves (x := (_, v.view s.bytes)) hwf hrun
  intro c hc entry hentry
  exact FATXVolume.Run.traced hall hrun hwf (place_rootDirectory v _) c (hc.mono hsub) entry hentry

end Run

def labelledImage : Store := blankImage.write 0 sectorHeader

def labelledDisk (faults : List Bool) : Disk := { bytes := labelledImage, faults, stamps := 0 }

theorem inOrder_labelledImage : smallVolume.InOrder labelledImage := by
  have hchain : smallVolume.FatChain (smallVolume.view labelledImage) 1 [1] :=
    ⟨.last (by decide), by decide⟩
  have hdata : (smallVolume.view labelledImage).data 1 = List.replicate 512 0 := by decide +kernel
  refine FATXVolume.wellFormed_of_empty hchain (hchain.entriesOf_eq.trans ?_)
  rw [List.flatMap_singleton, hdata]
  exact FATXVolume.clusterEntries_zero 1

theorem init_labelledImage :
    FATXVolume.init 0 0x3000 (labelledImage.read 0 superblockSize) = .ok smallVolume := by
  have hsectors : uint32LE (labelledImage.read 0 superblockSize) 8 = 1 := by decide +kernel
  have hroot : uint32LE (labelledImage.read 0 superblockSize) 12 = 1 := by decide +kernel
  unfold FATXVolume.init
  simp only [hsectors, hroot]
  rfl

theorem open_labelledDisk {faults rest : List Bool}
    (h : storageCall (labelledDisk faults) = .ok () (labelledDisk rest)) :
    findEPartition plainFoundation 0x3000 (labelledDisk faults) =
      .ok smallVolume (labelledDisk rest) := by
  have hsignature : (labelledImage.read 0 superblockSize).take 4 = fatxSignature :=
      by decide +kernel
  have hinit := init_labelledImage
  have hread : wp (readImage 0 superblockSize)
      (fun header s => header = labelledImage.read 0 superblockSize ∧ s = labelledDisk rest)
      (fun _ _ => False) (labelledDisk faults) := by
    unfold readImage
    refine wp_bind.mpr ((wp_of_eq_ok h).mpr ?_)
    exact wp_bind.mpr (wp_get.mpr (wp_pure.mpr ⟨rfl, rfl⟩))
  -- from here on the header is any block with that signature
  generalize labelledImage.read 0 superblockSize = header at hsignature hinit hread
  have hwp : wp (findEPartition plainFoundation 0x3000)
      (fun v s => v = smallVolume ∧ s = labelledDisk rest) (fun _ _ => False)
        (labelledDisk faults) := by
    have hcandidates : partitionCandidates 0x3000 = [⟨0, 0x3000, false⟩] := by decide
    rw [findEPartition, hcandidates, findEPartitionLoop, if_pos (by decide)]
    refine wp_seq hread ?_ fun _ _ h => h
    intro _ s ⟨hheader, hs⟩
    subst hheader hs
    refine wp_ite (fun _ => ?_) fun hnot => absurd hsignature hnot
    rw [hinit]
    exact ⟨rfl, rfl⟩
  obtain ⟨v, s, hrun, rfl, rfl⟩ := hwp.total
  exact hrun

theorem allLinkable_smallVolume : smallVolume.AllLinkable := by
  intro n hn
  obtain ⟨-, hle⟩ := FATXVolume.inRange_iff.mp hn
  change decide (0xFFF8 ≤ n) = false
  change n ≤ 8 at hle
  exact decide_eq_false (by omega)

def namesOfTitle (v : FATXVolume) (F : Foundation) (a : ClusterStore) (titleID : String) :
    Option (List String) := do
  let udata ← v.lookup F a "UDATA" v.rootDirectoryCluster
  let title ← v.lookup F a titleID udata.startCluster
  return (v.entriesOf a title.startCluster).map (·.name)

/-! ## The results -/

/-- **An import that returns true has imported what is visible and can be stored**, and nothing
else: every entry that was not there before comes from such a node of the tree. -/
theorem importArchive_stored (F : Foundation) (virtualSize : Nat) (titleID : String)
    (children : List HostNode) (v : FATXVolume) (s s₁ s' : Disk)
    (hopen : findEPartition F virtualSize s = .ok v s₁) (hwf : v.InOrder s.bytes)
    (hall : v.AllLinkable)
    (hrun : importArchive F virtualSize titleID (some children) s = .ok true s') :
    Stored v F (v.view s'.bytes) (F.uppercased titleID) children ∧
    v.Traced F v.rootDirectoryCluster (savedTitle (F.uppercased titleID) (some children))
      [v.rootDirectoryCluster] (v.view s.bytes) [v.rootDirectoryCluster] (v.view s'.bytes) := by
  obtain ⟨R', hrun', hstored⟩ := (wp_importArchive hopen hwf).ok hrun
  exact ⟨hstored rfl hall, traced_of_run hall hwf hrun'⟩

theorem importArchive_stored_sample :
    ∃ s', importArchive plainFoundation 0x3000 "4D530002" (some sampleSave) (labelledDisk []) =
        .ok true s' ∧
      Stored smallVolume plainFoundation (smallVolume.view s'.bytes) "4D530002" sampleSave := by
  have hok : (match importArchive plainFoundation 0x3000 "4D530002" (some sampleSave) (labelledDisk [])
      with | .ok done _ => done | .error _ _ => false) = true := by decide +kernel
  split at hok
  · rename_i done s' hrun
    subst hok
    exact ⟨s', hrun, importArchive_stored plainFoundation 0x3000 "4D530002" sampleSave smallVolume
      _ _ s' (open_labelledDisk rfl) inOrder_labelledImage allLinkable_smallVolume hrun |>.1⟩
  · cases hok

def leftOutSave : List HostNode :=
  [.file ".profile" [1], .file "0123456789012345678901234567890123456789012" [2]]

theorem importArchive_leftOut :
    smallVolume.InOrder (labelledDisk []).bytes ∧
    ∃ s', importArchive plainFoundation 0x3000 "4D530002" (some leftOutSave) (labelledDisk []) =
        .ok true s' ∧
      namesOfTitle smallVolume plainFoundation (smallVolume.view s'.bytes) "4D530002" = some [] := by
  have hok : (match importArchive plainFoundation 0x3000 "4D530002" (some leftOutSave) (labelledDisk [])
      with
      | .ok done s' => done &&
        namesOfTitle smallVolume plainFoundation (smallVolume.view s'.bytes) "4D530002" == some []
      | .error _ _ => false) = true := by decide +kernel
  refine ⟨inOrder_labelledImage, ?_⟩
  grind

def TitlePresent (v : FATXVolume) (F : Foundation) (a : ClusterStore) (titleID : String) : Prop :=
  ∃ udata title, v.lookup F a "UDATA" v.rootDirectoryCluster = some udata ∧
    v.lookup F a titleID udata.startCluster = some title

variable {F : Foundation} {virtualSize : Nat} {titleID : String}
variable {extracted : Option (List HostNode)} {v : FATXVolume}

theorem importArchive_of_present {s s1 : Disk}
    (hid : isTitleID (F.uppercased titleID) = true)
    (hopen : findEPartition F virtualSize s = .ok v s1) (h0 : s.faults = [])
    (hpresent : TitlePresent v F (v.view s.bytes) (F.uppercased titleID)) :
    ∃ s', importArchive F virtualSize titleID extracted s = .ok false s' ∧ s'.bytes = s.bytes := by
  obtain ⟨udata, title, hudata, htitle⟩ := hpresent
  have hq1 := quiet_of_open hopen
  have hopened : wp (importOpened F v (F.uppercased titleID) extracted)
      (fun done s' => done = false ∧ s.Quiet s') (fun _ _ => False) s1 := by
    unfold importOpened
    have hensure : wp (v.ensureDirectory F "UDATA" v.rootDirectoryCluster)
        (fun e s' => e = udata ∧ s.Quiet s') (fun _ _ => False) s1 := by
      unfold FATXVolume.ensureDirectory
      refine wp_seq (FATXVolume.wp_attempt_directory F "UDATA" v.rootDirectoryCluster s1) ?_
        fun _ _ h => h
      rintro existing s2 ⟨hq2, -, hlook⟩
      rw [hlook (hq1.2.2 h0), hq1.1, hudata]
      exact ⟨rfl, hq1.trans hq2⟩
    refine wp_seq hensure ?_ fun _ _ h => h
    rintro _ s2 ⟨rfl, hq2⟩
    refine wp_seq (FATXVolume.wp_attempt_directory F (F.uppercased titleID) _ s2) ?_ fun _ _ h => h
    rintro existing s3 ⟨hq3, -, hlook⟩
    rw [hlook (hq2.2.2 h0), hq2.1, htitle]
    exact ⟨rfl, hq2.trans hq3⟩
  have hrun : wp (importArchive F virtualSize titleID extracted)
      (fun done s' => done = false ∧ s.Quiet s') (fun _ _ => False) s := by
    unfold importArchive
    refine wp_ite (fun _ => ?_) fun hnot => absurd hid hnot
    exact wp_bind.mpr ((wp_of_eq_ok hopen).mpr hopened)
  obtain ⟨done, s', heq, rfl, hq⟩ := hrun.total
  exact ⟨s', heq, hq.1⟩

theorem present_of_importArchive {s s1 s' : Disk}
    (hopen : findEPartition F virtualSize s = .ok v s1) (hwf : v.InOrder s.bytes)
    (hall : v.AllLinkable) (hrun : importArchive F virtualSize titleID extracted s = .ok false s') :
    TitlePresent v F (v.view s.bytes) (F.uppercased titleID) := by
  have hq1 := quiet_of_open hopen
  have hopened : wp (importOpened F v (F.uppercased titleID) extracted)
      (fun done _ => done = false → TitlePresent v F (v.view s1.bytes) (F.uppercased titleID))
      (fun _ _ => True) s1 := by
    unfold importOpened
    rw [← hq1.1] at hwf
    refine wp_seq (FATXVolume.wp_ensureDirectory (fun _ _ _ _ => True) hwf
      (place_rootDirectory v _) fun _ _ _ _ _ _ => trivial) ?_ fun _ _ _ => trivial
    intro udata s2 hmade
    refine wp_seq
      (FATXVolume.wp_attempt_directory F (F.uppercased titleID) udata.startCluster s2) ?_
      fun _ _ h => h.elim
    rintro existing s3 ⟨-, hlook, -⟩
    refine wp_ite (fun hsome => ?_) fun _ => ?_
    · intro _
      obtain ⟨title, hexisting⟩ := Option.isSome_iff_exists.mp hsome
      have htitle := hlook title hexisting
      rcases hmade with ⟨hudata, hq2⟩ | ⟨-, hnew⟩
      · exact ⟨udata, title, hudata, hq2.1 ▸ htitle⟩
      · -- a directory that was just made is empty
        obtain ⟨-, -, -, -, -, hempty, -⟩ := hnew (by decide) (.inl hall)
        rw [FATXVolume.lookup, hempty] at htitle
        cases htitle
    · refine wp_seq (wp_any storageCall s3) (fun _ s4 _ => ?_) fun _ _ _ => trivial
      refine wp_seq (wp_any (unpack extracted) s4) (fun children s5 _ => ?_) fun _ _ _ => trivial
      refine wp_seq (wp_any (v.importDirectory F children _ _) s5)
        (fun _ _ _ hfalse => Bool.noConfusion hfalse) fun _ _ _ => trivial
  have hwp : wp (importArchive F virtualSize titleID extracted)
      (fun done _ => done = false → TitlePresent v F (v.view s1.bytes) (F.uppercased titleID))
      (fun _ _ => True) s := by
    unfold importArchive
    exact wp_ite (fun _ => wp_bind.mpr ((wp_of_eq_ok hopen).mpr hopened)) fun _ => trivial
  rw [← hq1.1]
  exact hwp.ok hrun rfl

/-- **Where an import stops.** The volume is in order and has everything it had. -/
theorem importArchive_stopped (F : Foundation) (virtualSize : Nat) (titleID : String)
    (extracted : Option (List HostNode)) (v : FATXVolume) (s s₁ s' : Disk) (e : Halt)
    (hopen : findEPartition F virtualSize s = .ok v s₁) (hwf : v.InOrder s.bytes)
    (hall : v.AllLinkable)
    (hrun : importArchive F virtualSize titleID extracted s = .error e s') :
    v.InOrder s'.bytes ∧ v.Keeps s.bytes s'.bytes ∧
    v.Traced F v.rootDirectoryCluster (savedTitle (F.uppercased titleID) extracted)
      [v.rootDirectoryCluster] (v.view s.bytes) [v.rootDirectoryCluster] (v.view s'.bytes) ∧
    ∀ s₂ s₃, s₂.bytes = s'.bytes → s₂.faults = [] → findEPartition F virtualSize s₂ = .ok v s₃ →
      (TitlePresent v F (v.view s'.bytes) (F.uppercased titleID) →
        isTitleID (F.uppercased titleID) = true →
        ∃ s₄, importArchive F virtualSize titleID extracted s₂ = .ok false s₄ ∧
          s₄.bytes = s'.bytes) ∧
      (¬ TitlePresent v F (v.view s'.bytes) (F.uppercased titleID) →
        ∀ s₄, importArchive F virtualSize titleID extracted s₂ ≠ .ok false s₄) := by
  obtain ⟨R', hrun'⟩ := (wp_of_eq_error hrun).mp (wp_importArchive hopen hwf)
  obtain ⟨hwf', hext, hsub⟩ := FATXVolume.Run.preserves (x := (_, v.view s.bytes)) hwf hrun'
  refine ⟨hwf'.anti hsub, hext, traced_of_run hall hwf hrun', ?_⟩
  · intro s₂ s₃ hbytes h0 hopen₂
    have hwf₂ : v.InOrder s₂.bytes := hbytes ▸ hwf'.anti hsub
    rw [← hbytes]
    refine ⟨fun hpresent hid => importArchive_of_present hid hopen₂ h0 hpresent, ?_⟩
    intro hnot s₄ hrun₂
    exact hnot (present_of_importArchive hopen₂ hwf₂ hall hrun₂)

def thirtyCalls : List Bool := List.replicate 30 false ++ [true]

theorem importArchive_stopped_thirty :
    ∃ s' e, importArchive plainFoundation 0x3000 "4D530002" (some sampleSave) (labelledDisk thirtyCalls) =
        .error e s' ∧
      smallVolume.InOrder s'.bytes ∧ smallVolume.Keeps labelledImage s'.bytes := by
  have hok : (match importArchive plainFoundation 0x3000 "4D530002" (some sampleSave)
      (labelledDisk thirtyCalls) with | .ok _ _ => false | .error _ _ => true) = true :=
        by decide +kernel
  split at hok
  · cases hok
  · rename_i e s' hrun
    have hstopped := importArchive_stopped plainFoundation 0x3000 "4D530002" (some sampleSave) smallVolume _
      _ s' e (open_labelledDisk rfl) inOrder_labelledImage allLinkable_smallVolume hrun
    exact ⟨s', e, hrun, hstopped.1, hstopped.2.1⟩

theorem importArchive_not_retried :
    smallVolume.InOrder (labelledDisk thirtyCalls).bytes ∧
    ∃ s' s'', importArchive plainFoundation 0x3000 "4D530002" (some sampleSave) (labelledDisk thirtyCalls) =
        .error .io s' ∧
      importArchive plainFoundation 0x3000 "4D530002" (some sampleSave) { s' with faults := [] } =
        .ok false s'' ∧
      namesOfTitle smallVolume plainFoundation (smallVolume.view s''.bytes) "4D530002" = some [] := by
  have hok : (match importArchive plainFoundation 0x3000 "4D530002" (some sampleSave)
      (labelledDisk thirtyCalls) with
      | .error .io s' =>
        match importArchive plainFoundation 0x3000 "4D530002" (some sampleSave) { s' with faults := [] } with
        | .ok done s'' => !done &&
          namesOfTitle smallVolume plainFoundation (smallVolume.view s''.bytes) "4D530002" == some []
        | .error _ _ => false
      | _ => false) = true := by decide +kernel
  refine ⟨inOrder_labelledImage, ?_⟩
  grind

end DukeX.CloudSaves
