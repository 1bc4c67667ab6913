import DukeX.CloudSaves.Profiles
import DukeX.Fatx.Damaged
import DukeX.Fatx.Fresh

/-!
# Exporting the saves

`exportArchives` opens the volume, looks up the names of the titles in the library and then packs
one title after the other: it extracts the directory of the title, hashes what is there, makes an
archive of it and collects the metadata.
-/

namespace DukeX.CloudSaves

open DukeX.Lib DukeX.Swift DukeX.Fatx

structure Platform where
  normalizedTitleID : Option String → Option String
  wildcard : String → String → Bool
  less : String → String → Bool
  sha256 : Data → String
  /-- The regular files `FileManager.enumerator` lists below a directory, by their relative paths,
  without the hidden ones. -/
  enumerator : Host → Path → List SaveFile
  enumerator_lt : ∀ host path, ∀ file ∈ enumerator host path, file.2.length < 2 ^ 63
  createArchive : Host → Path → Data
  metadataValue : String → Data → Option String
  unixTime : DateComponents → Nat
  manifestData : FATXTitleArchiveMetadata → Data
  uuidString : String → String

structure LibraryFile where
  titleID : Option String
  displayName : String

def updateHash (hash : UInt64) (bytes : Data) : UInt64 :=
  bytes.foldl (fun hash byte => (hash ^^^ byte.toUInt64) * 1099511628211) hash

def clampedInt32 (count : Nat) : Nat := min count (2 ^ 31 - 1)

def windowsFileTime (P : Platform) (save : FATXSaveArchiveMetadata) : Nat :=
  match save.modifiedDate with
  | some modifiedDate => 116444736000000000 + P.unixTime modifiedDate * 10000000
  | none => 0

def latestSaveModifiedDate (P : Platform) (metadata : FATXTitleArchiveMetadata) : Nat :=
  ((metadata.saves.filterMap (·.modifiedDate)).map P.unixTime).foldl max 0

def fingerprint (P : Platform) (metadata : FATXTitleArchiveMetadata) : UInt64 :=
  let hash := updateHash 1469598103934665603 (leBytes 4 (clampedInt32 metadata.fileCount))
  let hash := updateHash hash (leBytes 8 metadata.totalSize)
  metadata.saves.foldl (fun hash save =>
    let hash := updateHash hash (utf8 save.folderName)
    let hash := updateHash hash (leBytes 4 (clampedInt32 save.fileCount))
    let hash := updateHash hash (leBytes 8 save.totalSize)
    updateHash hash (leBytes 8 (windowsFileTime P save))) hash

def hex16 (hash : UInt64) : String :=
  let digits := Nat.toDigits 16 hash.toNat
  String.ofList (List.replicate (16 - digits.length) '0' ++ digits)

structure XBLCloudSaveArchive where
  url : Path
  titleID : String
  titleName : String
  size : Nat
  fingerprint : String
  contentHash : Option String
  saveCount : Nat
  totalBytes : Nat
  saveModifiedDate : Nat
  manifestData : Data

def XBLCloudSaveArchive.decisive (archive : XBLCloudSaveArchive) : Archive where
  titleID := archive.titleID
  fingerprint := archive.fingerprint
  contentHash := archive.contentHash
  modifiedUnixTime := archive.saveModifiedDate

def int64 (totalSize : Nat) : Except Halt Nat :=
  if totalSize < 2 ^ 63 then .ok totalSize else .error .trap

section Export

variable (P : Platform) (F : Foundation)

def childDirectoryNames (v : FATXVolume) (name : String) : DiskM (List String) := do
  match ← attempt Halt.isError (v.directory F name v.rootDirectoryCluster) with
  | none => return []
  | some directory =>
    match ← attempt Halt.isError (v.directoryEntries directory.startCluster) with
    | none => return []
    | some entries =>
      return ((entries.filter (·.isDirectory)).map (·.name)).insertionSort
        fun a b => F.standardAscending b a = false

def cloudSaveScanReport (v : FATXVolume) : DiskM FATXCloudSaveScanReport := do
  let entries ← v.directoryEntries v.rootDirectoryCluster
  let rootDirectories := ((entries.filter (·.isDirectory)).map (·.name)).insertionSort
    fun a b => F.standardAscending b a = false
  let udataDirectoryNames ← childDirectoryNames F v "UDATA"
  let tdataDirectoryNames ← childDirectoryNames F v "TDATA"
  return {
    partitionOffset := v.partitionStart
    rootDirectoryNames := rootDirectories
    udataDirectoryNames
    udataTitleDirectoryNames := udataDirectoryNames.filter isTitleID
    tdataDirectoryNames }

def titleNames (games : List LibraryFile) : List (String × String) :=
  games.filterMap fun game =>
    match P.normalizedTitleID game.titleID with
    | some titleID => if titleID.length = 8 then some (titleID, game.displayName) else none
    | none => none

def titleDirectories (v : FATXVolume) : DiskM (List FATXDirectoryEntry) := do
  let udata ← v.directory F "UDATA" v.rootDirectoryCluster
  let entries ← v.directoryEntries udata.startCluster
  return (entries.filter fun entry => entry.isDirectory && isTitleID entry.name).insertionSort
    fun a b => F.standardAscending b.name a.name = false

def sessionExcept {α : Type} : Except Halt α → SessionM α
  | .ok a => return a
  | .error e => throw e

def listFiles (directory : Path) : SessionM (List SaveFile) := do
  onDisk storageCall
  return P.enumerator (← get).host directory

def exportTitle (v : FATXVolume) (profiles : XBLCloudSaveContentHashProfiles)
    (titleNamesByID : List (String × String)) (directory : Path) (depth : Nat)
    (titleDirectory : FATXDirectoryEntry) : SessionM XBLCloudSaveArchive := do
  let titleID := F.uppercased titleDirectory.name
  let titleScratch := "fatx-" ++ titleID ++ "-" ++ P.uuidString titleDirectory.name
  let titleScratchURL ← createDirectory directory titleScratch
  v.extractDirectory depth titleDirectory.startCluster directory titleScratch
  let files ← listFiles P titleScratchURL
  let contentHash ← sessionExcept (XBLCloudSaveContentHasher.contentHash P.less P.sha256
    (profiles.rule F P.wildcard titleID) files)
  let archiveData := P.createArchive (← get).host titleScratchURL
  writeToURL directory (titleID ++ ".dukex") archiveData
  onDisk storageCall
  let metadata ← onDisk (v.archiveMetadata F P.metadataValue depth titleDirectory
    ((titleNamesByID.lookup titleID).getD titleID))
  let totalBytes ← sessionExcept (int64 metadata.totalSize)
  return {
    url := directory ++ [titleID ++ ".dukex"]
    titleID
    titleName := (metadata.titleName.or (titleNamesByID.lookup titleID)).getD titleID
    size := archiveData.length
    fingerprint := hex16 (fingerprint P metadata)
    contentHash := some contentHash
    saveCount := metadata.saves.length
    totalBytes
    saveModifiedDate := latestSaveModifiedDate P metadata
    manifestData := P.manifestData metadata }

/-- What `exportArchives` does before the first title. -/
def exportPrelude (virtualSize : Nat) (games : List LibraryFile) (here : Path) (name : String) :
    SessionM (FATXVolume × List (String × String) × Path × List FATXDirectoryEntry) := do
  let directory ← createDirectory here name
  let volume ← onDisk (findEPartition F virtualSize)
  let titleNamesByID ← sessionExcept (uniqueKeysWithValues (titleNames P games))
  let titleDirectories ← onDisk (titleDirectories F volume)
  if titleDirectories.isEmpty then do
    let report ← onDisk (cloudSaveScanReport F volume)
    throw (.thrown (.noSaveArchives report))
  else return (volume, titleNamesByID, directory, titleDirectories)

def exportArchives (virtualSize : Nat) (games : List LibraryFile)
    (profiles : XBLCloudSaveContentHashProfiles) (here : Path) (name : String) (depth : Nat) :
    SessionM (List XBLCloudSaveArchive) := do
  let (volume, titleNamesByID, directory, titleDirectories) ←
    exportPrelude P F virtualSize games here name
  titleDirectories.mapM (exportTitle P F volume profiles titleNamesByID directory depth)

end Export

/-! ## What the export relies on -/

/-- A directory that is exported: one of `UDATA` whose name is a title ID. -/
def IsTitle (F : Foundation) (v : FATXVolume) (b : Store) (title : FATXDirectoryEntry) : Prop :=
  (title.isDirectory && isTitleID title.name) = true ∧
    ∃ udata, v.lookup F (v.view b) "UDATA" v.rootDirectoryCluster = some udata ∧
      title ∈ v.entriesOf (v.view b) udata.startCluster

/-- Below an exported directory no directory is below itself, and the files number less than 2^63
and hold less than 2^63 bytes, a file counted once for every way to it. -/
def Countable (F : Foundation) (v : FATXVolume) (b : Store) : Prop :=
  ∀ title, IsTitle F v b title → Acyclic (v.subdirectories (v.view b)) title.startCluster ∧
    ∀ depth, (v.counts (v.view b) depth title.startCluster).1 < 2 ^ 63 ∧
      (v.counts (v.view b) depth title.startCluster).2 < 2 ^ 63

/-- At every place where a partition is looked for and the signature found, the header describes a
volume or is refused, and the directories of the volume can be counted. -/
def SoundImage (F : Foundation) (virtualSize : Nat) (b : Store) : Prop :=
  ∀ candidate ∈ partitionCandidates virtualSize,
    (b.read candidate.offset superblockSize).take 4 = fatxSignature →
      FATXVolume.init candidate.offset candidate.size (b.read candidate.offset superblockSize) ≠
        .error .trap ∧
      ∀ v, FATXVolume.init candidate.offset candidate.size
        (b.read candidate.offset superblockSize) = .ok v → Countable F v b

/-- No rule that is applied to a file the enumerator lists overflows on it. -/
def SoundRules (P : Platform) (F : Foundation)
    (profiles : XBLCloudSaveContentHashProfiles) : Prop :=
  ∀ host path, ∀ file ∈ P.enumerator host path, ∀ titleID rule,
    profiles.rule F P.wildcard titleID file.1 = some rule → ¬ rule.Overflows file.2.length

section Runs

variable {P : Platform} {F : Foundation} {v : FATXVolume} {b : Store} {virtualSize : Nat}
  {profiles : XBLCloudSaveContentHashProfiles}

theorem wp_onDisk_disk {α : Type} {m : DiskM α} {Q : α → Disk → Prop} {E : Halt → Disk → Prop}
    {s : Session} (h : wp m Q E s.disk) :
    wp (onDisk m) (fun a s' => Q a s'.disk) (fun e s' => E e s'.disk) s := wp_onDisk.mpr h

theorem upholds_directory (name : String) (c : Nat) :
    Upholds (fun d : Disk => d.bytes = b) (· ≠ Halt.trap) (v.directory F name c) := by
  refine FATXVolume.upholds_of_reads (FATXVolume.reads_directory F name c) ?_
  grind

theorem upholds_attempt {α : Type} {m : DiskM α}
    (h : Upholds (fun d : Disk => d.bytes = b) (· ≠ Halt.trap) m) :
    Upholds (fun d : Disk => d.bytes = b) (· ≠ Halt.trap) (attempt Halt.isError m) := by
  intro d hd
  refine wp_attempt.mpr (wp_mono (h d hd) (fun _ _ h => h) ?_)
  intro e d' he
  split
  · exact he.1
  · exact he

theorem wp_findEPartition (himage : SoundImage F virtualSize b) (d : Disk) (hd : d.bytes = b) :
    wp (findEPartition F virtualSize) (fun v d' => d'.bytes = b ∧ Countable F v b)
      (fun e d' => d'.bytes = b ∧ e ≠ .trap) d := by
  subst hd
  refine wp_mono (wp_findEPartitionLoop (E := (· ≠ .trap)) (Q := (Countable F · d.bytes))
    (fun _ he => he) (.refl d) (fun _ h => by cases h) fun candidate hc hsig => ?_)
    (fun _ _ h => ⟨h.1.1, h.2⟩) fun _ _ h => ⟨h.1.1, h.2⟩
  exact ⟨fun e he htrap => (himage candidate hc hsig).1 (htrap ▸ he), (himage candidate hc hsig).2⟩

theorem wp_titleDirectories (d : Disk) (hd : d.bytes = b) :
    wp (titleDirectories F v) (fun titles d' => d'.bytes = b ∧ ∀ title ∈ titles,
      IsTitle F v b title)
      (fun e d' => d'.bytes = b ∧ e ≠ .trap) d := by
  unfold titleDirectories
  have hudata := (FATXVolume.wp_directory (v := v) F "UDATA" v.rootDirectoryCluster d).and
    (upholds_directory (F := F) (v := v) (b := b) "UDATA" v.rootDirectoryCluster d hd)
  refine wp_seq hudata ?_ fun _ _ h => h.2
  rintro udata d1 ⟨hlook, hd1⟩
  refine wp_seq (FATXVolume.wp_directoryEntries_of_bytes d1 hd1) ?_ fun _ _ h => h
  rintro entries d2 ⟨hd2, hentries⟩
  refine ⟨hd2, ?_⟩
  intro title htitle
  rw [List.mem_insertionSort, List.mem_filter] at htitle
  exact ⟨htitle.2, udata, hd ▸ hlook.2, hentries ▸ htitle.1⟩

theorem upholds_childDirectoryNames (name : String) :
    Upholds (fun d : Disk => d.bytes = b) (· ≠ Halt.trap) (childDirectoryNames F v name) := by
  refine (upholds_attempt (upholds_directory _ _)).bind fun directory => ?_
  cases directory with
  | none => exact .pure _
  | some directory =>
    refine (upholds_attempt (FATXVolume.upholds_of_reads_ok
      (FATXVolume.reads_directoryEntries _))).bind fun entries => ?_
    cases entries <;> exact .pure _

theorem upholds_cloudSaveScanReport :
    Upholds (fun d : Disk => d.bytes = b) (· ≠ Halt.trap) (cloudSaveScanReport F v) := by
  refine (FATXVolume.upholds_of_reads_ok (FATXVolume.reads_directoryEntries _)).bind fun _ => ?_
  exact (upholds_childDirectoryNames _).bind fun _ =>
    (upholds_childDirectoryNames _).bind fun _ => .pure _

theorem upholds_sessionExcept {α : Type} {x : Except Halt α} (h : ∀ e, x = .error e → e ≠ .trap) :
    Upholds (fun s : Session => s.disk.bytes = b) (· ≠ Halt.trap) (sessionExcept x) := by
  cases x with
  | ok a => exact .pure a
  | error e => exact .throw (h e rfl)

theorem upholds_contentHash {titleID : String} {files : List SaveFile}
    (hlen : ∀ f ∈ files, f.2.length < 2 ^ 63)
    (hfits : ∀ f ∈ files, ∀ rule, profiles.rule F P.wildcard titleID f.1 = some rule →
      ¬ rule.Overflows f.2.length) :
    Upholds (fun s : Session => s.disk.bytes = b) (· ≠ Halt.trap)
      (sessionExcept (XBLCloudSaveContentHasher.contentHash P.less P.sha256
        (profiles.rule F P.wildcard titleID) files)) := by
  rw [XBLCloudSaveContentHasher.contentHash_eq hlen hfits]
  exact .pure _

theorem wp_listFiles (directory : Path) (s : Session) (hs : s.disk.bytes = b) :
    wp (listFiles P directory)
      (fun files s' => s'.disk.bytes = b ∧ ∃ host, files = P.enumerator host directory)
      (fun e s' => s'.disk.bytes = b ∧ e ≠ .trap) s := by
  refine wp_seq (upholds_onDisk (FATXVolume.upholds_of_reads_ok reads_storageCall) s hs) ?_
    fun _ _ h => h
  intro _ s' hs'
  exact ⟨hs', s'.host, rfl⟩

variable {depth : Nat} {title : FATXDirectoryEntry} {games : List LibraryFile}

theorem wp_archiveMetadata_totalSize {fallbackTitleName : String} (d : Disk) (hd : d.bytes = b) :
    wp (v.archiveMetadata F P.metadataValue depth title fallbackTitleName)
      (fun metadata _ =>
        metadata.totalSize = (v.counts (v.view b) depth title.startCluster).2)
      (fun _ _ => True) d := by
  unfold FATXVolume.archiveMetadata
  refine wp_seq (FATXVolume.wp_directoryEntries_of_bytes d hd) ?_ fun _ _ _ => trivial
  rintro entries d1 ⟨hd1, _⟩
  refine wp_seq (FATXVolume.upholds_metadataIn entries "TitleMeta.xbx" "TitleName" d1 hd1) ?_
    fun _ _ _ => trivial
  intro titleName d2 hd2
  refine wp_seq (FATXVolume.reads_directoryStats depth title.startCluster d2) ?_
    fun _ _ _ => trivial
  rintro stats d3 ⟨_, hstats⟩
  rw [hd2] at hstats
  refine wp_seq (Q := fun _ _ => True) (E := fun _ _ => True) ?_ ?_ fun _ _ _ => trivial
  · unfold wp
    split <;> trivial
  · intro saves d4 _
    rw [wp_pure, (FATXVolume.of_statsOf hstats).2.1]

theorem upholds_exportTitle (hrules : SoundRules P F profiles)
    (hcount : v.Countable (v.view b) depth title.startCluster)
    (hsize : (v.counts (v.view b) depth title.startCluster).2 < 2 ^ 63)
    (titleNamesByID : List (String × String)) (directory : Path) :
    Upholds (fun s : Session => s.disk.bytes = b) (· ≠ Halt.trap)
      (exportTitle P F v profiles titleNamesByID directory depth title) := by
  unfold exportTitle
  refine (upholds_createDirectory _ _).bind fun titleScratchURL => ?_
  refine (upholds_extractDirectory hcount.1 _ _).bind fun _ => ?_
  refine Upholds.bind_of (wp_listFiles titleScratchURL) ?_
  rintro files ⟨host, rfl⟩
  refine (upholds_contentHash (P.enumerator_lt host titleScratchURL) fun file hfile rule hrule =>
    hrules host titleScratchURL file hfile _ rule hrule).bind fun contentHash => ?_
  refine Upholds.bind (fun s hs => hs) fun s => ?_
  refine (upholds_writeToURL _ _ _).bind fun _ => ?_
  refine (upholds_onDisk (FATXVolume.upholds_of_reads_ok reads_storageCall)).bind fun _ => ?_
  refine Upholds.bind_of (P := fun metadata => metadata.totalSize < 2 ^ 63) ?_ ?_
  · intro s hs
    have hupholds : Upholds (fun d : Disk => d.bytes = b) (· ≠ Halt.trap)
        (v.archiveMetadata F P.metadataValue depth title
          ((titleNamesByID.lookup (F.uppercased title.name)).getD (F.uppercased title.name))) :=
      FATXVolume.upholds_archiveMetadata hcount _
    refine wp_onDisk.mpr (wp_mono ((hupholds s.disk hs).and
      (wp_archiveMetadata_totalSize s.disk hs)) ?_ ?_)
    · intro metadata d' h
      exact ⟨h.1, h.2 ▸ hsize⟩
    · exact fun _ _ h => h.1
  · intro metadata hfits
    refine (upholds_sessionExcept fun e he => ?_).bind fun _ => .pure _
    rw [int64, if_pos hfits] at he
    cases he

/-! ### The whole run -/

theorem ends_bind {σ α β : Type} {m : EStateM Halt σ α} {f : Nat → α → EStateM Halt σ β} {s : σ}
    (hm : wp m (fun a s' => Ends (fun depth => f depth a) s') (fun e _ => e ≠ .trap) s) :
    Ends (fun depth => m >>= f depth) s := by
  cases hrun : m s with
  | ok a s' =>
    obtain ⟨depth, hdepth⟩ := Lib.wp.ok hm hrun
    exact ⟨depth, wp_bind.mpr ((wp_of_eq_ok hrun).mpr hdepth)⟩
  | error e s' =>
    have he : e ≠ .trap := (wp_of_eq_error hrun).mp hm
    exact ⟨0, wp_bind.mpr ((wp_of_eq_error hrun).mpr he)⟩

theorem exists_countable (hv : Countable F v b) {titles : List FATXDirectoryEntry}
    (htitles : ∀ title ∈ titles, IsTitle F v b title) :
    ∃ depth, ∀ title ∈ titles, v.Countable (v.view b) depth title.startCluster ∧
      (v.counts (v.view b) depth title.startCluster).2 < 2 ^ 63 := by
  have hone := fun title htitle => hv title (htitles title htitle)
  have hshallow : ∀ c ∈ titles.map (·.startCluster),
      ∃ depth, Shallow (v.subdirectories (v.view b)) depth c := by
    intro c hc
    obtain ⟨title, htitle, rfl⟩ := List.mem_map.mp hc
    exact (hone title htitle).1.exists_shallow fun _ => FATXVolume.mem_range_of_subdirectories
  obtain ⟨depth, hdepth⟩ := exists_shallow_of_forall hshallow
  refine ⟨depth, fun title htitle => ?_⟩
  have hfits := (hone title htitle).2 depth
  exact ⟨⟨hdepth _ (List.mem_map_of_mem htitle), hfits.1, hfits.2.trans (by decide)⟩, hfits.2⟩

theorem exportArchives_ends (himage : SoundImage F virtualSize b)
    (hrules : SoundRules P F profiles)
    (hgames : ((titleNames P games).map Prod.fst).Nodup) (here : Path)
    (name : String) (s : Session) (hs : s.disk.bytes = b) :
    Ends (exportArchives P F virtualSize games profiles here name) s := by
  unfold exportArchives
  refine ends_bind ?_
  unfold exportPrelude
  refine wp_seq (upholds_createDirectory here name s hs) ?_ fun _ _ h => h.2
  intro directory s1 hs1
  refine wp_seq (wp_onDisk_disk (wp_findEPartition himage s1.disk hs1)) ?_ fun _ _ h => h.2
  rintro v s2 ⟨hs2, hv⟩
  have hnames : uniqueKeysWithValues (titleNames P games) = .ok (titleNames P games) :=
      if_pos hgames
  rw [hnames]
  refine wp_bind.mpr (wp_pure.mpr ?_)
  refine wp_seq (wp_onDisk_disk (wp_titleDirectories s2.disk hs2)) ?_ fun _ _ h => h.2
  rintro titles s3 ⟨hs3, htitles⟩
  refine wp_ite (fun _ => ?_) fun _ => ?_
  · -- no title: the report is made and thrown
    refine wp_seq (upholds_onDisk upholds_cloudSaveScanReport s3 hs3) ?_ fun _ _ h => h.2
    intro report s4 _
    simp
  · obtain ⟨depth, hdepth⟩ := exists_countable hv htitles
    have hall : Upholds (fun s : Session => s.disk.bytes = b) (· ≠ Halt.trap)
        (titles.mapM (exportTitle P F v profiles (titleNames P games) directory depth)) :=
      Upholds.mapM fun title htitle =>
        upholds_exportTitle hrules (hdepth title htitle).1 (hdepth title htitle).2 _ _
    exact .of_upholds hall hs3

theorem exportArchives_traps {d' : Disk}
    (hopen : findEPartition F virtualSize ⟨b, [], 0⟩ = .ok v d')
    (hgames : ¬ ((titleNames P games).map Prod.fst).Nodup) :
    ¬ Ends (exportArchives P F virtualSize games profiles [] "saves")
      ⟨⟨b, [], 0⟩, fun _ => none⟩ := by
  rintro ⟨depth, hrun⟩
  have hmake : wp (createDirectory [] "saves") _ _ (⟨⟨b, [], 0⟩, fun _ => none⟩ : Session) :=
    wp_createDirectory (by decide) rfl (fun _ => by simp) fun _ _ => rfl
  obtain ⟨directory, s1, hcreate, -, hquiet, -⟩ := Lib.wp.total hmake
  have hs1 : s1.disk = ⟨b, [], 0⟩ := by
    obtain ⟨hbytes, hstamps, hfaults⟩ := hquiet
    cases hdisk : s1.disk
    simp_all
  have hopen' : onDisk (findEPartition F virtualSize) s1 = .ok v { s1 with disk := d' } := by
    unfold onDisk
    rw [hs1, hopen]
  have hnames : uniqueKeysWithValues (titleNames P games) = .error .trap := if_neg hgames
  unfold exportArchives exportPrelude at hrun
  rw [wp_bind, wp_bind, wp_of_eq_ok hcreate, wp_bind, wp_of_eq_ok hopen', hnames, wp_bind] at hrun
  exact hrun rfl

end Runs

def plainPlatform : Platform where
  normalizedTitleID titleID := titleID
  wildcard pattern path := pattern == path
  less a b := a < b
  sha256 _ := ""
  enumerator _ _ := []
  enumerator_lt _ _ _ h := by cases h
  createArchive _ _ := []
  metadataValue _ _ := none
  unixTime _ := 0
  manifestData _ := []
  uuidString _ := "0"

def twoDiscs : List LibraryFile :=
  [{ titleID := some "4D530004", displayName := "Disc 1" },
   { titleID := some "4D530004", displayName := "Disc 2" }]

def farRule : XBLCloudSaveContentHashRule :=
  { dataFile := "save.bin", dataOffset := some ⟨1, by decide⟩,
    dataLen := some ⟨2 ^ 63 - 1, by decide⟩, noRoam := true }

theorem soundImage_one_cluster :
    SoundImage plainFoundation (createFatxLength 10240) (createFatxImage 7 10240) := by
  have hcandidates : partitionCandidates (createFatxLength 10240) = [⟨0, 10240, false⟩] := by
    decide
  have hempty :
      ((FATXVolume.init 0 10240 ((createFatxImage 7 10240).read 0 superblockSize)).toOption.map
      fun v => (v.entriesOf (v.view (createFatxImage 7 10240)) v.rootDirectoryCluster).isEmpty) =
        some true := by
    decide +kernel
  intro candidate hc _
  rw [hcandidates, List.mem_singleton] at hc
  subst hc
  cases hinit : FATXVolume.init 0 10240 ((createFatxImage 7 10240).read 0 superblockSize) with
  | error e =>
    rw [hinit] at hempty
    cases hempty
  | ok volume =>
    rw [hinit] at hempty
    refine ⟨by simp, ?_⟩
    rintro v hv title ⟨-, udata, hudata, -⟩
    cases hv
    rw [FATXVolume.lookup, List.isEmpty_iff.mp (Option.some.inj hempty)] at hudata
    cases hudata

end DukeX.CloudSaves
