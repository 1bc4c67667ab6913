import DukeX.CloudSaves.Export

/-!
# The manifest of the remote saves

The manifest is a text, one remote save a line: `console:profile:title=fingerprint|value|value`,
where the values are told apart by their form.
-/

namespace DukeX.CloudSaves

open DukeX.Lib DukeX.Swift DukeX.Fatx

structure TextRules where
  isSpace : Char → Bool
  isNewline : Char → Bool
  lowercased : String → String

def TextRules.trimmed (T : TextRules) (text : String) : String :=
  String.ofList ((text.toList.dropWhile T.isSpace).reverse.dropWhile T.isSpace).reverse

def splitAll (separator : Char) (text : String) : List String :=
  (text.toList.splitOn separator).map String.ofList

def splitOnce (separator : Char) (text : String) : List String :=
  let before := text.toList.takeWhile (· != separator)
  match text.toList.drop before.length with
  | [] => [text]
  | _ :: after => [String.ofList before, String.ofList after]

def decimal (digits : List Char) : Option Nat :=
  if digits = [] ∨ digits.any (fun c => !c.isDigit) then none
  else some (digits.foldl (fun n c => 10 * n + (c.toNat - 48)) 0)

def intOf (text : String) : Option Int :=
  let value : Option Int := match text.toList with
    | '-' :: digits => (decimal digits).map fun n => -(n : Int)
    | '+' :: digits => (decimal digits).map fun n => (n : Int)
    | digits => (decimal digits).map fun n => (n : Int)
  value.filter fun i => IsInt i

structure Entry extends ManifestEntry where
  noSync : Bool
  deriving DecidableEq

structure CloudSaveRemoteEntry where
  consoleID : Option String
  profile : Option String
  titleID : String
  noSync : Bool
  saveModifiedUnix : Option Int
  contentHash : Option String
  deriving DecidableEq

section Parse

variable (F : Foundation) (T : TextRules)

def keyParts (rawKey : String) : Option String × Option String × String :=
  match splitAll ':' rawKey with
  | [] => (none, none, rawKey)
  | [_] => (none, none, rawKey)
  | [consoleID, titleID] => (some consoleID, none, titleID)
  | consoleID :: rest => (some consoleID, some (":".intercalate rest.dropLast), rest.getLastD "")

def isContentHash (value : String) : Bool :=
  let normalized := T.lowercased (T.trimmed value)
  decide (16 ≤ normalized.length ∧ normalized.length ≤ 128) && normalized.toList.all isHexDigit

def parseEntry (line : String) : Option Entry :=
  match splitOnce '=' line with
  | [key, value] =>
    let (possibleConsoleID, possibleProfile, possibleTitleID) := keyParts (T.trimmed key)
    let normalizedTitleID := F.uppercased possibleTitleID
    if isTitleID normalizedTitleID then
      let valueParts := splitAll '|' (T.trimmed value)
      let parsedFingerprint := valueParts.headD ""
      if parsedFingerprint.isEmpty then none
      else
        let remainingValues := valueParts.tail.map T.trimmed
        some {
          consoleID := possibleConsoleID.filter fun consoleID => !consoleID.isEmpty
          profile := possibleProfile
          titleID := normalizedTitleID
          fingerprint := parsedFingerprint
          saveModifiedUnix := (remainingValues.filterMap intOf).head?
          contentHash := (remainingValues.find? (isContentHash T)).map T.lowercased
          noSync := remainingValues.any fun value => F.caseInsensitiveSame value "nosync" }
    else none
  | _ => none

def manifestEntries (body : String) : List Entry :=
  (((body.toList.splitOnP T.isNewline).filter fun line => line ≠ []).map String.ofList).filterMap
    (parseEntry F T)

def manifestSkips (body : String) (archive : XBLCloudSaveArchive) (consoleID : String) : Bool :=
  shouldSkipUpload ((manifestEntries F T body).map Entry.toManifestEntry) archive.decisive consoleID

def manifestRemoteEntries (body : String) : List CloudSaveRemoteEntry :=
  let entries := (manifestEntries F T body).filter fun entry => !entry.noSync
  (entries.insertionSort fun a b => b.saveModifiedUnix.getD 0 ≤ a.saveModifiedUnix.getD 0).map
    fun entry => {
      consoleID := entry.consoleID
      profile := entry.profile
      titleID := entry.titleID
      noSync := entry.noSync
      saveModifiedUnix := entry.saveModifiedUnix
      contentHash := entry.contentHash }

end Parse

/-! ## The time of an exported save -/

/-- The newest time the directories of a title carry, in seconds since 1970, and 0 when none of
them carries one. -/
def newestSave (P : Platform) (v : FATXVolume) (b : Store) (title : FATXDirectoryEntry) : Nat :=
  ((((v.entriesOf (v.view b) title.startCluster).filter (·.isDirectory)).filterMap
    (·.modifiedDate)).map P.unixTime).foldl max 0

section Times

variable {P : Platform} {F : Foundation} {v : FATXVolume} {b : Store} {virtualSize : Nat}
  {profiles : XBLCloudSaveContentHashProfiles}

theorem keeps_of_reads {α : Type} {m : DiskM α} {f : Store → Except Halt α} (hm : Reads m f) :
    Upholds (fun d : Disk => d.bytes = b) (fun _ => True) m := by
  intro d hd
  exact wp_mono (hm d) (fun _ _ h => h.1.1.trans hd) fun _ _ h => ⟨h.1.1.trans hd, trivial⟩

theorem keeps_onDisk {α : Type} {m : DiskM α}
    (h : Upholds (fun d : Disk => d.bytes = b) (fun _ => True) m) :
    Upholds (fun s : Session => s.disk.bytes = b) (fun _ => True) (onDisk m) :=
  fun s hs => wp_onDisk.mpr (h s.disk hs)

theorem keeps_createDirectory (here : Path) (name : String) :
    Upholds (fun s : Session => s.disk.bytes = b) (fun _ => True) (createDirectory here name) :=
  (upholds_createDirectory here name).mono fun _ _ => trivial

theorem keeps_sessionExcept {α : Type} (x : Except Halt α) :
    Upholds (fun s : Session => s.disk.bytes = b) (fun _ => True) (sessionExcept x) := by
  cases x with
  | ok a => exact .pure a
  | error e => exact .throw trivial

theorem keeps_extractDirectory (depth c : Nat) (here : Path) (name : String) :
    Upholds (fun s : Session => s.disk.bytes = b) (fun _ => True)
      (v.extractDirectory depth c here name) := by
  induction depth generalizing c here name with
  | zero => exact .throw trivial
  | succ depth ih =>
    unfold FATXVolume.extractDirectory
    refine (keeps_createDirectory here name).bind fun destination => ?_
    refine (keeps_onDisk (keeps_of_reads (FATXVolume.reads_directoryEntries c))).bind fun es => ?_
    refine Upholds.forM fun e _ => .ite (fun _ => ih _ _ _) fun _ => ?_
    refine (keeps_onDisk (keeps_of_reads (FATXVolume.reads_readFile e))).bind fun data => ?_
    exact (upholds_writeToURL destination e.name data).mono fun _ _ => trivial

theorem keeps_archiveMetadata (depth : Nat) (title : FATXDirectoryEntry)
    (fallbackTitleName : String) :
    Upholds (fun d : Disk => d.bytes = b) (fun _ => True)
      (v.archiveMetadata F P.metadataValue depth title fallbackTitleName) := by
  have hentries : ∀ c, Upholds (fun d : Disk => d.bytes = b) (fun _ => True)
      (v.directoryEntries c) := fun c => keeps_of_reads (FATXVolume.reads_directoryEntries c)
  have hstats : ∀ c, Upholds (fun d : Disk => d.bytes = b) (fun _ => True)
      (v.directoryStats depth c) :=
        fun c => keeps_of_reads (FATXVolume.reads_directoryStats depth c)
  have hvalue : ∀ entries file key, Upholds (fun d : Disk => d.bytes = b) (fun _ => True)
      (v.metadataIn F P.metadataValue entries file key) :=
    fun entries file key => (FATXVolume.upholds_metadataIn entries file key).mono fun _ _ => trivial
  unfold FATXVolume.archiveMetadata
  refine (hentries _).bind fun entries => (hvalue _ _ _).bind fun _ => (hstats _).bind fun _ => ?_
  refine (Upholds.mapM fun e _ => ?_).bind fun _ => .pure _
  exact (hstats _).bind fun _ => (hentries _).bind fun _ => (hvalue _ _ _).bind fun _ => .pure _

theorem wp_archiveMetadata_saves {depth : Nat} {title : FATXDirectoryEntry}
    {fallbackTitleName : String} (d : Disk) (hd : d.bytes = b) :
    wp (v.archiveMetadata F P.metadataValue depth title fallbackTitleName)
      (fun metadata _ => latestSaveModifiedDate P metadata = newestSave P v b title)
      (fun _ _ => True) d := by
  unfold FATXVolume.archiveMetadata
  refine wp_seq (FATXVolume.wp_directoryEntries_of_bytes d hd) ?_ fun _ _ _ => trivial
  intro entries d1 ⟨_, hentries⟩
  refine wp_seq (wp_any _ d1) ?_ fun _ _ _ => trivial
  intro titleName d2 _
  refine wp_seq (wp_any _ d2) ?_ fun _ _ _ => trivial
  intro stats d3 _
  -- each save takes the date of its directory
  have hsave : ∀ e : FATXDirectoryEntry, ∀ d : Disk, True →
      wp (v.saveMetadata F P.metadataValue depth e)
        (fun save _ => True ∧ e.modifiedDate = save.modifiedDate) (fun _ _ => True) d := by
    intro e d _
    unfold FATXVolume.saveMetadata
    refine wp_seq (wp_any _ d) (fun _ d _ => ?_) fun _ _ _ => trivial
    refine wp_seq (wp_any _ d) (fun _ d _ => ?_) fun _ _ _ => trivial
    refine wp_seq (wp_any _ d) (fun _ d _ => ?_) fun _ _ _ => trivial
    exact ⟨trivial, rfl⟩
  refine wp_seq (wp_mapM (fun e _ => hsave e) d3 trivial) ?_ fun _ _ _ => trivial
  intro saves d4 ⟨_, hsaves⟩
  have hdates := filterMap_of_forall2 hsaves
  rw [wp_pure]
  unfold latestSaveModifiedDate newestSave
  rw [← hdates, ← hentries]
  -- the order of the saves does not matter for the newest
  exact (((List.perm_insertionSort _ _).filterMap _).map _).foldl_eq 0

theorem wp_exportTitle (titleNamesByID : List (String × String)) (directory : Path) (depth : Nat)
    (title : FATXDirectoryEntry) (s : Session) (hs : s.disk.bytes = b) :
    wp (exportTitle P F v profiles titleNamesByID directory depth title)
      (fun archive s' => s'.disk.bytes = b ∧ archive.titleID = F.uppercased title.name ∧
        archive.saveModifiedDate = newestSave P v b title) (fun _ _ => True) s := by
  unfold exportTitle
  have hcall : Upholds (fun s : Session => s.disk.bytes = b) (fun _ => True) (onDisk storageCall) :=
    keeps_onDisk (keeps_of_reads reads_storageCall)
  refine wp_seq (keeps_createDirectory _ _ s hs) (fun titleScratchURL s hs => ?_) fun _ _ _ =>
    trivial
  refine wp_seq (keeps_extractDirectory _ _ _ _ s hs) (fun _ s hs => ?_) fun _ _ _ => trivial
  refine wp_seq (wp_listFiles titleScratchURL s hs) (fun files s hs => ?_) fun _ _ _ => trivial
  refine wp_seq (keeps_sessionExcept _ s hs.1) (fun contentHash s hs => ?_) fun _ _ _ => trivial
  refine wp_bind.mpr (wp_get.mpr ?_)
  refine wp_seq (upholds_writeToURL _ _ _ s hs) (fun _ s hs => ?_) fun _ _ _ => trivial
  refine wp_seq (hcall s hs) (fun _ s hs => ?_) fun _ _ _ => trivial
  have hmeta := (wp_archiveMetadata_saves s.disk hs).and (keeps_archiveMetadata (P := P) (F := F)
    (v := v) depth title ((titleNamesByID.lookup (F.uppercased title.name)).getD
      (F.uppercased title.name)) s.disk hs)
  refine wp_seq (wp_onDisk_disk hmeta) (fun metadata s h => ?_) fun _ _ _ => trivial
  refine wp_seq (keeps_sessionExcept _ s h.2) (fun totalBytes s hs => ?_) fun _ _ _ => trivial
  exact ⟨hs, rfl, h.1⟩

theorem wp_exportArchives (games : List LibraryFile) (here : Path) (name : String) (depth : Nat)
    (s : Session) :
    wp (exportArchives P F virtualSize games profiles here name depth)
      (fun archives _ => ∀ archive ∈ archives, ∃ v title, IsTitle F v s.disk.bytes title ∧
        archive.titleID = F.uppercased title.name ∧
        archive.saveModifiedDate = newestSave P v s.disk.bytes title) (fun _ _ => True) s := by
  generalize hb : s.disk.bytes = b
  unfold exportArchives exportPrelude
  refine wp_bind.mpr ?_
  refine wp_seq (keeps_createDirectory here name s hb)
    (fun directory s hs => ?_) fun _ _ _ => trivial
  have hopen :
      Upholds (fun d : Disk => d.bytes = b) (fun _ => True) (findEPartition F virtualSize) :=
    fun d hd =>
      wp_mono (wp_findEPartitionLoop (E := fun _ => True) (Q := fun _ => True) (fun _ _ => trivial)
      (.refl d) (fun _ _ => trivial) fun _ _ _ => ⟨fun _ _ => trivial, fun _ _ => trivial⟩)
      (fun _ _ h => h.1.1.trans hd) fun _ _ h => ⟨h.1.1.trans hd, trivial⟩
  refine wp_seq (keeps_onDisk hopen s hs) (fun v s hs => ?_) fun _ _ _ => trivial
  refine wp_seq (keeps_sessionExcept _ s hs) (fun names s hs => ?_) fun _ _ _ => trivial
  refine wp_seq (wp_onDisk_disk (wp_titleDirectories s.disk hs)) ?_ fun _ _ _ => trivial
  intro titles s ⟨hs, htitles⟩
  refine wp_ite (fun _ => wp_seq (wp_any _ s) (fun _ _ _ => trivial) fun _ _ _ => trivial) fun _ =>
    ?_
  refine wp_pure.mpr (wp_mono (wp_mapM (fun title _ s hs =>
    wp_exportTitle names directory depth title s hs) s hs) ?_ fun _ _ _ => trivial)
  intro archives s' ⟨_, hall⟩ archive harchive
  obtain ⟨title, htitle, hid, htime⟩ := exists_of_forall₂ hall harchive
  exact ⟨v, title, htitles title htitle, hid, htime⟩

end Times

/-- An entry of the manifest that stands in for the archive. -/
def StandsIn (entry : ManifestEntry) (archive : XBLCloudSaveArchive) (consoleID : String) : Prop :=
  (∃ hash, archive.contentHash = some hash ∧ entry.contentHash = some hash) ∨
  (∃ time, entry.saveModifiedUnix = some time ∧ archive.saveModifiedDate ≤ time) ∨
  ((entry.consoleID = none ∨ entry.consoleID = some consoleID) ∧
    entry.fingerprint = archive.fingerprint)

def SameTitle (entry : ManifestEntry) (archive : XBLCloudSaveArchive) : Prop :=
  entry.titleID = archive.titleID ∧ (entry.profile = none ∨ entry.profile = some "")

variable {entries : List ManifestEntry} {archive : XBLCloudSaveArchive}

theorem mem_matchingEntries
    {entry : ManifestEntry} : entry ∈ matchingEntries entries archive.decisive ↔
      entry ∈ entries ∧ SameTitle entry archive := by
  unfold matchingEntries SameTitle
  rw [List.mem_filter, Bool.and_eq_true, beq_iff_eq]
  cases entry.profile with
  | none => simp [XBLCloudSaveArchive.decisive]
  | some profile => simp [XBLCloudSaveArchive.decisive, String.isEmpty_iff]

theorem shouldSkipUpload_iff
    {consoleID : String} : shouldSkipUpload entries archive.decisive consoleID = true ↔
      ∃ entry ∈ entries, SameTitle entry archive ∧ StandsIn entry archive consoleID := by
  unfold shouldSkipUpload
  rw [Bool.or_eq_true, Bool.or_eq_true, skipsByContentHash_iff, List.any_eq_true, List.any_eq_true]
  constructor
  · rintro ((⟨hash, hhash, entry, hentry, heq⟩ | ⟨entry, hentry, htime⟩) | ⟨entry, hentry, hsame⟩)
    · obtain ⟨hmem, htitle⟩ := mem_matchingEntries.mp hentry
      exact ⟨entry, hmem, htitle, .inl ⟨hash, hhash, heq⟩⟩
    · obtain ⟨hmem, htitle⟩ := mem_matchingEntries.mp hentry
      cases ht : entry.saveModifiedUnix with
      | none => simp [ht] at htime
      | some time =>
        rw [ht] at htime
        exact ⟨entry, hmem, htitle, .inr (.inl ⟨time, ht, of_decide_eq_true htime⟩)⟩
    · obtain ⟨hmem, htitle⟩ := mem_matchingEntries.mp hentry
      simp only [Bool.and_eq_true, Bool.or_eq_true, beq_iff_eq] at hsame
      exact ⟨entry, hmem, htitle, .inr (.inr hsame)⟩
  · rintro ⟨entry, hmem, htitle, hreason⟩
    have hentry := mem_matchingEntries.mpr ⟨hmem, htitle⟩
    rcases hreason with ⟨hash, hhash, heq⟩ | ⟨time, ht, hle⟩ | hsame
    · exact .inl (.inl ⟨hash, hhash, entry, hentry, heq⟩)
    · refine .inl (.inr ⟨entry, hentry, ?_⟩)
      rw [ht]
      exact decide_eq_true hle
    · refine .inr ⟨entry, hentry, ?_⟩
      simp only [Bool.and_eq_true, Bool.or_eq_true, beq_iff_eq]
      exact hsame

/-- **A push skips a title only for a reason**, and for every reason: some entry of the manifest for
the title and no profile stands in for the archive. -/
theorem manifestSkips_iff (P : Platform) (F : Foundation) (T : TextRules) (body consoleID : String)
    (virtualSize : Nat) (games : List LibraryFile) (profiles : XBLCloudSaveContentHashProfiles)
    (here : Path) (name : String) (depth : Nat) (s : Session) :
    (∀ archive, manifestSkips F T body archive consoleID = true ↔
      ∃ entry ∈ manifestEntries F T body, SameTitle entry.toManifestEntry archive ∧
        StandsIn entry.toManifestEntry archive consoleID) ∧
    wp (exportArchives P F virtualSize games profiles here name depth)
      (fun archives _ => ∀ archive ∈ archives, ∃ v title, IsTitle F v s.disk.bytes title ∧
        archive.titleID = F.uppercased title.name ∧
        archive.saveModifiedDate = newestSave P v s.disk.bytes title) (fun _ _ => True) s := by
  refine ⟨fun archive => ?_, wp_exportArchives games here name depth s⟩
  simp [manifestSkips, shouldSkipUpload_iff]

def asciiText : TextRules where
  isSpace c := c == ' '
  isNewline c := c == '\n'
  lowercased s := s

def archiveAt (time : Nat) : XBLCloudSaveArchive :=
  { url := [], titleID := "4D530004", titleName := "", size := 0, fingerprint := "local",
    contentHash := some "b", saveCount := 1, totalBytes := 1, saveModifiedDate := time,
    manifestData := [] }

/-- A changed save is skipped when the remote copy has the same time, and when its directory
carries no time. -/
theorem manifestSkips_changed :
    (∃ entry, manifestEntries plainFoundation asciiText "4D530004=remote|1000000000" = [entry] ∧
      entry.contentHash = none ∧ entry.fingerprint = "remote" ∧ entry.saveModifiedUnix = some 1000000000) ∧
    manifestSkips plainFoundation asciiText "4D530004=remote|1000000000" (archiveAt 1000000000) "console" = true ∧
    latestSaveModifiedDate plainPlatform
      { titleID := "4D530004", titleName := none, fileCount := 1, totalSize := 1,
        saves := [⟨"save", "save", 1, 1, none⟩] } = 0 ∧
    manifestSkips plainFoundation asciiText "4D530004=remote|1000000000" (archiveAt 0) "console" = true := by
  refine ⟨⟨⟨⟨none, none, "4D530004", "remote", some 1000000000, none⟩, false⟩, ?_, rfl, rfl, rfl⟩, ?_, rfl, ?_⟩
  all_goals decide +kernel

end DukeX.CloudSaves
