import DukeX.Lib.Lists
import DukeX.Fatx.Import

/-!
# The content hash

`XBLCloudSaveContentHasher` feeds SHA-256 one stream for a whole save: for every file, in the order
of the paths, the path, a newline and the bytes of the file.
-/

namespace DukeX.CloudSaves

open DukeX.Lib DukeX.Swift DukeX.Fatx

abbrev SaveFile := String × Data

mutual

def visibleFiles (above : String) : HostNode → List SaveFile
  | .file name data => if isHidden name then [] else [(above ++ name, data)]
  | .dir name children => if isHidden name then [] else visibleFilesAll (above ++ name ++ "/") children

def visibleFilesAll (above : String) : List HostNode → List SaveFile
  | [] => []
  | n :: ns => visibleFiles above n ++ visibleFilesAll above ns

end

def slashed (path : String) : String := path.map fun c => if c = '\\' then '/' else c

def lastPathComponent (path : String) : String :=
  String.ofList ((path.toList.reverse.dropWhile (· == '/')).takeWhile (· != '/')).reverse

def hashedFiles (F : Foundation) (children : List HostNode) : List SaveFile :=
  ((visibleFilesAll "" children).map fun f => (slashed f.1, f.2)).filter fun f =>
    !f.1.isEmpty && !F.caseInsensitiveSame (lastPathComponent f.1) "_xbl_sync.txt"

def sortedFiles (less : String → String → Bool) (files : List SaveFile) : List SaveFile :=
  files.insertionSort fun a b => less b.1 a.1 = false

/-! ## The stream -/

def hashedBytes (ruleFor : String → Option (Data → Data)) (file : SaveFile) : Data :=
  utf8 file.1 ++ 10 ::
    match ruleFor file.1 with
    | some payloadForHash => payloadForHash file.2
    | none => file.2

def hashInput (less : String → String → Bool) (ruleFor : String → Option (Data → Data))
    (files : List SaveFile) : Data :=
  (sortedFiles less files).flatMap (hashedBytes ruleFor)

def contentHash (F : Foundation) (less : String → String → Bool) (sha256 : Data → String)
    (ruleFor : String → Option (Data → Data)) (children : List HostNode) : String :=
  sha256 (hashInput less ruleFor (hashedFiles F children))

def noRules : String → Option (Data → Data) := fun _ => none

def OneLine (files : List SaveFile) : Prop := ∀ f ∈ files, (10 : UInt8) ∉ utf8 f.1

def sizes (less : String → String → Bool) (files : List SaveFile) : List Nat :=
  (sortedFiles less files).map fun f => f.2.length

variable {less : String → String → Bool} {files files' : List SaveFile}

theorem sortedFiles_perm (less : String → String → Bool) (files : List SaveFile) :
    (sortedFiles less files).Perm files := List.perm_insertionSort ..

theorem utf8_injective {a b : String} (h : utf8 a = utf8 b) : a = b := by
  have ha := stringFromUTF8_utf8 a
  rw [h, stringFromUTF8_utf8] at ha
  exact (Option.some.inj ha).symm

theorem flatMap_hashedBytes_inj (hline : OneLine files) (hline' : OneLine files')
    (hsizes : files.map (fun f => f.2.length) = files'.map fun f => f.2.length)
    (h : files.flatMap (hashedBytes noRules) = files'.flatMap (hashedBytes noRules)) :
    files = files' := by
  induction files generalizing files' with
  | nil =>
    simp_all
  | cons f files ih =>
    cases files' with
    | nil => cases hsizes
    | cons f' files' =>
      obtain ⟨hsize, hsizes⟩ := List.cons.inj hsizes
      simp only [List.flatMap_cons, hashedBytes, noRules, List.append_assoc, List.cons_append] at h
      -- the first newline ends the path, and the size says where the bytes end
      obtain ⟨hpath, hrest⟩ := append_cons_inj_of_notMem_left (hline f List.mem_cons_self)
        (hline' f' List.mem_cons_self) h
      obtain ⟨hdata, hrest⟩ := List.append_inj hrest hsize
      have hfiles := ih (fun g hg => hline g (List.mem_cons_of_mem f hg))
        (fun g hg => hline' g (List.mem_cons_of_mem f' hg)) hsizes hrest
      rw [hfiles, Prod.ext (utf8_injective hpath) hdata]

/-- **The stream determines the save** among saves with files of the same sizes. -/
theorem perm_of_hashInput_eq (hline : OneLine files) (hline' : OneLine files')
    (hsizes : sizes less files = sizes less files')
    (h : hashInput less noRules files = hashInput less noRules files') : files.Perm files' := by
  have heq := flatMap_hashedBytes_inj
    (fun f hf => hline f ((sortedFiles_perm less files).mem_iff.mp hf))
    (fun f hf => hline' f ((sortedFiles_perm less files').mem_iff.mp hf)) hsizes h
  have hperm := (sortedFiles_perm less files).symm
  rw [heq] at hperm
  exact hperm.trans (sortedFiles_perm less files')

/-! ## Skipping an upload -/

structure ManifestEntry where
  consoleID : Option String
  profile : Option String
  titleID : String
  fingerprint : String
  saveModifiedUnix : Option Int
  contentHash : Option String
  deriving DecidableEq

structure Archive where
  titleID : String
  fingerprint : String
  contentHash : Option String
  modifiedUnixTime : Int

def matchingEntries (entries : List ManifestEntry) (archive : Archive) : List ManifestEntry :=
  entries.filter fun entry =>
    entry.titleID == archive.titleID && (entry.profile.map String.isEmpty).getD true

def skipsByContentHash (entries : List ManifestEntry) (archive : Archive) : Bool :=
  match archive.contentHash with
  | some contentHash =>
    (matchingEntries entries archive).any fun entry => entry.contentHash == some contentHash
  | none => false

def shouldSkipUpload (entries : List ManifestEntry) (archive : Archive)
    (consoleID : String) : Bool :=
  skipsByContentHash entries archive ||
  ((matchingEntries entries archive).any fun entry =>
    match entry.saveModifiedUnix with
    | some saveModifiedUnix => decide (archive.modifiedUnixTime ≤ saveModifiedUnix)
    | none => false) ||
  ((matchingEntries entries archive).any fun entry =>
    (entry.consoleID == none || entry.consoleID == some consoleID) &&
      entry.fingerprint == archive.fingerprint)

theorem skipsByContentHash_iff {entries : List ManifestEntry} {archive : Archive} :
    skipsByContentHash entries archive = true ↔ ∃ hash, archive.contentHash = some hash ∧
      ∃ entry ∈ matchingEntries entries archive, entry.contentHash = some hash := by
  grind [skipsByContentHash]

/-- **The content hash tells saves apart** that have files of the same sizes and one-line paths; the
first rule skips an upload only if such a save is there already. Nothing is asked of the entries of
other titles, nor of those with another hash. -/
theorem contentHash_separates (less : String → String → Bool) (sha256 : Data → String)
    (hline : OneLine files) :
    (∀ files', OneLine files' → sizes less files = sizes less files' →
      hashInput less noRules files = hashInput less noRules files' → files.Perm files') ∧
    ∀ (entries : List ManifestEntry) (archive : Archive) (remote : ManifestEntry → List SaveFile),
      archive.contentHash = some (sha256 (hashInput less noRules files)) →
      (∀ entry ∈ matchingEntries entries archive, entry.contentHash = archive.contentHash →
        entry.contentHash = some (sha256 (hashInput less noRules (remote entry))) ∧
        OneLine (remote entry) ∧ sizes less files = sizes less (remote entry) ∧
        (sha256 (hashInput less noRules files) = sha256 (hashInput less noRules (remote entry)) →
          hashInput less noRules files = hashInput less noRules (remote entry))) →
      skipsByContentHash entries archive = true →
      ∃ entry ∈ matchingEntries entries archive,
        entry.contentHash = archive.contentHash ∧ files.Perm (remote entry) := by
  refine ⟨fun files' hline' hsizes h => perm_of_hashInput_eq hline hline' hsizes h, ?_⟩
  intro entries archive remote harchive hremote hskip
  obtain ⟨hash, hhash, entry, hentry, hequal⟩ := skipsByContentHash_iff.mp hskip
  have hsame : entry.contentHash = archive.contentHash := hequal.trans hhash.symm
  obtain ⟨hdigest, hline', hsizes, hcollision⟩ := hremote entry hentry hsame
  have hdigests := Option.some.inj ((harchive.symm.trans hsame.symm).trans hdigest)
  exact ⟨entry, hentry, hsame, perm_of_hashInput_eq hline hline' hsizes (hcollision hdigests)⟩

def asciiLess (a b : String) : Bool := decide (utf8 a < utf8 b)

def twoFiles : List SaveFile := [("b", [2]), ("a", [1])]

/-- A digest without collisions, to evaluate the rule with. -/
def latin1 (data : Data) : String := String.ofList (data.map fun b => Char.ofNat b.toNat)

def twoFilesArchive : Archive := ⟨"4D530064", "f", some "a\n\x01b\n\x02", 7⟩

/-- The save itself, an older one and one of another title. -/
def twoFilesEntries : List ManifestEntry :=
  [⟨none, none, "4D530064", "g", some 3, some "a\n\x01b\n\x02"⟩,
    ⟨none, none, "4D530064", "g", some 2, some "a\n\x01"⟩,
    ⟨none, none, "4D530004", "h", some 3, some "c\n"⟩]

theorem contentHash_separates_two :
    skipsByContentHash twoFilesEntries twoFilesArchive = true ∧
      ∃ entry ∈ matchingEntries twoFilesEntries twoFilesArchive,
        entry.contentHash = twoFilesArchive.contentHash ∧ twoFiles.Perm twoFiles.reverse := by
  have hline : OneLine twoFiles := by
    unfold OneLine
    decide
  have hline' : OneLine twoFiles.reverse := by
    unfold OneLine
    decide
  have hskip : skipsByContentHash twoFilesEntries twoFilesArchive = true := by decide
  have hsame : hashInput asciiLess noRules twoFiles =
      hashInput asciiLess noRules twoFiles.reverse := by decide
  have hdigest : twoFilesArchive.contentHash =
      some (latin1 (hashInput asciiLess noRules twoFiles)) := by decide
  refine ⟨hskip, (contentHash_separates asciiLess latin1 hline).2 twoFilesEntries twoFilesArchive
    (fun _ => twoFiles.reverse) hdigest (fun entry _ hequal => ?_) hskip⟩
  exact ⟨hequal.trans (hsame ▸ hdigest), hline', by decide, fun _ => hsame⟩

/-- A file can hold what looks like the next one, and a path can hold a newline that looks like the
one after it. -/
theorem hashInput_collides :
    (hashInput asciiLess noRules [("a", [88]), ("b", [89])] =
        hashInput asciiLess noRules [("a", [88, 98, 10, 89])] ∧
      ¬ List.Perm [("a", [88]), ("b", [89])] [("a", [88, 98, 10, 89])]) ∧
    hashInput asciiLess noRules [("a", [10]), ("bc", [])] =
        hashInput asciiLess noRules [("a\n", [98]), ("c", [])] ∧
      sizes asciiLess [("a", [10]), ("bc", [])] = sizes asciiLess [("a\n", [98]), ("c", [])] ∧
      ¬ List.Perm [(("a", [10]) : SaveFile), ("bc", [])] [("a\n", [98]), ("c", [])] := by
  decide

end DukeX.CloudSaves
