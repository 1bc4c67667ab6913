import DukeX.Fatx.Extract
import DukeX.Lib.Depth
import DukeX.Lib.Invariant

/-!
# Reading a damaged volume

Nothing says that an image was left by a clean run: its chains can end early and its directories can
list each other.
-/

namespace DukeX.Fatx

open DukeX.Lib DukeX.Swift

variable {e : FATXDirectoryEntry} {p q : Nat × Nat}

namespace FATXVolume

variable {v : FATXVolume}

theorem length_collect {b : Store} {cs : List Nat} (hcs : ∀ c ∈ cs, v.inRange c = true)
    (remaining : Nat) :
    (v.collect (v.view b) cs remaining).length = min remaining (cs.length * v.clusterSize) := by
  induction cs generalizing remaining with
  | nil => simp [collect]
  | cons c cs ih =>
    have hlen := length_view_data (hcs c List.mem_cons_self) b
    have hrest := ih fun k hk => hcs k (List.mem_cons_of_mem c hk)
    simp only [collect, List.length_append, List.length_take, hlen, List.length_cons, Nat.add_mul,
      Nat.one_mul]
    grind

theorem length_contents (b : Store) (hsize : 0 < e.size) :
    (v.contents (v.view b) e).length =
      min e.size ((v.chainOf (v.view b) e.startCluster).length * v.clusterSize) := by
  by_cases hstart : 0 < e.startCluster
  · rw [contents, if_pos ⟨hsize, hstart⟩]
    exact length_collect (fun _ => inRange_of_mem_chainOf) e.size
  · simp [contents, Nat.eq_zero_of_not_pos, chainOf_zero, hstart]

theorem readFile_returns (v : FATXVolume) (b : Store) (e : FATXDirectoryEntry) :
    ∃ d', v.readFile e ⟨b, [], 0⟩ = .ok (v.contents (v.view b) e) d' := by
  obtain ⟨data, d', hrun, -, rfl⟩ := Lib.wp.total
    ((reads_readFile (v := v) e).wp_of_no_faults (d := ⟨b, [], 0⟩) rfl rfl)
  exact ⟨d', hrun⟩

/-- A read of `e` returns its `size` bytes, on whatever image it is made, exactly when the chain
of the entry has room for them. -/
theorem readFile_length_iff (v : FATXVolume) (b : Store) (e : FATXDirectoryEntry)
    (hsize : 0 < e.size) :
    (∀ d d' data, d.bytes = b → v.readFile e d = .ok data d' → data.length = e.size) ↔
      e.size ≤ (v.chainOf (v.view b) e.startCluster).length * v.clusterSize := by
  have hlen := length_contents (v := v) b hsize
  constructor
  · intro h
    obtain ⟨d', hrun⟩ := readFile_returns v b e
    have hdata := h ⟨b, [], 0⟩ d' _ rfl hrun
    omega
  · intro h d d' data hb hrun
    have hdata := (Lib.wp.ok (reads_readFile (v := v) e d) hrun).2
    simp_all

end FATXVolume

theorem readFile_length_root :
    40 ≤ (smallVolume.chainOf (smallVolume.view blankImage) 1).length * smallVolume.clusterSize ∧
    ∀ d d' data, d.bytes = blankImage →
      smallVolume.readFile ⟨"SaveMeta.xbx", 0x20, 40, 1, 8192, none⟩ d = .ok data d' →
        data.length = 40 :=
  ⟨by decide +kernel, (FATXVolume.readFile_length_iff smallVolume blankImage
    ⟨"SaveMeta.xbx", 0x20, 40, 1, 8192, none⟩ (by decide)).mpr (by decide +kernel)⟩

theorem readFile_short :
    ∃ data d', smallVolume.readFile ⟨"SaveMeta.xbx", 0x20, 1000, 1, 8192, none⟩ (blankDisk []) =
      .ok data d' ∧ data.length = 512 := by
  obtain ⟨d', hrun⟩ :=
    FATXVolume.readFile_returns smallVolume blankImage ⟨"SaveMeta.xbx", 0x20, 1000, 1, 8192, none⟩
  refine ⟨_, d', hrun, ?_⟩
  rw [FATXVolume.length_contents blankImage (by decide)]
  decide +kernel

/-! ## Counting the files below a directory -/

/-- Addition of a type with `bound` values: traps when the sum is not one of them. -/
def checkedAdd (bound a b : Nat) : Except Halt Nat :=
  if a + b < bound then .ok (a + b) else .error .trap

def addStats (total child : Nat × Nat) : Except Halt (Nat × Nat) := do
  let fileCount ← checkedAdd (2 ^ 63) total.1 child.1
  let totalSize ← checkedAdd (2 ^ 64) total.2 child.2
  return (fileCount, totalSize)

def fromExcept {α : Type} : Except Halt α → DiskM α
  | .ok a => return a
  | .error e => throw e

namespace FATXVolume

def directoryStats (v : FATXVolume) : Nat → Nat → DiskM (Nat × Nat)
  | 0, _ => throw .trap
  | depth + 1, cluster => do
    let entries ← v.directoryEntries cluster
    entries.foldlM (fun total entry =>
      if entry.isDirectory then do
        let child ← directoryStats v depth entry.startCluster
        fromExcept (addStats total child)
      else fromExcept (addStats total (1, entry.size))) (0, 0)

def statsOf (v : FATXVolume) (a : ClusterStore) : Nat → Nat → Except Halt (Nat × Nat)
  | 0, _ => .error .trap
  | depth + 1, cluster =>
    (v.entriesOf a cluster).foldlM (fun total entry =>
      if entry.isDirectory then do
        let child ← statsOf v a depth entry.startCluster
        addStats total child
      else addStats total (1, entry.size)) (0, 0)

def subdirectories (v : FATXVolume) (a : ClusterStore) (cluster : Nat) : List Nat :=
  ((v.entriesOf a cluster).filter (·.isDirectory)).map (·.startCluster)

/-- The exact number and size of the files down to a depth, a file counted once for every way
that leads to it. -/
def counts (v : FATXVolume) (a : ClusterStore) : Nat → Nat → Nat × Nat
  | 0, _ => 0
  | depth + 1, cluster =>
    ((v.entriesOf a cluster).map fun entry =>
      if entry.isDirectory then counts v a depth entry.startCluster else (1, entry.size)).sum

end FATXVolume

def FitsStats (p : Nat × Nat) : Prop := p.1 < 2 ^ 63 ∧ p.2 < 2 ^ 64

theorem FitsStats.mono (h : FitsStats q) (hle : p ≤ q) : FitsStats p :=
  ⟨hle.1.trans_lt h.1, hle.2.trans_lt h.2⟩

theorem addStats_of_fits (h : FitsStats (p + q)) : addStats p q = .ok (p + q) := by
  obtain ⟨h1, h2⟩ := h
  simp only [addStats, checkedAdd, Prod.fst_add, Prod.snd_add] at h1 h2 ⊢
  rw [if_pos h1, if_pos h2]
  rfl

theorem addStats_of_not_fits (h : ¬ FitsStats (p + q)) : addStats p q = .error .trap := by
  simp only [FitsStats, Prod.fst_add, Prod.snd_add, not_and] at h
  simp only [addStats, checkedAdd]
  by_cases h1 : p.1 + q.1 < 2 ^ 63
  · rw [if_pos h1, if_neg (h h1)]
    rfl
  · rw [if_neg h1]
    rfl

section Fold

variable {α : Type} {child : α → Except Halt (Nat × Nat)} {exact : α → Nat × Nat}
  {good : α → Prop}

def addAll (child : α → Except Halt (Nat × Nat)) (xs : List α) (total : Nat × Nat) :
    Except Halt (Nat × Nat) :=
  xs.foldlM (fun total x => child x >>= addStats total) total

theorem addAll_cons (x : α) (xs : List α) (total : Nat × Nat) :
    addAll child (x :: xs) total = child x >>= fun c => addStats total c >>= addAll child xs := by
  unfold addAll
  rw [List.foldlM_cons, bind_assoc]

variable {xs : List α} {total : Nat × Nat}

theorem addAll_of_fits (h : ∀ x ∈ xs, child x = .ok (exact x))
    (hfits : FitsStats (total + (xs.map exact).sum)) :
    addAll child xs total = .ok (total + (xs.map exact).sum) := by
  induction xs generalizing total with
  | nil => simp [addAll, pure, Except.pure]
  | cons x xs ih =>
    rw [List.map_cons, List.sum_cons, ← add_assoc] at hfits ⊢
    rw [addAll_cons, h x List.mem_cons_self]
    show addStats total (exact x) >>= _ = _
    rw [addStats_of_fits (hfits.mono le_self_add)]
    exact ih (fun y hy => h y (List.mem_cons_of_mem x hy)) hfits

theorem of_addAll (h : ∀ x ∈ xs, ∀ c, child x = .ok c → c = exact x ∧ good x)
    {result : Nat × Nat} (hfits : FitsStats total) (hok : addAll child xs total = .ok result) :
    FitsStats result ∧ result = total + (xs.map exact).sum ∧ ∀ x ∈ xs, good x := by
  induction xs generalizing total with
  | nil =>
    have heq : total = result := Except.ok.inj hok
    exact ⟨heq ▸ hfits, by simp [heq], fun _ hx => nomatch hx⟩
  | cons x xs ih =>
    rw [addAll_cons] at hok
    cases hc : child x with
    | error e =>
      rw [hc] at hok
      cases hok
    | ok c =>
      rw [hc] at hok
      obtain ⟨rfl, hgood⟩ := h x List.mem_cons_self c hc
      by_cases hadd : FitsStats (total + exact x)
      · have hok : addStats total (exact x) >>= addAll child xs = .ok result := hok
        rw [addStats_of_fits hadd] at hok
        obtain ⟨hres, heq, hall⟩ := ih (fun y hy => h y (List.mem_cons_of_mem x hy)) hadd hok
        grind
      · have hok : addStats total (exact x) >>= addAll child xs = .ok result := hok
        rw [addStats_of_not_fits hadd] at hok
        cases hok

theorem addAll_error (h : ∀ x ∈ xs, ∀ e, child x = .error e → e = .trap) {e : Halt} (herr : addAll child xs total = .error e) : e = .trap := by
  induction xs generalizing total with
  | nil => cases herr
  | cons x xs ih =>
    rw [addAll_cons] at herr
    cases hc : child x with
    | error e' =>
      rw [hc] at herr
      cases herr
      exact h x List.mem_cons_self e hc
    | ok c =>
      rw [hc] at herr
      have herr : addStats total c >>= addAll child xs = .error e := herr
      by_cases hadd : FitsStats (total + c)
      · rw [addStats_of_fits hadd] at herr
        exact ih (fun y hy => h y (List.mem_cons_of_mem x hy)) herr
      · rw [addStats_of_not_fits hadd] at herr
        cases herr
        rfl

end Fold

namespace FATXVolume

variable {v : FATXVolume} {a : ClusterStore}

def entryStats (v : FATXVolume) (a : ClusterStore) (depth : Nat) (e : FATXDirectoryEntry) :
    Except Halt (Nat × Nat) :=
  if e.isDirectory then v.statsOf a depth e.startCluster else .ok (1, e.size)

def entryCounts (v : FATXVolume) (a : ClusterStore) (depth : Nat) (e : FATXDirectoryEntry) :
    Nat × Nat :=
  if e.isDirectory then v.counts a depth e.startCluster else (1, e.size)

theorem counts_succ (depth c : Nat) :
    v.counts a (depth + 1) c = ((v.entriesOf a c).map (v.entryCounts a depth)).sum := rfl

theorem statsOf_succ (depth c : Nat) :
    v.statsOf a (depth + 1) c = addAll (v.entryStats a depth) (v.entriesOf a c) 0 := by
  rw [statsOf, addAll]
  congr 1
  funext total e
  by_cases he : e.isDirectory = true
  · simp only [entryStats, he, if_true]
  · simp only [entryStats, he, Bool.false_eq_true, if_false]
    rfl

variable {c : Nat}

theorem mem_subdirectories {k : Nat} : k ∈ v.subdirectories a c ↔
    ∃ e ∈ v.entriesOf a c, e.isDirectory = true ∧ e.startCluster = k := by
  simp only [subdirectories, List.mem_map, List.mem_filter, and_assoc]

variable {depth : Nat}

theorem shallow_succ :
    Shallow (v.subdirectories a) (depth + 1) c ↔ ∀ e ∈ v.entriesOf a c, e.isDirectory = true →
      Shallow (v.subdirectories a) depth e.startCluster := by
  constructor
  · intro h e he hdir
    exact h e.startCluster (mem_subdirectories.mpr ⟨e, he, hdir, rfl⟩)
  · intro h k hk
    obtain ⟨e, he, hdir, rfl⟩ := mem_subdirectories.mp hk
    exact h e he hdir

theorem le_counts (he : e ∈ v.entriesOf a c) (hdir : e.isDirectory = true) :
    v.counts a depth e.startCluster ≤ v.counts a (depth + 1) c := by
  have hmem := List.mem_map_of_mem (f := v.entryCounts a depth) he
  rw [entryCounts, if_pos hdir] at hmem
  exact List.le_sum_of_mem hmem

theorem counts_succ_of_shallow (h : Shallow (v.subdirectories a) depth c) :
    v.counts a (depth + 1) c = v.counts a depth c := by
  induction depth generalizing c with
  | zero => exact h.elim
  | succ depth ih =>
    rw [counts, counts]
    refine congrArg List.sum (List.map_congr_left fun e he => ?_)
    by_cases hdir : e.isDirectory = true
    · rw [if_pos hdir, if_pos hdir, ih (shallow_succ.mp h e he hdir)]
    · rw [if_neg hdir, if_neg hdir]

theorem counts_le_succ (depth c : Nat) : v.counts a depth c ≤ v.counts a (depth + 1) c := by
  induction depth generalizing c with
  | zero => exact zero_le
  | succ depth ih =>
    rw [counts, counts]
    refine List.sum_le_sum fun e _ => ?_
    grind

theorem counts_of_shallow {depth' : Nat} (h : Shallow (v.subdirectories a) depth c)
    (hle : depth ≤ depth') : v.counts a depth' c = v.counts a depth c := by
  induction hle with
  | refl => rfl
  | step hle ih => rw [counts_succ_of_shallow (h.mono hle), ih]

theorem statsOf_of_fits (h : Shallow (v.subdirectories a) depth c)
    (hfits : FitsStats (v.counts a depth c)) : v.statsOf a depth c = .ok (v.counts a depth c) := by
  induction depth generalizing c with
  | zero => exact h.elim
  | succ depth ih =>
    rw [statsOf_succ]
    have hentry : ∀ e ∈ v.entriesOf a c, v.entryStats a depth e = .ok (v.entryCounts a depth e) := by
      intro e he
      unfold entryStats entryCounts
      by_cases hdir : e.isDirectory = true
      · rw [if_pos hdir, if_pos hdir]
        exact ih (shallow_succ.mp h e he hdir) (hfits.mono (le_counts he hdir))
      · rw [if_neg hdir, if_neg hdir]
    rw [counts_succ, ← zero_add (List.sum _)] at hfits ⊢
    exact addAll_of_fits hentry hfits

theorem of_statsOf (h : v.statsOf a depth c = .ok p) :
    FitsStats p ∧ p = v.counts a depth c ∧ Shallow (v.subdirectories a) depth c := by
  induction depth generalizing c p with
  | zero => cases h
  | succ depth ih =>
    rw [statsOf_succ] at h
    have hentry : ∀ e ∈ v.entriesOf a c, ∀ q, v.entryStats a depth e = .ok q →
        q = v.entryCounts a depth e ∧
          (e.isDirectory = true → Shallow (v.subdirectories a) depth e.startCluster) := by
      intro e _ q hq
      unfold entryStats at hq
      unfold entryCounts
      by_cases hdir : e.isDirectory = true
      · rw [if_pos hdir] at hq ⊢
        exact ⟨(ih hq).2.1, fun _ => (ih hq).2.2⟩
      · simp_all
    obtain ⟨hfits, heq, hall⟩ := of_addAll hentry ⟨by decide, by decide⟩ h
    exact ⟨hfits, by rw [heq, zero_add, counts_succ], shallow_succ.mpr hall⟩

theorem statsOf_error {e : Halt} (h : v.statsOf a depth c = .error e) :
    e = .trap := by
  induction depth generalizing c e with
  | zero => exact (Except.error.inj h).symm
  | succ depth ih =>
    rw [statsOf_succ] at h
    refine addAll_error (fun x _ e' hx => ?_) h
    by_cases hdir : x.isDirectory = true
    · simp only [entryStats, hdir, if_true] at hx
      exact ih hx
    · simp only [entryStats, hdir, Bool.false_eq_true, if_false] at hx
      cases hx

theorem reads_fromExcept {α : Type} (x : Except Halt α) : Reads (fromExcept x) (fun _ => x) := by
  cases x with
  | ok a => exact .pure a
  | error e => exact .throw e

theorem reads_foldlM {α β : Type} {k : β → α → DiskM β} {g : Store → β → α → Except Halt β}
    (h : ∀ t x, Reads (k t x) (fun b => g b t x)) (xs : List α) (t : β) :
    Reads (xs.foldlM k t) (fun b => xs.foldlM (g b) t) := by
  induction xs generalizing t with
  | nil => exact .pure t
  | cons x xs ih =>
    simp only [List.foldlM_cons]
    exact (h t x).bind fun t' _ _ => ih t'

theorem reads_directoryStats (depth c : Nat) :
    Reads (v.directoryStats depth c) (fun b => v.statsOf (v.view b) depth c) := by
  induction depth generalizing c with
  | zero => exact .throw _
  | succ depth ih =>
    refine (reads_directoryEntries c).bind_ok (g := fun es b => es.foldlM (fun total entry =>
      if entry.isDirectory then do
        let child ← v.statsOf (v.view b) depth entry.startCluster
        addStats total child
      else addStats total (1, entry.size)) (0, 0)) fun es _ _ => ?_
    refine reads_foldlM (fun total entry => ?_) es (0, 0)
    exact .ite ((ih entry.startCluster).bind fun child _ _ => reads_fromExcept _)
      (reads_fromExcept _)

end FATXVolume

structure FATXSaveArchiveMetadata where
  folderName : String
  saveName : String
  fileCount : Nat
  totalSize : Nat
  modifiedDate : Option DateComponents

structure FATXTitleArchiveMetadata where
  titleID : String
  titleName : Option String
  fileCount : Nat
  totalSize : Nat
  saves : List FATXSaveArchiveMetadata

namespace FATXVolume

section Metadata

-- `metadataValue(named:in:)`, a function of the key and the bytes
variable (v : FATXVolume) (F : Foundation) (metadataValue : String → Data → Option String)

def metadataIn (entries : List FATXDirectoryEntry) (file key : String) : DiskM (Option String) :=
  match entries.find? fun e => !e.isDirectory && F.caseInsensitiveSame e.name file with
  | some entry => do
    let data ← v.readFile entry
    return metadataValue key data
  | none => return none

def saveMetadata (depth : Nat) (saveEntry : FATXDirectoryEntry) : DiskM FATXSaveArchiveMetadata := do
  let saveStats ← v.directoryStats depth saveEntry.startCluster
  let saveEntries ← v.directoryEntries saveEntry.startCluster
  let saveName ← v.metadataIn F metadataValue saveEntries "SaveMeta.xbx" "Name"
  return {
    folderName := saveEntry.name
    saveName := saveName.getD "<corrupted save>"
    fileCount := saveStats.1
    totalSize := saveStats.2
    modifiedDate := saveEntry.modifiedDate }

def archiveMetadata (depth : Nat) (entry : FATXDirectoryEntry) (fallbackTitleName : String) :
    DiskM FATXTitleArchiveMetadata := do
  let entries ← v.directoryEntries entry.startCluster
  let titleName ← v.metadataIn F metadataValue entries "TitleMeta.xbx" "TitleName"
  let stats ← v.directoryStats depth entry.startCluster
  let sorted := (entries.filter (·.isDirectory)).insertionSort
    fun a b => F.standardAscending b.name a.name = false
  let saves ← sorted.mapM (v.saveMetadata F metadataValue depth)
  return {
    titleID := F.uppercased entry.name
    titleName := some (titleName.getD fallbackTitleName)
    fileCount := stats.1
    totalSize := stats.2
    saves }

end Metadata

variable {v : FATXVolume} {F : Foundation} {metadataValue : String → Data → Option String}
  {b : Store}

def Countable (v : FATXVolume) (a : ClusterStore) (depth c : Nat) : Prop :=
  Shallow (v.subdirectories a) depth c ∧ FitsStats (v.counts a depth c)

theorem Countable.child {a : ClusterStore} {depth c : Nat} {e : FATXDirectoryEntry}
    (h : v.Countable a depth c) (he : e ∈ v.entriesOf a c) (hdir : e.isDirectory = true) :
    v.Countable a depth e.startCluster := by
  cases depth with
  | zero => exact h.1.elim
  | succ depth =>
    have hshallow := shallow_succ.mp h.1 e he hdir
    refine ⟨hshallow.succ, ?_⟩
    rw [counts_succ_of_shallow hshallow]
    exact h.2.mono (le_counts he hdir)

theorem upholds_of_reads {α : Type} {m : DiskM α} {f : Store → Except Halt α} (hm : Reads m f)
    (hf : ∀ e, f b = .error e → e ≠ .trap) :
    Upholds (fun d : Disk => d.bytes = b) (· ≠ Halt.trap) m := by
  intro d hb
  refine wp_mono (hm d) (fun _ d' h => h.1.1.trans hb) fun e d' h => ⟨h.1.1.trans hb, ?_⟩
  grind

theorem upholds_of_reads_ok {α : Type} {m : DiskM α} {f : Store → α}
    (hm : Reads m (fun b => .ok (f b))) :
    Upholds (fun d : Disk => d.bytes = b) (· ≠ Halt.trap) m :=
  upholds_of_reads hm fun _ h => nomatch h

theorem upholds_directoryStats {depth c : Nat} (h : v.Countable (v.view b) depth c) :
    Upholds (fun d : Disk => d.bytes = b) (· ≠ Halt.trap) (v.directoryStats depth c) := by
  refine upholds_of_reads (reads_directoryStats depth c) fun e he => ?_
  rw [statsOf_of_fits h.1 h.2] at he
  cases he

theorem upholds_metadataIn (entries : List FATXDirectoryEntry) (file key : String) :
    Upholds (fun d : Disk => d.bytes = b) (· ≠ Halt.trap)
      (v.metadataIn F metadataValue entries file key) := by
  unfold metadataIn
  split
  · exact (upholds_of_reads_ok (reads_readFile _)).bind fun _ => .pure _
  · exact .pure _

theorem wp_directoryEntries_of_bytes {c : Nat} (d : Disk) (hb : d.bytes = b) :
    wp (v.directoryEntries c) (fun es d' => d'.bytes = b ∧ es = v.entriesOf (v.view b) c)
      (fun e d' => d'.bytes = b ∧ e ≠ .trap) d := by
  refine wp_mono (reads_directoryEntries c d) ?_ ?_
  · intro es d' hd
    refine ⟨hd.1.1.trans hb, ?_⟩
    rw [← Except.ok.inj hd.2, hb]
  · intro e d' hd
    refine ⟨hd.1.1.trans hb, ?_⟩
    simp_all

theorem upholds_archiveMetadata {depth : Nat} {entry : FATXDirectoryEntry}
    (h : v.Countable (v.view b) depth entry.startCluster) (fallbackTitleName : String) :
    Upholds (fun d : Disk => d.bytes = b) (· ≠ Halt.trap)
      (v.archiveMetadata F metadataValue depth entry fallbackTitleName) := by
  unfold archiveMetadata
  -- the save directories are entries of the title's directory
  refine Upholds.bind_of wp_directoryEntries_of_bytes fun es hes => ?_
  refine (upholds_metadataIn _ _ _).bind fun _ => (upholds_directoryStats h).bind fun _ => ?_
  refine (Upholds.mapM fun e he => ?_).bind fun _ => .pure _
  rw [List.mem_insertionSort, List.mem_filter] at he
  have hchild := h.child (hes ▸ he.1) he.2
  refine (upholds_directoryStats hchild).bind fun _ => ?_
  refine (upholds_of_reads_ok (reads_directoryEntries _)).bind fun _ => ?_
  exact (upholds_metadataIn _ _ _).bind fun _ => .pure _

end FATXVolume

/-! ## The extraction -/

section Extraction

variable {v : FATXVolume} {b : Store}

theorem upholds_onDisk {α : Type} {m : DiskM α}
    (h : Upholds (fun d : Disk => d.bytes = b) (· ≠ Halt.trap) m) :
    Upholds (fun s : Session => s.disk.bytes = b) (· ≠ Halt.trap) (onDisk m) :=
  fun s hs => wp_onDisk.mpr (h s.disk hs)

theorem upholds_createDirectory (here : Path) (name : String) :
    Upholds (fun s : Session => s.disk.bytes = b) (· ≠ Halt.trap) (createDirectory here name) := by
  refine (upholds_onDisk (FATXVolume.upholds_of_reads_ok reads_storageCall)).bind fun _ => ?_
  cases components name with
  | none => exact .throw (by simp)
  | some cs =>
    intro s hs
    grind [wp]

theorem upholds_writeToURL (here : Path) (name : String) (data : Data) :
    Upholds (fun s : Session => s.disk.bytes = b) (· ≠ Halt.trap) (writeToURL here name data) := by
  refine (upholds_onDisk (FATXVolume.upholds_of_reads_ok reads_storageCall)).bind fun _ => ?_
  cases components name with
  | none => exact .throw (by simp)
  | some cs =>
    intro s hs
    grind [wp]

theorem upholds_extractDirectory {depth c : Nat}
    (h : Shallow (v.subdirectories (v.view b)) depth c) (here : Path) (name : String) :
    Upholds (fun s : Session => s.disk.bytes = b) (· ≠ Halt.trap)
      (v.extractDirectory depth c here name) := by
  induction depth generalizing c here name with
  | zero => exact h.elim
  | succ depth ih =>
    unfold FATXVolume.extractDirectory
    refine (upholds_createDirectory here name).bind fun destination => ?_
    refine Upholds.bind_of (fun s hs => wp_onDisk.mpr
      (FATXVolume.wp_directoryEntries_of_bytes s.disk hs)) fun es hes => ?_
    refine Upholds.forM fun e he => .ite (fun hdir => ?_) fun _ => ?_
    · exact ih (FATXVolume.shallow_succ.mp h e (hes ▸ he) hdir) destination e.name
    · refine (upholds_onDisk (FATXVolume.upholds_of_reads_ok (FATXVolume.reads_readFile e))).bind
        fun data => ?_
      exact upholds_writeToURL destination e.name data

end Extraction

/-- The recursion ends by itself. -/
def Ends {σ α : Type} (run : Nat → EStateM Halt σ α) (s : σ) : Prop :=
  ∃ depth, wp (run depth) (fun _ _ => True) (fun e _ => e ≠ .trap) s

theorem Ends.of_upholds {σ α : Type} {run : Nat → EStateM Halt σ α} {I : σ → Prop} {s : σ}
    {depth : Nat} (h : Upholds I (· ≠ Halt.trap) (run depth)) (hs : I s) : Ends run s :=
  ⟨depth, wp_mono (h s hs) (fun _ _ _ => trivial) fun _ _ h => h.2⟩

namespace FATXVolume

variable {v : FATXVolume}

theorem mem_range_of_subdirectories {a : ClusterStore} {c : Nat}
    (h : v.subdirectories a c ≠ []) : c ∈ List.range (v.clusterCount + 1) := by
  by_contra hc
  have hrange : v.inRange c = false := by
    grind [inRange]
  have hchain : v.chainOf a c = [] := by
    rw [chainOf, walk, if_neg (by simp [hrange])]
  rw [subdirectories, entriesOf, hchain] at h
  exact h rfl

theorem exists_statsOf_of_run {b : Store} {depth c : Nat}
    (h : wp (v.directoryStats depth c) (fun _ _ => True) (fun e _ => e ≠ .trap) ⟨b, [], 0⟩) :
    ∃ p, v.statsOf (v.view b) depth c = .ok p := by
  have hreads := reads_directoryStats (v := v) depth c ⟨b, [], 0⟩
  cases hrun : v.directoryStats depth c ⟨b, [], 0⟩ with
  | ok p d' => exact ⟨p, (Lib.wp.ok hreads hrun).2⟩
  | error e d' =>
    cases (Lib.wp.error hreads hrun).2 with
    | inl he => exact absurd (statsOf_error he) (Lib.wp.error h hrun)
    | inr hio => exact absurd rfl hio.2

/-- The extraction, the statistics and the metadata of a directory end, on whatever image and
host they are run, exactly when no directory that can be reached from it is below itself and the
files below it, a file counted once for every way to it, number less than 2^63 and hold less
than 2^64 bytes. -/
theorem walks_end_iff (v : FATXVolume) (F : Foundation)
    (metadataValue : String → Data → Option String) (b : Store) (cluster : Nat) :
    (∀ s : Session, s.disk.bytes = b →
      (∀ here name, Ends (fun depth => v.extractDirectory depth cluster here name) s) ∧
      Ends (fun depth => v.directoryStats depth cluster) s.disk ∧
      ∀ entry fallbackTitleName, entry.startCluster = cluster →
        Ends (fun depth => v.archiveMetadata F metadataValue depth entry fallbackTitleName) s.disk) ↔
      Acyclic (v.subdirectories (v.view b)) cluster ∧
        ∀ depth, FitsStats (v.counts (v.view b) depth cluster) := by
  constructor
  · intro h
    obtain ⟨depth, hrun⟩ := (h ⟨⟨b, [], 0⟩, fun _ => none⟩ rfl).2.1
    obtain ⟨p, hp⟩ := exists_statsOf_of_run hrun
    obtain ⟨hfits, rfl, hshallow⟩ := of_statsOf hp
    refine ⟨hshallow.acyclic, fun depth' => ?_⟩
    cases Nat.le_total depth depth' with
    | inl hle => rwa [counts_of_shallow hshallow hle]
    | inr hle => exact hfits.mono (monotone_nat_of_le_succ
        (fun n => counts_le_succ n cluster) hle)
  · intro ⟨hacyclic, hfits⟩ s hb
    obtain ⟨depth, hshallow⟩ := hacyclic.exists_shallow fun _ => mem_range_of_subdirectories
    refine ⟨fun here name => ?_, ?_, fun entry fallbackTitleName hentry => ?_⟩
    · exact .of_upholds (upholds_extractDirectory hshallow here name) hb
    · exact .of_upholds (upholds_directoryStats ⟨hshallow, hfits depth⟩) hb
    · subst hentry
      exact .of_upholds (upholds_archiveMetadata ⟨hshallow, hfits depth⟩ fallbackTitleName) hb

end FATXVolume

def loopImage : Store := fun a =>
  if a = 4096 ∨ a = 4097 then 0xFF
  else if a = 8192 then 1
  else if a = 8193 then 0x10
  else if a = 8194 then 0x61
  else if a = 8236 then 1
  else 0

theorem mem_subdirectories_loopImage :
    1 ∈ smallVolume.subdirectories (smallVolume.view loopImage) 1 := by
  decide +kernel

theorem directoryStats_loopImage :
    ¬ Ends (fun depth => smallVolume.directoryStats depth 1) ⟨loopImage, [], 0⟩ := by
  intro ⟨depth, hrun⟩
  obtain ⟨p, hp⟩ := FATXVolume.exists_statsOf_of_run hrun
  obtain ⟨-, -, hshallow⟩ := FATXVolume.of_statsOf hp
  exact hshallow.acyclic 1 .refl (.single mem_subdirectories_loopImage)

end DukeX.Fatx
