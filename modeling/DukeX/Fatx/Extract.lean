import DukeX.Swift.FileManager
import DukeX.Fatx.Exact
import DukeX.Fatx.Safety

/-!
# Extracting a directory

`extractDirectory` copies a directory of the volume to the host.
-/

namespace DukeX.Fatx

open DukeX.Lib DukeX.Swift

structure Session where
  disk : Disk
  host : Host

abbrev SessionM := EStateM Halt Session

def onDisk {α : Type} (m : DiskM α) : SessionM α := fun s =>
  match m s.disk with
  | .ok a disk => .ok a { s with disk }
  | .error e disk => .error e { s with disk }

def createDirectory (here : Path) (name : String) : SessionM Path := do
  onDisk storageCall
  match components name with
  | none => throw .io
  | some cs => fun s =>
    match s.host.makeDirectories here cs with
    | (host, some path) => .ok path { s with host }
    | (host, none) => .error .io { s with host }

def writeToURL (here : Path) (name : String) (data : Data) : SessionM Unit := do
  onDisk storageCall
  match components name with
  | none => throw .io
  | some cs => fun s =>
    match s.host.locate here cs with
    | some path => .ok () { s with host := s.host.set path (.file data) }
    | none => .error .io s

def FATXVolume.extractDirectory (v : FATXVolume) : Nat → Nat → Path → String → SessionM Unit
  | 0, _, _, _ => throw .trap
  | depth + 1, cluster, here, name => do
    let destination ← createDirectory here name
    let entries ← onDisk (v.directoryEntries cluster)
    entries.forM fun entry =>
      if entry.isDirectory then
        extractDirectory v depth entry.startCluster destination entry.name
      else do
        let data ← onDisk (v.readFile entry)
        writeToURL destination entry.name data

/-! ## Trees as functions of a path -/

mutual

def HostNode.find : HostNode → Path → Option HostItem
  | .file _ data, [] => some (.file data)
  | .file _ _, _ :: _ => none
  | .dir _ _, [] => some .directory
  | .dir _ children, c :: rest => findIn children c rest

def findIn : List HostNode → String → Path → Option HostItem
  | [], _, _ => none
  | n :: ns, c, rest => if n.name = c then n.find rest else findIn ns c rest

end

def treeOf (children : List HostNode) (path : Path) : Option HostItem :=
  (HostNode.dir "" children).find path

mutual

def HostNode.depth : HostNode → Nat
  | .file _ _ => 0
  | .dir _ children => depthAll children + 1

def depthAll : List HostNode → Nat
  | [] => 0
  | n :: ns => max n.depth (depthAll ns)

end

/-- What a directory tree of the host is. -/
def HostTree (children : List HostNode) : Prop :=
  (∀ n ∈ children, isComponent n.name = true) ∧ (children.map HostNode.name).Nodup

def HostNode.IsHostTree (n : HostNode) : Prop :=
  n.Everywhere fun
    | .file _ _ => True
    | .dir _ children => HostTree children

theorem isHostTree_dir {name : String} {children : List HostNode} :
    (HostNode.dir name children).IsHostTree ↔
      HostTree children ∧ ∀ n ∈ children, n.IsHostTree := HostNode.everywhere_dir

variable {n : HostNode} {ns : List HostNode}

theorem depth_le_depthAll (h : n ∈ ns) :
    n.depth ≤ depthAll ns := by
  induction ns with
  | nil => cases h
  | cons m ns ih =>
    grind [depthAll]

theorem find_dir (name : String) (children : List HostNode) :
    (HostNode.dir name children).find = treeOf children := by
  funext path
  cases path <;> rfl

theorem treeOf_cons (children : List HostNode) (c : String) (rest : Path) :
    treeOf children (c :: rest) = (children.find? (·.name = c)).bind (·.find rest) := by
  show findIn children c rest = _
  induction children with
  | nil => rfl
  | cons n ns ih =>
    unfold findIn
    grind

theorem treeOf_perm {ms : List HostNode} (hperm : ns.Perm ms)
    (hnd : (ns.map HostNode.name).Nodup) : treeOf ns = treeOf ms := by
  funext path
  cases path with
  | nil => rfl
  | cons c rest =>
    rw [treeOf_cons, treeOf_cons]
    refine congrArg (Option.bind · _) (find?_perm hperm fun n hn m hm hc hc' => ?_)
    refine List.inj_on_of_nodup_map hnd hn hm ?_
    rw [of_decide_eq_true hc, of_decide_eq_true hc']

theorem treeOf_eq_none {c : String} (h : ∀ n ∈ ns, n.name ≠ c) (rest : Path) :
    treeOf ns (c :: rest) = none := by
  grind [treeOf_cons]

theorem treeOf_snoc (h : ∀ m ∈ ns, m.name ≠ n.name) (path : Path) :
    treeOf (ns ++ [n]) path =
      if [n.name] <+: path then n.find (path.drop 1) else treeOf ns path := by
  cases path with
  | nil => rw [if_neg (by simp)]; rfl
  | cons c rest =>
    rw [treeOf_cons, List.find?_append]
    by_cases hc : n.name = c
    · grind
    · simp [treeOf_cons, hc]

theorem graft_child {host : Host} {path : Path}
    (h : ∀ m ∈ ns, m.name ≠ n.name) :
    (host.graft path (treeOf ns)).graft (path ++ [n.name]) n.find =
      host.graft path (treeOf (ns ++ [n])) := by
  funext q
  by_cases hq : path <+: q
  · obtain ⟨r, rfl⟩ := hq
    rw [Host.graft_below, treeOf_snoc h]
    by_cases hr : [n.name] <+: r
    · obtain ⟨r, rfl⟩ := hr
      rw [if_pos (List.prefix_append ..), ← List.append_assoc, Host.graft_below]
      rfl
    · simp [Host.graft_outside, Host.graft_below, hr]
  · grind [Host.graft_outside, List.prefix_append]

/-! ## What the extraction writes -/

variable {α : Type} {here : Path} {s : Session} {name : String} {data : Data}

theorem wp_onDisk {m : DiskM α} {Q : α → Session → Prop} {E : Halt → Session → Prop} :
    wp (onDisk m) Q E s ↔
      wp m (fun a d => Q a { s with disk := d }) (fun e d => E e { s with disk := d }) s.disk := by
  unfold wp onDisk
  cases m s.disk <;> rfl

theorem wp_onDisk_reads {m : DiskM α} {f : Store → Except Halt α} {a : α} (hm : Reads m f)
    (hf : f s.disk.bytes = .ok a) (h0 : s.disk.faults = []) :
    wp (onDisk m) (fun x s' => s.disk.Quiet s'.disk ∧ s'.host = s.host ∧ x = a)
      (fun _ _ => False) s :=
  wp_onDisk.mpr (wp_mono (hm.wp_of_no_faults hf h0) (fun _ _ h => ⟨h.1, rfl, h.2⟩) fun _ _ h => h)

def Bare (host : Host) (path : Path) : Prop := ∀ q, q ≠ [] → host (path ++ q) = none

theorem wp_createDirectory (hname : isComponent name = true) (h0 : s.disk.faults = [])
    (hnot : ∀ data, s.host (here ++ [name]) ≠ some (.file data))
    (hbare : Bare s.host (here ++ [name])) :
    wp (createDirectory here name)
      (fun path s' => path = here ++ [name] ∧ s.disk.Quiet s'.disk ∧
        s'.host = s.host.graft (here ++ [name]) (treeOf [])) (fun _ _ => False) s := by
  unfold createDirectory
  refine wp_seq (wp_onDisk_reads reads_storageCall rfl h0) ?_ fun _ _ h => h
  rintro _ s1 ⟨hq, hhost, _⟩
  rw [components_of_isComponent hname]
  -- the directory is there afterwards, made or found, and it is empty
  have hgraft : ∀ h' : Host, h' (here ++ [name]) = some .directory →
      (∀ q, q ≠ here ++ [name] → h' q = s.host q) →
      h' = s.host.graft (here ++ [name]) (treeOf []) := by
    intro h' hat hne
    funext q
    by_cases hp : here ++ [name] <+: q
    · obtain ⟨r, rfl⟩ := hp
      rw [Host.graft_below]
      cases r with
      | nil => rw [List.append_nil]; exact hat
      | cons c r =>
        rw [hne _ (by simp), hbare _ (by simp)]
        rfl
    · grind [Host.graft_outside]
  have hup := ne_up_of_isComponent hname
  rw [← hhost] at hnot
  unfold wp
  cases hat : s1.host (here ++ [name]) with
  | none =>
    simp only [Host.makeDirectories, if_neg hup, hat]
    refine ⟨trivial, hq, hgraft _ ?_ fun q hne => ?_⟩
    · rw [Host.set, if_pos rfl]
    · rw [Host.set, if_neg hne, hhost]
  | some item =>
    cases item with
    | file data => exact absurd hat (hnot data)
    | directory =>
      simp only [Host.makeDirectories, if_neg hup, hat]
      exact ⟨trivial, hq, hgraft _ hat fun q _ => by rw [hhost]⟩

theorem wp_writeToURL (hname : isComponent name = true) (h0 : s.disk.faults = [])
    (hfree : s.host (here ++ [name]) = none) (hbare : Bare s.host (here ++ [name])) :
    wp (writeToURL here name data)
      (fun _ s' => s.disk.Quiet s'.disk ∧
        s'.host = s.host.graft (here ++ [name]) (HostNode.file name data).find)
      (fun _ _ => False) s := by
  unfold writeToURL
  refine wp_seq (wp_onDisk_reads reads_storageCall rfl h0) ?_ fun _ _ h => h
  rintro _ s1 ⟨hq, hhost, _⟩
  rw [components_of_isComponent hname]
  have hup := ne_up_of_isComponent hname
  have hloc : s1.host.locate here [name] = some (here ++ [name]) := by
    rw [Host.locate, if_neg hup, if_pos rfl, hhost, hfree, if_neg nofun]
  unfold wp
  simp only [hloc]
  refine ⟨hq, ?_⟩
  funext q
  rw [hhost, Host.set]
  by_cases hp : here ++ [name] <+: q
  · obtain ⟨r, rfl⟩ := hp
    rw [Host.graft_below]
    cases r with
    | nil => rw [List.append_nil, if_pos rfl]; rfl
    | cons c r =>
      rw [if_neg (by simp), hbare _ (by simp)]
      rfl
  · rw [Host.graft_outside hp, if_neg]
    rintro rfl
    exact hp List.prefix_rfl

namespace FATXVolume

variable {v : FATXVolume} {X : Nat → Prop} {a : ClusterStore}

variable {n : HostNode} {e : FATXDirectoryEntry} {depth : Nat}

theorem wp_extractEntry
    (ih : ∀ {children}, n = .dir e.name children → v.Holds (v.view s.disk.bytes) X n e →
      wp (v.extractDirectory depth e.startCluster here n.name)
        (fun _ s' => s.disk.Quiet s'.disk ∧
          s'.host = s.host.graft (here ++ [n.name]) (treeOf children)) (fun _ _ => False) s)
    (hname : isComponent n.name = true) (h0 : s.disk.faults = [])
    (hholds : v.Holds (v.view s.disk.bytes) X n e) (hfree : s.host (here ++ [n.name]) = none)
    (hbare : Bare s.host (here ++ [n.name])) :
    wp (if e.isDirectory then v.extractDirectory depth e.startCluster here e.name
        else onDisk (v.readFile e) >>= fun data => writeToURL here e.name data)
      (fun _ s' => s.disk.Quiet s'.disk ∧ s'.host = s.host.graft (here ++ [n.name]) n.find)
      (fun _ _ => False) s := by
  cases n with
  | file name data =>
    unfold Holds at hholds
    obtain ⟨hen, hf, _, hdata⟩ := hholds
    rw [hf, hen, if_neg nofun]
    refine wp_seq (wp_onDisk_reads (reads_readFile e) rfl h0) ?_ fun _ _ h => h
    rintro _ s1 ⟨hq, hhost, rfl⟩
    rw [hdata]
    rw [← hhost] at hfree hbare ⊢
    exact wp_mono (wp_writeToURL hname (hq.2.2 h0) hfree hbare)
      (fun _ _ h => ⟨hq.trans h.1, h.2⟩) fun _ _ h => h
  | dir name children =>
    have hen : e.name = name := hholds.name
    subst hen
    have hdir : e.isDirectory = true := by
      unfold Holds at hholds
      exact hholds.2.1
    rw [hdir, if_pos rfl, find_dir]
    exact ih rfl hholds

theorem wp_extractEntries {children ms : List HostNode} {es : List FATXDirectoryEntry}
    {host : Host}
    (ih : ∀ n ∈ children, ∀ {s : Session} {e : FATXDirectoryEntry}, s.disk.faults = [] →
      v.Holds (v.view s.disk.bytes) X n e → s.host (here ++ [n.name]) = none →
      Bare s.host (here ++ [n.name]) →
      wp (if e.isDirectory then v.extractDirectory depth e.startCluster here e.name
          else onDisk (v.readFile e) >>= fun data => writeToURL here e.name data)
        (fun _ s' => s.disk.Quiet s'.disk ∧ s'.host = s.host.graft (here ++ [n.name]) n.find)
        (fun _ _ => False) s)
    (hperm : ms.Perm children) (hnd : (children.map HostNode.name).Nodup)
    (hes : List.Forall₂ (v.Holds (v.view s.disk.bytes) X) ms es) (h0 : s.disk.faults = [])
    (hhost : s.host = host.graft here (treeOf [])) :
    wp (es.forM fun e => if e.isDirectory then v.extractDirectory depth e.startCluster here e.name
        else onDisk (v.readFile e) >>= fun data => writeToURL here e.name data)
      (fun _ s' => s.disk.Quiet s'.disk ∧ s'.host = host.graft here (treeOf children))
      (fun _ _ => False) s := by
  have hnd' : (ms.map HostNode.name).Nodup := (hperm.map HostNode.name).nodup_iff.mpr hnd
  -- the children already written, and those still to come
  let I : List FATXDirectoryEntry → Session → Prop := fun rest s' =>
    ∃ done todo, ms = done ++ todo ∧ List.Forall₂ (v.Holds (v.view s.disk.bytes) X) todo rest ∧
      s.disk.Quiet s'.disk ∧ s'.host = host.graft here (treeOf done)
  refine wp_mono (wp_forM (I := I) es ?_ ⟨[], ms, rfl, hes, .refl _, hhost⟩) ?_ fun _ _ h => h
  · rintro e rest s1 ⟨done, todo, rfl, hall, hq, hhost1⟩
    obtain ⟨n, todo, hn, htodo, rfl⟩ := List.forall₂_cons_right_iff.mp hall
    have hout : ∀ m ∈ done, m.name ≠ n.name := by
      rw [List.map_append, List.map_cons] at hnd'
      exact fun m hm => (List.nodup_append.mp hnd').2.2 _ (List.mem_map_of_mem hm) _ (by simp)
    have hmem : n ∈ children := hperm.mem_iff.mp (by simp)
    have hfree : ∀ q, s1.host (here ++ [n.name] ++ q) = none := fun q => by
      rw [hhost1, List.append_assoc, Host.graft_below]
      exact treeOf_eq_none hout q
    refine wp_mono (ih n hmem (hq.2.2 h0) (by rwa [hq.1]) (by simpa using hfree [])
      fun q _ => hfree q) ?_ fun _ _ h => h
    rintro _ s2 ⟨hq2, hhost2⟩
    exact ⟨done ++ [n], todo, by simp, htodo, hq.trans hq2,
      by rw [hhost2, hhost1, graft_child hout]⟩
  · rintro _ s1 ⟨done, todo, rfl, hall, hq, hhost1⟩
    rw [List.forall₂_nil_right_iff.mp hall, List.append_nil] at hperm hnd'
    exact ⟨hq, by rw [hhost1, treeOf_perm hperm hnd']⟩

/-- **Extracting a directory writes the tree it holds**, to a destination with nothing in it. -/
theorem wp_extractDirectory {children : List HostNode} (hn : n = .dir e.name children)
    (hname : isComponent name = true)
    (htree : n.IsHostTree) (hdepth : n.depth ≤ depth) (h0 : s.disk.faults = [])
    (hholds : v.Holds (v.view s.disk.bytes) X n e)
    (hnot : ∀ data, s.host (here ++ [name]) ≠ some (.file data))
    (hbare : Bare s.host (here ++ [name])) :
    wp (v.extractDirectory depth e.startCluster here name)
      (fun _ s' => s.disk.Quiet s'.disk ∧
        s'.host = s.host.graft (here ++ [name]) (treeOf children)) (fun _ _ => False) s := by
  induction n using HostNode.induct generalizing s here name e children depth with
  | file name data => cases hn
  | dir name' children' ih =>
    cases hn
    obtain ⟨⟨hcomp, hnd⟩, hbelow⟩ := isHostTree_dir.mp htree
    unfold HostNode.depth at hdepth
    unfold Holds at hholds
    obtain ⟨_, hdir, _, es, hperm, hes⟩ := hholds
    cases depth with
    | zero => omega
    | succ depth =>
      unfold extractDirectory
      refine wp_seq (wp_createDirectory hname h0 hnot hbare) ?_ fun _ _ h => h
      rintro _ s1 ⟨rfl, hq1, hhost1⟩
      have hentries : v.entriesOf (v.view s1.disk.bytes) e.startCluster =
          v.entriesOf (v.view s.disk.bytes) e.startCluster := by rw [hq1.1]
      refine wp_seq (wp_onDisk_reads (reads_directoryEntries e.startCluster) rfl (hq1.2.2 h0)) ?_
        fun _ _ h => h
      rintro _ s2 ⟨hq2, hhost2, rfl⟩
      have hq := hq1.trans hq2
      obtain ⟨ms, hms, hperm'⟩ := List.perm_comp_forall₂ hperm ((holdsAll_iff.mp hes).flip)
      refine wp_mono (wp_extractEntries (X := X) (fun n hn s3 e3 h3 hold hfree hb => ?_)
        hperm' hnd (by rw [hq.1, hq1.1]; exact hms.flip) (hq.2.2 h0) (hhost2.trans hhost1))
        (fun _ _ h => ⟨hq.trans h.1, h.2⟩) fun _ _ h => h
      exact wp_extractEntry (fun hn' hold => ih n hn hn' (hcomp n hn) (hbelow n hn)
        (Nat.le_of_succ_le_succ ((Nat.succ_le_succ (depth_le_depthAll hn)).trans hdepth)) h3 hold
        (fun _ => by rw [hfree]; nofun) hb) (hcomp n hn) h3 hold hfree hb

/-- **Extracting undoes importing.** On a volume in order that has room for it, a tree that can be
stored whole is imported under a new name, and extracting the directory of that name to an empty
destination makes that destination the tree: the same directories, the same names, the same
bytes. -/
theorem extractDirectory_importDirectory (v : FATXVolume) (F : Foundation) (hF : F.Lawful)
    (children : List HostNode) (name : String) (d : Nat) (s : Disk) (h0 : s.faults = [])
    (hord : v.InOrder s.bytes)
    (hd : v.DirectoryAt [v.rootDirectoryCluster] (v.view s.bytes) d)
    (hname : isStorable name = true)
    (hnew : ∀ e ∈ v.entriesOf (v.view s.bytes) d, F.caseInsensitiveSame e.name name = false)
    (himp : ImportableAll F children) (htree : (HostNode.dir name children).IsHostTree)
    (henough : v.clustersFor (.dir name children) + v.growth (v.view s.bytes) d ≤
      v.freeCount (v.view s.bytes))
    (host : Host) (here : Path) (destination : String) (hdest : isComponent destination = true)
    (hnot : ∀ data, host (here ++ [destination]) ≠ some (.file data))
    (hbare : Bare host (here ++ [destination])) (depth : Nat)
    (hdepth : (HostNode.dir name children).depth ≤ depth) :
    ∃ s₁ e s₂, v.importDirectory F children name d s = .ok () s₁ ∧
      (v.entriesOf (v.view s₁.bytes) d).Perm (e :: v.entriesOf (v.view s.bytes) d) ∧
      e.name = name ∧ e.isDirectory = true ∧
      v.extractDirectory depth e.startCluster here destination ⟨s₁, host⟩ = .ok () s₂ ∧
      s₂.host = host.graft (here ++ [destination]) (treeOf children) := by
  obtain ⟨_, s₁, hrun, e, hgraft⟩ :=
    (wp_importDirectory_exact hF h0 hord hd hname himp hnew henough).total
  have hen : e.name = name := hgraft.holds.name
  subst hen
  obtain ⟨_, s₂, hrun₂, _, hhost⟩ :=
    (wp_extractDirectory (s := ⟨s₁, host⟩) rfl hdest htree hdepth hgraft.faults hgraft.holds hnot
      hbare).total
  have hdir := hgraft.holds
  unfold Holds at hdir
  exact ⟨s₁, e, s₂, hrun, hgraft.added.entries, rfl, hdir.2.1, hrun₂, hhost⟩

end FATXVolume

theorem lawful_plainFoundation : plainFoundation.Lawful where
  refl a := beq_self_eq_true a
  symm a b h :=
    by rwa [show plainFoundation.caseInsensitiveSame b a = (b == a) from rfl, Bool.beq_comm]
  trans a b c h h' := by
    obtain rfl := eq_of_beq h
    exact h'

def sampleSave : List HostNode := [.dir "TDATA" [], .file "SaveMeta.xbx" [1, 2, 3]]

theorem importable_sampleSave : FATXVolume.ImportableAll plainFoundation sampleSave := by
  refine ⟨?_, by unfold FATXVolume.Distinct; decide⟩
  intro n hn
  cases hn with
  | head => exact FATXVolume.importable_dir.mpr ⟨by unfold FATXVolume.Storable; decide, nofun, .nil⟩
  | tail _ hn =>
    obtain rfl := List.mem_singleton.mp hn
    exact FATXVolume.importable_file.mpr ⟨by unfold FATXVolume.Storable; decide, by decide⟩

theorem isHostTree_sampleSave (name : String) : (HostNode.dir name sampleSave).IsHostTree := by
  refine isHostTree_dir.mpr ⟨⟨by decide, by decide⟩, ?_⟩
  intro n hn
  cases hn with
  | head => exact isHostTree_dir.mpr ⟨⟨nofun, .nil⟩, nofun⟩
  | tail _ hn =>
    obtain rfl := List.mem_singleton.mp hn
    exact trivial

set_option maxRecDepth 4096 in
theorem extractDirectory_importDirectory_blank :
    ∃ s₁ e s₂,
      smallVolume.importDirectory plainFoundation sampleSave "4D530002" 1 (blankDisk []) =
        .ok () s₁ ∧
      (smallVolume.entriesOf (smallVolume.view s₁.bytes) 1).Perm
        (e :: smallVolume.entriesOf (smallVolume.view (blankDisk []).bytes) 1) ∧
      e.name = "4D530002" ∧ e.isDirectory = true ∧
      smallVolume.extractDirectory 2 e.startCluster ["tmp"] "fatx" ⟨s₁, fun _ => none⟩ =
        .ok () s₂ ∧
      s₂.host = Host.graft (fun _ => none) ["tmp", "fatx"] (treeOf sampleSave) :=
  FATXVolume.extractDirectory_importDirectory smallVolume plainFoundation lawful_plainFoundation
    sampleSave "4D530002" 1 (blankDisk []) rfl (inOrder_blankDisk _)
    ⟨Nat.one_ne_zero, .inl (List.mem_singleton_self 1)⟩ (by decide)
    (by rw [bytes_blankDisk, entriesOf_blankImage]; nofun) importable_sampleSave
    (isHostTree_sampleSave _) (by decide) (fun _ => none) ["tmp"] "fatx" (by decide)
    (fun _ => nofun) (fun _ _ => rfl) 2 (by decide)

end DukeX.Fatx
