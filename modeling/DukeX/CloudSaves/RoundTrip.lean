import DukeX.CloudSaves.Pack
import DukeX.CloudSaves.Import
import DukeX.Fatx.HeldTree

/-!
# A save pushed and pulled

A title directory is extracted to the host, packed, unpacked to another directory and imported into
another volume.
-/

namespace DukeX.CloudSaves

open DukeX.Lib DukeX.Swift DukeX.Fatx

/-! ## Trees that come through -/

/-- Every name can be one of an archive, and no two names of a directory are the same up to
case. -/
def Portable (F : Foundation) (n : HostNode) : Prop :=
  n.Everywhere fun
    | .file name _ => portableName name = true
    | .dir name children => portableName name = true ∧ ¬ ['.', '.'] <:+ name.toList ∧
        FATXVolume.Distinct F children

def PortableAll (F : Foundation) (ns : List HostNode) : Prop :=
  (∀ n ∈ ns, Portable F n) ∧ FATXVolume.Distinct F ns

def survivors (ns : List HostNode) : List HostNode := visible (packed ns)

section Trees

variable {F : Foundation} {n : HostNode} {ns : List HostNode}

theorem portable_dir {name : String} : Portable F (.dir name ns) ↔
    portableName name = true ∧ ¬ ['.', '.'] <:+ name.toList ∧ PortableAll F ns := by
  unfold Portable PortableAll
  rw [HostNode.everywhere_dir]
  tauto

theorem Portable.name (h : Portable F n) : portableName n.name = true := by
  cases n with
  | file name data => exact h
  | dir name children => exact (portable_dir.mp h).1

theorem nodup_of_distinct (hF : F.Lawful) (h : FATXVolume.Distinct F ns) :
    (ns.map HostNode.name).Nodup := by
  rw [List.Nodup, List.pairwise_map]
  refine h.imp fun hne heq => ?_
  rw [heq, hF.refl] at hne
  cases hne

theorem Portable.isHostTree (hF : F.Lawful) : ∀ {n : HostNode}, Portable F n → n.IsHostTree := by
  intro n
  induction n using HostNode.induct with
  | file name data => exact fun _ => trivial
  | dir name children ih =>
    intro h
    obtain ⟨-, -, hall, hdistinct⟩ := portable_dir.mp h
    refine isHostTree_dir.mpr ⟨⟨fun n hn => ?_, nodup_of_distinct hF hdistinct⟩, fun n hn => ?_⟩
    · exact isComponent_of_portableName (hall n hn).name
    · exact ih n hn (hall n hn)

theorem PortableAll.isHostTree (hF : F.Lawful) (h : PortableAll F ns) (name : String) :
    (HostNode.dir name ns).IsHostTree :=
  isHostTree_dir.mpr ⟨⟨fun n hn => isComponent_of_portableName (h.1 n hn).name,
    nodup_of_distinct hF h.2⟩, fun n hn => (h.1 n hn).isHostTree hF⟩

theorem find_snoc (path : Path) (c : String) : ∀ {n : HostNode}, n.find (path ++ [c]) ≠ none →
    n.find path = some .directory ∧ (Portable F n → portableName c = true ∧
      (n.find (path ++ [c]) = some .directory → ¬ ['.', '.'] <:+ c.toList)) := by
  induction path with
  | nil =>
    intro n h
    cases n with
    | file name data => exact absurd rfl h
    | dir name children =>
      rw [List.nil_append, find_dir] at h ⊢
      obtain ⟨m, hm, rfl, heq⟩ := exists_child h
      refine ⟨rfl, fun hp => ?_⟩
      have hchild := (portable_dir.mp hp).2.2.1 m hm
      refine ⟨hchild.name, fun hdir => ?_⟩
      cases m with
      | file name data =>
        rw [heq] at hdir
        cases hdir
      | dir name children => exact (portable_dir.mp hchild).2.1
  | cons d path ih =>
    intro n h
    cases n with
    | file name data => exact absurd rfl h
    | dir name children =>
      rw [List.cons_append, find_dir, treeOf_cons] at h ⊢
      rw [treeOf_cons]
      cases hfind : children.find? (·.name = d) with
      | none =>
        rw [hfind] at h
        exact absurd rfl h
      | some m =>
        rw [hfind] at h
        obtain ⟨hdir, hname⟩ := ih h
        exact ⟨hdir, fun hp =>
          hname ((portable_dir.mp hp).2.2.1 m (List.mem_of_find?_eq_some hfind))⟩

theorem PortableAll.packable (h : PortableAll F ns) : Packable (treeOf ns) := by
  have hroot : Portable F (.dir "a" ns) := portable_dir.mpr ⟨by decide, by decide, h⟩
  have hfind := find_dir "a" ns
  refine ⟨rfl, fun path c hc => ?_, fun path c hc => ?_, fun path c hc => ?_⟩
  · rw [← hfind] at hc ⊢
    exact (@find_snoc F path c _ hc).1
  · rw [← hfind] at hc
    exact ((find_snoc path c hc).2 hroot).1
  · rw [← hfind] at hc
    exact ((find_snoc path c (by rw [hc]; nofun)).2 hroot).2 hc

theorem Distinct.keepAll {p : HostNode → Bool} (h : FATXVolume.Distinct F ns) :
    FATXVolume.Distinct F (keepAll p ns) := by
  unfold FATXVolume.Distinct at h ⊢
  rw [← List.pairwise_map (R := fun x y => F.caseInsensitiveSame x y = false)] at h ⊢
  grind [names_keepAll]

theorem importable_survivors : ∀ {n : HostNode}, Portable F n → n.Everywhere FATXVolume.Stowable →
    isHidden n.name = false →
    FATXVolume.Importable F ((n.keep HostNode.hasFile).keep fun n => !isHidden n.name) := by
  intro n
  induction n using HostNode.induct with
  | file name data =>
    intro _ hstow hvisible
    exact FATXVolume.importable_file.mpr ⟨⟨hvisible, hstow.1⟩, hstow.2⟩
  | dir name children ih =>
    intro hp hstow hvisible
    obtain ⟨-, -, hall, hdistinct⟩ := portable_dir.mp hp
    obtain ⟨hname, hstow⟩ := HostNode.everywhere_dir.mp hstow
    refine FATXVolume.importable_dir.mpr ⟨⟨hvisible, hname⟩, fun m hm => ?_,
      Distinct.keepAll (Distinct.keepAll hdistinct)⟩
    obtain ⟨m', hm', hshown, rfl⟩ := mem_keepAll.mp hm
    obtain ⟨n, hn, -, rfl⟩ := mem_keepAll.mp hm'
    rw [name_keep, Bool.not_eq_true'] at hshown
    exact ih n hn (hall n hn) (hstow n hn) hshown

theorem importableAll_survivors (h : PortableAll F ns)
    (hstow : ∀ n ∈ ns, n.Everywhere FATXVolume.Stowable) :
    FATXVolume.ImportableAll F (survivors ns) := by
  refine ⟨fun m hm => ?_, Distinct.keepAll (Distinct.keepAll h.2)⟩
  obtain ⟨m', hm', hshown, rfl⟩ := mem_keepAll.mp hm
  obtain ⟨n, hn, -, rfl⟩ := mem_keepAll.mp hm'
  rw [name_keep, Bool.not_eq_true'] at hshown
  exact importable_survivors (h.1 n hn) (hstow n hn) hshown

theorem sameTree_visible {ms : List HostNode} {name : String} (hns : (HostNode.dir "" ns).IsHostTree)
    (hms : (HostNode.dir "" ms).IsHostTree) (h : treeOf ns = treeOf ms) :
    SameTree (.dir name (visible ns)) (.dir name (visible ms)) where
  name := rfl
  find := by
    rw [find_dir, find_dir]
    funext path
    rw [treeOf_visible hns, treeOf_visible hms, h]
  tree := isHostTree_dir.mpr (isHostTree_dir.mp (isHostTree_keep _ hns))
  tree' := isHostTree_dir.mpr (isHostTree_dir.mp (isHostTree_keep _ hms))

end Trees

structure Receives (w : FATXVolume) (F : Foundation) (s : Disk) (d : Nat) (titleID : String)
    (tree : List HostNode) : Prop where
  faults : s.faults = []
  inOrder : w.InOrder s.bytes
  directory : w.DirectoryAt [w.rootDirectoryCluster] (w.view s.bytes) d
  storable : isStorable titleID = true
  new : ∀ e ∈ w.entriesOf (w.view s.bytes) d, F.caseInsensitiveSame e.name titleID = false
  enough : w.clustersFor (.dir titleID tree) + w.growth (w.view s.bytes) d ≤
    w.freeCount (w.view s.bytes)

theorem importDirectory_listing {F : Foundation} (hF : F.Lawful) {w : FATXVolume}
    {s : Disk} {d : Nat}
    {titleID : String} {ns tree : List HostNode} (hready : Receives w F s d titleID tree)
    (himp : FATXVolume.ImportableAll F tree)
    (hsame : SameTree (.dir titleID (visible ns)) (.dir titleID tree)) :
    ∃ s' e, w.importDirectory F ns titleID d s = .ok () s' ∧
      (w.entriesOf (w.view s'.bytes) d).Perm (e :: w.entriesOf (w.view s.bytes) d) ∧
      w.Holds (w.view s'.bytes) (fun _ => True) (.dir titleID tree) e := by
  have hsame' : SameTree (.dir titleID tree) (.dir titleID (visible ns)) :=
    ⟨rfl, hsame.find.symm, hsame.tree', hsame.tree⟩
  have himp' : FATXVolume.ImportableAll F (visible ns) := by
    obtain ⟨ms, hall, hperm⟩ := hsame'.children
    refine ⟨fun m hm => ?_, himp.2.of_same hF hall hperm⟩
    obtain ⟨n, hn, hnm⟩ := exists_of_forall₂ hall (hperm.mem_iff.mpr hm)
    exact (himp.1 n hn).of_same hF hnm
  have henough := hready.enough
  rw [FATXVolume.clustersFor_of_same hsame'] at henough
  obtain ⟨_, s', hrun, e, hgraft⟩ := (FATXVolume.wp_importDirectory_exact hF hready.faults
    hready.inOrder hready.directory hready.storable himp' hready.new henough).total
  rw [FATXVolume.importDirectory_visible] at hrun
  refine ⟨s', e, hrun, hgraft.added.entries, ?_⟩
  exact FATXVolume.Holds.of_same hsame (FATXVolume.Holds.mono (fun _ _ _ => ⟨⟨rfl, rfl⟩, trivial⟩) _
    hgraft.holds)

/-- **A save pushed and pulled.** Every directory of a volume in order holds a tree. -/
theorem pushed_and_pulled (F : Foundation) (hF : F.Lawful) (combining : Char → Bool)
    (v : FATXVolume) (s : Disk)
    (h0 : s.faults = []) (hord : v.InOrder s.bytes) (e : FATXDirectoryEntry)
    (he : v.Reachable [v.rootDirectoryCluster] (v.view s.bytes) e) (hdir : e.isDirectory = true) :
    ∃ children, v.Holds (v.view s.bytes) (fun _ => True) (.dir e.name children) e ∧
      (PortableAll F children → ∀ (here : Path) (name : String) (host : Host),
        isComponent name = true → (∀ data, host (here ++ [name]) ≠ some (.file data)) →
        Bare host (here ++ [name]) → ∀ depth, (HostNode.dir e.name children).depth ≤ depth →
        ∃ s₁, v.extractDirectory depth e.startCluster here name ⟨s, host⟩ = .ok () s₁ ∧
          ∀ (urls : List Path) (directory : Path) (temporary : Host),
            Enumerates s₁.host (here ++ [name]) urls → temporary directory = some .directory →
            Bare temporary directory →
            ∃ unpacked, extractArchive combining
                (some ((createArchive s₁.host (here ++ [name]) urls).map some)) directory
                  temporary =
                (unpacked, true) ∧
              ∀ (w : FATXVolume) (s₂ : Disk) (d : Nat) (titleID : String) (listed : List HostNode),
                Receives w F s₂ d titleID (survivors children) →
                (HostNode.dir "" listed).IsHostTree →
                (∀ q, treeOf listed q = unpacked (directory ++ q)) →
                ∃ s₃ e', w.importDirectory F listed titleID d s₂ = .ok () s₃ ∧
                  (w.entriesOf (w.view s₃.bytes) d).Perm (e' :: w.entriesOf (w.view s₂.bytes) d) ∧
                  w.Holds (w.view s₃.bytes) (fun _ => True)
                    (.dir titleID (survivors children)) e') := by
  obtain ⟨children, hholds, hstow⟩ := hord.exists_tree he hdir
  refine ⟨children, hholds, ?_⟩
  intro hport here name host hname hnot hbare depth hdepth
  have htree := hport.isHostTree hF
  obtain ⟨_, s₁, hextract, -, hhost⟩ := (FATXVolume.wp_extractDirectory (s := ⟨s, host⟩) rfl hname
    (htree e.name) hdepth h0 hholds hnot hbare).total
  refine ⟨s₁, hextract, ?_⟩
  intro urls directory temporary hurls hthere hempty
  have hsource : ∀ q, s₁.host (here ++ [name] ++ q) = treeOf children q := by
    intro q
    rw [hhost, Host.graft_below]
  refine ⟨_, extractArchive_createArchive hport.packable hsource hurls hthere hempty, ?_⟩
  intro w s₂ d titleID listed hready hlisted hfound
  refine importDirectory_listing hF hready (importableAll_survivors hport hstow) ?_
  refine sameTree_visible hlisted (isHostTree_keep _ (htree "")) ?_
  funext q
  rw [hfound q, Host.graft_below]
  exact (congrFun (treeOf_packed (htree "")) q).symm

theorem portable_sampleSave : PortableAll plainFoundation sampleSave := by
  refine ⟨fun n hn => ?_, by unfold FATXVolume.Distinct; decide⟩
  cases hn with
  | head => exact portable_dir.mpr ⟨by decide, by decide, nofun, .nil⟩
  | tail _ hn =>
    obtain rfl := List.mem_singleton.mp hn
    exact (by decide : portableName "SaveMeta.xbx" = true)

set_option maxRecDepth 4096 in
theorem receives_blank (tree : List HostNode)
    (henough : smallVolume.clustersFor (.dir "4D530002" tree) ≤ 7) :
    Receives smallVolume plainFoundation (blankDisk []) 1 "4D530002" tree where
  faults := rfl
  inOrder := inOrder_blankDisk _
  directory := ⟨Nat.one_ne_zero, .inl (List.mem_singleton_self 1)⟩
  storable := by decide
  new := by
    rw [bytes_blankDisk, entriesOf_blankImage]
    nofun
  enough := by
    have hroom : smallVolume.growth (smallVolume.view (blankDisk []).bytes) 1 = 0 := by decide
    have hfree : smallVolume.freeCount (smallVolume.view (blankDisk []).bytes) = 7 := by decide
    rw [hroom, hfree]
    exact henough

set_option maxRecDepth 4096 in
theorem exists_sampleVolume :
    ∃ (s : Disk) (e : FATXDirectoryEntry), s.faults = [] ∧ smallVolume.InOrder s.bytes ∧
      smallVolume.Reachable [1] (smallVolume.view s.bytes) e ∧
      smallVolume.Holds (smallVolume.view s.bytes) (fun _ => True) (.dir e.name sampleSave) e := by
  have hready := receives_blank sampleSave (by decide)
  obtain ⟨_, s, -, e, hgraft⟩ := (FATXVolume.wp_importDirectory_exact lawful_plainFoundation
    hready.faults hready.inOrder hready.directory hready.storable importable_sampleSave hready.new
    hready.enough).total
  have hmem : e ∈ smallVolume.entriesOf (smallVolume.view s.bytes) 1 :=
    hgraft.added.entries.mem_iff.mpr List.mem_cons_self
  refine ⟨s, e, hgraft.faults, hgraft.wf, .root (List.mem_singleton_self 1) hmem, ?_⟩
  rw [hgraft.holds.name]
  exact FATXVolume.Holds.mono (fun _ _ _ => ⟨⟨rfl, rfl⟩, trivial⟩) _ hgraft.holds

variable {v : FATXVolume} {a : ClusterStore} {X : Nat → Prop} {children : List HostNode}
  {e : FATXDirectoryEntry}

theorem isDirectory_of_holds {name : String} (h : v.Holds a X (.dir name children) e) :
    e.isDirectory = true := by
  unfold FATXVolume.Holds at h
  exact h.2.1

theorem pushed_and_pulled_sample :
    ∃ (s : Disk) (e : FATXDirectoryEntry) (children : List HostNode), smallVolume.InOrder s.bytes ∧
      smallVolume.Reachable [1] (smallVolume.view s.bytes) e ∧
      smallVolume.Holds (smallVolume.view s.bytes) (fun _ => True) (.dir e.name children) e := by
  obtain ⟨s, e, h0, hord, he, hholds⟩ := exists_sampleVolume
  obtain ⟨children, hchildren, -⟩ :=
    pushed_and_pulled plainFoundation lawful_plainFoundation isAcute
    smallVolume s h0 hord e he (isDirectory_of_holds hholds)
  exact ⟨s, e, children, hord, he, hchildren⟩

theorem names_of_holds {name : String} (h : v.Holds a X (.dir name children) e) :
    ((v.entriesOf a e.startCluster).map (·.name)).Perm (children.map HostNode.name) := by
  unfold FATXVolume.Holds at h
  obtain ⟨-, -, -, es, hperm, hall⟩ := h
  refine (hperm.map _).trans (.of_eq ?_)
  symm
  exact map_eq_iff_forall2.mpr ((FATXVolume.holdsAll_iff.mp hall).imp fun _ _ h => h.name.symm)

def sampleURLs : List Path := [["tmp", "fatx", "TDATA"], ["tmp", "fatx", "SaveMeta.xbx"]]

theorem enumerates_sampleSave {host : Host}
    (h : ∀ q, host (["tmp", "fatx"] ++ q) = treeOf sampleSave q) :
    Enumerates host ["tmp", "fatx"] sampleURLs := by
  intro url
  constructor
  · intro hmem
    rcases List.mem_cons.mp hmem with rfl | hmem
    · refine ⟨⟨by decide, by decide⟩, ?_⟩
      rw [show host ["tmp", "fatx", "TDATA"] = treeOf sampleSave ["TDATA"] from h ["TDATA"]]
      nofun
    · obtain rfl := List.mem_singleton.mp hmem
      refine ⟨⟨by decide, by decide⟩, ?_⟩
      rw [show host ["tmp", "fatx", "SaveMeta.xbx"] = treeOf sampleSave ["SaveMeta.xbx"] from h ["SaveMeta.xbx"]]
      nofun
  · rintro ⟨⟨⟨q, rfl⟩, hne⟩, hsome⟩
    rw [h] at hsome
    cases q with
    | nil => exact absurd (List.append_nil _) hne
    | cons c rest =>
      -- neither child has anything below it
      obtain ⟨n, hn, rfl, hfind⟩ := exists_child hsome
      rw [hfind] at hsome
      cases rest with
      | cons d rest =>
        rcases List.mem_cons.mp hn with rfl | hn
        · exact absurd rfl hsome
        · obtain rfl := List.mem_singleton.mp hn
          exact absurd rfl hsome
      | nil =>
        rcases List.mem_cons.mp hn with rfl | hn
        · exact List.mem_cons_self
        · obtain rfl := List.mem_singleton.mp hn
          exact List.mem_cons_of_mem _ List.mem_cons_self

theorem pulled_without_directory :
    ∃ (s : Disk) (e : FATXDirectoryEntry) (s₁ : Session) (unpacked : Host) (listed : List HostNode)
        (s₂ : Disk) (e' : FATXDirectoryEntry),
      smallVolume.InOrder s.bytes ∧ smallVolume.Reachable [1] (smallVolume.view s.bytes) e ∧
      (∃ sub ∈ smallVolume.entriesOf (smallVolume.view s.bytes) e.startCluster, sub.name = "TDATA") ∧
      smallVolume.extractDirectory 2 e.startCluster ["tmp"] "fatx" ⟨s, fun _ => none⟩ = .ok () s₁ ∧
      Enumerates s₁.host ["tmp", "fatx"] sampleURLs ∧
      extractArchive isAcute
        (some ((createArchive s₁.host ["tmp", "fatx"] sampleURLs).map some)) ["saves"] (onlyDirectory ["saves"]) = (unpacked, true) ∧
      (∀ q, treeOf listed q = unpacked (["saves"] ++ q)) ∧
      Receives smallVolume plainFoundation (blankDisk []) 1 "4D530002" sampleSave ∧
      smallVolume.importDirectory plainFoundation listed "4D530002" 1 (blankDisk []) = .ok () s₂ ∧
      e' ∈ smallVolume.entriesOf (smallVolume.view s₂.bytes) 1 ∧ e'.name = "4D530002" ∧
      ∀ sub ∈ smallVolume.entriesOf (smallVolume.view s₂.bytes) e'.startCluster, sub.name ≠ "TDATA" := by
  obtain ⟨s, e, h0, hord, he, hholds⟩ := exists_sampleVolume
  have hport := portable_sampleSave
  have htree := hport.isHostTree lawful_plainFoundation
  have hsub : "TDATA" ∈ (smallVolume.entriesOf (smallVolume.view s.bytes) e.startCluster).map (·.name) :=
    (names_of_holds hholds).mem_iff.mpr List.mem_cons_self
  have hdepth : (HostNode.dir e.name sampleSave).depth ≤ 2 :=
      (by decide : depthAll sampleSave + 1 ≤ 2)
  have hwp : wp (smallVolume.extractDirectory 2 e.startCluster ["tmp"] "fatx")
      (fun _ s₁ => s.Quiet s₁.disk ∧
        s₁.host = Host.graft (fun _ => none) ["tmp", "fatx"] (treeOf sampleSave))
      (fun _ _ => False) ⟨s, fun _ => none⟩ :=
    FATXVolume.wp_extractDirectory rfl (by decide : isComponent "fatx" = true) (htree e.name)
      hdepth h0 hholds (fun _ => nofun) fun _ _ => rfl
  obtain ⟨_, s₁, hextract, -, hhost⟩ := hwp.total
  have hsource : ∀ q, s₁.host (["tmp", "fatx"] ++ q) = treeOf sampleSave q := by
    intro q
    rw [hhost]
    exact Host.graft_below q
  have hurls := enumerates_sampleSave hsource
  have hbare : Bare (onlyDirectory ["saves"]) ["saves"] := by
    intro q hq
    refine if_neg fun hp => hq ?_
    simpa using hp.length_le
  have hunpack := @extractArchive_createArchive _ _ _ isAcute hport.packable _ _ hsource _ hurls
    (rooted_onlyDirectory ["saves"] _ (List.prefix_refl _)) hbare
  have hready := receives_blank (survivors sampleSave) (by decide)
  have hstow : ∀ n ∈ sampleSave, n.Everywhere FATXVolume.Stowable := by
    intro n hn
    rcases List.mem_cons.mp hn with rfl | hn
    · exact HostNode.everywhere_dir.mpr ⟨(by decide : isStorable "TDATA" = true), nofun⟩
    · obtain rfl := List.mem_singleton.mp hn
      exact ⟨by decide, by decide⟩
  have hpacked := isHostTree_keep (p := HostNode.hasFile) _ (htree "")
  obtain ⟨s₂, e', himport, hperm, hheld⟩ := importDirectory_listing lawful_plainFoundation hready
    (importableAll_survivors hport hstow) (sameTree_visible hpacked hpacked rfl)
  obtain ⟨sub, hmem, hname⟩ := List.mem_map.mp hsub
  refine ⟨s, e, s₁, _, packed sampleSave, s₂, e', hord, he, ⟨sub, hmem, hname⟩, hextract,
    hurls, hunpack,
    fun q => ?_, receives_blank sampleSave (by decide), himport,
    hperm.mem_iff.mpr List.mem_cons_self, hheld.name, ?_⟩
  · rw [Host.graft_below]
    exact congrFun (treeOf_packed (htree "")) q
  · intro sub' hsub' heq
    have harrived := (names_of_holds hheld).mem_iff.mp (List.mem_map_of_mem hsub')
    rw [heq] at harrived
    exact absurd harrived (by decide)

end DukeX.CloudSaves
