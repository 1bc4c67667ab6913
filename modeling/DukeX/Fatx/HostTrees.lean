import DukeX.Fatx.Extract

/-!
# Parts of a host tree

Two listings of one directory differ in the order of the children, at every level.
-/

namespace DukeX.Fatx

open DukeX.Lib DukeX.Swift

/-! ## One tree, listed twice -/

theorem forall₂_of_forall₂ {α β γ : Type} {P : α → β → Prop} {Q : α → γ → Prop} {R : β → γ → Prop}
    {xs : List α} {ys : List β} {zs : List γ} (hP : List.Forall₂ P xs ys) (hQ : List.Forall₂ Q xs zs)
    (h : ∀ x y z, P x y → Q x z → R y z) : List.Forall₂ R ys zs := by
  induction hP generalizing zs with
  | nil =>
    cases hQ
    exact .nil
  | cons hxy _ ih =>
    cases hQ with
    | cons hxz hrest => exact .cons (h _ _ _ hxy hxz) (ih hrest)

theorem map_eq_iff_forall2 {α β γ : Type} {f : α → γ} {g : β → γ} {xs : List α} {ys : List β} :
    xs.map f = ys.map g ↔ List.Forall₂ (fun x y => f x = g y) xs ys := by
  rw [← List.forall₂_eq_eq_eq, List.forall₂_map_left_iff, List.forall₂_map_right_iff]

structure SameTree (n m : HostNode) : Prop where
  name : n.name = m.name
  find : n.find = m.find
  tree : n.IsHostTree
  tree' : m.IsHostTree

variable {c name : String} {n m : HostNode}

theorem exists_child {ns : List HostNode} {rest : Path} (h : treeOf ns (c :: rest) ≠ none) :
    ∃ n ∈ ns, n.name = c ∧ treeOf ns (c :: rest) = n.find rest := by
  rw [treeOf_cons] at h ⊢
  cases hfind : ns.find? (·.name = c) with
  | none =>
    rw [hfind] at h
    exact absurd rfl h
  | some n => exact ⟨n, List.mem_of_find?_eq_some hfind, by simpa using List.find?_some hfind, rfl⟩

theorem treeOf_child {ns : List HostNode} (hnd : (ns.map HostNode.name).Nodup)
    (hn : n ∈ ns) (rest : Path) : treeOf ns (n.name :: rest) = n.find rest := by
  rw [treeOf_cons]
  cases hfind : ns.find? (·.name = n.name) with
  | none => exact absurd (decide_eq_true rfl) (List.find?_eq_none.mp hfind n hn)
  | some m =>
    grind [List.inj_on_of_nodup_map]

theorem find_nil_ne_none (n : HostNode) : n.find [] ≠ none := by
  cases n <;> nofun

theorem names_subset {ns ms : List HostNode} (hnd : (ns.map HostNode.name).Nodup)
    (h : treeOf ns = treeOf ms) (hc : c ∈ ns.map HostNode.name) :
    c ∈ ms.map HostNode.name := by
  obtain ⟨n, hn, rfl⟩ := List.mem_map.mp hc
  have hfound : treeOf ms (n.name :: []) ≠ none := by
    rw [← h, treeOf_child hnd hn]
    exact find_nil_ne_none n
  grind [exists_child]

theorem SameTree.children {ns ms : List HostNode} {name name' : String}
    (h : SameTree (.dir name ns) (.dir name' ms)) :
    ∃ ms', List.Forall₂ SameTree ns ms' ∧ ms'.Perm ms := by
  obtain ⟨⟨-, hnd⟩, hbelow⟩ := isHostTree_dir.mp h.tree
  obtain ⟨⟨-, hnd'⟩, hbelow'⟩ := isHostTree_dir.mp h.tree'
  have htree : treeOf ns = treeOf ms := by
    rw [← find_dir name, ← find_dir name']
    exact h.find
  have hnames : (ns.map HostNode.name).Perm (ms.map HostNode.name) :=
    (List.perm_ext_iff_of_nodup hnd hnd').mpr fun c =>
      ⟨names_subset hnd htree, names_subset hnd' htree.symm⟩
  obtain ⟨ms', hmap, hperm⟩ : ∃ ms' : List HostNode, ns.map HostNode.name = ms'.map HostNode.name ∧ ms'.Perm ms := by
    have hcomp := List.eq_map_comp_perm HostNode.name
    exact (congrFun (congrFun hcomp _) _).mpr hnames
  refine ⟨ms', ?_, hperm⟩
  have hleft := (List.forall₂_and_left _ _).mpr ⟨fun n hn => hn, map_eq_iff_forall2.mp hmap⟩
  have hboth := ((List.forall₂_and_left _ _).mpr ⟨fun m hm => hperm.mem_iff.mp hm, hleft.flip⟩).flip
  refine hboth.imp fun n m hnm => ?_
  obtain ⟨hm, hn, hname⟩ := hnm
  refine ⟨hname, ?_, hbelow n hn, hbelow' m hm⟩
  funext rest
  rw [← treeOf_child hnd hn, ← treeOf_child hnd' hm, htree, hname]

theorem SameTree.file {data : Data} (h : SameTree (.file name data) m) : m = .file name data := by
  cases m with
  | file name' data' =>
    have hname := h.name
    have hfind := congrFun h.find []
    cases hname
    cases hfind
    rfl
  | dir name' children =>
    have hfind := congrFun h.find []
    cases hfind

theorem SameTree.dir {children : List HostNode}
    (h : SameTree (.dir name children) m) : ∃ children', m = .dir name children' := by
  cases m with
  | file name' data =>
    have hfind := congrFun h.find []
    cases hfind
  | dir name' children' =>
    have hname := h.name
    cases hname
    exact ⟨children', rfl⟩

namespace FATXVolume

variable {v : FATXVolume} {F : Foundation} {a : ClusterStore} {X : Nat → Prop}

theorem Holds.of_same : ∀ {m : HostNode} {e : FATXDirectoryEntry}, SameTree n m →
    v.Holds a X n e → v.Holds a X m e := by
  induction n using HostNode.induct with
  | file name data =>
    intro m e h hholds
    rwa [h.file]
  | dir name children ih =>
    intro m e h hholds
    obtain ⟨children', rfl⟩ := h.dir
    obtain ⟨ms, hall, hperm⟩ := h.children
    unfold Holds at hholds ⊢
    obtain ⟨hname, hdir, hsited, es, hes, hholds⟩ := hholds
    refine ⟨hname, hdir, hsited, ?_⟩
    have hsame := (List.forall₂_and_left _ _).mpr ⟨ih, hall⟩
    have hms : List.Forall₂ (v.Holds a X) ms es :=
      forall₂_of_forall₂ hsame (holdsAll_iff.mp hholds) fun _ _ _ h hn => h.1 h.2 hn
    obtain ⟨es', hes', hperm'⟩ := List.perm_comp_forall₂ hperm.symm hms
    exact ⟨es', hes.trans hperm'.symm, holdsAll_iff.mpr hes'⟩

theorem clustersFor_of_same :
    ∀ {m : HostNode}, SameTree n m → v.clustersFor n = v.clustersFor m := by
  induction n using HostNode.induct with
  | file name data =>
    intro m h
    rw [h.file]
  | dir name children ih =>
    intro m h
    obtain ⟨children', rfl⟩ := h.dir
    obtain ⟨ms, hall, hperm⟩ := h.children
    have hmap : children.map v.clustersFor = ms.map v.clustersFor :=
      map_eq_iff_forall2.mpr
        (((List.forall₂_and_left _ _).mpr ⟨ih, hall⟩).imp fun _ _ h => h.1 h.2)
    unfold clustersFor
    rw [clustersForAll_eq, clustersForAll_eq, hmap, (hperm.map v.clustersFor).sum_eq, hall.length_eq,
      hperm.length_eq]

theorem Distinct.of_same (hF : F.Lawful) {ns ms ms' : List HostNode}
    (hall : List.Forall₂ SameTree ns ms) (hperm : ms.Perm ms') (h : Distinct F ns) : Distinct F ms' := by
  unfold Distinct at h ⊢
  refine hperm.pairwise ?_ ?_
  · have hmap : ns.map HostNode.name = ms.map HostNode.name :=
      map_eq_iff_forall2.mpr (hall.imp fun _ _ h => h.name)
    rw [← List.pairwise_map (R := fun x y => F.caseInsensitiveSame x y = false)] at h ⊢
    rwa [← hmap]
  · intro m n hne
    by_contra hsame
    rw [Bool.not_eq_false] at hsame
    rw [hF.symm _ _ hsame] at hne
    cases hne

theorem Importable.of_same (hF : F.Lawful) :
    ∀ {m : HostNode}, SameTree n m → Importable F n → Importable F m := by
  induction n using HostNode.induct with
  | file name data =>
    intro m h himp
    rwa [h.file]
  | dir name children ih =>
    intro m h himp
    obtain ⟨children', rfl⟩ := h.dir
    obtain ⟨ms, hall, hperm⟩ := h.children
    obtain ⟨hname, himp, hdistinct⟩ := importable_dir.mp himp
    refine importable_dir.mpr ⟨hname, fun m hm => ?_, hdistinct.of_same hF hall hperm⟩
    obtain ⟨n, hn, hsame, hnm⟩ := exists_of_forall₂
      ((List.forall₂_and_left _ _).mpr ⟨fun n hn => ih n hn, hall⟩) (hperm.mem_iff.mpr hm)
    exact hsame hnm (himp n hn)

end FATXVolume

/-! ## A tree with nodes left out -/

mutual

def HostNode.keep (p : HostNode → Bool) : HostNode → HostNode
  | .file name data => .file name data
  | .dir name children => .dir name (keepAll p children)

def keepAll (p : HostNode → Bool) : List HostNode → List HostNode
  | [] => []
  | n :: ns => if p n then n.keep p :: keepAll p ns else keepAll p ns

end

section Keep

variable {p : HostNode → Bool} {ns : List HostNode}

theorem keepAll_eq (ns : List HostNode) : keepAll p ns = (ns.filter p).map (HostNode.keep p) := by
  induction ns with
  | nil => rfl
  | cons n ns ih =>
    unfold keepAll
    grind

theorem name_keep (n : HostNode) : (n.keep p).name = n.name := by
  cases n <;> rfl

theorem mem_keepAll : m ∈ keepAll p ns ↔ ∃ n ∈ ns, p n = true ∧ n.keep p = m := by
  simp [keepAll_eq, and_assoc]

theorem names_keepAll (ns : List HostNode) :
    (keepAll p ns).map HostNode.name = (ns.filter p).map HostNode.name := by
  rw [keepAll_eq, List.map_map]
  exact List.map_congr_left fun n _ => name_keep n

theorem isHostTree_keep (n : HostNode) (h : n.IsHostTree) : (n.keep p).IsHostTree := by
  induction n using HostNode.induct with
  | file name data => exact h
  | dir name children ih =>
    obtain ⟨⟨hcomp, hnd⟩, hbelow⟩ := isHostTree_dir.mp h
    refine isHostTree_dir.mpr ⟨⟨fun m hm => ?_, ?_⟩, fun m hm => ?_⟩
    · obtain ⟨n, hn, -, rfl⟩ := mem_keepAll.mp hm
      rw [name_keep]
      exact hcomp n hn
    · grind [names_keepAll]
    · obtain ⟨n, hn, -, rfl⟩ := mem_keepAll.mp hm
      exact ih n hn (hbelow n hn)

theorem treeOf_keepAll_of_mem (hnd : (ns.map HostNode.name).Nodup) (hn : n ∈ ns)
    (hp : p n = true) (rest : Path) : treeOf (keepAll p ns) (n.name :: rest) = (n.keep p).find rest := by
  have hnd' : ((keepAll p ns).map HostNode.name).Nodup := by
    grind [names_keepAll]
  rw [← @name_keep p n]
  exact treeOf_child hnd' (mem_keepAll.mpr ⟨n, hn, hp, rfl⟩) rest

theorem treeOf_keepAll_of_not (hnd : (ns.map HostNode.name).Nodup) (hn : n ∈ ns)
    (hp : p n = false) (rest : Path) : treeOf (keepAll p ns) (n.name :: rest) = none := by
  refine treeOf_eq_none (fun m hm hname => ?_) rest
  obtain ⟨n', hn', hp', rfl⟩ := mem_keepAll.mp hm
  grind [name_keep, List.inj_on_of_nodup_map]

theorem treeOf_keepAll_of_absent (h : ∀ n ∈ ns, n.name ≠ c) (rest : Path) :
    treeOf (keepAll p ns) (c :: rest) = none := by
  refine treeOf_eq_none (fun m hm hname => ?_) rest
  obtain ⟨n, hn, -, rfl⟩ := mem_keepAll.mp hm
  rw [name_keep] at hname
  exact h n hn hname

end Keep

def visible (ns : List HostNode) : List HostNode := keepAll (fun n => !isHidden n.name) ns

theorem find_keep_visible (n : HostNode) (h : n.IsHostTree) (path : Path) :
    (n.keep fun n => !isHidden n.name).find path =
      if path.any isHidden then none else n.find path := by
  induction n using HostNode.induct generalizing path with
  | file name data =>
    change (HostNode.file name data).find path = _
    cases path with
    | nil => rfl
    | cons c rest => exact (ite_self none).symm
  | dir name children ih =>
    obtain ⟨⟨-, hnd⟩, hbelow⟩ := isHostTree_dir.mp h
    change (HostNode.dir name (visible children)).find path = _
    rw [find_dir, find_dir]
    cases path with
    | nil => rfl
    | cons c rest =>
      by_cases hchild : ∃ n ∈ children, n.name = c
      · obtain ⟨n, hn, rfl⟩ := hchild
        cases hhidden : isHidden n.name with
        | true =>
          simp [visible, treeOf_keepAll_of_not, hnd, hn, hhidden]
        | false =>
          simp [visible, treeOf_keepAll_of_mem, treeOf_child, hnd, hn, hhidden, ih, hbelow]
      · have habsent : ∀ n ∈ children, n.name ≠ c := fun n hn hname => hchild ⟨n, hn, hname⟩
        rw [visible, treeOf_keepAll_of_absent habsent, treeOf_eq_none habsent, ite_self]

theorem treeOf_visible {ns : List HostNode} (h : (HostNode.dir "" ns).IsHostTree) (path : Path) :
    treeOf (visible ns) path = if path.any isHidden then none else treeOf ns path := by
  have hfind := find_keep_visible _ h path
  rwa [find_dir] at hfind

theorem listed_keep_visible {F : Foundation} (n : HostNode) :
    (n.keep fun n => !isHidden n.name).listed F = n.listed F := by
  induction n using HostNode.induct with
  | file name data => rfl
  | dir name children ih =>
    change HostNode.dir name (listing F (keepAll _ children)) = .dir name (listing F children)
    -- both directories list the visible children
    have hlists : ∀ ms : List HostNode, (listedAll F ms).filter (fun c => !isHidden c.name) =
        (ms.filter fun n => !isHidden n.name).map (HostNode.listed F) := by
      intro ms
      rw [FATXVolume.listedAll_eq, List.filter_map]
      refine congrArg _ (List.filter_congr fun n _ => ?_)
      rw [Function.comp_apply, FATXVolume.name_listed]
    unfold listing sortVisible
    rw [hlists, hlists, keepAll_eq, List.filter_map, List.map_map]
    have hagain : (children.filter fun n => !isHidden n.name).filter
        ((fun n => !isHidden n.name) ∘ HostNode.keep fun n => !isHidden n.name) =
          children.filter fun n => !isHidden n.name := by
      simp [name_keep]
    rw [hagain]
    have hmap : ((children.filter fun n => !isHidden n.name).map
        (HostNode.listed F ∘ HostNode.keep fun n => !isHidden n.name)) =
          (children.filter fun n => !isHidden n.name).map (HostNode.listed F) :=
      List.map_congr_left fun n hn => ih n (List.mem_of_mem_filter hn)
    rw [hmap]

theorem listing_visible (F : Foundation) (ns : List HostNode) :
    listing F (visible ns) = listing F ns := by
  have h := @listed_keep_visible F (.dir "" ns)
  injection h

theorem FATXVolume.importDirectory_visible (v : FATXVolume) (F : Foundation) (ns : List HostNode)
    (name : String) (d : Nat) :
    v.importDirectory F (visible ns) name d = v.importDirectory F ns name d := by
  unfold importDirectory importChildren
  rw [listing_visible]

mutual

def HostNode.hasFile : HostNode → Bool
  | .file _ _ => true
  | .dir _ children => anyHasFile children

def anyHasFile : List HostNode → Bool
  | [] => false
  | n :: ns => n.hasFile || anyHasFile ns

end

def packed (ns : List HostNode) : List HostNode := keepAll HostNode.hasFile ns

theorem anyHasFile_iff {ns : List HostNode} : anyHasFile ns = true ↔ ∃ n ∈ ns, n.hasFile = true := by
  induction ns with
  | nil => exact iff_of_false nofun nofun
  | cons n ns ih =>
    simp [anyHasFile, ih]

def LeadsToFile (t : Path → Option HostItem) (path : Path) : Prop :=
  ∃ rest data, t (path ++ rest) = some (.file data)

theorem hasFile_iff (n : HostNode) (h : n.IsHostTree) :
    n.hasFile = true ↔ LeadsToFile n.find [] := by
  induction n using HostNode.induct with
  | file name data => exact iff_of_true rfl ⟨[], data, rfl⟩
  | dir name children ih =>
    obtain ⟨⟨-, hnd⟩, hbelow⟩ := isHostTree_dir.mp h
    unfold LeadsToFile
    rw [find_dir]
    change anyHasFile children = true ↔ _
    rw [anyHasFile_iff]
    constructor
    · rintro ⟨n, hn, hfile⟩
      obtain ⟨rest, data, hfind⟩ := (ih n hn (hbelow n hn)).mp hfile
      exact ⟨n.name :: rest, data, (treeOf_child hnd hn rest).trans hfind⟩
    · rintro ⟨rest, data, hfind⟩
      cases rest with
      | nil => cases hfind
      | cons c rest =>
        have hsome : treeOf children (c :: rest) ≠ none := fun hnone => by
          rw [List.nil_append, hnone] at hfind
          cases hfind
        obtain ⟨n, hn, -, heq⟩ := exists_child hsome
        exact ⟨n, hn, (ih n hn (hbelow n hn)).mpr ⟨rest, data, heq.symm.trans hfind⟩⟩

open Classical in
noncomputable def packedTree (t : Path → Option HostItem) (path : Path) : Option HostItem :=
  if path = [] ∨ LeadsToFile t path then t path else none

theorem find_keep_hasFile (n : HostNode) (h : n.IsHostTree) (path : Path) :
    (n.keep HostNode.hasFile).find path = packedTree n.find path := by
  induction n using HostNode.induct generalizing path with
  | file name data =>
    change (HostNode.file name data).find path = _
    unfold packedTree
    cases path with
    | nil => exact (if_pos (.inl rfl)).symm
    | cons c rest => exact (ite_self none).symm
  | dir name children ih =>
    obtain ⟨⟨-, hnd⟩, hbelow⟩ := isHostTree_dir.mp h
    change (HostNode.dir name (packed children)).find path = _
    rw [find_dir, find_dir]
    cases path with
    | nil => exact (if_pos (.inl rfl)).symm
    | cons c rest =>
      unfold packedTree
      by_cases hchild : ∃ n ∈ children, n.name = c
      · obtain ⟨n, hn, rfl⟩ := hchild
        have hchildren : ∀ q, treeOf children (n.name :: q) = n.find q := treeOf_child hnd hn
        have hleads : LeadsToFile (treeOf children) (n.name :: rest) ↔ LeadsToFile n.find rest := by
          simp [LeadsToFile, hchildren]
        rw [hchildren]
        cases hfile : n.hasFile with
        | true =>
          rw [packed, treeOf_keepAll_of_mem hnd hn hfile, ih n hn (hbelow n hn), packedTree]
          -- the child itself is a path that leads to a file
          have hnil := (hasFile_iff n (hbelow n hn)).mp hfile
          have hsame : (rest = [] ∨ LeadsToFile n.find rest) ↔
              (n.name :: rest = [] ∨ LeadsToFile (treeOf children) (n.name :: rest)) := by
            simp_all
          grind
        | false =>
          rw [packed, treeOf_keepAll_of_not hnd hn hfile, if_neg]
          rintro (h | h)
          · cases h
          · obtain ⟨q, data, hfind⟩ := hleads.mp h
            have := (hasFile_iff n (hbelow n hn)).mpr ⟨rest ++ q, data, hfind⟩
            rw [hfile] at this
            cases this
      · have habsent : ∀ n ∈ children, n.name ≠ c := fun n hn hname => hchild ⟨n, hn, hname⟩
        rw [packed, treeOf_keepAll_of_absent habsent, treeOf_eq_none habsent, ite_self]

theorem treeOf_packed {ns : List HostNode} (h : (HostNode.dir "" ns).IsHostTree) :
    treeOf (packed ns) = packedTree (treeOf ns) := by
  funext path
  have hfind := find_keep_hasFile _ h path
  rwa [find_dir] at hfind

end DukeX.Fatx
