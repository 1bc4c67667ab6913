import DukeX.Fatx.Damaged

/-!
# The tree below a directory

In a volume in order a record lies in one cluster and that cluster belongs to one directory, so
every directory but the root has one parent and no directory is below itself.
-/

namespace DukeX.Fatx

open DukeX.Lib DukeX.Swift Relation

/-! ## What a record can name -/

theorem utf8_of_stringFromUTF8 {data : Data} {name : String} (h : stringFromUTF8 data = some name) :
    utf8 name = data := by
  unfold stringFromUTF8 String.fromUTF8? at h
  split at h
  · cases h
    rfl
  · cases h

theorem stowable_of_parseRecord {r : Data} {o : Nat} {e : FATXDirectoryEntry}
    (h : parseRecord r o = some e) : isStorable e.name = true ∧ e.size < 2 ^ 32 := by
  have hsize := (of_parseRecord h).2.2.2
  refine ⟨?_, hsize ▸ uint32LE_lt r 48⟩
  unfold parseRecord at h
  grind [utf8_of_stringFromUTF8, isStorable]

namespace FATXVolume

variable {v : FATXVolume} {R : List Nat} {a : ClusterStore} {c d : Nat} {e : FATXDirectoryEntry}

theorem exists_record_of_mem (he : e ∈ v.entriesOf a c) :
    ∃ k ∈ v.chainOf a c, ∃ i < v.recordsPerCluster,
      parseRecord (record (a.data k) i) (v.dataOffset k + i * 64) = some e := by
  obtain ⟨k, hk, he⟩ := List.mem_flatMap.mp he
  obtain ⟨i, hi, hparse⟩ := List.mem_filterMap.mp he
  exact ⟨k, hk, i, List.mem_range.mp hi, hparse⟩

theorem stowable_of_mem (he : e ∈ v.entriesOf a c) : isStorable e.name = true ∧ e.size < 2 ^ 32 := by
  obtain ⟨k, -, i, -, hparse⟩ := exists_record_of_mem he
  exact stowable_of_parseRecord hparse

theorem length_collect_le (cs : List Nat) (remaining : Nat) :
    (v.collect a cs remaining).length ≤ remaining := by
  induction cs generalizing remaining with
  | nil => exact Nat.zero_le _
  | cons c cs ih =>
    grind [collect]

theorem length_contents_le (e : FATXDirectoryEntry) : (v.contents a e).length ≤ e.size := by
  unfold contents
  split
  · exact length_collect_le _ _
  · exact Nat.zero_le _

theorem cluster_of_place {k k' i i' : Nat} (hk : v.inRange k = true) (hk' : v.inRange k' = true)
    (hi : i < v.recordsPerCluster) (hi' : i' < v.recordsPerCluster)
    (h : v.dataOffset k + i * 64 = v.dataOffset k' + i' * 64) : k = k' := by
  obtain ⟨hpos, -⟩ := inRange_iff.mp hk
  obtain ⟨hpos', -⟩ := inRange_iff.mp hk'
  have hin : ∀ {j}, j < v.recordsPerCluster → j * 64 < v.clusterSize := by
    intro j hj
    unfold recordsPerCluster at hj
    omega
  have hquot : ∀ n {j}, j < v.recordsPerCluster → (n * v.clusterSize + j * 64) / v.clusterSize = n := by
    intro n j hj
    have hlt := hin hj
    rw [Nat.add_comm, Nat.add_mul_div_right _ _ (by omega), Nat.div_eq_of_lt hlt, Nat.zero_add]
  grind [dataOffset]

theorem WellFormed.parent_unique (hwf : v.WellFormed R a) (hc : v.DirectoryAt R a c)
    (hd : v.DirectoryAt R a d) (he : e ∈ v.entriesOf a c) (he' : e ∈ v.entriesOf a d) : c = d := by
  by_contra hne
  obtain ⟨l, hl⟩ := hc.chain hwf
  obtain ⟨l', hl'⟩ := hd.chain hwf
  obtain ⟨k, hk, i, hi, hparse⟩ := exists_record_of_mem he
  obtain ⟨k', hk', i', hi', hparse'⟩ := exists_record_of_mem he'
  rw [hl.chainOf_eq] at hk
  rw [hl'.chainOf_eq] at hk'
  have hplace := (of_parseRecord hparse).1.symm.trans (of_parseRecord hparse').1
  obtain rfl := cluster_of_place (hl.inRange hk) (hl'.inRange hk') hi hi' hplace
  exact hwf.disjoint_directories hc hd hne hl hl' hk hk'

theorem subdirectories_zero (a : ClusterStore) : v.subdirectories a 0 = [] := by
  rw [subdirectories, entriesOf_zero]
  rfl

theorem DirectoryAt.of_below (hc : v.DirectoryAt R a c)
    (h : ReflTransGen (Lists (v.subdirectories a)) c d) : v.DirectoryAt R a d ∨ d = 0 := by
  induction h with
  | refl => exact .inl hc
  | tail _ hlists ih =>
    obtain ⟨e, he, hdir, rfl⟩ := mem_subdirectories.mp hlists
    cases ih with
    | inl hat => exact entriesOf_child (hat.reachable he) hdir
    | inr h0 =>
      rw [h0, entriesOf_zero] at he
      cases he

theorem exists_lister_of_cycle (hc : v.DirectoryAt R a c)
    (h : TransGen (Lists (v.subdirectories a)) c c) :
    ∃ y e, v.DirectoryAt R a y ∧ ReflTransGen (Lists (v.subdirectories a)) c y ∧
      e ∈ v.entriesOf a y ∧ e.isDirectory = true ∧ e.startCluster = c := by
  obtain ⟨y, hcy, hlists⟩ := TransGen.tail'_iff.mp h
  obtain ⟨e, he, hdir, hstart⟩ := mem_subdirectories.mp hlists
  have hy : v.DirectoryAt R a y := by
    refine (hc.of_below hcy).resolve_right ?_
    rintro rfl
    rw [entriesOf_zero] at he
    cases he
  exact ⟨y, e, hy, hcy, he, hdir, hstart⟩

section

variable (hwf : v.WellFormed R a)

include hwf

theorem WellFormed.not_below_root (hc : v.DirectoryAt R a c) (hR : c ∈ R) :
    ¬ TransGen (Lists (v.subdirectories a)) c c := by
  intro h
  obtain ⟨y, e, hy, -, he, -, hstart⟩ := exists_lister_of_cycle hc h
  -- the cluster would be the root's and the entry's
  have hroot : v.Present R a (.root c) := hR
  have hentry : v.Present R a (.entry e) := hy.reachable he
  cases hwf.object_unique hroot hentry hc.ne_zero hstart.symm

theorem WellFormed.cycle_parent (hd : v.DirectoryAt R a d)
    (he : e ∈ v.entriesOf a d) (hdir : e.isDirectory = true) (h0 : e.startCluster ≠ 0)
    (h : TransGen (Lists (v.subdirectories a)) e.startCluster e.startCluster) :
    TransGen (Lists (v.subdirectories a)) d d := by
  have hat : v.DirectoryAt R a e.startCluster := ⟨h0, .inr ⟨e, hd.reachable he, hdir, rfl⟩⟩
  obtain ⟨y, e', hy, hpath, he', -, hstart⟩ := exists_lister_of_cycle hat h
  have hentry : v.Present R a (.entry e) := hd.reachable he
  have hentry' : v.Present R a (.entry e') := hy.reachable he'
  cases hwf.object_unique hentry hentry' h0 hstart.symm
  obtain rfl := hwf.parent_unique hd hy he he'
  exact TransGen.head' (mem_subdirectories.mpr ⟨e, he, hdir, rfl⟩) hpath

theorem WellFormed.not_below_reachable (he : v.Reachable R a e)
    (hdir : e.isDirectory = true) (h0 : e.startCluster ≠ 0) :
    ¬ TransGen (Lists (v.subdirectories a)) e.startCluster e.startCluster := by
  induction he with
  | root hR hmem =>
    intro h
    have hat : v.DirectoryAt R a _ := directoryAt_root hR hmem
    exact hwf.not_below_root hat hR (hwf.cycle_parent hat hmem hdir h0 h)
  | @child p e hp hpdir hmem ih =>
    intro h
    have hp0 : p.startCluster ≠ 0 := fun hp0 => by
      rw [hp0, entriesOf_zero] at hmem
      cases hmem
    exact ih hpdir hp0 (hwf.cycle_parent ⟨hp0, .inr ⟨p, hp, hpdir, rfl⟩⟩ hmem hdir h0 h)

theorem WellFormed.acyclic (hc : v.DirectoryAt R a c) :
    Acyclic (v.subdirectories a) c := by
  intro b hb h
  cases hc.of_below hb with
  | inl hat =>
    obtain ⟨h0, hR | ⟨e, he, hdir, rfl⟩⟩ := hat
    · exact hwf.not_below_root ⟨h0, .inl hR⟩ hR h
    · exact hwf.not_below_reachable he hdir h0 h
  | inr h0 =>
    obtain ⟨y, hlists, -⟩ := TransGen.head'_iff.mp h
    rw [h0, Lib.Lists, subdirectories_zero] at hlists
    cases hlists

end

def Stowable : HostNode → Prop
  | .file name data => isStorable name = true ∧ data.length < 2 ^ 32
  | .dir name _ => isStorable name = true

theorem exists_holdsAll {P : HostNode → Prop} {es : List FATXDirectoryEntry} {X : Nat → Prop}
    (h : ∀ e ∈ es, ∃ n, v.Holds a X n e ∧ P n) :
    ∃ ns, v.HoldsAll a X ns es ∧ ∀ n ∈ ns, P n := by
  induction es with
  | nil => exact ⟨[], rfl, fun _ hn => nomatch hn⟩
  | cons e es ih =>
    obtain ⟨n, hn, hP⟩ := h e List.mem_cons_self
    obtain ⟨ns, hns, hall⟩ := ih fun e' he' => h e' (List.mem_cons_of_mem e he')
    exact ⟨n :: ns, ⟨e, es, rfl, hn, hns⟩, List.forall_mem_cons.mpr ⟨hP, hall⟩⟩

theorem WellFormed.sited (hwf : v.WellFormed R a) (he : v.Reachable R a e) :
    v.Sited a (fun _ => True) e.startCluster := by
  by_cases h0 : e.startCluster = 0
  · exact .inl h0
  · obtain ⟨l, hl⟩ := hwf.chain (.entry e) he h0
    exact .inr ⟨l, hl, fun _ _ => trivial⟩

theorem WellFormed.exists_children (hwf : v.WellFormed R a) {depth : Nat}
    (hshallow : Shallow (v.subdirectories a) depth c) (hc : v.DirectoryAt R a c ∨ c = 0) :
    ∃ children, v.HoldsAll a (fun _ => True) children (v.entriesOf a c) ∧
      ∀ n ∈ children, n.Everywhere Stowable := by
  induction depth generalizing c with
  | zero => exact hshallow.elim
  | succ depth ih =>
    refine exists_holdsAll fun e he => ?_
    have hat : v.DirectoryAt R a c := hc.resolve_right fun h0 => by
      rw [h0, entriesOf_zero] at he
      cases he
    have hreach := hat.reachable he
    obtain ⟨hname, hsize⟩ := stowable_of_mem he
    cases hdir : e.isDirectory with
    | false =>
      refine ⟨.file e.name (v.contents a e), ⟨rfl, hdir, hwf.sited hreach, rfl⟩, hname, ?_⟩
      exact (length_contents_le e).trans_lt hsize
    | true =>
      obtain ⟨children, hholds, hall⟩ :=
        ih (hshallow _ (mem_subdirectories.mpr ⟨e, he, hdir, rfl⟩)) (entriesOf_child hreach hdir)
      refine ⟨.dir e.name children, ⟨rfl, hdir, hwf.sited hreach, _, .refl _, hholds⟩, ?_⟩
      exact HostNode.everywhere_dir.mpr ⟨hname, hall⟩

/-- **A directory of a volume in order holds a tree.** -/
theorem WellFormed.exists_tree (hwf : v.WellFormed R a) (he : v.Reachable R a e)
    (hdir : e.isDirectory = true) : ∃ children,
      v.Holds a (fun _ => True) (.dir e.name children) e ∧ ∀ n ∈ children, n.Everywhere Stowable := by
  have hat := entriesOf_child he hdir
  obtain ⟨depth, hshallow⟩ : ∃ depth, Shallow (v.subdirectories a) depth e.startCluster := by
    cases hat with
    | inl hat => exact (hwf.acyclic hat).exists_shallow fun _ => mem_range_of_subdirectories
    | inr h0 => exact ⟨1, shallow_one (by rw [h0, subdirectories_zero])⟩
  obtain ⟨children, hholds, hall⟩ := hwf.exists_children hshallow hat
  exact ⟨children, ⟨rfl, hdir, hwf.sited he, _, .refl _, hholds⟩, hall⟩

end FATXVolume

end DukeX.Fatx
