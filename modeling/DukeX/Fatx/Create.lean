import DukeX.Fatx.Entry

/-!
# Creating a file or a directory

`writeFile` and `ensureDirectory` on a well-formed volume.
-/

namespace DukeX.Fatx

open DukeX.Lib DukeX.Swift

namespace FATXVolume

variable (v : FATXVolume) (F : Foundation)

def growth (a : ClusterStore) (d : Nat) : Nat := if v.room a d = 0 then 1 else 0

/-- Directory `d` has gained the entry `e`, which owns clusters that were free, for `cost`
clusters besides the growth of the directory. -/
structure Added (a a' : ClusterStore) (d : Nat) (e : FATXDirectoryEntry) (cost : Nat) : Prop where
  confined : v.Confined a a' d
  entries : (v.entriesOf a' d).Perm (e :: v.entriesOf a d)
  room : v.room a' d + 1 = if v.room a d = 0 then v.recordsPerCluster else v.room a d
  free : v.freeCount a' + v.growth a d + cost = v.freeCount a
  chain : ∃ ls, v.FatChain a' e.startCluster ls ∧ ∀ x ∈ ls, a.fat x = 0 ∧ x ∉ v.chainOf a' d

def NewFile (a a' : ClusterStore) (d : Nat) (name : String) (data : Data) : Prop :=
  ∃ e, v.Added a a' d e (v.clustersNeeded data.length) ∧ e.isDirectory = false ∧ e.name = name ∧
    v.contents a' e = data

def filled (a : ClusterStore) : List Nat → Data → ClusterStore
  | [], _ => a
  | c :: cs, data =>
    let count := min data.length v.clusterSize
    filled (a.setData c (data.take count ++ List.replicate (v.clusterSize - count) 0)) cs
      (data.drop count)

variable {v F} {R : List Nat} {put : ClusterStore → Nat → FATXDirectoryEntry → Prop}
variable {a a' a₁ : ClusterStore} {d k n i count : Nat} {l ls cs : List Nat} {s : Disk}
variable {e : FATXDirectoryEntry} {data : Data}

theorem take_of_linkable (h : v.AllLinkable ∨ count ≤ v.freeCount a)
    (hcs : cs = (v.freeClusters a).take count) (hlen : cs.length = count) :
    cs = (v.usable a).take count ∧ count ≤ v.freeCount a := by
  have hle : count ≤ v.freeCount a := by
    rcases h with h | h
    · have heq : v.usable a = v.freeClusters a := by
        refine List.filter_congr fun c hc => ?_
        simp [h c (mem_range'_iff.mp hc)]
      grind [FATXVolume.freeCount]
    · exact h
  exact ⟨by rw [hcs, take_freeClusters hle], hle⟩

theorem isEndOfChain_of_mem_usable {c : Nat} (h : c ∈ v.usable a) : v.isEndOfChain c = false := by
  have := (List.mem_filter.mp h).2
  simp only [decide_eq_true_eq] at this
  exact this.2

section

variable (hal : Allocated a a₁ cs)

include hal

section

variable (hl : v.FatChain a d l)

include hl

theorem Allocated.data_chain :
    ∀ x ∈ l, a₁.data x = a.data x := fun x hx =>
  (hal.same x fun hm => hl.fat_ne_zero hx (hal.free x hm)).2

theorem Allocated.entriesOf :
    v.entriesOf a₁ d = v.entriesOf a d := by
  rw [hl.entriesOf_eq, (hal.fatChain hl).entriesOf_eq]
  exact List.flatMap_congr fun x hx => by rw [hal.data_chain hl x hx]

theorem Allocated.room :
    v.room a₁ d = v.room a d := by
  rw [FATXVolume.room, FATXVolume.room, hl.chainOf_eq, (hal.fatChain hl).chainOf_eq,
    freeSlots_congr (hal.data_chain hl)]

theorem Allocated.full (hcs : cs = (v.freeClusters a).take count) (hlen : cs.length = count)
    (hroom : v.room a₁ d = 0) (hcount : v.freeCount a₁ = 0) :
    v.freeCount a < count + v.growth a d := by
  rw [hal.room hl] at hroom
  rw [growth, if_pos hroom]
  by_contra hge
  obtain ⟨hcs', _⟩ := take_of_linkable (a := a) (.inr (by omega)) hcs hlen
  rw [hal.freeCount hcs'] at hcount
  omega

theorem Allocated.not_mem_chainOf {x : Nat}
    (hx : x ∈ cs) : x ∉ v.chainOf a₁ d := fun hm => by
  rw [(hal.fatChain hl).chainOf_eq] at hm
  exact hl.fat_ne_zero hm (hal.free x hx)

end

end

theorem Added.of_recorded (hl : v.FatChain a d l) (hal : Allocated a a₁ cs)
    (hcs : cs = (v.usable a).take count) (hle : count ≤ v.freeCount a)
    (h : v.Recorded a₁ a' d e) (hchain : v.FatChain a₁ e.startCluster cs) :
    v.Added a a' d e count := by
  have hroom := hal.room hl
  have hout : ∀ x ∈ cs, x ∉ v.chainOf a₁ d := fun x hx => hal.not_mem_chainOf hl hx
  refine ⟨(hal.confined hl).trans h.confined, hal.entriesOf hl ▸ h.entries, hroom ▸ h.room, ?_,
    cs, ?_, ?_⟩
  · have h1 := h.free
    rw [hroom, hal.freeCount hcs] at h1
    rw [growth]
    omega
  · exact hchain.congr fun x hx => (h.confined.sameOn hal.used hout x hx).1
  · exact fun x hx => ⟨hal.free x hx, fun hm =>
      (h.confined.chain x hm).elim (hout x hx) (hal.used x hx)⟩

theorem filled_fat : (v.filled a cs data).fat = a.fat := by
  induction cs generalizing a data with
  | nil => rfl
  | cons c cs ih => rw [filled, ih]; rfl

theorem filled_data_of_not_mem {c : Nat} (h : c ∉ cs) :
    (v.filled a cs data).data c = a.data c := by
  induction cs generalizing a data with
  | nil => rfl
  | cons x cs ih =>
    grind [filled, ClusterStore.setData_data_of_ne]

theorem Allocated.filled (h : Allocated a a₁ cs) : Allocated a (v.filled a₁ cs data) cs where
  free := h.free
  used c hc := by rw [filled_fat]; exact h.used c hc
  same c hc := by rw [filled_fat, filled_data_of_not_mem hc]; exact h.same c hc

/-- **What was written is what is read**, whatever the last cluster was padded with. -/
theorem collect_filled (hnd : cs.Nodup) (hfit : data.length ≤ cs.length * v.clusterSize) :
    v.collect (v.filled a cs data) cs data.length = data := by
  induction cs generalizing a data with
  | nil =>
    simp only [List.length_nil, Nat.zero_mul, Nat.le_zero, List.length_eq_zero_iff] at hfit
    rw [hfit]; rfl
  | cons c cs ih =>
    obtain ⟨hc, hnd'⟩ := List.nodup_cons.mp hnd
    rw [collect, filled]
    rw [filled_data_of_not_mem hc, ClusterStore.setData_data_self]
    have hlen : (data.take (min data.length v.clusterSize)).length = min data.length v.clusterSize := by
      rw [List.length_take]; omega
    rw [List.take_append_of_le_length (by omega), List.take_of_length_le (by omega)]
    split
    · rw [List.append_nil, List.take_of_length_le (by omega)]
    · have hdrop : data.length - min data.length v.clusterSize
          = (data.drop (min data.length v.clusterSize)).length := by rw [List.length_drop]
      rw [hdrop, ih hnd' ?_, List.take_append_drop]
      grind [Nat.succ_mul]

theorem contents_filled (hchain : v.FatChain a₁ e.startCluster cs) (hsize : e.size = data.length)
    (hfit : data.length ≤ cs.length * v.clusterSize) :
    v.contents (v.filled a₁ cs data) e = data := by
  have hchain' : v.FatChain (v.filled a₁ cs data) e.startCluster cs :=
    hchain.congr fun x _ => next_eq_of_fat (by rw [filled_fat])
  have hpos := hchain.start_pos
  rw [contents, hchain'.chainOf_eq, hsize, collect_filled hchain.1.nodup hfit]
  simp_all

variable (put) in
theorem wp_writeChunks (hwf : v.WellFormed R (v.view s.bytes))
    (hin : ∀ c ∈ cs, v.inRange c = true) (hnl : ∀ c ∈ cs, ¬ v.Live R (v.view s.bytes) c) :
    wp (v.writeChunks cs data)
      (fun _ s' => v.Moves R put s s' ∧ v.view s'.bytes = v.filled (v.view s.bytes) cs data)
      (fun _ s' => v.Moves R put s s' ∧ s.faults ≠ []) s := by
  induction cs generalizing s data with
  | nil => exact ⟨.refl s, rfl⟩
  | cons c rest ih =>
    unfold writeChunks
    refine wp_detached hwf (hnl c (by simp)) (wp_writeCluster (hin c (by simp)) (by simp) s)
      (fun k hk => ⟨rfl, ClusterStore.setData_data_of_ne _ _ hk⟩) fun s1 hv1 hwf1 hdead => ?_
    rw [filled, ← hv1]
    exact ih (hv1 ▸ hwf1) (fun x hx => hin x (by simp [hx]))
      fun x hx => hv1 ▸ hdead x (hnl x (by simp [hx]))

theorem clustersNeeded_pos (n : Nat) : 0 < v.clustersNeeded n := Nat.lt_of_lt_of_le Nat.one_pos (Nat.le_max_left ..)

theorem le_clustersNeeded_mul (n : Nat) : n ≤ v.clustersNeeded n * v.clusterSize := by
  have hpos := v.clusterSize_pos
  have hle : (n + v.clusterSize - 1) / v.clusterSize ≤ v.clustersNeeded n := Nat.le_max_right ..
  have hdiv := Nat.div_add_mod (n + v.clusterSize - 1) v.clusterSize
  have hmod := Nat.mod_lt (n + v.clusterSize - 1) hpos
  have hmul := Nat.mul_le_mul_right v.clusterSize hle
  rw [Nat.mul_comm] at hdiv
  omega

variable (put) in
/-- **What `writeFile` does.** Where it stops, the volume was changed by steps only; where it
returns, the file is there with its bytes, unless the clusters left could not be linked. -/
theorem wp_writeFile {name : String} (hwf : v.WellFormed R (v.view s.bytes))
    (hd : v.DirectoryAt R (v.view s.bytes) d)
    (hput : ∀ a' e, v.Steps R put (v.view s.bytes) a' → e.isDirectory = false →
      (isStorable name = true → e.name = name) →
      (v.AllLinkable → v.contents a' e = data) → put a' d e) :
    wp (v.writeFile F name data d)
      (fun _ s' => v.Moves R put s s' ∧ (isStorable name = true →
        (v.AllLinkable ∨ v.clustersNeeded data.length + v.growth (v.view s.bytes) d ≤
          v.freeCount (v.view s.bytes)) →
        v.NewFile (v.view s.bytes) (v.view s'.bytes) d name data))
      (fun _ s' => v.Moves R put s s' ∧ (s.faults = [] → data.length < 2 ^ 32 →
        (∃ e ∈ v.entriesOf (v.view s.bytes) d, F.caseInsensitiveSame e.name name = true) ∨
        v.freeCount (v.view s.bytes) <
          v.clustersNeeded data.length + v.growth (v.view s.bytes) d)) s := by
  obtain ⟨l, hl⟩ := hd.chain hwf
  unfold writeFile
  refine wp_seq (wp_allocateClusters put hwf (clustersNeeded_pos _)) ?_ ?_
  · rintro cs s1 ⟨hm1, hcs, hlen, hv1⟩
    have hmem : ∀ c ∈ cs, v.inRange c = true ∧ (v.view s.bytes).fat c = 0 := fun c hc =>
      mem_freeClusters.mp (List.mem_of_mem_take (hcs ▸ hc))
    have hnd : cs.Nodup := hcs ▸ nodup_freeClusters.sublist (List.take_sublist ..)
    have hal1 : Allocated (v.view s.bytes) (v.view s1.bytes) cs :=
      hv1 ▸ allocated_linked (fun c hc => (hmem c hc).1) fun c hc => (hmem c hc).2
    have hnl1 : ∀ c ∈ cs, ¬ v.Live R (v.view s1.bytes) c := fun c hc hlive =>
      not_live_of_free (hmem c hc).2 (hwf.live_of_frame hal1.sameOn hlive)
    refine wp_seq (wp_writeChunks put (hm1.wellFormed hwf) (fun c hc => (hmem c hc).1)
      hnl1) ?_ ?_
    · rintro _ s2 ⟨hm2, hv2⟩
      have hm2 : v.Moves R put s s2 := hm1.trans hm2
      have hal2 : Allocated (v.view s.bytes) (v.view s2.bytes) cs := hv2 ▸ hal1.filled
      refine wp_ite (fun hlt => ?_) fun hlt => ?_
      · obtain ⟨c, rest, rfl⟩ : ∃ c rest, cs = c :: rest :=
          List.exists_cons_of_length_pos (by rw [hlen]; exact clustersNeeded_pos _)
        have hc := (hmem c (by simp)).1
        obtain ⟨ls, hls, hsub, hall⟩ := linked_chain (v := v) (a := v.view s.bytes) c rest hnd
          fun x hx => (hmem x hx).1
        rw [← hv1] at hls
        have hls2 : v.FatChain (v.view s2.bytes) c ls := hls.congr fun x _ =>
          next_eq_of_fat (by rw [hv2, filled_fat])
        have hnl2 : ∀ x ∈ ls, ¬ v.Live R (v.view s2.bytes) x := fun x hx hlive =>
          not_live_of_free (hmem x (hsub x hx)).2 (hwf.live_of_frame hal2.sameOn hlive)
        have hfit : data.length ≤ (c :: rest).length * v.clusterSize := by
          rw [hlen]; exact le_clustersNeeded_mul _
        -- what the file reads as, once its clusters form the whole chain
        have hread : (∀ x ∈ rest, v.isEndOfChain x = false) → ∀ {a' e},
            v.Confined (v.view s2.bytes) a' d → e.startCluster = c → e.size = data.length →
            v.contents a' e = data := by
          intro hlink a' e hconf hstart hsize
          rw [hall hlink] at hls2 hls
          subst hstart
          rw [hls2.contents_congr (hconf.sameOn hal2.used fun x hx => hal2.not_mem_chainOf hl hx),
            hv2, contents_filled hls hsize hfit]
        refine wp_mono (wp_writeDirectoryEntry put (hm2.wellFormed hwf)
          ((hm2.extends hwf).directoryAt hd) (inRange_lt_word hc) hls2 hnl2
          (fun h => by rw [isDirectory_of_file rfl] at h; cases h)
          fun a' ts o e hsteps hconf he => ?_) ?_ ?_
        · obtain ⟨_, hestart, heattr, hesize⟩ := of_parseRecord he
          rw [startCluster_recordFor (inRange_lt_word hc)] at hestart
          rw [size_recordFor hlt] at hesize
          rw [attributes_recordFor] at heattr
          refine hput a' e (hm2.1.trans hsteps) ?_ (fun hname => ?_) fun hlinkable => ?_
          · exact isDirectory_of_file heattr
          · rw [parseRecord_recordFor hname hlt (inRange_lt_word hc)] at he
            cases he
            rfl
          · exact hread (fun x hx => hlinkable x (hmem x (by simp [hx])).1) hconf hestart hesize
        · rintro _ s3 ⟨hm3, hwrote⟩
          refine ⟨hm2.trans hm3, fun hname hroom => ?_⟩
          obtain ⟨hcs', hle⟩ := take_of_linkable (hroom.imp id fun h => by omega) hcs hlen
          have hlink : ∀ x ∈ c :: rest, v.isEndOfChain x = false := fun x hx =>
            isEndOfChain_of_mem_usable (List.mem_of_mem_take (hcs' ▸ hx))
          have hlink' : ∀ x ∈ rest, v.isEndOfChain x = false := fun x hx => hlink x (by simp [hx])
          rcases hwrote.recorded hname hlt with ⟨ts, o, hrec⟩ | ⟨hnot, hroom2, hcount2⟩
          · rw [hall hlink'] at hls2
            exact ⟨_, .of_recorded hl hal2 hcs' hle hrec hls2, isDirectory_of_file rfl, rfl,
              hread hlink' hrec.confined rfl rfl⟩
          · exact (hroom.elim hnot fun h => (hal2.full hl hcs hlen hroom2 hcount2).not_ge h).elim
        · rintro e s3 ⟨hm3, hwhy⟩
          refine ⟨hm2.trans hm3, fun h0 _ => ?_⟩
          rcases hwhy (hm2.2 h0) with ⟨e', he', hsame⟩ | ⟨hroom2, hcount2⟩
          · exact .inl ⟨e', by rwa [hal2.entriesOf hl] at he', hsame⟩
          · exact .inr (hal2.full hl hcs hlen hroom2 hcount2)
      · exact ⟨hm2, fun _ h => absurd h hlt⟩
    · rintro e s2 ⟨hm2, hne⟩
      exact ⟨hm1.trans hm2, fun h0 => absurd (hm1.2 h0) hne⟩
  · grind

/-! ## Directories -/

variable (v)

def Progress (put : List Nat → ClusterStore → Nat → FATXDirectoryEntry → Prop)
    (R : List Nat) (s : Disk) (R' : List Nat) (s' : Disk) : Prop :=
  v.Run put (R, v.view s.bytes) (R', v.view s'.bytes) ∧ (s.faults = [] → s'.faults = [])

/-- A directory was made at cluster `c` and can be filled. -/
def Made (put : List Nat → ClusterStore → Nat → FATXDirectoryEntry → Prop) (R : List Nat) (s : Disk)
    (name : String) (d c : Nat) (s' : Disk) : Prop :=
  ∃ R', v.Progress put R s R' s' ∧ v.DirectoryAt R' (v.view s'.bytes) c ∧
    ((R' = c :: R ∧ c ∉ R) ∨ (R' = R ∧ ∃ e ∈ v.entriesOf (v.view s'.bytes) d,
      e.isDirectory = true ∧ (isStorable name = true → e.name = name) ∧ e.startCluster = c))

def NewDirectory (a a' : ClusterStore) (d : Nat) (name : String) (c : Nat) : Prop :=
  ∃ e, v.Added a a' d e 1 ∧ e.isDirectory = true ∧ e.name = name ∧ e.startCluster = c ∧
    v.entriesOf a' c = [] ∧ v.room a' c = v.recordsPerCluster

variable {v} {put : List Nat → ClusterStore → Nat → FATXDirectoryEntry → Prop}
variable {R' R'' : List Nat} {s' s'' : Disk}

theorem Moves.progress (h : v.Moves R (put R) s s') : v.Progress put R s R s' := ⟨h.1.run, h.2⟩

theorem Progress.of_quiet (h : s.Quiet s') : v.Progress put R s R s' :=
  (Moves.of_quiet h).progress

section

variable (h : v.Progress put R s R' s')

include h

theorem Progress.trans (h' : v.Progress put R' s' R'' s'') :
    v.Progress put R s R'' s'' :=
  ⟨Relation.ReflTransGen.trans h.1 h'.1, fun hf => h'.2 (h.2 hf)⟩

theorem Progress.wellFormed (hwf : v.WellFormed R (v.view s.bytes)) : v.WellFormed R' (v.view s'.bytes) :=
  (h.1.preserves hwf).1

theorem Progress.extends (hwf : v.WellFormed R (v.view s.bytes)) : v.Extends R (v.view s.bytes) (v.view s'.bytes) :=
  (h.1.preserves hwf).2.1

theorem Progress.directoryAt (hwf : v.WellFormed R (v.view s.bytes)) (hd : v.DirectoryAt R (v.view s.bytes) d) :
    v.DirectoryAt R' (v.view s'.bytes) d :=
  ((h.extends hwf).directoryAt hd).mono (h.1.preserves hwf).2.2

end

theorem wp_writeDirectoryEntry_zero {entry : FATXDirectoryEntry} :
    wp (v.writeDirectoryEntry F entry 0) (fun _ _ => False) (fun _ s' => s.Quiet s') s := by
  unfold writeDirectoryEntry
  refine wp_seq (reads_directoryEntries 0 s) ?_ fun _ _ h => h.1
  rintro entries s1 ⟨hq1, hentries⟩
  obtain rfl : [] = entries := by rw [← entriesOf_zero (v := v)]; exact Except.ok.inj hentries
  refine wp_seq (m := v.freeDirectorySlot 0) (Q := fun _ _ => False) (E := fun _ s' => s.Quiet s') ?_
    (fun _ _ h => h.elim) fun _ _ h => h
  unfold freeDirectorySlot
  refine wp_seq (reads_clusterChain 0 s1) ?_ fun _ _ h => hq1.trans h.1
  rintro chain s2 ⟨hq2, hchain⟩
  obtain rfl : [] = chain := by rw [← chainOf_zero (v := v)]; exact Except.ok.inj hchain
  show wp (v.appendCluster 0 >>= fun n => pure (v.dataOffset n)) _ _ s2
  refine wp_seq (m := v.appendCluster 0) (Q := fun _ _ => False) (E := fun _ s' => s.Quiet s') ?_
    (fun _ _ h => h.elim) fun _ _ h => h
  unfold appendCluster
  refine wp_seq (reads_clusterChain 0 s2) ?_ fun _ _ h => (hq1.trans hq2).trans h.1
  rintro chain s3 ⟨hq3, hchain⟩
  obtain rfl : [] = chain := by rw [← chainOf_zero (v := v)]; exact Except.ok.inj hchain
  exact (hq1.trans hq2).trans hq3

theorem of_lookup {name : String} (h : v.lookup F a name d = some e) :
    e ∈ v.entriesOf a d ∧ e.isDirectory = true ∧ F.caseInsensitiveSame e.name name = true := by
  have hp := List.find?_some h
  simp only [Bool.and_eq_true] at hp
  exact ⟨List.mem_of_find?_eq_some h, hp⟩

theorem linked_singleton (hn : v.inRange n = true) :
    v.FatChain (v.linked a [n]) n [n] ∧ v.clusterEntries n ((v.linked a [n]).data n) = [] ∧
      (v.freeSlots (v.linked a [n]) [n]).length = v.recordsPerCluster := by
  have hdata : (v.linked a [n]).data n = List.replicate v.clusterSize 0 := linked_data (by simp)
  refine ⟨?_, by rw [hdata]; exact clusterEntries_zero n, length_freeSlots_zero hdata⟩
  obtain ⟨l, hl, _, hall⟩ := linked_chain (v := v) (a := a) n [] (by simp) (by simpa using hn)
  rwa [hall (by simp)] at hl

variable (put) in
/-- **What `ensureDirectory` does**: it returns the directory it finds, or makes one and returns
that. -/
theorem wp_ensureDirectory {name : String} (hwf : v.WellFormed R (v.view s.bytes))
    (hd : v.DirectoryAt R (v.view s.bytes) d ∨ d = 0)
    (hput : ∀ a' e, v.Steps R (put R) (v.view s.bytes) a' → e.isDirectory = true →
      (isStorable name = true → e.name = name) → v.entriesOf a' e.startCluster = [] → put R a' d e) :
    wp (v.ensureDirectory F name d)
      (fun e s' =>
        (v.lookup F (v.view s.bytes) name d = some e ∧ s.Quiet s') ∨
        v.Made put R s name d e.startCluster s' ∧ (isStorable name = true →
          (v.AllLinkable ∨ 1 + v.growth (v.view s.bytes) d ≤ v.freeCount (v.view s.bytes)) →
          v.NewDirectory (v.view s.bytes) (v.view s'.bytes) d name e.startCluster))
      (fun _ s' => v.Progress put R s R s' ∧ (s.faults = [] → d ≠ 0 →
        (∃ e ∈ v.entriesOf (v.view s.bytes) d, F.caseInsensitiveSame e.name name = true) ∨
        v.freeCount (v.view s.bytes) < 1 + v.growth (v.view s.bytes) d)) s := by
  unfold ensureDirectory
  refine wp_seq (wp_attempt_directory F name d s) ?_ (fun _ _ h => h.elim)
  rintro r s1 ⟨hq1, hr, _⟩
  have hm1 : v.Moves R (put R) s s1 := .of_quiet hq1
  cases r with
  | some e => exact .inl ⟨hr e rfl, hq1⟩
  | none =>
    refine wp_seq (wp_allocateClusters (put R) (hq1.1 ▸ hwf) Nat.one_pos) ?_ ?_
    · rintro cs s2 ⟨hm2, hcs, hlen, hv2⟩
      have hm2 := hm1.trans hm2
      rw [hq1.1] at hcs hv2
      obtain ⟨c, rfl⟩ := List.length_eq_one_iff.mp hlen
      obtain ⟨hc, hfree⟩ :=
        mem_freeClusters.mp (List.mem_of_mem_take (hcs ▸ List.mem_singleton_self c))
      have hal : Allocated (v.view s.bytes) (v.view s2.bytes) [c] :=
        hv2 ▸ allocated_linked (by simpa using hc) (by simpa using hfree)
      obtain ⟨hchain, hcleared, hslots⟩ := linked_singleton (v := v) (a := v.view s.bytes) hc
      rw [← hv2] at hchain hcleared hslots
      have hnl : ∀ x ∈ [c], ¬ v.Live R (v.view s2.bytes) x := by
        simpa using fun hlive => not_live_of_free hfree (hwf.live_of_frame hal.sameOn hlive)
      rcases hd with hd | rfl
      · obtain ⟨l, hl⟩ := hd.chain hwf
        -- what the new directory reads as while its clusters are left alone
        have hempty : ∀ {a'}, v.SameOn (· ∈ [c]) (v.view s2.bytes) a' →
            v.FatChain a' c [c] ∧ v.entriesOf a' c = [] ∧ v.room a' c = v.recordsPerCluster := by
          intro a' hs
          have hchain' := hchain.congr fun x hx => (hs x hx).1
          refine ⟨hchain', ?_, ?_⟩
          · rw [hchain.entriesOf_congr hs, hchain.entriesOf_eq]
            simpa using hcleared
          · rw [FATXVolume.room, hchain'.chainOf_eq, freeSlots_congr fun x hx => (hs x hx).2, hslots]
        refine wp_seq (wp_writeDirectoryEntry (put R) (hm2.wellFormed hwf)
          ((hm2.extends hwf).directoryAt hd) (inRange_lt_word hc) hchain hnl
          (fun _ => by simpa using hcleared) fun a' ts o e hsteps hconf he => ?_) ?_ ?_
        · obtain ⟨hestart, heattr⟩ := of_parseRecord_recordFor (inRange_lt_word hc) he
          refine hput a' e (hm2.1.trans hsteps) (isDirectory_of_directory heattr)
            (fun hname => ?_) ?_
          · rw [parseRecord_recordFor hname (Nat.two_pow_pos 32) (inRange_lt_word hc)] at he
            cases he
            rfl
          · rw [hestart]
            exact (hempty (hconf.sameOn hal.used fun x hx => hal.not_mem_chainOf hl hx)).2.1
        · rintro _ s3 ⟨hm3, hwrote⟩
          have hm3 := hm2.trans hm3
          obtain ⟨hchain3, hempty3, hroom3⟩ := hempty hwrote.same
          refine .inr ⟨?_, fun hname hroom => ?_⟩
          · rcases hwrote.shown with ⟨ts, o, e, he, hmem⟩ | hnl3
            · obtain ⟨hestart, heattr⟩ := of_parseRecord_recordFor (inRange_lt_word hc) he
              have hdir := isDirectory_of_directory heattr
              have hreach := ((hm3.extends hwf).directoryAt hd).reachable hmem
              refine ⟨R, hm3.progress, ⟨hchain.start_pos, .inr ⟨e, hreach, hdir, hestart⟩⟩,
                .inr ⟨rfl, e, hmem, hdir, fun hname => ?_, hestart⟩⟩
              rw [parseRecord_recordFor hname (Nat.two_pow_pos 32) (inRange_lt_word hc)] at he
              cases he
              rfl
            · have hadopt : v.Progress put R s (c :: R) s3 :=
                ⟨hm3.progress.1.tail (.adopt hchain3 hnl3 hempty3), hm3.2⟩
              refine ⟨c :: R, hadopt, ⟨hchain.start_pos, .inl (by simp)⟩, .inl ⟨rfl, fun hcR => ?_⟩⟩
              exact hnl3 c (by simp) ⟨.root c, [c], hcR, hchain3, by simp⟩
          · obtain ⟨hcs', hle⟩ := take_of_linkable (hroom.imp id fun h => by omega) hcs hlen
            rcases hwrote.recorded hname (Nat.two_pow_pos 32) with ⟨ts, o, hrec⟩ | ⟨hnot, hroom2, hcount2⟩
            · exact ⟨_, .of_recorded hl hal hcs' hle hrec hchain, isDirectory_of_directory rfl, rfl,
                rfl, hempty3, hroom3⟩
            · exact (hroom.elim hnot fun h => (hal.full hl hcs hlen hroom2 hcount2).not_ge h).elim
        · rintro e s3 ⟨hm3, hwhy⟩
          refine ⟨(hm2.trans hm3).progress, fun h0 _ => ?_⟩
          rcases hwhy (hm2.2 h0) with ⟨e', he', hsame⟩ | ⟨hroom2, hcount2⟩
          · exact .inl ⟨e', by rwa [hal.entriesOf hl] at he', hsame⟩
          · exact .inr (hal.full hl hcs hlen hroom2 hcount2)
      · refine wp_seq wp_writeDirectoryEntry_zero (fun _ _ h => h.elim) fun e s3 hq3 => ?_
        exact ⟨(hm2.trans (.of_quiet hq3)).progress, fun _ h => absurd rfl h⟩
    · rintro e s2 ⟨hm2, hfull⟩
      refine ⟨(hm1.trans hm2).progress, fun h0 _ => .inr ?_⟩
      have := hfull (hm1.2 h0)
      rw [hq1.1] at this
      omega

end FATXVolume

end DukeX.Fatx
