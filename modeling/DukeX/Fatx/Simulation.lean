import DukeX.Fatx.Create

/-!
# The import is a run

The recursive import, compared with the transition system.
-/

namespace DukeX.Fatx

open DukeX.Lib DukeX.Swift

namespace FATXVolume

variable (v : FATXVolume) (F : Foundation)

/-! ## What a directory contains -/

mutual

/-- Directory `d` has the file with its bytes, or a directory of that name up to case with
everything in it that can be stored. -/
def Contained (a : ClusterStore) : HostNode → Nat → Prop
  | .file name data, d =>
    ∃ e ∈ v.entriesOf a d, e.isDirectory = false ∧ e.name = name ∧ v.contents a e = data
  | .dir name children, d =>
    ∃ e ∈ v.entriesOf a d, e.isDirectory = true ∧
      (e.name = name ∨ F.caseInsensitiveSame e.name name = true) ∧
      ContainedAll a children e.startCluster

def ContainedAll (a : ClusterStore) : List HostNode → Nat → Prop
  | [], _ => True
  | child :: rest, d =>
    (isStorable child.name = true → Contained a child d) ∧ ContainedAll a rest d

end

def Place (R : List Nat) (a : ClusterStore) (d : Nat) : Prop := v.DirectoryAt R a d ∨ d = 0

variable {v F} {R R' : List Nat} {a a' : ClusterStore} {d c : Nat} {s s' : Disk}
variable {put : List Nat → ClusterStore → Nat → FATXDirectoryEntry → Prop}

variable {e : FATXDirectoryEntry} {name : String} {children : List HostNode}

theorem Place.entries (h : v.Place R a d) (hext : v.Extends R a a')
    (he : e ∈ v.entriesOf a d) : e ∈ v.entriesOf a' d := by
  rcases h with h | rfl
  · exact hext.entries d h e he
  · rw [entriesOf_zero] at he
    cases he

theorem Place.reachable (h : v.Place R a d) (he : e ∈ v.entriesOf a d) : v.Reachable R a e := by
  rcases h with h | rfl
  · exact h.reachable he
  · rw [entriesOf_zero] at he
    cases he

theorem Place.child (h : v.Place R a d) {e : FATXDirectoryEntry} (he : e ∈ v.entriesOf a d)
    (hdir : e.isDirectory = true) : v.Place R a e.startCluster :=
  entriesOf_child (h.reachable he) hdir

theorem Progress.place (h : v.Progress put R s R' s') (hwf : v.WellFormed R (v.view s.bytes))
    (hd : v.Place R (v.view s.bytes) d) : v.Place R' (v.view s'.bytes) d :=
  hd.imp (h.directoryAt hwf) id

mutual

theorem Contained.mono (hext : v.Extends R a a') : ∀ (n : HostNode) {d : Nat}, v.Place R a d →
    v.Contained F a n d → v.Contained F a' n d
  | .file name data, d, hd, h => by
    unfold Contained at h ⊢
    obtain ⟨e, he, hf, hname, hdata⟩ := h
    exact ⟨e, hd.entries hext he, hf, hname, (hext.contents e (hd.reachable he) hf).trans hdata⟩
  | .dir name children, d, hd, h => by
    unfold Contained at h ⊢
    obtain ⟨e, he, hdir, hname, hall⟩ := h
    exact ⟨e, hd.entries hext he, hdir, hname,
      ContainedAll.mono hext children (hd.child he hdir) hall⟩

theorem ContainedAll.mono (hext : v.Extends R a a') : ∀ (ns : List HostNode) {d : Nat},
    v.Place R a d → v.ContainedAll F a ns d → v.ContainedAll F a' ns d
  | [], _, _, _ => by unfold ContainedAll; trivial
  | n :: ns, d, hd, h => by
    unfold ContainedAll at h ⊢
    exact ⟨fun hs => Contained.mono hext n hd (h.1 hs), ContainedAll.mono hext ns hd h.2⟩

end

variable (v F)

/-- `Ctx R a d n` says that node `n` may be imported into directory `d`, and `put R a d e` that
entry `e` may be recorded there. -/
structure Licence (Ctx : List Nat → ClusterStore → Nat → HostNode → Prop)
    (put : List Nat → ClusterStore → Nat → FATXDirectoryEntry → Prop) : Prop where
  mono : ∀ {R R' a a' d n}, v.WellFormed R a → v.Run put (R, a) (R', a') →
    Ctx R a d n → Ctx R' a' d n
  file : ∀ {R a d name data e}, isStorable name = true → Ctx R a d (.file name data) →
    e.isDirectory = false → e.name = name → (v.AllLinkable → v.contents a e = data) → put R a d e
  dir : ∀ {R a d name children e}, isStorable name = true → Ctx R a d (.dir name children) →
    e.isDirectory = true → e.name = name → v.entriesOf a e.startCluster = [] → put R a d e
  enter : ∀ {R a d name children e}, isStorable name = true → Ctx R a d (.dir name children) →
    e ∈ v.entriesOf a d → e.isDirectory = true → (e.name = name ∨ F.caseInsensitiveSame e.name name = true) →
    ∀ n ∈ children, Ctx R a e.startCluster n
  loose : ∀ {R a c n}, ¬ v.AllLinkable → c ∉ R → Ctx (c :: R) a c n

variable {v F} {Ctx : List Nat → ClusterStore → Nat → HostNode → Prop}

def Imported (v : FATXVolume) (put : List Nat → ClusterStore → Nat → FATXDirectoryEntry → Prop)
    (R : List Nat) (s s' : Disk) (P : ClusterStore → Prop) : Prop :=
  ∃ R', v.Progress put R s R' s' ∧ (v.AllLinkable → P (v.view s'.bytes))

theorem wp_storageCall (s : Disk) :
    wp storageCall (fun _ s' => s.Quiet s') (fun _ s' => s.Quiet s') s :=
  wp_mono (reads_storageCall s) (fun _ _ h => h.1) fun _ _ h => h.1

variable (put) in
theorem wp_writeFile_zero {data : Data} (hwf : v.WellFormed R (v.view s.bytes)) :
    wp (v.writeFile F name data 0) (fun _ _ => False)
      (fun _ s' => v.Moves R (put R) s s') s := by
  unfold writeFile
  refine wp_seq (wp_allocateClusters (put R) hwf (clustersNeeded_pos _)) ?_
    fun _ _ h => h.1
  rintro cs s1 ⟨hm1, hcs, _, hv1⟩
  have hmem : ∀ c ∈ cs, v.inRange c = true ∧ (v.view s.bytes).fat c = 0 := fun c hc =>
    mem_freeClusters.mp (List.mem_of_mem_take (hcs ▸ hc))
  have hal : Allocated (v.view s.bytes) (v.view s1.bytes) cs :=
    hv1 ▸ allocated_linked (fun c hc => (hmem c hc).1) fun c hc => (hmem c hc).2
  refine wp_seq (wp_writeChunks (put R) (hm1.wellFormed hwf) (fun c hc => (hmem c hc).1)
    fun c hc hlive => not_live_of_free (hmem c hc).2 (hwf.live_of_frame hal.sameOn hlive)) ?_
    fun _ _ h => hm1.trans h.1
  rintro _ s2 ⟨hm2, _⟩
  refine wp_ite (fun _ => ?_) fun _ => hm1.trans hm2
  exact wp_mono wp_writeDirectoryEntry_zero (fun _ _ h => h)
    fun _ _ h => (hm1.trans hm2).trans (.of_quiet h)

theorem wp_ensureDirectory_licensed (L : v.Licence F Ctx put)
    (hname : isStorable name = true) (hwf : v.WellFormed R (v.view s.bytes))
    (hd : v.Place R (v.view s.bytes) d) (hctx : Ctx R (v.view s.bytes) d (.dir name children)) :
    wp (v.ensureDirectory F name d)
      (fun e s' => ∃ R', v.Progress put R s R' s' ∧ v.Place R' (v.view s'.bytes) e.startCluster ∧
        (∀ n ∈ children, Ctx R' (v.view s'.bytes) e.startCluster n) ∧
        (v.AllLinkable → ∃ e' ∈ v.entriesOf (v.view s'.bytes) d, e'.isDirectory = true ∧
          (e'.name = name ∨ F.caseInsensitiveSame e'.name name = true) ∧
          e'.startCluster = e.startCluster))
      (fun _ s' => ∃ R', v.Progress put R s R' s') s := by
  refine wp_mono (wp_ensureDirectory put hwf hd fun a' e hsteps hdir hen hempty =>
    L.dir hname (L.mono hwf (Steps.run hsteps) hctx) hdir (hen hname) hempty) ?_ fun _ _ h => ⟨R, h.1⟩
  rintro e s1 (⟨hlook, hq⟩ | ⟨⟨R1, hp1, hdir1, hcases⟩, hnew⟩)
  · obtain ⟨he, hdir, hsame⟩ := of_lookup hlook
    have hp1 : v.Progress put R s R s1 := .of_quiet hq
    rw [← hq.1] at he
    exact ⟨R, hp1, (hp1.place hwf hd).child he hdir,
      L.enter hname (L.mono hwf hp1.1 hctx) he hdir (.inr hsame),
      fun _ => ⟨e, he, hdir, .inr hsame, rfl⟩⟩
  · have hfound : v.AllLinkable → ∃ e' ∈ v.entriesOf (v.view s1.bytes) d, e'.isDirectory = true ∧
        (e'.name = name ∨ F.caseInsensitiveSame e'.name name = true) ∧
        e'.startCluster = e.startCluster := by
      intro hall
      obtain ⟨e', hadd, hdir, hen, hstart, _⟩ := hnew hname (.inl hall)
      exact ⟨e', hadd.entries.mem_iff.mpr (by simp), hdir, .inl hen, hstart⟩
    refine ⟨R1, hp1, .inl hdir1, ?_, hfound⟩
    rcases hcases with ⟨rfl, hfresh⟩ | ⟨rfl, e', he', hdir, hen, hstart⟩
    · -- a directory that has an entry is not also one to be looked for from
      have hnot : ¬ v.AllLinkable := by
        intro hall
        obtain ⟨e', he', -, -, hstart⟩ := hfound hall
        have hne : (Object.entry e').start ≠ 0 := fun h0 => hdir1.ne_zero (hstart.symm.trans h0)
        have hsame : (Object.entry e').start = (Object.root e.startCluster).start := hstart
        have hpresent : v.Present _ _ (.entry e') := (hp1.place hwf hd).reachable he'
        have hroot : v.Present (e.startCluster :: R) (v.view s1.bytes) (.root e.startCluster) :=
          List.mem_cons_self
        cases (hp1.wellFormed hwf).object_unique hpresent hroot hne hsame
      exact fun n _ => L.loose hnot hfresh
    · rw [← hstart]
      exact L.enter hname (L.mono hwf hp1.1 hctx) he' hdir (.inl (hen hname))

theorem wp_importInto (L : v.Licence F Ctx put)
    (ih : ∀ {R : List Nat} {s : Disk} {c : Nat}, v.WellFormed R (v.view s.bytes) →
      v.Place R (v.view s.bytes) c → (∀ n ∈ children, Ctx R (v.view s.bytes) c n) →
      wp (v.importListed F children c)
        (fun _ s' => v.Imported put R s s' fun a' => v.ContainedAll F a' children c)
        (fun _ s' => ∃ R', v.Progress put R s R' s') s)
    (hname : isStorable name = true) (hwf : v.WellFormed R (v.view s.bytes))
    (hd : v.Place R (v.view s.bytes) d) (hctx : Ctx R (v.view s.bytes) d (.dir name children)) :
    wp (v.ensureDirectory F name d >>= fun entry => storageCall >>= fun _ =>
        v.importListed F children entry.startCluster)
      (fun _ s' => v.Imported put R s s' fun a' => v.Contained F a' (.dir name children) d)
      (fun _ s' => ∃ R', v.Progress put R s R' s') s := by
  refine wp_seq (wp_ensureDirectory_licensed L hname hwf hd hctx) ?_ fun _ _ h => h
  rintro e s1 ⟨R1, hp1, hplace, hctx1, hfound⟩
  have hwf1 := hp1.wellFormed hwf
  refine wp_seq (wp_storageCall s1) (fun _ s2 hq2 => ?_) fun _ _ hq2 =>
    ⟨R1, hp1.trans (.of_quiet hq2)⟩
  refine wp_mono (ih (R := R1) (hq2.1 ▸ hwf1) (hq2.1 ▸ hplace) (hq2.1 ▸ hctx1)) ?_ ?_
  · rintro _ s3 ⟨R3, hp3, hcont⟩
    have hp2 : v.Progress put R1 s1 R1 s2 := .of_quiet hq2
    refine ⟨R3, (hp1.trans hp2).trans hp3, fun hall => ?_⟩
    obtain ⟨e', he', hdir, hen, hstart⟩ := hfound hall
    have hd1 := hp1.place hwf hd
    unfold Contained
    refine ⟨e', hd1.entries ((hp2.trans hp3).extends hwf1) he', hdir, hen, ?_⟩
    rw [hstart]
    exact hcont hall
  · rintro _ s3 ⟨R3, hp3⟩
    exact ⟨R3, (hp1.trans (.of_quiet hq2)).trans hp3⟩

mutual

/-- **One iteration of `importChildren`.** -/
theorem wp_importChild (L : v.Licence F Ctx put) : ∀ (n : HostNode) {R : List Nat} {s : Disk}
    {d : Nat}, v.WellFormed R (v.view s.bytes) → v.Place R (v.view s.bytes) d →
    Ctx R (v.view s.bytes) d n →
    wp (v.importChild F n d)
      (fun _ s' => v.Imported put R s s' fun a' =>
        isStorable n.name = true → v.Contained F a' n d)
      (fun _ s' => ∃ R', v.Progress put R s R' s') s
  | .file name data, R, s, d, hwf, hd, hctx => by
    unfold importChild
    refine wp_seq (wp_storageCall s) (fun _ s1 hq1 => ?_) fun _ _ hq => ⟨R, .of_quiet hq⟩
    have hp1 : v.Progress put R s R s1 := .of_quiet hq1
    refine wp_ite (fun hname => ?_) fun hname =>
      ⟨R, hp1, fun _ h => absurd h hname⟩
    refine wp_seq (wp_storageCall s1) (fun _ s2 hq2 => ?_) fun _ _ hq =>
      ⟨R, hp1.trans (.of_quiet hq)⟩
    have hp2 : v.Progress put R s R s2 := hp1.trans (.of_quiet hq2)
    have hwf2 := hp2.wellFormed hwf
    rcases hp2.place hwf hd with hd2 | rfl
    · refine wp_mono (wp_writeFile (put R) hwf2 hd2 fun a' e hsteps hf hen hdata => ?_) ?_ ?_
      · exact L.file hname (L.mono hwf2 (Steps.run hsteps) (L.mono hwf hp2.1 hctx)) hf (hen hname)
          hdata
      · rintro _ s3 ⟨hm3, hnew⟩
        refine ⟨R, hp2.trans hm3.progress, fun hall _ => ?_⟩
        obtain ⟨e, hadd, hf, hen, hdata⟩ := hnew hname (.inl hall)
        unfold Contained
        exact ⟨e, hadd.entries.mem_iff.mpr (by simp), hf, hen, hdata⟩
      · rintro _ s3 ⟨hm3, _⟩
        exact ⟨R, hp2.trans hm3.progress⟩
    · exact wp_mono (wp_writeFile_zero put hwf2) (fun _ _ h => h.elim)
        fun _ _ h => ⟨R, hp2.trans h.progress⟩
  | .dir name children, R, s, d, hwf, hd, hctx => by
    unfold importChild
    refine wp_seq (wp_storageCall s) (fun _ s1 hq1 => ?_) fun _ _ hq => ⟨R, .of_quiet hq⟩
    have hp1 : v.Progress put R s R s1 := .of_quiet hq1
    refine wp_ite (fun hname => ?_) fun hname => ⟨R, hp1, fun _ h => absurd h hname⟩
    refine wp_mono (wp_importInto L (wp_importListed L children) hname (hp1.wellFormed hwf)
      (hp1.place hwf hd) (L.mono hwf hp1.1 hctx)) ?_ ?_
    · rintro _ s2 ⟨R2, hp2, hcont⟩
      exact ⟨R2, hp1.trans hp2, fun hall _ => hcont hall⟩
    · rintro _ s2 ⟨R2, hp2⟩
      exact ⟨R2, hp1.trans hp2⟩

/-- **The loop of `importChildren`.** -/
theorem wp_importListed (L : v.Licence F Ctx put) : ∀ (ns : List HostNode) {R : List Nat}
    {s : Disk} {d : Nat}, v.WellFormed R (v.view s.bytes) → v.Place R (v.view s.bytes) d →
    (∀ n ∈ ns, Ctx R (v.view s.bytes) d n) →
    wp (v.importListed F ns d)
      (fun _ s' => v.Imported put R s s' fun a' => v.ContainedAll F a' ns d)
      (fun _ s' => ∃ R', v.Progress put R s R' s') s
  | [], R, s, d, _, _, _ => by
    unfold importListed
    exact ⟨R, .of_quiet (.refl s), fun _ => by unfold ContainedAll; trivial⟩
  | n :: ns, R, s, d, hwf, hd, hctx => by
    unfold importListed
    refine wp_seq (wp_importChild L n hwf hd (hctx n (by simp))) ?_ fun _ _ h => h
    rintro _ s1 ⟨R1, hp1, hfirst⟩
    have hwf1 := hp1.wellFormed hwf
    have hd1 := hp1.place hwf hd
    refine wp_mono (wp_importListed L ns hwf1 hd1 fun m hm =>
      L.mono hwf hp1.1 (hctx m (by simp [hm]))) ?_ ?_
    · rintro _ s2 ⟨R2, hp2, hrest⟩
      refine ⟨R2, hp1.trans hp2, fun hall => ?_⟩
      unfold ContainedAll
      exact ⟨fun hname => Contained.mono (hp2.extends hwf1) n hd1 (hfirst hall hname), hrest hall⟩
    · rintro _ s2 ⟨R2, hp2⟩
      exact ⟨R2, hp1.trans hp2⟩

end

/-- **The whole import**, into any directory of a volume that is in order. -/
theorem wp_importDirectory (L : v.Licence F Ctx put)
    (hname : isStorable name = true) (hwf : v.WellFormed R (v.view s.bytes))
    (hd : v.Place R (v.view s.bytes) d)
    (hctx : Ctx R (v.view s.bytes) d (.dir name (listing F children))) :
    wp (v.importDirectory F children name d)
      (fun _ s' => v.Imported put R s s' fun a' =>
        v.Contained F a' (.dir name (listing F children)) d)
      (fun _ s' => ∃ R', v.Progress put R s R' s') s := by
  unfold importDirectory importChildren
  exact wp_importInto L (wp_importListed L (listing F children)) hname hwf hd hctx

end FATXVolume

end DukeX.Fatx
