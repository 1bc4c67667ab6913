import DukeX.Fatx.Simulation

/-!
# What a completed import has stored

Without failing calls, and with enough free clusters, an import of a tree whose names can be stored
and do not clash returns, and the directory has gained exactly that tree: one entry for each child,
each entry with the file's bytes or with exactly the child's children, down to the leaves (`Holds`).
-/

namespace DukeX.Fatx

open DukeX.Lib DukeX.Swift

namespace FATXVolume

variable (v : FATXVolume) (F : Foundation)

def Sited (a : ClusterStore) (X : Nat → Prop) (c : Nat) : Prop :=
  c = 0 ∨ ∃ l, v.FatChain a c l ∧ ∀ x ∈ l, X x

mutual

/-- Entry `e` is the node, and everything below it is what is below the node. -/
def Holds (a : ClusterStore) (X : Nat → Prop) : HostNode → FATXDirectoryEntry → Prop
  | .file name data, e => e.name = name ∧ e.isDirectory = false ∧ v.Sited a X e.startCluster ∧
      v.contents a e = data
  | .dir name children, e => e.name = name ∧ e.isDirectory = true ∧ v.Sited a X e.startCluster ∧
      ∃ es, (v.entriesOf a e.startCluster).Perm es ∧ HoldsAll a X children es

def HoldsAll (a : ClusterStore) (X : Nat → Prop) :
    List HostNode → List FATXDirectoryEntry → Prop
  | [], es => es = []
  | n :: ns, es => ∃ e rest, es = e :: rest ∧ Holds a X n e ∧ HoldsAll a X ns rest

end

variable {v F} {R : List Nat} {a a' a₁ a₂ : ClusterStore} {d c : Nat} {s s' : Disk}
variable {X X' : Nat → Prop}

theorem Sited.mono (hX : ∀ x, X x → a.fat x ≠ 0 →
      (a'.fat x = a.fat x ∧ a'.data x = a.data x) ∧ X' x) (h : v.Sited a X c) :
    v.Sited a' X' c ∧ v.entriesOf a' c = v.entriesOf a c ∧
      ∀ e : FATXDirectoryEntry, e.startCluster = c → v.contents a' e = v.contents a e := by
  rcases h with rfl | ⟨l, hl, hin⟩
  · refine ⟨.inl rfl, ?_, fun e he => ?_⟩
    · rw [entriesOf_zero, entriesOf_zero]
    · rw [contents_of_start_zero he, contents_of_start_zero he]
  · have hs : v.SameOn (· ∈ l) a a' := fun x hx =>
      have hx' := hX x (hin x hx) (hl.fat_ne_zero hx)
      ⟨next_eq_of_fat hx'.1.1, hx'.1.2⟩
    refine ⟨.inr ⟨l, hl.congr fun x hx => (hs x hx).1, fun x hx => ?_⟩, hl.entriesOf_congr hs, ?_⟩
    · exact (hX x (hin x hx) (hl.fat_ne_zero hx)).2
    · rintro e rfl
      exact hl.contents_congr hs

mutual

theorem Holds.mono (h : ∀ x, X x → a.fat x ≠ 0 →
      (a'.fat x = a.fat x ∧ a'.data x = a.data x) ∧ X' x) :
    ∀ (n : HostNode) {e : FATXDirectoryEntry}, v.Holds a X n e → v.Holds a' X' n e
  | .file name data, e, hold => by
    unfold Holds at hold ⊢
    obtain ⟨hname, hf, hsite, hdata⟩ := hold
    obtain ⟨hsite', _, hcont⟩ := hsite.mono h
    exact ⟨hname, hf, hsite', (hcont e rfl).trans hdata⟩
  | .dir name children, e, hold => by
    unfold Holds at hold ⊢
    obtain ⟨hname, hdir, hsite, es, hperm, hall⟩ := hold
    obtain ⟨hsite', hentries, _⟩ := hsite.mono h
    exact ⟨hname, hdir, hsite', es, hentries ▸ hperm, HoldsAll.mono h children hall⟩

theorem HoldsAll.mono (h : ∀ x, X x → a.fat x ≠ 0 →
      (a'.fat x = a.fat x ∧ a'.data x = a.data x) ∧ X' x) :
    ∀ (ns : List HostNode) {es : List FATXDirectoryEntry},
      v.HoldsAll a X ns es → v.HoldsAll a' X' ns es
  | [], es, hold => by
    unfold HoldsAll at hold ⊢
    exact hold
  | n :: ns, es, hold => by
    unfold HoldsAll at hold ⊢
    obtain ⟨e, rest, rfl, hn, hrest⟩ := hold
    exact ⟨e, rest, rfl, Holds.mono h n hn, HoldsAll.mono h ns hrest⟩

end

/-! ## How many clusters a tree takes -/

variable (v)

def directoryClusters (entries : Nat) : Nat :=
  max 1 ((entries + v.recordsPerCluster - 1) / v.recordsPerCluster)

mutual

def clustersFor : HostNode → Nat
  | .file _ data => v.clustersNeeded data.length
  | .dir _ children => v.directoryClusters children.length + clustersForAll children

def clustersForAll : List HostNode → Nat
  | [] => 0
  | n :: ns => clustersFor n + clustersForAll ns

end

def extra (room entries : Nat) : Nat :=
  (entries - room + (v.recordsPerCluster - 1)) / v.recordsPerCluster

variable {v}

theorem extra_zero (room : Nat) : v.extra room 0 = 0 := by
  have := v.recordsPerCluster_pos
  rw [extra, Nat.zero_sub, Nat.zero_add]
  exact Nat.div_eq_of_lt (by omega)

theorem extra_succ {room room' : Nat} (entries : Nat)
    (h : room' + 1 = if room = 0 then v.recordsPerCluster else room) :
    v.extra room (entries + 1) = (if room = 0 then 1 else 0) + v.extra room' entries := by
  have hpos := v.recordsPerCluster_pos
  unfold extra
  by_cases h0 : room = 0
  · rw [if_pos h0] at h ⊢
    subst h0
    rw [Nat.sub_zero, show entries + 1 + (v.recordsPerCluster - 1)
      = entries + v.recordsPerCluster by omega, Nat.add_div_right _ hpos]
    rcases Nat.lt_or_ge room' entries with hlt | hge
    · grind
    · rw [show entries - room' = 0 by omega, Nat.zero_add,
        Nat.div_eq_of_lt (show entries < v.recordsPerCluster by omega),
        Nat.div_eq_of_lt (show v.recordsPerCluster - 1 < v.recordsPerCluster by omega)]
  · grind

theorem growth_le_extra (entries : Nat) :
    v.growth a d ≤ v.extra (v.room a d) (entries + 1) := by
  have hpos := v.recordsPerCluster_pos
  obtain ⟨room', h⟩ : ∃ room', room' + 1 =
      if v.room a d = 0 then v.recordsPerCluster else v.room a d := by
    refine ⟨(if v.room a d = 0 then v.recordsPerCluster else v.room a d) - 1, ?_⟩
    split <;> omega
  rw [extra_succ entries h]
  exact Nat.le_add_right ..

theorem directoryClusters_eq (entries : Nat) :
    v.directoryClusters entries = 1 + v.extra v.recordsPerCluster entries := by
  have hpos := v.recordsPerCluster_pos
  unfold directoryClusters extra
  rcases Nat.lt_or_ge v.recordsPerCluster entries with hlt | hge
  · rw [show entries - v.recordsPerCluster + (v.recordsPerCluster - 1) = entries - 1 by omega,
      show entries + v.recordsPerCluster - 1 = entries - 1 + v.recordsPerCluster by omega,
      Nat.add_div_right _ hpos, Nat.max_eq_right (Nat.le_add_left 1 _), Nat.add_comm]
  · have h1 : (entries + v.recordsPerCluster - 1) / v.recordsPerCluster ≤ 1 :=
      Nat.lt_succ_iff.mp ((Nat.div_lt_iff_lt_mul hpos).mpr (by omega))
    simp_all

variable (F)

def Storable (n : HostNode) : Prop := isHidden n.name = false ∧ isStorable n.name = true

def Distinct (ns : List HostNode) : Prop :=
  ns.Pairwise fun n m => F.caseInsensitiveSame n.name m.name = false

/-- Every name is taken, no two names of a directory are the same up to case, and every file is
small enough for the size field. -/
def Importable (n : HostNode) : Prop :=
  n.Everywhere fun
    | .file name data => Storable (.file name data) ∧ data.length < 2 ^ 32
    | .dir name children => Storable (.dir name children) ∧ Distinct F children

def ImportableAll (ns : List HostNode) : Prop := (∀ n ∈ ns, Importable F n) ∧ Distinct F ns

variable {F}

variable {data : Data} {children ns : List HostNode} {n : HostNode} {e : FATXDirectoryEntry}
  {es : List FATXDirectoryEntry}

theorem importable_file {name : String} : Importable F (.file name data) ↔
    Storable (.file name data) ∧ data.length < 2 ^ 32 := Iff.rfl

theorem importable_dir {name : String} :
    Importable F (.dir name children) ↔ Storable (.dir name children) ∧ ImportableAll F children := by
  unfold Importable ImportableAll
  rw [HostNode.everywhere_dir]
  tauto

theorem Importable.storable (h : Importable F n) : Storable n := by
  cases n <;> exact h.here.1

/-! ## One child -/

variable (v)

def Fresh (a a' : ClusterStore) (d x : Nat) : Prop := a.fat x = 0 ∧ x ∉ v.chainOf a' d

structure Sound (R : List Nat) (s s' : Disk) : Prop where
  wf : v.WellFormed R (v.view s'.bytes)
  ext : v.Extends R (v.view s.bytes) (v.view s'.bytes)
  faults : s'.faults = []

structure Grafted (R : List Nat) (s s' : Disk) (d : Nat) (n : HostNode)
    (e : FATXDirectoryEntry) : Prop extends v.Sound R s s' where
  added : v.Added (v.view s.bytes) (v.view s'.bytes) d e (v.clustersFor n)
  holds : v.Holds (v.view s'.bytes) (v.Fresh (v.view s.bytes) (v.view s'.bytes) d) n e

structure GraftedAll (R : List Nat) (s s' : Disk) (d : Nat) (ns : List HostNode)
    (es : List FATXDirectoryEntry) : Prop extends v.Sound R s s' where
  confined : v.Confined (v.view s.bytes) (v.view s'.bytes) d
  entries : (v.entriesOf (v.view s'.bytes) d).Perm (es ++ v.entriesOf (v.view s.bytes) d)
  free : v.freeCount (v.view s'.bytes) + v.extra (v.room (v.view s.bytes) d) ns.length +
    v.clustersForAll ns = v.freeCount (v.view s.bytes)
  holds : v.HoldsAll (v.view s'.bytes) (v.Fresh (v.view s.bytes) (v.view s'.bytes) d) ns es

variable {v}

theorem Sound.trans {s1 : Disk} (h : v.Sound R s s1) (h' : v.Sound R s1 s') : v.Sound R s s' :=
  ⟨h'.wf, h.ext.trans h'.ext, h'.faults⟩

theorem Holds.name (h : v.Holds a X n e) : e.name = n.name := by
  cases n <;> unfold Holds at h <;> exact h.1

theorem Fresh.of_later (h : v.Fresh a₁ a₂ d c) (hused : ∀ x, a.fat x ≠ 0 → a₁.fat x ≠ 0) :
    v.Fresh a a₂ d c :=
  ⟨by_contra fun hne => hused c hne h.1, h.2⟩

theorem Confined.keeps (h : v.Confined a₁ a₂ d) :
    ∀ x, v.Fresh a a₁ d x → a₁.fat x ≠ 0 →
      (a₂.fat x = a₁.fat x ∧ a₂.data x = a₁.data x) ∧ v.Fresh a a₂ d x := by
  intro x hx hne
  refine ⟨h.same x hne hx.2, hx.1, fun hm => ?_⟩
  cases h.chain x hm with
  | inl hold => exact hx.2 hold
  | inr hfree => exact hne hfree

theorem Added.fill {l : List Nat} {cost more : Nat}
    (h : v.Added a a₁ d e cost) (hd : v.FatChain a₁ d l)
    (hconf : v.Confined a₁ a₂ e.startCluster) (hchain : ∃ l2, v.FatChain a₂ e.startCluster l2)
    (hfree : v.freeCount a₂ + more = v.freeCount a₁) :
    v.Added a a₂ d e (cost + more) ∧
      ∀ x, v.Fresh a₁ a₂ e.startCluster x → v.Fresh a a₂ d x := by
  obtain ⟨ls, hls, hfresh⟩ := h.chain
  obtain ⟨l2, hl2⟩ := hchain
  have hout : ∀ x, x ∈ ls → x ∉ l := fun x hx => by
    rw [← hd.chainOf_eq]
    exact (hfresh x hx).2
  have hs : v.SameOn (· ∈ l) a₁ a₂ :=
    hconf.sameOn (fun x hx => hd.fat_ne_zero hx) fun x hx hm => by
      rw [hls.chainOf_eq] at hm
      exact hout x hm hx
  have hd2 : v.FatChain a₂ d l := hd.congr fun x hx => (hs x hx).1
  have hsame : v.chainOf a₂ d = v.chainOf a₁ d := by rw [hd.chainOf_eq, hd2.chainOf_eq]
  have hnew : ∀ x, a₁.fat x = 0 → a.fat x = 0 ∧ x ∉ v.chainOf a₂ d := by
    intro x hx
    refine ⟨by_contra fun hne => h.confined.used x hne hx, fun hm => ?_⟩
    rw [hd2.chainOf_eq] at hm
    exact hd.fat_ne_zero hm hx
  refine ⟨⟨⟨?_, ?_, ?_⟩, ?_, ?_, ?_, l2, hl2, ?_⟩, fun x hx => hnew x hx.1⟩
  · intro x hx
    exact hconf.used x (h.confined.used x hx)
  · intro x hx hm
    obtain ⟨hf, hdata⟩ := h.confined.same x hx hm
    have hx1 : x ∉ v.chainOf a₁ e.startCluster := fun hm' => by
      rw [hls.chainOf_eq] at hm'
      exact hx (hfresh x hm').1
    obtain ⟨hf2, hdata2⟩ := hconf.same x (h.confined.used x hx) hx1
    exact ⟨hf2.trans hf, hdata2.trans hdata⟩
  · intro x hx
    rw [hsame] at hx
    exact h.confined.chain x hx
  · rw [hd.entriesOf_congr hs]
    exact h.entries
  · have hroom : v.room a₂ d = v.room a₁ d := by
      rw [FATXVolume.room, FATXVolume.room, hsame, hd.chainOf_eq,
        freeSlots_congr fun x hx => (hs x hx).2]
    rw [hroom]
    exact h.room
  · have := h.free
    omega
  · intro x hx
    rw [← hl2.chainOf_eq] at hx
    cases hconf.chain x hx with
    | inl hold =>
      rw [hls.chainOf_eq] at hold
      rw [hsame]
      exact hfresh x hold
    | inr hfree => exact hnew x hfree

theorem wp_storageCall_of_no_faults (h0 : s.faults = []) :
    wp storageCall (fun _ s' => s.Quiet s') (fun _ _ => False) s :=
  wp_mono (reads_storageCall.wp_of_no_faults rfl h0) (fun _ _ h => h.1) fun _ _ h => h

theorem wp_writeFile_exact {name : String} (h0 : s.faults = [])
    (hwf : v.WellFormed R (v.view s.bytes)) (hd : v.DirectoryAt R (v.view s.bytes) d)
    (himp : Importable F (.file name data))
    (hnew : ∀ e ∈ v.entriesOf (v.view s.bytes) d, F.caseInsensitiveSame e.name name = false)
    (henough : v.clustersNeeded data.length + v.growth (v.view s.bytes) d ≤
      v.freeCount (v.view s.bytes)) :
    wp (v.writeFile F name data d) (fun _ s' => ∃ e, v.Grafted R s s' d (.file name data) e)
      (fun _ _ => False) s := by
  refine wp_mono (wp_writeFile (fun _ _ _ => True) hwf hd fun _ _ _ _ _ _ => trivial) ?_ ?_
  · rintro _ s' ⟨hm, hfile⟩
    obtain ⟨e, hadd, hf, hname, hdata⟩ := hfile himp.storable.2 (.inr henough)
    refine ⟨e, ⟨hm.wellFormed hwf, hm.extends hwf, hm.2 h0⟩, ?_, ?_⟩
    · unfold clustersFor
      exact hadd
    · unfold Holds
      exact ⟨hname, hf, .inr hadd.chain, hdata⟩
  · rintro _ s' ⟨_, hwhy⟩
    cases hwhy h0 (importable_file.mp himp).2 with
    | inl hsame =>
      grind
    | inr hlt => omega

theorem wp_ensureDirectory_exact {name : String} (h0 : s.faults = [])
    (hwf : v.WellFormed R (v.view s.bytes)) (hd : v.DirectoryAt R (v.view s.bytes) d)
    (hname : isStorable name = true)
    (hnew : ∀ e ∈ v.entriesOf (v.view s.bytes) d, F.caseInsensitiveSame e.name name = false)
    (henough : 1 + v.growth (v.view s.bytes) d ≤ v.freeCount (v.view s.bytes)) :
    wp (v.ensureDirectory F name d)
      (fun e s' => v.Sound R s s' ∧
        v.NewDirectory (v.view s.bytes) (v.view s'.bytes) d name e.startCluster)
      (fun _ _ => False) s := by
  refine wp_mono (wp_ensureDirectory (fun _ _ _ _ => True) hwf (.inl hd)
    fun _ _ _ _ _ _ => trivial) ?_ ?_
  · intro e s' h
    cases h with
    | inl hfound =>
      obtain ⟨he, _, hsame⟩ := of_lookup hfound.1
      rw [hnew e he] at hsame
      cases hsame
    | inr hmade =>
      obtain ⟨⟨R', hp, _⟩, hdir⟩ := hmade
      obtain ⟨hwf', hext, hsub⟩ := hp.1.preserves hwf
      exact ⟨⟨hwf'.anti hsub, hext, hp.2 h0⟩, hdir hname (.inr henough)⟩
  · intro _ s' h
    cases h.2 h0 hd.ne_zero with
    | inl hsame =>
      grind
    | inr hlt => omega

theorem wp_importInto_exact {name : String}
    (ih : ∀ {s : Disk} {c : Nat}, s.faults = [] → v.WellFormed R (v.view s.bytes) →
      v.DirectoryAt R (v.view s.bytes) c → v.entriesOf (v.view s.bytes) c = [] →
      v.extra (v.room (v.view s.bytes) c) children.length + v.clustersForAll children ≤
        v.freeCount (v.view s.bytes) →
      wp (v.importListed F children c) (fun _ s' => ∃ es, v.GraftedAll R s s' c children es)
        (fun _ _ => False) s)
    (h0 : s.faults = []) (hwf : v.WellFormed R (v.view s.bytes))
    (hd : v.DirectoryAt R (v.view s.bytes) d) (hname : isStorable name = true)
    (hnew : ∀ e ∈ v.entriesOf (v.view s.bytes) d, F.caseInsensitiveSame e.name name = false)
    (henough : v.clustersFor (.dir name children) + v.growth (v.view s.bytes) d ≤
      v.freeCount (v.view s.bytes)) :
    wp (v.ensureDirectory F name d >>= fun entry => storageCall >>= fun _ =>
        v.importListed F children entry.startCluster)
      (fun _ s' => ∃ e, v.Grafted R s s' d (.dir name children) e) (fun _ _ => False) s := by
  unfold clustersFor at henough
  rw [directoryClusters_eq] at henough
  refine wp_seq (wp_ensureDirectory_exact h0 hwf hd hname hnew (by omega)) ?_ fun _ _ h => h
  rintro entry s1 ⟨hsound, e, hadd, hdir, hen, hstart, hempty, hroom⟩
  rw [← hstart] at hempty hroom ⊢
  refine wp_seq (wp_storageCall_of_no_faults hsound.faults) ?_ fun _ _ h => h
  rintro _ s2 hq
  have hb : v.view s2.bytes = v.view s1.bytes := by rw [hq.1]
  have hd1 := hsound.ext.directoryAt hd
  have he : e ∈ v.entriesOf (v.view s1.bytes) d := hadd.entries.mem_iff.mpr (by simp)
  obtain ⟨ls, hls, _⟩ := hadd.chain
  have hc : v.DirectoryAt R (v.view s1.bytes) e.startCluster :=
    ⟨hls.start_pos, .inr ⟨e, hd1.reachable he, hdir, rfl⟩⟩
  have hspace : v.extra v.recordsPerCluster children.length + v.clustersForAll children ≤
      v.freeCount (v.view s1.bytes) := by
    have := hadd.free
    omega
  refine wp_mono (ih (hq.2.2 hsound.faults) (hb ▸ hsound.wf) (hb ▸ hc) (hb ▸ hempty)
    (by rw [hb, hroom]; exact hspace)) ?_ fun _ _ h => h
  rintro _ s3 ⟨es, hall⟩
  have hconf := hall.confined
  have hentries := hall.entries
  have hholds := hall.holds
  have hfree := hall.free
  rw [hb] at hconf hentries hholds hfree
  rw [hroom] at hfree
  rw [hempty, List.append_nil] at hentries
  have hsound3 : v.Sound R s s3 := ⟨hall.wf, hsound.ext.trans (hb ▸ hall.ext), hall.faults⟩
  obtain ⟨l, hl⟩ := hd1.chain hsound.wf
  obtain ⟨hadd3, hlift⟩ := hadd.fill hl hconf
    (((hb ▸ hall.ext : v.Extends R (v.view s1.bytes) _).directoryAt hc).chain hall.wf)
    (show _ + (v.extra v.recordsPerCluster children.length + v.clustersForAll children) = _ by omega)
  refine ⟨e, hsound3, ?_, ?_⟩
  · simp [clustersFor, directoryClusters_eq, Nat.add_assoc, hadd3]
  · unfold Holds
    exact ⟨hen, hdir, .inr hadd3.chain, es, hentries,
      HoldsAll.mono (fun x hx _ => ⟨⟨rfl, rfl⟩, hlift x hx⟩) children hholds⟩

mutual

theorem wp_importChild_exact : ∀ (n : HostNode) {s : Disk} {d : Nat},
    s.faults = [] → v.WellFormed R (v.view s.bytes) → v.DirectoryAt R (v.view s.bytes) d →
    Importable F n →
    (∀ e ∈ v.entriesOf (v.view s.bytes) d, F.caseInsensitiveSame e.name n.name = false) →
    v.clustersFor n + v.growth (v.view s.bytes) d ≤ v.freeCount (v.view s.bytes) →
    wp (v.importChild F n d) (fun _ s' => ∃ e, v.Grafted R s s' d n e) (fun _ _ => False) s
  | .file name data, s, d, h0, hwf, hd, himp, hnew, henough => by
    unfold importChild
    unfold clustersFor at henough
    refine wp_seq (wp_storageCall_of_no_faults h0) (fun _ s1 hq1 => ?_) fun _ _ h => h
    refine wp_ite (fun _ => ?_) fun h => absurd himp.storable.2 h
    refine wp_seq (wp_storageCall_of_no_faults (hq1.2.2 h0)) (fun _ s2 hq2 => ?_) fun _ _ h => h
    have hq := hq1.trans hq2
    have hb : v.view s2.bytes = v.view s.bytes := by rw [hq.1]
    refine wp_mono (wp_writeFile_exact (hq.2.2 h0) (hb ▸ hwf) (hb ▸ hd) himp (hb ▸ hnew)
      (hb ▸ henough)) ?_ fun _ _ h => h
    rintro _ s3 ⟨e, h⟩
    exact ⟨e, ⟨h.wf, hb ▸ h.ext, h.faults⟩, hb ▸ h.added, hb ▸ h.holds⟩
  | .dir name children, s, d, h0, hwf, hd, himp, hnew, henough => by
    unfold importChild
    refine wp_seq (wp_storageCall_of_no_faults h0) (fun _ s1 hq => ?_) fun _ _ h => h
    refine wp_ite (fun hname => ?_) fun h => absurd himp.storable.2 h
    have hb : v.view s1.bytes = v.view s.bytes := by rw [hq.1]
    refine wp_mono (wp_importInto_exact (fun h0 hwf hc hempty hspace =>
      wp_importListed_exact children h0 hwf hc (importable_dir.mp himp).2 (by rw [hempty]; simp) hspace)
      (hq.2.2 h0) (hb ▸ hwf) (hb ▸ hd) hname (hb ▸ hnew) (hb ▸ henough)) ?_ fun _ _ h => h
    rintro _ s3 ⟨e, h⟩
    exact ⟨e, ⟨h.wf, hb ▸ h.ext, h.faults⟩, hb ▸ h.added, hb ▸ h.holds⟩

theorem wp_importListed_exact : ∀ (ns : List HostNode) {s : Disk} {d : Nat},
    s.faults = [] → v.WellFormed R (v.view s.bytes) → v.DirectoryAt R (v.view s.bytes) d →
    ImportableAll F ns →
    (∀ e ∈ v.entriesOf (v.view s.bytes) d, ∀ n ∈ ns,
      F.caseInsensitiveSame e.name n.name = false) →
    v.extra (v.room (v.view s.bytes) d) ns.length + v.clustersForAll ns ≤
      v.freeCount (v.view s.bytes) →
    wp (v.importListed F ns d) (fun _ s' => ∃ es, v.GraftedAll R s s' d ns es)
      (fun _ _ => False) s
  | [], s, d, h0, hwf, _, _, _, _ => by
    unfold importListed
    refine ⟨[], ⟨hwf, .refl _, h0⟩, .refl _ _, .refl _, ?_, ?_⟩
    · simp [clustersForAll, extra_zero]
    · unfold HoldsAll
      rfl
  | n :: ns, s, d, h0, hwf, hd, himp, hnew, henough => by
    unfold importListed
    unfold clustersForAll at henough
    obtain ⟨himp1, himp2⟩ := List.forall_mem_cons.mp himp.1
    obtain ⟨hdistinct, hpair⟩ := List.pairwise_cons.mp himp.2
    have hgrow : (if v.room (v.view s.bytes) d = 0 then 1 else 0) = v.growth (v.view s.bytes) d :=
      rfl
    refine wp_seq (wp_importChild_exact n h0 hwf hd himp1 (fun e he => hnew e he n (by simp))
      ?_) ?_ fun _ _ h => h
    · grind [growth_le_extra]
    rintro _ s1 ⟨e, hg⟩
    have hroom := extra_succ ns.length hg.added.room
    rw [hgrow] at hroom
    have hfree := hg.added.free
    rw [List.length_cons, hroom] at henough
    refine wp_mono (wp_importListed_exact ns hg.faults hg.wf (hg.ext.directoryAt hd) ⟨himp2, hpair⟩ ?_
      (by omega)) ?_ fun _ _ h => h
    · intro x hx m hm
      cases List.mem_cons.mp (hg.added.entries.mem_iff.mp hx) with
      | inl heq =>
        rw [heq, hg.holds.name]
        exact hdistinct m hm
      | inr hold => exact hnew x hold m (by simp [hm])
    rintro _ s2 ⟨es, hall⟩
    refine ⟨e :: es, hg.toSound.trans hall.toSound, hg.added.confined.trans hall.confined, ?_, ?_, ?_⟩
    · refine hall.entries.trans ((hg.added.entries.append_left es).trans ?_)
      exact List.perm_middle
    · have := hall.free
      grind [clustersForAll]
    · unfold HoldsAll
      refine ⟨e, es, rfl, hg.holds.mono (hall.confined.keeps) n, ?_⟩
      exact hall.holds.mono (fun x hx _ => ⟨⟨rfl, rfl⟩, hx.of_later hg.added.confined.used⟩) ns

end

/-! ## The order of a listing does not matter -/

theorem holdsAll_iff : v.HoldsAll a X ns es ↔ List.Forall₂ (v.Holds a X) ns es := by
  induction ns generalizing es with
  | nil =>
    unfold HoldsAll
    exact List.forall₂_nil_left_iff.symm
  | cons n ns ih =>
    unfold HoldsAll
    simp only [List.forall₂_cons_left_iff, ih]
    grind

theorem clustersForAll_eq (ns : List HostNode) :
    v.clustersForAll ns = (ns.map v.clustersFor).sum := by
  induction ns with
  | nil => rfl
  | cons n ns ih =>
    simp [clustersForAll, ih]

theorem name_listed (n : HostNode) : (n.listed F).name = n.name := by
  cases n <;> rfl

theorem listedAll_eq (ns : List HostNode) : listedAll F ns = ns.map (HostNode.listed F) := by
  induction ns with
  | nil => rfl
  | cons n ns ih =>
    unfold listedAll
    rw [ih, List.map_cons]

theorem listing_perm (h : ∀ n ∈ ns, isHidden n.name = false) :
    (listing F ns).Perm (ns.map (HostNode.listed F)) := by
  unfold listing sortVisible
  rw [listedAll_eq]
  refine (List.perm_insertionSort _ _).trans (.of_eq (List.filter_eq_self.mpr fun n hn => ?_))
  obtain ⟨m, hm, rfl⟩ := List.mem_map.mp hn
  rw [name_listed, h m hm]
  rfl

theorem ImportableAll.visible (h : ImportableAll F ns) :
    ∀ n ∈ ns, isHidden n.name = false := fun n hn => (h.1 n hn).storable.1

theorem ImportableAll.listing (hF : F.Lawful) (h : ImportableAll F ns)
    (ih : ∀ n ∈ ns, Importable F n →
      Importable F (n.listed F) ∧ v.clustersFor (n.listed F) = v.clustersFor n) :
    ImportableAll F (listing F ns) ∧ v.clustersForAll (listing F ns) = v.clustersForAll ns ∧
      (listing F ns).length = ns.length := by
  have hperm := listing_perm (F := F) h.visible
  obtain ⟨hall, hpair⟩ := h
  refine ⟨⟨fun m hm => ?_, ?_⟩, ?_, ?_⟩
  · grind
  · refine hperm.symm.pairwise ?_ ?_
    · rw [List.pairwise_map]
      exact hpair.imp fun hne => by rwa [name_listed, name_listed]
    · intro m n hne
      by_contra hsame
      rw [Bool.not_eq_false] at hsame
      rw [hF.symm _ _ hsame] at hne
      cases hne
  · rw [clustersForAll_eq, clustersForAll_eq, (hperm.map v.clustersFor).sum_eq, List.map_map]
    exact congrArg List.sum (List.map_congr_left fun n hn => (ih n hn (hall n hn)).2)
  · rw [hperm.length_eq, List.length_map]

theorem Importable.listed (hF : F.Lawful) (n : HostNode) : Importable F n →
    Importable F (n.listed F) ∧ v.clustersFor (n.listed F) = v.clustersFor n := by
  induction n using HostNode.induct with
  | file name data => exact fun h => ⟨h, rfl⟩
  | dir name children ih =>
    intro h
    obtain ⟨hname, hall⟩ := importable_dir.mp h
    obtain ⟨himp, hcost, hlen⟩ := ImportableAll.listing hF hall ih
    rw [show (HostNode.dir name children).listed F = .dir name (Fatx.listing F children) from rfl]
    unfold clustersFor
    exact ⟨importable_dir.mpr ⟨hname, himp⟩, by rw [hcost, hlen]⟩

theorem holdsAll_of_listing (hvis : ∀ n ∈ ns, isHidden n.name = false)
    (ih : ∀ n ∈ ns, ∀ e, v.Holds a X (n.listed F) e → v.Holds a X n e)
    (h : v.HoldsAll a X (listing F ns) es) : ∃ es', es.Perm es' ∧ v.HoldsAll a X ns es' := by
  obtain ⟨es', hall, hes⟩ :=
    List.perm_comp_forall₂ (listing_perm (F := F) hvis).symm (holdsAll_iff.mp h)
  refine ⟨es', hes.symm, holdsAll_iff.mpr ?_⟩
  rw [List.forall₂_map_left_iff] at hall
  exact ((List.forall₂_and_left _ _).mpr ⟨ih, hall⟩).imp fun _ _ h => h.1 _ h.2

theorem Holds.of_listed (n : HostNode) : Importable F n → ∀ e, v.Holds a X (n.listed F) e →
    v.Holds a X n e := by
  induction n using HostNode.induct with
  | file name data => exact fun _ _ h => h
  | dir name children ih =>
    intro himp e h
    have hall := (importable_dir.mp himp).2
    rw [show (HostNode.dir name children).listed F = .dir name (Fatx.listing F children) from rfl]
      at h
    unfold Holds at h ⊢
    obtain ⟨hname, hdir, hchain, es, hperm, hes⟩ := h
    obtain ⟨es', hperm', hes'⟩ :=
      holdsAll_of_listing hall.visible (fun n hn => ih n hn (hall.1 n hn)) hes
    exact ⟨hname, hdir, hchain, es', hperm.trans hperm', hes'⟩

/-- **The import is complete and adds nothing else.** Into a directory without an entry of that
name, and with as many free clusters as the tree takes, the import returns, and the directory has
gained one entry, which holds the tree. -/
theorem wp_importDirectory_exact {name : String} (hF : F.Lawful)
    (h0 : s.faults = []) (hwf : v.WellFormed R (v.view s.bytes))
    (hd : v.DirectoryAt R (v.view s.bytes) d) (hname : isStorable name = true)
    (himp : ImportableAll F children)
    (hnew : ∀ e ∈ v.entriesOf (v.view s.bytes) d, F.caseInsensitiveSame e.name name = false)
    (henough : v.clustersFor (.dir name children) + v.growth (v.view s.bytes) d ≤
      v.freeCount (v.view s.bytes)) :
    wp (v.importDirectory F children name d)
      (fun _ s' => ∃ e, v.Grafted R s s' d (.dir name children) e) (fun _ _ => False) s := by
  unfold importDirectory importChildren
  obtain ⟨himp', hcost, hlen⟩ := himp.listing (v := v) hF fun n _ => Importable.listed hF n
  have hcost' : v.clustersFor (.dir name (listing F children)) = v.clustersFor (.dir name children) := by
    unfold clustersFor
    rw [hcost, hlen]
  refine wp_mono (wp_importInto_exact (fun h0 hwf hc hempty hspace =>
    wp_importListed_exact _ h0 hwf hc himp' (by rw [hempty]; simp) hspace) h0 hwf hd hname hnew
    (hcost' ▸ henough)) ?_ fun _ _ h => h
  rintro _ s' ⟨e, h⟩
  refine ⟨e, h.toSound, hcost' ▸ h.added, ?_⟩
  have hholds := h.holds
  unfold Holds at hholds ⊢
  obtain ⟨hen, hdir, hchain, es, hperm, hes⟩ := hholds
  obtain ⟨es', hperm', hes'⟩ := holdsAll_of_listing himp.visible
    (fun n hn => Holds.of_listed n (himp.1 n hn)) hes
  exact ⟨hen, hdir, hchain, es', hperm.trans hperm', hes'⟩

end FATXVolume

end DukeX.Fatx
