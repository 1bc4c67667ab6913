import DukeX.Lib.Lists
import DukeX.Fatx.WellFormed

/-!
# The three changes an import makes

Seen on the cluster tables, everything the import code writes is one of three steps: it writes to a
cluster nobody owns (`detached`), hangs such a cluster, empty, at the end of a directory (`grow`),
or fills an unused directory record with an entry for such a chain (`record`).
-/

namespace DukeX.Fatx

open DukeX.Lib DukeX.Swift

theorem byte_record (block : Data) (i : Nat) {j : Nat} (hj : j < 64) :
    byte (record block i) j = byte block (i * 64 + j) := by
  grind [byte, record]

theorem record_splice {block r : Data} {n i : Nat} (hb : block.length = 64 * n) (hi : i < n)
    (hr : r.length = 64) (j : Nat) :
    record (splice block (i * 64) r) j = if j = i then r else record block j := by
  have htake : (block.take (i * 64)).length = i * 64 := by simp; omega
  simp only [record, splice, hr]
  rcases Nat.lt_trichotomy j i with hj | rfl | hj
  · rw [if_neg (by omega), List.append_assoc, List.drop_append_of_le_length (by omega),
      List.take_append_of_le_length (by simp; omega), List.drop_take, List.take_take]
    congr 1
    omega
  · grind
  · rw [if_neg (by omega), List.drop_append, List.drop_of_length_le (by simp [htake, hr]; omega),
      List.nil_append, List.drop_drop]
    grind

namespace FATXVolume

variable {v : FATXVolume} {R : List Nat} {a a' : ClusterStore} {c d k n i : Nat} {l ls : List Nat}

variable {r block : Data}

theorem clusterEntries_splice_none (hb : block.length = v.clusterSize)
    (hi : i < v.recordsPerCluster) (hr : r.length = 64)
    (hfree : parseRecord (record block i) (v.dataOffset k + i * 64) = none)
    (hnone : parseRecord r (v.dataOffset k + i * 64) = none) :
    v.clusterEntries k (splice block (i * 64) r) = v.clusterEntries k block := by
  have hb' : block.length = 64 * v.recordsPerCluster := by rw [hb, recordsPerCluster_mul]
  refine List.filterMap_congr fun j _ => ?_
  rw [record_splice hb' hi hr]
  by_cases hj : j = i
  · subst hj; rw [if_pos rfl, hfree, hnone]
  · rw [if_neg hj]

variable {e : FATXDirectoryEntry}

theorem clusterEntries_splice_some (hb : block.length = v.clusterSize)
    (hi : i < v.recordsPerCluster) (hr : r.length = 64)
    (hfree : parseRecord (record block i) (v.dataOffset k + i * 64) = none) (hsome : parseRecord r (v.dataOffset k + i * 64) = some e) :
    (v.clusterEntries k (splice block (i * 64) r)).Perm (e :: v.clusterEntries k block) := by
  have hb' : block.length = 64 * v.recordsPerCluster := by rw [hb, recordsPerCluster_mul]
  refine filterMap_perm_cons List.nodup_range (List.mem_range.mpr hi) ?_ hfree ?_
  · intro j _ hj
    rw [record_splice hb' hi hr, if_neg hj]
  · rw [record_splice hb' hi hr, if_pos rfl, hsome]

variable (v)

inductive Step (R : List Nat) (put : ClusterStore → Nat → FATXDirectoryEntry → Prop) (a : ClusterStore) :
    ClusterStore → Prop
  | detached {a' : ClusterStore} (c : Nat) (hc : ¬ v.Live R a c)
      (h : ∀ k, k ≠ c → a'.fat k = a.fat k ∧ a'.data k = a.data k) : Step R put a a'
  /-- A cluster that nobody owns and that holds no entry is hung at the end of a directory. -/
  | grow {d n k : Nat} {l : List Nat} (hd : v.DirectoryAt R a d) (hl : v.FatChain a d l)
      (hk : l.getLast? = some k) (hn : v.inRange n = true) (hlive : ¬ v.Live R a n)
      (hend : v.isEndOfChain (a.fat n) = true) (hempty : v.clusterEntries n (a.data n) = []) :
      Step R put a (a.setFat k n)
  /-- An unused record of a directory is overwritten. -/
  | record {d k i : Nat} {l : List Nat} {r : Data} (hd : v.DirectoryAt R a d) (hl : v.FatChain a d l)
      (hk : k ∈ l) (hi : i < v.recordsPerCluster) (hsize : (a.data k).length = v.clusterSize)
      (hr : r.length = 64)
      (hfree : parseRecord (record (a.data k) i) (v.dataOffset k + i * 64) = none)
      (hnew : ∀ e, parseRecord r (v.dataOffset k + i * 64) = some e → put a d e ∧
        ∃ ls, v.FatChain a e.startCluster ls ∧ (∀ x ∈ ls, ¬ v.Live R a x) ∧
          (e.isDirectory = true → ∀ x ∈ ls, v.clusterEntries x (a.data x) = [])) :
      Step R put a (a.setData k (splice (a.data k) (i * 64) r))

abbrev Steps (R : List Nat) (put : ClusterStore → Nat → FATXDirectoryEntry → Prop) :
    ClusterStore → ClusterStore → Prop := Relation.ReflTransGen (v.Step R put)

variable {v} {put : ClusterStore → Nat → FATXDirectoryEntry → Prop}

theorem next_eq_of_fat (h : a'.fat c = a.fat c) : v.next a' c = v.next a c := by
  simp only [next, h]

theorem sameOn_of_detached (hc : ¬ v.Live R a c)
    (h : ∀ k, k ≠ c → a'.fat k = a.fat k ∧ a'.data k = a.data k) : v.SameOn (v.Live R a) a a' :=
  fun x hx =>
    have hne : x ≠ c := fun he => hc (he ▸ hx)
    ⟨next_eq_of_fat (h x hne).1, (h x hne).2⟩

theorem WellFormed.live_of_frame (hwf : v.WellFormed R a) (hs : v.SameOn (v.Live R a) a a')
    (h : v.Live R a' k) : v.Live R a k := by
  obtain ⟨hreach, _, _, _, hchain⟩ := hwf.frame hs
  obtain ⟨o, l, ho, hl, hk⟩ := h
  have ho' : v.Present R a o := by
    cases o with
    | root c => exact ho
    | entry e => exact (hreach e).mp ho
  obtain ⟨m, hm⟩ := hwf.chain o ho' hl.start_pos
  have hm' := hchain _ m hm fun x hx => ⟨o, m, ho', hm, hx⟩
  rw [hl.unique hm'] at hk
  exact ⟨o, m, ho', hm, hk⟩

/-! ### Growing a directory -/

theorem WellFormed.object_unique (hwf : v.WellFormed R a) {o o' : Object} (ho : v.Present R a o)
    (ho' : v.Present R a o') (h0 : o.start ≠ 0) (h : o.start = o'.start) : o = o' := by
  by_contra hne
  obtain ⟨l, hl⟩ := hwf.chain o ho h0
  exact hwf.disjoint o o' ho ho' hne l l hl (h ▸ hl) hl.1.head_mem hl.1.head_mem

section

variable (hl : v.FatChain a d l) (hk : l.getLast? = some k)

include hl hk

theorem FatChain.next_last : v.next a k = none := by
  rw [List.getLast?_eq_getLast_of_ne_nil hl.1.ne_nil, Option.some.injEq] at hk
  exact hk ▸ hl.1.next_getLast

theorem sameOn_of_grow_end
    (hn : v.isEndOfChain n = true) (P : Nat → Prop) : v.SameOn P a (a.setFat k n) := by
  intro x _
  refine ⟨?_, rfl⟩
  by_cases hx : x = k
  · subst hx
    rw [hl.next_last hk]
    simp [next, hn]
  · exact next_eq_of_fat (ClusterStore.setFat_fat_of_ne _ _ hx)

theorem FatChain.grow (hn : v.inRange n = true)
    (hnl : n ∉ l) (hend : v.isEndOfChain (a.fat n) = true) (hnum : v.isEndOfChain n = false) :
    v.FatChain (a.setFat k n) d (l ++ [n]) := by
  rw [List.getLast?_eq_getLast_of_ne_nil hl.1.ne_nil, Option.some.injEq] at hk
  have hkn : n ≠ k := fun he => hnl (he ▸ hk ▸ List.getLast_mem hl.1.ne_nil)
  refine ⟨hl.1.snoc ?_ ?_ ?_, ?_⟩
  · simp [next, ClusterStore.setFat_fat_of_ne _ _ hkn, hend]
  · rw [hk]
    simp [next, hnum]
  · intro x _ hx
    rw [hk] at hx
    exact next_eq_of_fat (ClusterStore.setFat_fat_of_ne _ _ hx)
  · intro x hx
    rcases List.mem_append.mp hx with hx | hx
    · exact hl.inRange hx
    · rw [List.mem_singleton.mp hx]
      exact hn

end

/-- **Growing a directory by an empty cluster** changes no directory's entries and gives the
cluster to the directory. -/
theorem WellFormed.grow (hwf : v.WellFormed R a) (hd : v.DirectoryAt R a d) (hl : v.FatChain a d l)
    (hk : l.getLast? = some k) (hn : v.inRange n = true) (hlive : ¬ v.Live R a n)
    (hend : v.isEndOfChain (a.fat n) = true) (hempty : v.clusterEntries n (a.data n) = []) :
    v.WellFormed R (a.setFat k n) ∧ v.Extends R a (a.setFat k n) ∧
      (∀ c, v.DirectoryAt R a c → v.entriesOf (a.setFat k n) c = v.entriesOf a c) ∧
      (∀ e, v.Reachable R (a.setFat k n) e ↔ v.Reachable R a e) ∧
      ∀ x, v.Live R (a.setFat k n) x → v.Live R a x ∨ x = n := by
  by_cases hnum : v.isEndOfChain n = true
  · have hs := sameOn_of_grow_end hl hk hnum (v.Live R a)
    obtain ⟨hreach, hwf', hext, hent, _⟩ := hwf.frame hs
    exact ⟨hwf', hext, hent, hreach, fun x hx => .inl (hwf.live_of_frame hs hx)⟩
  · have hnum : v.isEndOfChain n = false := by simpa using hnum
    have hkl : k ∈ l := List.mem_of_getLast? hk
    have hgrow := hl.grow hk hn (fun h => hlive (hd.live hl h)) hend hnum
    -- a chain that does not contain the changed cluster is untouched
    have hkeep : ∀ {c m}, v.FatChain a c m → m.Disjoint l → v.FatChain (a.setFat k n) c m :=
      fun hm hdis => hm.congr fun x hx =>
        next_eq_of_fat (ClusterStore.setFat_fat_of_ne _ _ fun he => hdis hx (he ▸ hkl))
    have hsame : ∀ {m : List Nat}, m.Disjoint l → v.SameOn (· ∈ m) a (a.setFat k n) :=
      fun hdis x hx =>
        ⟨next_eq_of_fat (ClusterStore.setFat_fat_of_ne _ _ fun he => hdis hx (he ▸ hkl)), rfl⟩
    have hent : ∀ c, v.DirectoryAt R a c → v.entriesOf (a.setFat k n) c = v.entriesOf a c := by
      intro c hc
      by_cases hcd : c = d
      · subst hcd
        rw [hgrow.entriesOf_eq, hl.entriesOf_eq, List.flatMap_append]
        simp [hempty]
      · obtain ⟨m, hm⟩ := hc.chain hwf
        exact hm.entriesOf_congr (hsame (hwf.disjoint_directories hc hd hcd hm hl))
    have hreach : ∀ e, v.Reachable R (a.setFat k n) e ↔ v.Reachable R a e := by
      intro e
      exact reachable_congr hent e
    have hpresent : ∀ o, v.Present R (a.setFat k n) o → v.Present R a o := by
      intro o ho
      cases o with
      | root c => exact ho
      | entry e => exact (hreach e).mp ho
    obtain ⟨od, hod, hods, hodd⟩ := hd.object
    -- the chain of an object: its old one, and the new cluster for the directory itself
    have hchain : ∀ o, v.Present R (a.setFat k n) o → o.start ≠ 0 →
        ∃ m', v.FatChain (a.setFat k n) o.start m' ∧ ∀ x ∈ m',
          (∃ m, v.Present R a o ∧ v.FatChain a o.start m ∧ x ∈ m) ∨ (o = od ∧ x = n) := by
      intro o ho h0
      by_cases hoo : o = od
      · grind
      · obtain ⟨m, hm⟩ := hwf.chain o (hpresent o ho) h0
        have hdis := hwf.disjoint o od (hpresent o ho) hod hoo m l hm (hods.symm ▸ hl)
        exact ⟨m, hkeep hm hdis, fun x hx => .inl ⟨m, hpresent o ho, hm, hx⟩⟩
    refine ⟨?_, ⟨fun c hc e he => by rw [hent c hc]; exact he, ?_⟩, hent, hreach, ?_⟩
    · refine hwf.of_fresh (fun o x => o = od ∧ x = n) ?_ ?_ hchain
      · rintro o x ⟨_, rfl⟩
        exact hlive
      · rintro o o' x ⟨rfl, _⟩ ⟨rfl, _⟩
        rfl
    · intro e he hf
      by_cases h0 : e.startCluster = 0
      · rw [contents_of_start_zero h0, contents_of_start_zero h0]
      · obtain ⟨m, hm⟩ := hwf.chain (.entry e) he h0
        exact FatChain.contents_congr hm (hsame (hwf.disjoint_file he hf hd hm hl))
    · rintro x ⟨o, m, ho, hm, hx⟩
      obtain ⟨m', hm', hmem⟩ := hchain o ho hm.start_pos
      rw [hm.unique hm'] at hx
      rcases hmem x hx with ⟨m'', hp, hm'', hx''⟩ | ⟨_, rfl⟩
      · exact .inl ⟨o, m'', hp, hm'', hx''⟩
      · exact .inr rfl

theorem fatChain_setData : v.FatChain (a.setData k block) c l ↔ v.FatChain a c l :=
  ⟨fun h => h.congr fun _ _ => rfl, fun h => h.congr fun _ _ => rfl⟩

theorem sameOn_setData {m : List Nat} (hk : k ∉ m) :
    v.SameOn (· ∈ m) a (a.setData k block) := fun _ hx =>
  ⟨rfl, ClusterStore.setData_data_of_ne _ _ fun he => hk (he ▸ hx)⟩

theorem FatChain.entriesOf_record (hl : v.FatChain a d l) (hk : k ∈ l)
    (hi : i < v.recordsPerCluster) (hsize : (a.data k).length = v.clusterSize)
    (hr : r.length = 64)
    (hfree : parseRecord (record (a.data k) i) (v.dataOffset k + i * 64) = none) :
    (v.entriesOf (a.setData k (splice (a.data k) (i * 64) r)) d).Perm
      ((parseRecord r (v.dataOffset k + i * 64)).toList ++ v.entriesOf a d) := by
  rw [hl.entriesOf_eq, (fatChain_setData.mpr hl).entriesOf_eq]
  have hne : ∀ j ∈ l, j ≠ k →
      v.clusterEntries j ((a.setData k (splice (a.data k) (i * 64) r)).data j)
        = v.clusterEntries j (a.data j) :=
    fun j _ hj => by rw [ClusterStore.setData_data_of_ne _ _ hj]
  cases hp : parseRecord r (v.dataOffset k + i * 64) with
  | none =>
    grind [List.flatMap_congr, ClusterStore.setData_data_self, clusterEntries_splice_none]
  | some e =>
    refine flatMap_perm_cons hl.1.nodup hk hne ?_
    simp [clusterEntries_splice_some, hsize, hi, hr, hfree, hp]

/-- **Filling an unused record** gives its directory the entry the record holds, and that entry
the clusters it names; nothing else changes. -/
theorem WellFormed.record (hwf : v.WellFormed R a) (hd : v.DirectoryAt R a d) (hl : v.FatChain a d l)
    (hk : k ∈ l) (hi : i < v.recordsPerCluster) (hsize : (a.data k).length = v.clusterSize) (hr : r.length = 64)
    (hfree : parseRecord (Fatx.record (a.data k) i) (v.dataOffset k + i * 64) = none)
    (hnew : ∀ e, parseRecord r (v.dataOffset k + i * 64) = some e →
      ∃ ls, v.FatChain a e.startCluster ls ∧ (∀ x ∈ ls, ¬ v.Live R a x) ∧
        (e.isDirectory = true → ∀ x ∈ ls, v.clusterEntries x (a.data x) = [])) :
    v.WellFormed R (a.setData k (splice (a.data k) (i * 64) r)) ∧
      v.Extends R a (a.setData k (splice (a.data k) (i * 64) r)) ∧
      (∀ c, v.DirectoryAt R a c → c ≠ d →
        v.entriesOf (a.setData k (splice (a.data k) (i * 64) r)) c = v.entriesOf a c) ∧
      (∀ e, v.Reachable R (a.setData k (splice (a.data k) (i * 64) r)) e ↔
        v.Reachable R a e ∨ parseRecord r (v.dataOffset k + i * 64) = some e) ∧
      ∀ x, v.Live R (a.setData k (splice (a.data k) (i * 64) r)) x → v.Live R a x ∨
        ∃ e ls, parseRecord r (v.dataOffset k + i * 64) = some e ∧
          v.FatChain a e.startCluster ls ∧ x ∈ ls := by
  have hperm := hl.entriesOf_record hk hi hsize hr hfree
  have hklive : v.Live R a k := hd.live hl hk
  generalize ha' : a.setData k (splice (a.data k) (i * 64) r) = a' at hperm ⊢
  have hchains : ∀ {c m}, v.FatChain a' c m ↔ v.FatChain a c m := ha' ▸ fatChain_setData
  have hsame : ∀ {m : List Nat}, k ∉ m → v.SameOn (· ∈ m) a a' := ha' ▸ sameOn_setData
  have hother : ∀ c, v.DirectoryAt R a c → c ≠ d → v.entriesOf a' c = v.entriesOf a c := by
    intro c hc hcd
    obtain ⟨m, hm⟩ := hc.chain hwf
    exact hm.entriesOf_congr (hsame fun hkm =>
      hwf.disjoint_directories hc hd hcd hm hl hkm hk)
  have hmem : ∀ c, v.DirectoryAt R a c → ∀ x, x ∈ v.entriesOf a' c ↔
      x ∈ v.entriesOf a c ∨ c = d ∧ parseRecord r (v.dataOffset k + i * 64) = some x := by
    grind
  have hreach : ∀ e, v.Reachable R a' e ↔
      v.Reachable R a e ∨ parseRecord r (v.dataOffset k + i * 64) = some e := by
    refine reachable_iff (fun _ _ => hd) hmem fun x hx hxd => ?_
    obtain ⟨ls, hls, hnl, hemp⟩ := hnew x hx
    rw [(hchains.mpr hls).entriesOf_eq, List.flatMap_eq_nil_iff]
    intro y hy
    rw [(hsame (fun hkm => hnl k hkm hklive) y hy).2]
    exact hemp hxd y hy
  -- every object of the new volume is an old one with its old chain, or the new entry
  have hchain : ∀ o, v.Present R a' o → o.start ≠ 0 → ∃ m', v.FatChain a' o.start m' ∧
      ∀ x ∈ m', (∃ m, v.Present R a o ∧ v.FatChain a o.start m ∧ x ∈ m) ∨
        ∃ e ls, o = .entry e ∧ parseRecord r (v.dataOffset k + i * 64) = some e ∧
          v.FatChain a e.startCluster ls ∧ x ∈ ls := by
    intro o ho h0
    have hcases : v.Present R a o ∨
        ∃ e, o = .entry e ∧ parseRecord r (v.dataOffset k + i * 64) = some e := by
      cases o with
      | root c => exact .inl ho
      | entry e => exact ((hreach e).mp ho).imp id fun h => ⟨e, rfl, h⟩
    rcases hcases with hp | ⟨e, rfl, he⟩
    · obtain ⟨m, hm⟩ := hwf.chain o hp h0
      exact ⟨m, hchains.mpr hm, fun x hx => .inl ⟨m, hp, hm, hx⟩⟩
    · obtain ⟨ls, hls, _⟩ := hnew e he
      exact ⟨ls, hchains.mpr hls, fun x hx => .inr ⟨e, ls, rfl, he, hls, hx⟩⟩
  refine ⟨?_, ⟨fun c hc e he => (hmem c hc e).mpr (.inl he), ?_⟩, hother, hreach, ?_⟩
  · refine hwf.of_fresh _ ?_ ?_ hchain
    · rintro o x ⟨e, ls, _, he, hls, hx⟩
      obtain ⟨ls', hls', hnl, _⟩ := hnew e he
      rw [hls.unique hls'] at hx
      exact hnl x hx
    · grind
  · intro e he hf
    by_cases h0 : e.startCluster = 0
    · rw [contents_of_start_zero h0, contents_of_start_zero h0]
    · obtain ⟨m, hm⟩ := hwf.chain (.entry e) he h0
      exact FatChain.contents_congr hm (hsame fun hkm => hwf.disjoint_file he hf hd hm hl hkm hk)
  · rintro x ⟨o, m, ho, hm, hx⟩
    obtain ⟨m', hm', hx'⟩ := hchain o ho hm.start_pos
    rw [hm.unique hm'] at hx
    rcases hx' x hx with ⟨m'', hp, hm'', hxm⟩ | ⟨e, ls, _, he, hls, hxl⟩
    · exact .inl ⟨o, m'', hp, hm'', hxm⟩
    · exact .inr ⟨e, ls, he, hls, hxl⟩

theorem Step.preserves (hwf : v.WellFormed R a) (h : v.Step R put a a') :
    v.WellFormed R a' ∧ v.Extends R a a' := by
  cases h with
  | detached c hc h =>
    obtain ⟨_, hwf', hext, _⟩ := hwf.frame (sameOn_of_detached hc h)
    exact ⟨hwf', hext⟩
  | grow hd hl hk hn hlive hend hempty =>
    obtain ⟨hwf', hext, _⟩ := hwf.grow hd hl hk hn hlive hend hempty
    exact ⟨hwf', hext⟩
  | record hd hl hk hi hsize hr hfree hnew =>
    obtain ⟨hwf', hext, _⟩ :=
      hwf.record hd hl hk hi hsize hr hfree fun e he => (hnew e he).2
    exact ⟨hwf', hext⟩

/-- **Every run of steps keeps the volume in order and everything on it in place.** -/
theorem Steps.preserves (hwf : v.WellFormed R a) (h : v.Steps R put a a') :
    v.WellFormed R a' ∧ v.Extends R a a' := by
  induction h with
  | refl => exact ⟨hwf, .refl a⟩
  | tail _ hstep ih =>
    obtain ⟨hwf1, hext1⟩ := ih
    obtain ⟨hwf2, hext2⟩ := hstep.preserves hwf1
    exact ⟨hwf2, hext1.trans hext2⟩

/-! ## One more root -/

variable {R' : List Nat}

theorem Reachable.mono (hR : R ⊆ R')
    (h : v.Reachable R a e) : v.Reachable R' a e := by
  induction h with
  | root hc he => exact .root (hR hc) he
  | child _ hd he ih => exact .child ih hd he

theorem Present.mono (hR : R ⊆ R') {o : Object} (h : v.Present R a o) :
    v.Present R' a o := by
  cases o with
  | root c => exact hR h
  | entry e => exact Reachable.mono hR h

theorem DirectoryAt.mono (hR : R ⊆ R') (h : v.DirectoryAt R a c) :
    v.DirectoryAt R' a c :=
  ⟨h.1, h.2.imp (fun hc => hR hc) fun ⟨e, he, hd, hs⟩ => ⟨e, he.mono hR, hd, hs⟩⟩

theorem WellFormed.anti (hR : R ⊆ R') (h : v.WellFormed R' a) : v.WellFormed R a where
  chain o ho := h.chain o (ho.mono hR)
  disjoint o o' ho ho' := h.disjoint o o' (ho.mono hR) (ho'.mono hR)

theorem Extends.anti (hR : R ⊆ R') (h : v.Extends R' a a') : v.Extends R a a' where
  entries c hc := h.entries c (hc.mono hR)
  contents e he := h.contents e (he.mono hR)

theorem Reachable.of_cons (hempty : v.entriesOf a c = [])
    (h : v.Reachable (c :: R) a e) : v.Reachable R a e := by
  induction h with
  | root hc he =>
    rcases List.mem_cons.mp hc with rfl | hc
    · rw [hempty] at he
      cases he
    · exact .root hc he
  | child _ hd he ih => exact .child ih hd he

theorem WellFormed.adopt (hwf : v.WellFormed R a) (hl : v.FatChain a c l)
    (hnl : ∀ x ∈ l, ¬ v.Live R a x) (hempty : v.entriesOf a c = []) : v.WellFormed (c :: R) a := by
  have hreach : ∀ e, v.Reachable (c :: R) a e → v.Reachable R a e := fun _ he => he.of_cons hempty
  have hpresent : ∀ o, v.Present (c :: R) a o → o = .root c ∨ v.Present R a o := by
    intro o ho
    cases o with
    | root k => exact (List.mem_cons.mp ho).imp (fun h => by rw [h]) id
    | entry e => exact .inr (hreach e ho)
  have hout : ∀ o m, v.Present R a o → v.FatChain a o.start m → l.Disjoint m :=
    fun o m ho hm x hx hx' => hnl x hx ⟨o, m, ho, hm, hx'⟩
  refine ⟨fun o ho h0 => ?_, fun o o' ho ho' hne m m' hm hm' => ?_⟩
  · rcases hpresent o ho with rfl | ho
    · exact ⟨l, hl⟩
    · exact hwf.chain o ho h0
  · rcases hpresent o ho with rfl | hp <;> rcases hpresent o' ho' with rfl | hp'
    · exact absurd rfl hne
    · rw [hm.unique hl]
      exact hout o' m' hp' hm'
    · rw [hm'.unique hl]
      exact (hout o m hp hm).symm
    · exact hwf.disjoint o o' hp hp' hne m m' hm hm'

variable (v)

inductive Advance (put : List Nat → ClusterStore → Nat → FATXDirectoryEntry → Prop) :
    List Nat × ClusterStore → List Nat × ClusterStore → Prop
  | step {R : List Nat} {a a' : ClusterStore} : v.Step R (put R) a a' → Advance put (R, a) (R, a')
  | adopt {R : List Nat} {a : ClusterStore} {c : Nat} {l : List Nat} : v.FatChain a c l →
      (∀ x ∈ l, ¬ v.Live R a x) → v.entriesOf a c = [] → Advance put (R, a) (c :: R, a)

abbrev Run (put : List Nat → ClusterStore → Nat → FATXDirectoryEntry → Prop) :
    List Nat × ClusterStore → List Nat × ClusterStore → Prop := Relation.ReflTransGen (v.Advance put)

variable {v}

variable {put : List Nat → ClusterStore → Nat → FATXDirectoryEntry → Prop}

theorem Steps.run
    (h : v.Steps R (put R) a a') : v.Run put (R, a) (R, a') := by
  induction h with
  | refl => exact .refl
  | tail _ hs ih => exact ih.tail (.step hs)

/-- **Every run keeps the volume in order and everything on it in place.** -/
theorem Run.preserves
    {x y : List Nat × ClusterStore} (hwf : v.WellFormed x.1 x.2) (h : v.Run put x y) :
    v.WellFormed y.1 y.2 ∧ v.Extends x.1 x.2 y.2 ∧ x.1 ⊆ y.1 := by
  induction h with
  | refl => exact ⟨hwf, .refl _, List.Subset.refl _⟩
  | tail _ hstep ih =>
    obtain ⟨hwf1, hext1, hsub1⟩ := ih
    cases hstep with
    | step hs =>
      obtain ⟨hwf2, hext2⟩ := hs.preserves hwf1
      exact ⟨hwf2, hext1.trans (hext2.anti hsub1), hsub1⟩
    | adopt hl hnl hempty =>
      exact ⟨hwf1.adopt hl hnl hempty, hext1, List.subset_cons_of_subset _ hsub1⟩

end FATXVolume

end DukeX.Fatx
