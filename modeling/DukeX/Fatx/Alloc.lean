import DukeX.Fatx.Step

/-!
# Allocation

What `allocateClusters` takes and what it leaves behind.
-/

namespace DukeX.Fatx

open DukeX.Lib DukeX.Swift

def ClusterStore.scan (a : ClusterStore) (count : Nat) :
    List Nat → List Nat → Except Halt (List Nat)
  | [], clusters => .ok clusters
  | c :: rest, clusters =>
    if clusters.length < count then
      if c = 0xFFFFFFFF then .error .trap
      else scan a count rest (if a.fat c = 0 then clusters ++ [c] else clusters)
    else .ok clusters

namespace FATXVolume

structure Allocated (a a' : ClusterStore) (cs : List Nat) : Prop where
  free : ∀ c ∈ cs, a.fat c = 0
  used : ∀ c ∈ cs, a'.fat c ≠ 0
  same : ∀ c, c ∉ cs → a'.fat c = a.fat c ∧ a'.data c = a.data c

variable (v : FATXVolume)

def Moves (R : List Nat) (put : ClusterStore → Nat → FATXDirectoryEntry → Prop) (d d' : Disk) : Prop :=
  v.Steps R put (v.view d.bytes) (v.view d'.bytes) ∧ (d.faults = [] → d'.faults = [])

def freeClusters (a : ClusterStore) : List Nat :=
  (List.range' 1 v.clusterCount).filter fun c => a.fat c = 0

def usable (a : ClusterStore) : List Nat :=
  (List.range' 1 v.clusterCount).filter fun c => a.fat c = 0 ∧ v.isEndOfChain c = false

def freeCount (a : ClusterStore) : Nat := (v.usable a).length

def linked (a : ClusterStore) : List Nat → ClusterStore
  | [] => a
  | c :: rest => linked ((a.setFat c (rest.head?.getD v.endOfChainValue)).setData c
      (List.replicate v.clusterSize 0)) rest

variable {v} {R : List Nat} {put : ClusterStore → Nat → FATXDirectoryEntry → Prop}
variable {a : ClusterStore} {d d' : Disk} {count : Nat} {cs : List Nat}

theorem Moves.of_quiet (h : d.Quiet d') : v.Moves R put d d' :=
  ⟨by rw [h.1], h.2.2⟩

theorem Moves.trans {d1 d2 d3 : Disk} (h : v.Moves R put d1 d2) (h' : v.Moves R put d2 d3) :
    v.Moves R put d1 d3 :=
  ⟨Relation.ReflTransGen.trans h.1 h'.1, fun hf => h'.2 (h.2 hf)⟩

theorem Moves.refl (d : Disk) : v.Moves R put d d := .of_quiet (.refl d)

theorem Moves.step (h : v.Step R put (v.view d.bytes) (v.view d'.bytes))
    (hf : d.faults = [] → d'.faults = []) : v.Moves R put d d' :=
  ⟨.single h, hf⟩

theorem Moves.wellFormed (h : v.Moves R put d d') (hwf : v.WellFormed R (v.view d.bytes)) :
    v.WellFormed R (v.view d'.bytes) := (h.1.preserves hwf).1

theorem Moves.extends (h : v.Moves R put d d') (hwf : v.WellFormed R (v.view d.bytes)) :
    v.Extends R (v.view d.bytes) (v.view d'.bytes) := (h.1.preserves hwf).2

variable {c : Nat} {a' : ClusterStore}

theorem mem_range'_iff : c ∈ List.range' 1 v.clusterCount ↔ v.inRange c = true := by
  rw [List.mem_range'_1, inRange_iff]
  omega

theorem mem_freeClusters : c ∈ v.freeClusters a ↔ v.inRange c = true ∧ a.fat c = 0 := by
  rw [freeClusters, List.mem_filter, mem_range'_iff]
  simp

theorem nodup_freeClusters : (v.freeClusters a).Nodup := (List.nodup_range' ..).filter _

theorem reads_allocateScan (rest cs : List Nat) (hrest : ∀ c ∈ rest, v.inRange c = true) :
    Reads (v.allocateScan count rest cs) (fun b => (v.view b).scan count rest cs) := by
  induction rest generalizing cs with
  | nil => exact .pure _
  | cons c rest ih =>
    unfold allocateScan ClusterStore.scan
    refine .ite ?_ (.pure _)
    exact (reads_readFAT (hrest c (by simp))).bind_ok (g := fun entry b =>
      if c = 0xFFFFFFFF then .error .trap
      else (v.view b).scan count rest (if entry = 0 then cs ++ [c] else cs))
      fun entry _ _ => .ite (.throw _) (ih _ fun k hk => hrest k (by simp [hk]))

theorem scan_ok {rest r : List Nat} (h : a.scan count rest cs = .ok r)
    (hcs : cs.length ≤ count) :
    r = cs ++ (rest.filter fun c => a.fat c = 0).take (count - cs.length) := by
  induction rest generalizing cs with
  | nil => cases h; simp
  | cons c rest ih =>
    unfold ClusterStore.scan at h
    by_cases hlt : cs.length < count
    · rw [if_pos hlt] at h
      split at h
      · cases h
      · by_cases hc : a.fat c = 0
        · rw [if_pos hc] at h
          rw [ih h (by simp; omega)]
          simp only [List.filter_cons, hc, decide_true, if_true, List.length_append,
            List.length_singleton, List.append_assoc, List.singleton_append]
          rw [show count - cs.length = (count - (cs.length + 1)) + 1 by omega, List.take_succ_cons]
        · grind
    · simp_all

theorem scan_error {rest : List Nat} (hsorted : rest.Pairwise (· < ·)) {e : Halt}
    (h : a.scan count rest cs = .error e) :
    cs.length + (rest.filter fun c => a.fat c = 0 ∧ v.isEndOfChain c = false).length < count := by
  induction rest generalizing cs with
  | nil => cases h
  | cons c rest ih =>
    unfold ClusterStore.scan at h
    by_cases hlt : cs.length < count
    · rw [if_pos hlt] at h
      have hsorted' := List.pairwise_cons.mp hsorted
      by_cases hc : c = 0xFFFFFFFF
      · -- everything from here on is at least the largest cluster number
        have hbig : ∀ x ∈ c :: rest, v.isEndOfChain x = true := by
          intro x hx
          have hx' : 0xFFFFFFFF ≤ x := by
            grind
          rw [isEndOfChain_iff]
          unfold endOfChainValue
          split <;> omega
        rw [List.filter_eq_nil_iff.mpr]
        · simpa using hlt
        · intro x hx
          simp [hbig x hx]
      · rw [if_neg hc] at h
        have := ih hsorted'.2 h
        by_cases hf : a.fat c = 0
        · rw [if_pos hf, List.length_append, List.length_singleton] at this
          grind
        · simp_all
    · rw [if_neg hlt] at h
      cases h

theorem freeClusters_eq : ∃ rest, v.freeClusters a = v.usable a ++ rest ∧
    ∀ c ∈ rest, v.isEndOfChain c = true := by
  suffices h : ∀ l : List Nat, l.Pairwise (· < ·) → ∃ rest,
      l.filter (fun c => a.fat c = 0) = l.filter (fun c => a.fat c = 0 ∧ v.isEndOfChain c = false)
        ++ rest ∧ ∀ c ∈ rest, v.isEndOfChain c = true from
    h _ List.pairwise_lt_range'
  intro l hl
  induction l with
  | nil => exact ⟨[], rfl, by simp⟩
  | cons c l ih =>
    obtain ⟨hlt, hl'⟩ := List.pairwise_cons.mp hl
    obtain ⟨rest, hr, hend⟩ := ih hl'
    by_cases he : v.isEndOfChain c = true
    · -- nothing usable can follow a number that reads as an end-of-chain mark
      have hbig : ∀ x ∈ l, v.isEndOfChain x = true := fun x hx =>
        isEndOfChain_iff.mpr ((isEndOfChain_iff.mp he).trans (hlt x hx).le)
      refine ⟨(c :: l).filter fun c => a.fat c = 0, ?_, ?_⟩
      · simp_all
      · simp_all
    · refine ⟨rest, ?_, hend⟩
      by_cases hf : a.fat c = 0 <;> simp [hf, he, hr]

theorem take_freeClusters (h : count ≤ v.freeCount a) :
    (v.freeClusters a).take count = (v.usable a).take count := by
  obtain ⟨rest, hr, _⟩ := freeClusters_eq (v := v) (a := a)
  rw [hr, List.take_append_of_le_length h]

/-! ## The chain it leaves -/

theorem linked_of_not_mem (h : c ∉ cs) :
    (v.linked a cs).fat c = a.fat c ∧ (v.linked a cs).data c = a.data c := by
  induction cs generalizing a with
  | nil => exact ⟨rfl, rfl⟩
  | cons x cs ih =>
    have hx : c ≠ x := fun he => h (by simp [he])
    obtain ⟨h1, h2⟩ := ih (a := (a.setFat x (cs.head?.getD v.endOfChainValue)).setData x
      (List.replicate v.clusterSize 0)) fun hm => h (by simp [hm])
    refine ⟨h1.trans ?_, h2.trans ?_⟩
    · exact ClusterStore.setFat_fat_of_ne _ _ hx
    · exact ClusterStore.setData_data_of_ne _ _ hx

theorem linked_data (h : c ∈ cs) : (v.linked a cs).data c = List.replicate v.clusterSize 0 := by
  induction cs generalizing a with
  | nil => cases h
  | cons x cs ih =>
    unfold linked
    by_cases hc : c ∈ cs
    · exact ih hc
    · rw [(linked_of_not_mem hc).2]
      simp_all

theorem linked_chain (c : Nat) (rest : List Nat) (hnd : (c :: rest).Nodup)
    (hin : ∀ x ∈ c :: rest, v.inRange x = true) :
    ∃ l, v.FatChain (v.linked a (c :: rest)) c l ∧ (∀ x ∈ l, x ∈ c :: rest) ∧
      ((∀ x ∈ rest, v.isEndOfChain x = false) → l = c :: rest) := by
  induction rest generalizing a c with
  | nil =>
    refine ⟨[c], ⟨.last ?_, by simpa using hin⟩, by simp, fun _ => rfl⟩
    simp [linked, next, isEndOfChain_endOfChainValue]
  | cons c' rest ih =>
    obtain ⟨hc, hnd'⟩ := List.nodup_cons.mp hnd
    have hfat : (v.linked a (c :: c' :: rest)).fat c = c' := by
      show (v.linked _ (c' :: rest)).fat c = c'
      simp [linked_of_not_mem, hc]
    by_cases he : v.isEndOfChain c' = true
    · refine ⟨[c], ⟨.last ?_, ?_⟩, by simp, fun h => ?_⟩
      · simp [next, hfat, he]
      · grind
      · rw [h c' (by simp)] at he
        cases he
    · obtain ⟨l, hl, hsub, hall⟩ := ih (a := (a.setFat c c').setData c
        (List.replicate v.clusterSize 0)) c' hnd' fun x hx => hin x (by simp [hx])
      refine ⟨c :: l, ⟨.cons ?_ hl.1, ?_⟩, ?_, ?_⟩
      · simp [next, hfat, he]
      · grind
      · grind
      · intro h
        rw [hall fun x hx => h x (by simp [hx])]

theorem clusterEntries_zero (k : Nat) :
    v.clusterEntries k (List.replicate v.clusterSize 0) = [] := by
  refine List.filterMap_eq_nil_iff.mpr fun i hi => parseRecord_of_free ?_
  rw [byte_record _ _ (by decide), byte]
  simp only [List.getD_eq_getElem?_getD, List.getElem?_replicate]
  split <;> simp [isFreeMark]

theorem linked_fat_ne_zero (hin : ∀ x ∈ cs, v.inRange x = true) (h : c ∈ cs) :
    (v.linked a cs).fat c ≠ 0 := by
  induction cs generalizing a with
  | nil => cases h
  | cons x cs ih =>
    unfold linked
    by_cases hc : c ∈ cs
    · exact ih (fun y hy => hin y (by simp [hy])) hc
    · rw [(linked_of_not_mem hc).1]
      obtain rfl : c = x := (List.mem_cons.mp h).resolve_right hc
      rw [ClusterStore.setData_fat, ClusterStore.setFat_fat_self]
      cases cs with
      | nil => exact Nat.pos_iff_ne_zero.mp v.endOfChainValue_pos
      | cons y cs =>
        have := inRange_iff.mp (hin y (by simp))
        simp only [List.head?_cons, Option.getD_some]
        omega

theorem allocated_linked (hin : ∀ x ∈ cs, v.inRange x = true) (hfree : ∀ x ∈ cs, a.fat x = 0) :
    Allocated a (v.linked a cs) cs :=
  ⟨hfree, fun _ hc => linked_fat_ne_zero hin hc, fun _ hc => linked_of_not_mem hc⟩

theorem allocated_single {n : Nat} (hn : v.inRange n = true) (hfree : a.fat n = 0) :
    Allocated a (v.linked a [n]) [n] :=
  allocated_linked (by simpa using hn) (by simpa using hfree)

theorem Allocated.sameOn (h : Allocated a a' cs) :
    v.SameOn (v.Live R a) a a' := fun x hx =>
  have hx : x ∉ cs := fun hm => not_live_of_free (h.free x hm) hx
  ⟨next_eq_of_fat (h.same x hx).1, (h.same x hx).2⟩

theorem Allocated.usable (h : Allocated a a' cs) :
    v.usable a' = (v.usable a).filter fun c => c ∉ cs := by
  rw [FATXVolume.usable, FATXVolume.usable, List.filter_filter]
  refine List.filter_congr fun c _ => ?_
  by_cases hc : c ∈ cs
  · simp [hc, h.used c hc]
  · simp [hc, (h.same c hc).1]

theorem Allocated.freeCount (h : Allocated a a' cs)
    (hcs : cs = (v.usable a).take count) : v.freeCount a' = v.freeCount a - count := by
  have hnd : ((v.usable a).take count ++ (v.usable a).drop count).Nodup := by
    rw [List.take_append_drop]
    exact (List.nodup_range' ..).filter _
  have hdrop : (v.usable a).filter (fun c => c ∉ cs) = (v.usable a).drop count := by
    rw [hcs]
    conv_lhs => arg 2; rw [← List.take_append_drop count (v.usable a)]
    rw [List.filter_append, List.filter_eq_nil_iff.mpr (by simp), List.nil_append,
      List.filter_eq_self]
    intro x hx
    simpa using fun hm => (List.nodup_append.mp hnd).2.2 x hm x hx rfl
  rw [FATXVolume.freeCount, h.usable, hdrop, List.length_drop]
  rfl

theorem wp_detached {m k : DiskM Unit} {Q : Disk → Prop} (hwf : v.WellFormed R (v.view d.bytes))
    (hdead : ¬ v.Live R (v.view d.bytes) c)
    (hm : wp m (fun _ d' => v.view d'.bytes = a' ∧ d'.stamps = d.stamps ∧ (d.faults = [] → d'.faults = []))
      (fun e d' => d.Quiet d' ∧ e = .io ∧ d.faults ≠ []) d)
    (hoff : ∀ k, k ≠ c → a'.fat k = (v.view d.bytes).fat k ∧ a'.data k = (v.view d.bytes).data k)
    (hk : ∀ d1, v.view d1.bytes = a' → v.WellFormed R a' →
      (∀ x, ¬ v.Live R (v.view d.bytes) x → ¬ v.Live R a' x) →
      wp k (fun _ d' => v.Moves R put d1 d' ∧ Q d') (fun _ d' => v.Moves R put d1 d' ∧ d1.faults ≠ []) d1) :
    wp (do m; k) (fun _ d' => v.Moves R put d d' ∧ Q d')
      (fun _ d' => v.Moves R put d d' ∧ d.faults ≠ []) d := by
  refine wp_seq hm ?_ fun e d1 h => ⟨.of_quiet h.1, h.2.2⟩
  rintro _ d1 ⟨rfl, _, hf⟩
  have hsame := sameOn_of_detached hdead hoff
  have hm1 : v.Moves R put d d1 := .step (.detached c hdead hoff) hf
  refine wp_mono (hk d1 rfl (hm1.wellFormed hwf) fun x hx hl => hx (hwf.live_of_frame hsame hl)) ?_ ?_
  · rintro _ d2 ⟨hm2, hQ⟩
    exact ⟨hm1.trans hm2, hQ⟩
  · rintro e d2 ⟨hm2, hne⟩
    exact ⟨hm1.trans hm2, fun h0 => hne (hm1.2 h0)⟩

variable (put) in
theorem wp_linkClusters (hwf : v.WellFormed R (v.view d.bytes))
    (hin : ∀ c ∈ cs, v.inRange c = true) (hnl : ∀ c ∈ cs, ¬ v.Live R (v.view d.bytes) c) :
    wp (v.linkClusters cs)
      (fun _ d' => v.Moves R put d d' ∧ v.view d'.bytes = v.linked (v.view d.bytes) cs)
      (fun _ d' => v.Moves R put d d' ∧ d.faults ≠ []) d := by
  induction cs generalizing d with
  | nil => exact ⟨.refl d, rfl⟩
  | cons c rest ih =>
    have hc : v.inRange c = true := hin c (by simp)
    have hx : rest.head?.getD v.endOfChainValue < 256 ^ v.entrySize := by
      cases rest with
      | nil => exact endOfChainValue_lt
      | cons y rest => exact inRange_lt (hin y (by simp))
    unfold linkClusters
    refine wp_detached hwf (hnl c (by simp)) (wp_writeFAT hc hx d)
      (fun k hk => ⟨ClusterStore.setFat_fat_of_ne _ _ hk, rfl⟩) fun d1 hv1 hwf1 hdead1 => ?_
    rw [← hv1] at hwf1 hdead1
    refine wp_detached hwf1 (hdead1 c (hnl c (by simp))) (wp_writeCluster hc (by simp) d1)
      (fun k hk => ⟨rfl, ClusterStore.setData_data_of_ne _ _ hk⟩) fun d2 hv2 hwf2 hdead2 => ?_
    rw [linked, ← hv1, ← hv2]
    exact ih (hv2 ▸ hwf2) (fun x hx => hin x (by simp [hx]))
      fun x hx => hv2 ▸ hdead2 x (hdead1 x (hnl x (by simp [hx])))

variable (put) in
/-- **What `allocateClusters` does**: it takes the first free clusters and chains them, or gives
up with a run of detached steps; without faults it gives up only for want of usable clusters. -/
theorem wp_allocateClusters (hwf : v.WellFormed R (v.view d.bytes)) (hcount : 0 < count) :
    wp (v.allocateClusters count)
      (fun cs d' => v.Moves R put d d' ∧ cs = (v.freeClusters (v.view d.bytes)).take count ∧
        cs.length = count ∧ v.view d'.bytes = v.linked (v.view d.bytes) cs)
      (fun _ d' => v.Moves R put d d' ∧ (d.faults = [] → v.freeCount (v.view d.bytes) < count)) d := by
  unfold allocateClusters
  rw [if_pos hcount]
  refine wp_seq (reads_allocateScan _ [] (fun c hc => mem_range'_iff.mp hc) d) ?_ ?_
  · rintro cs d1 ⟨hq, hscan⟩
    have hcs := scan_ok hscan (by simp)
    simp only [List.nil_append, List.length_nil, Nat.sub_zero] at hcs
    have hcs : cs = (v.freeClusters (v.view d.bytes)).take count := hcs
    refine wp_ite (fun hlen => ?_) fun hlen => ?_
    · have hmem : ∀ c ∈ cs, v.inRange c = true ∧ (v.view d.bytes).fat c = 0 := fun c hc =>
        mem_freeClusters.mp (List.mem_of_mem_take (hcs ▸ hc))
      have hwf1 : v.WellFormed R (v.view d1.bytes) := hq.1 ▸ hwf
      refine wp_seq (wp_linkClusters put hwf1 (fun c hc => (hmem c hc).1)
        fun c hc => by rw [hq.1]; exact not_live_of_free (hmem c hc).2) ?_ ?_
      · rintro _ d2 ⟨hm, hv⟩
        exact ⟨(Moves.of_quiet hq).trans hm, hcs, hlen, by rw [hv, hq.1]⟩
      · rintro e d2 ⟨hm, hne⟩
        exact ⟨(Moves.of_quiet hq).trans hm, fun h0 => absurd (hq.2.2 h0) hne⟩
    · refine ⟨.of_quiet hq, fun _ => ?_⟩
      obtain ⟨rest, hr, _⟩ := freeClusters_eq (v := v) (a := v.view d.bytes)
      grind [freeCount]
  · rintro e d1 ⟨hq, he⟩
    refine ⟨.of_quiet hq, fun h0 => ?_⟩
    rcases he with he | ⟨_, hne⟩
    · simpa [freeCount, usable] using scan_error List.pairwise_lt_range' he
    · exact absurd h0 hne

end FATXVolume

end DukeX.Fatx
