import DukeX.Fatx.Alloc

/-!
# Directory slots

A new directory entry goes to the first unused record of its directory, and if there is none, to the
first record of a cluster hung at the end of it.
-/

namespace DukeX.Fatx

open DukeX.Lib DukeX.Swift

/-! ## The bytes of a record -/

theorem getD_setByte_of_ne {data : Data} {offset value i : Nat} (h : i ≠ offset) :
    (setByte data offset value).getD i 0 = data.getD i 0 := by
  simp [setByte, Ne.symm, h]

theorem getD_writeUInt16LE_of_lt {data : Data} {offset value i : Nat} (h : i < offset) :
    (writeUInt16LE data value offset).getD i 0 = data.getD i 0 := by
  rw [writeUInt16LE, getD_setByte_of_ne (by omega), getD_setByte_of_ne (by omega)]

theorem getD_writeUInt32LE_of_lt {data : Data} {offset value i : Nat} (h : i < offset) :
    (writeUInt32LE data value offset).getD i 0 = data.getD i 0 := by
  rw [writeUInt32LE, getD_writeUInt16LE_of_lt (by omega), getD_writeUInt16LE_of_lt h]

namespace FATXVolume

section Record

variable {entry : FATXDirectoryEntry} {ts : Nat × Nat}

theorem length_take_name (name : String) : ((utf8 name).take 42).length ≤ 42 :=
  List.length_take_le ..

@[simp] theorem length_recordFor : (recordFor entry ts).length = 64 := by
  have := length_take_name entry.name
  simp only [recordFor, length_writeUInt16LE, length_writeUInt32LE]
  rw [length_splice (by simp; omega)]
  simp

theorem getD_recordFor {i : Nat} (hi : i < 44) :
    (recordFor entry ts).getD i 0 =
      (splice (((setByte (List.replicate 64 0xFF) 0 ((utf8 entry.name).take 42).length).set 1
        entry.attributes)) 2 ((utf8 entry.name).take 42)).getD i 0 := by
  simp (disch := omega) only [recordFor, getD_writeUInt16LE_of_lt, getD_writeUInt32LE_of_lt]

theorem byte_recordFor_zero : byte (recordFor entry ts) 0 = ((utf8 entry.name).take 42).length := by
  have := length_take_name entry.name
  rw [byte, getD_recordFor (by omega), getD_splice_outside (by simp; omega) (by omega)]
  have hset : ∀ d : Data, ((d.set 1 entry.attributes).getD 0 0).toNat = byte d 0 := fun d => by
    simp [byte, List.getD_eq_getElem?_getD, List.getElem?_set_ne]
  rw [hset, byte_setByte, if_pos (by simp)]
  omega

theorem attributes_recordFor : (recordFor entry ts).getD 1 0 = entry.attributes := by
  have := length_take_name entry.name
  rw [getD_recordFor (by omega), getD_splice_outside (by simp; omega) (by omega)]
  simp [List.getD_eq_getElem?_getD]

theorem name_recordFor : ((recordFor entry ts).drop 2).take ((utf8 entry.name).take 42).length
    = (utf8 entry.name).take 42 := by
  have hle := length_take_name entry.name
  refine List.ext_getElem ?_ fun i h1 h2 => ?_
  · simp_all
  · have key : (recordFor entry ts).getD (2 + i) 0 = ((utf8 entry.name).take 42).getD i 0 := by
      rw [getD_recordFor (by omega), getD_splice_inside (by simp; omega) h2]
    have hlt : 2 + i < (recordFor entry ts).length := by rw [length_recordFor]; omega
    rw [List.getD_eq_getElem _ _ hlt, List.getD_eq_getElem _ _ h2] at key
    simpa using key

theorem startCluster_recordFor (h : entry.startCluster < 2 ^ 32) :
    uint32LE (recordFor entry ts) 44 = entry.startCluster := by
  have := length_take_name entry.name
  simp (disch := omega) only [recordFor, uint32LE_writeUInt16LE_of_disjoint,
    uint32LE_writeUInt32LE_of_disjoint]
  rw [uint32LE_writeUInt32LE _ h]
  rw [length_splice (by simp; omega)]
  simp

theorem size_recordFor (h : entry.size < 2 ^ 32) :
    uint32LE (recordFor entry ts) 48 = entry.size := by
  have := length_take_name entry.name
  simp (disch := omega) only [recordFor, uint32LE_writeUInt16LE_of_disjoint]
  rw [uint32LE_writeUInt32LE _ h]
  rw [length_writeUInt32LE, length_splice (by simp; omega)]
  simp

def stored (entry : FATXDirectoryEntry) (ts : Nat × Nat) (offset : Nat) : FATXDirectoryEntry :=
  { entry with
    entryOffset := offset
    modifiedDate := dateFromFAT (uint16LE (recordFor entry ts) 56) (uint16LE (recordFor entry ts) 58) }

/-- **A storable entry reads back as written.** -/
theorem parseRecord_recordFor (hname : isStorable entry.name = true) (hsize : entry.size < 2 ^ 32)
    (hstart : entry.startCluster < 2 ^ 32) (o : Nat) :
    parseRecord (recordFor entry ts) o = some (stored entry ts o) := by
  simp only [isStorable, Bool.and_eq_true, Bool.not_eq_true', decide_eq_true_eq] at hname
  obtain ⟨hne, hle⟩ := hname
  have htake : (utf8 entry.name).take 42 = utf8 entry.name := List.take_of_length_le hle
  have h0 : (utf8 entry.name).length ≠ 0 := fun h => by
    rw [utf8_eq_nil_iff.mp (List.length_eq_zero_iff.mp h)] at hne
    cases hne
  have hname : ((recordFor entry ts).drop 2).take ((utf8 entry.name).take 42).length
      = (utf8 entry.name).take 42 := name_recordFor
  unfold parseRecord
  rw [byte_recordFor_zero]
  rw [htake] at hname ⊢
  simp only [hname, stringFromUTF8_utf8, hne, attributes_recordFor, size_recordFor hsize,
    startCluster_recordFor hstart]
  rw [if_neg h0, if_neg (by omega), if_neg (by omega)]
  rfl

theorem of_parseRecord_recordFor (hstart : entry.startCluster < 2 ^ 32) {o : Nat}
    {e : FATXDirectoryEntry} (h : parseRecord (recordFor entry ts) o = some e) :
    e.startCluster = entry.startCluster ∧ e.attributes = entry.attributes := by
  obtain ⟨_, hs, ha, _⟩ := of_parseRecord h
  exact ⟨hs.trans (startCluster_recordFor hstart), ha.trans attributes_recordFor⟩

end Record

/-! ## What a change to one directory leaves alone -/

variable (v : FATXVolume)

/-- Of the clusters in use, only those of directory `d` were written to. -/
structure Confined (a a' : ClusterStore) (d : Nat) : Prop where
  used : ∀ k, a.fat k ≠ 0 → a'.fat k ≠ 0
  same : ∀ k, a.fat k ≠ 0 → k ∉ v.chainOf a d → a'.fat k = a.fat k ∧ a'.data k = a.data k
  chain : ∀ k ∈ v.chainOf a' d, k ∈ v.chainOf a d ∨ a.fat k = 0

def freeSlots (a : ClusterStore) (l : List Nat) : List (Nat × Nat) :=
  (l ×ˢ List.range v.recordsPerCluster).filter fun p => isFreeMark (byte (a.data p.1) (p.2 * 64))

def room (a : ClusterStore) (d : Nat) : Nat := (v.freeSlots a (v.chainOf a d)).length

variable {v} {R : List Nat} {put : ClusterStore → Nat → FATXDirectoryEntry → Prop}
variable {a a' : ClusterStore} {d k n i : Nat} {l ls cs : List Nat}

theorem Confined.refl (a : ClusterStore) (d : Nat) : v.Confined a a d :=
  ⟨fun _ h => h, fun _ _ _ => ⟨rfl, rfl⟩, fun _ h => .inl h⟩

theorem Confined.trans {a1 a2 a3 : ClusterStore} (h : v.Confined a1 a2 d)
    (h' : v.Confined a2 a3 d) : v.Confined a1 a3 d where
  used k hk := h'.used k (h.used k hk)
  same k hk hd := by
    obtain ⟨hf, hdata⟩ := h.same k hk hd
    have hd' : k ∉ v.chainOf a2 d := fun hm => (h.chain k hm).elim hd hk
    obtain ⟨hf', hdata'⟩ := h'.same k (h.used k hk) hd'
    exact ⟨hf'.trans hf, hdata'.trans hdata⟩
  chain k hk := by
    rcases h'.chain k hk with hk | hk
    · exact h.chain k hk
    · exact .inr (by_contra fun hne => h.used k hne hk)

theorem Confined.sameOn (h : v.Confined a a' d) (hused : ∀ k ∈ ls, a.fat k ≠ 0)
    (hout : ∀ k ∈ ls, k ∉ v.chainOf a d) : v.SameOn (· ∈ ls) a a' := fun k hk =>
  let ⟨hf, hdata⟩ := h.same k (hused k hk) (hout k hk)
  ⟨next_eq_of_fat hf, hdata⟩

theorem Allocated.fatChain (h : Allocated a a' cs) (hl : v.FatChain a d l) : v.FatChain a' d l :=
  hl.congr fun x hx =>
    next_eq_of_fat (h.same x fun hm => hl.fat_ne_zero hx (h.free x hm)).1

theorem Allocated.confined (h : Allocated a a' cs) (hl : v.FatChain a d l) :
    v.Confined a a' d := by
  have hsame : ∀ k, a.fat k ≠ 0 → k ∉ cs := fun k hk hm => hk (h.free k hm)
  refine ⟨fun k hk => ?_, fun k hk _ => h.same k (hsame k hk), fun k hk => .inl ?_⟩
  · rw [(h.same k (hsame k hk)).1]
    exact hk
  · rwa [(h.fatChain hl).chainOf_eq, ← hl.chainOf_eq] at hk

theorem mem_freeSlots {p : Nat × Nat} : p ∈ v.freeSlots a l ↔
    p.1 ∈ l ∧ p.2 < v.recordsPerCluster ∧ isFreeMark (byte (a.data p.1) (p.2 * 64)) = true := by
  obtain ⟨k, i⟩ := p
  simp only [freeSlots, List.mem_filter, List.mem_product, List.mem_range, and_assoc]

theorem parseRecord_of_mem_freeSlots {p : Nat × Nat} (h : p ∈ v.freeSlots a l) (o : Nat) :
    parseRecord (record (a.data p.1) p.2) o = none := by
  refine parseRecord_of_free ?_
  rw [byte_record _ _ (by decide)]
  exact (mem_freeSlots.mp h).2.2

theorem freeSlots_congr (h : ∀ x ∈ l, a'.data x = a.data x) : v.freeSlots a' l = v.freeSlots a l :=
  List.filter_congr fun p hp => by rw [h p.1 (List.mem_product.mp hp).1]

theorem length_freeSlots_record (hnd : l.Nodup) (hp : (k, i) ∈ v.freeSlots a l)
    (hsize : (a.data k).length = v.clusterSize) {r : Data} (hr : r.length = 64)
    (hmark : isFreeMark (byte r 0) = false) :
    (v.freeSlots (a.setData k (splice (a.data k) (i * 64) r)) l).length
      = (v.freeSlots a l).length - 1 := by
  have hi : i < v.recordsPerCluster := (mem_freeSlots.mp hp).2.1
  have hsize' : (a.data k).length = 64 * v.recordsPerCluster := by
    rw [hsize, recordsPerCluster_mul]
  have hbyte : ∀ j, byte (splice (a.data k) (i * 64) r) (j * 64)
      = if j = i then byte r 0 else byte (a.data k) (j * 64) := fun j => by
    have := byte_record (splice (a.data k) (i * 64) r) j (j := 0) (by decide)
    rw [Nat.add_zero] at this
    rw [← this, record_splice hsize' hi hr]
    split
    · rfl
    · rw [byte_record _ _ (by decide), Nat.add_zero]
  have hfilter : v.freeSlots (a.setData k (splice (a.data k) (i * 64) r)) l
      = (v.freeSlots a l).filter fun p => p != (k, i) := by
    rw [freeSlots, freeSlots, List.filter_filter]
    grind [ClusterStore.setData_data_self, ClusterStore.setData_data_of_ne]
  have hnd' : (v.freeSlots a l).Nodup := (hnd.product List.nodup_range).filter _
  rw [hfilter, ← hnd'.erase_eq_filter, List.length_erase_of_mem hp]

theorem reads_freeSlotLoop (l : List Nat) (hl : ∀ c ∈ l, v.inRange c = true) :
    Reads (v.freeSlotLoop l) (fun b => .ok ((v.freeSlots (v.view b) l).head?.map
      fun p => v.dataOffset p.1 + p.2 * 64)) := by
  induction l with
  | nil => exact .pure _
  | cons c l ih =>
    have hcons : ∀ b, (v.freeSlots (v.view b) (c :: l)).head? =
        ((v.freeRecord (b.read (v.dataOffset c) v.clusterSize)).map fun i => (c, i)).or
          (v.freeSlots (v.view b) l).head? := fun b => by
      simp [freeSlots, freeRecord, view_data, hl]
    unfold freeSlotLoop
    refine (reads_readImage _ _).bind_ok (g := fun data b =>
      (v.freeRecord data).elim
        (.ok ((v.freeSlots (v.view b) l).head?.map fun p => v.dataOffset p.1 + p.2 * 64))
        fun index => .ok (some (v.dataOffset c + index * 64)))
      (fun data _ _ => ?_) |>.congr fun b => ?_
    · cases v.freeRecord data with
      | some index => exact .pure _
      | none => exact ih fun k hk => hl k (by simp [hk])
    · rw [hcons]
      cases v.freeRecord (b.read (v.dataOffset c) v.clusterSize) <;> rfl

/-! ## Growing a directory -/

theorem usable_congr (h : ∀ c, a'.fat c = 0 ↔ a.fat c = 0) : v.usable a' = v.usable a :=
  List.filter_congr fun c _ => by simp only [h c]

variable (v)

def grown (a : ClusterStore) (k n : Nat) : ClusterStore := (v.linked a [n]).setFat k n

variable {v}

theorem grown_fat_of_ne (hk : i ≠ k) (hn : i ≠ n) : (v.grown a k n).fat i = a.fat i := by
  rw [grown, ClusterStore.setFat_fat_of_ne _ _ hk, (linked_of_not_mem (by simpa using hn)).1]

theorem grown_fat_new (hne : n ≠ k) : (v.grown a k n).fat n = v.endOfChainValue := by
  rw [grown, ClusterStore.setFat_fat_of_ne _ _ hne]
  simp [linked]

theorem grown_data_of_ne (hn : i ≠ n) : (v.grown a k n).data i = a.data i := by
  rw [grown, ClusterStore.setFat_data, (linked_of_not_mem (by simpa using hn)).2]

theorem grown_data_new : (v.grown a k n).data n = List.replicate v.clusterSize 0 := by
  rw [grown, ClusterStore.setFat_data, linked_data (by simp)]

section

variable (hl : v.FatChain a d l) (hk : l.getLast? = some k) (hn : v.inRange n = true)
  (hfree : a.fat n = 0)

include hl hk hn hfree

theorem FatChain.grown (hnum : v.isEndOfChain n = false) :
    v.FatChain (v.grown a k n) d (l ++ [n]) := by
  have hnl : n ∉ l := fun hm => hl.fat_ne_zero hm hfree
  have hl1 := (allocated_single hn hfree).fatChain hl
  exact hl1.grow hk hn hnl (by simp [linked, isEndOfChain_endOfChainValue]) hnum

theorem FatChain.grown_end (hnum : v.isEndOfChain n = true) : v.FatChain (v.grown a k n) d l := by
  have hl1 := (allocated_single hn hfree).fatChain hl
  exact hl1.congr fun x hx => (sameOn_of_grow_end hl1 hk hnum (· ∈ l) x hx).1

theorem confined_grown
    : v.Confined a (v.grown a k n) d := by
  have hkl : k ∈ l := List.mem_of_getLast? hk
  have hne : ∀ {x}, a.fat x ≠ 0 → x ≠ n := fun hx he => hx (he ▸ hfree)
  refine ⟨fun x hx => ?_, fun x hx hd => ?_, fun x hx => ?_⟩
  · by_cases hxk : x = k
    · subst hxk
      have := inRange_iff.mp hn
      rw [FATXVolume.grown, ClusterStore.setFat_fat_self]
      omega
    · rw [grown_fat_of_ne hxk (hne hx)]
      exact hx
  · rw [hl.chainOf_eq] at hd
    exact ⟨grown_fat_of_ne (fun he => hd (he ▸ hkl)) (hne hx), grown_data_of_ne (hne hx)⟩
  · rw [hl.chainOf_eq]
    by_cases hnum : v.isEndOfChain n = true
    · rw [(hl.grown_end hk hn hfree hnum).chainOf_eq] at hx
      exact .inl hx
    · rw [(hl.grown hk hn hfree (by simpa using hnum)).chainOf_eq] at hx
      grind

end

theorem usable_grown (hk : a.fat k ≠ 0) (hn : v.inRange n = true) (hfree : a.fat n = 0) :
    v.usable (v.grown a k n) = v.usable (v.linked a [n]) := by
  have hkn : k ≠ n := fun he => hk (he ▸ hfree)
  have := inRange_iff.mp hn
  grind [usable_congr, FATXVolume.grown, ClusterStore.setFat_fat_self, linked_of_not_mem,
    ClusterStore.setFat_fat_of_ne]

theorem length_freeSlots_zero (h : a.data n = List.replicate v.clusterSize 0) :
    (v.freeSlots a [n]).length = v.recordsPerCluster := by
  have hall : v.freeSlots a [n] = [n] ×ˢ List.range v.recordsPerCluster := by
    refine List.filter_eq_self.mpr ?_
    rintro ⟨k, i⟩ hp
    obtain ⟨hk, _⟩ := List.mem_product.mp hp
    rw [List.mem_singleton.mp hk, h, byte]
    simp only [List.getD_eq_getElem?_getD, List.getElem?_replicate]
    split <;> simp [isFreeMark]
  rw [hall, List.length_product]
  simp

theorem freeSlots_append (l l' : List Nat) :
    v.freeSlots a (l ++ l') = v.freeSlots a l ++ v.freeSlots a l' := by
  simp only [freeSlots]
  rw [show (l ++ l') ×ˢ List.range v.recordsPerCluster = l ×ˢ List.range v.recordsPerCluster ++
    l' ×ˢ List.range v.recordsPerCluster from List.flatMap_append .., List.filter_append]

variable (v)

inductive SlotFound (a : ClusterStore) (l : List Nat) : ClusterStore → Nat → Nat → Prop
  | here {k i : Nat} : (v.freeSlots a l).head? = some (k, i) → SlotFound a l a k i
  | grown {k n : Nat} : v.freeSlots a l = [] → l.getLast? = some k → v.inRange n = true →
      a.fat n = 0 → (v.freeClusters a).take 1 = [n] → SlotFound a l (v.grown a k n) n 0

variable {v} {s : Disk}

theorem setFat_eq_self {a : ClusterStore} {c x : Nat} (h : a.fat c = x) : a.setFat c x = a := by
  cases a
  simp only [ClusterStore.setFat] at h ⊢
  rw [← h, Function.update_eq_self]

variable (put) in
theorem wp_appendCluster (hwf : v.WellFormed R (v.view s.bytes))
    (hd : v.DirectoryAt R (v.view s.bytes) d) (hl : v.FatChain (v.view s.bytes) d l) :
    wp (v.appendCluster d)
      (fun n s' => v.Moves R put s s' ∧ ∃ k, l.getLast? = some k ∧ v.inRange n = true ∧
        (v.view s.bytes).fat n = 0 ∧ (v.freeClusters (v.view s.bytes)).take 1 = [n] ∧
        v.view s'.bytes = v.grown (v.view s.bytes) k n)
      (fun _ s' => v.Moves R put s s' ∧ (s.faults = [] → v.freeCount (v.view s.bytes) = 0)) s := by
  unfold appendCluster
  refine wp_seq (reads_clusterChain d s) ?_ ?_
  · rintro chain s1 ⟨hq1, hchain⟩
    have hm1 : v.Moves R put s s1 := .of_quiet hq1
    obtain rfl : l = chain := by rw [← hl.chainOf_eq]; exact Except.ok.inj hchain
    obtain ⟨k, hk⟩ : ∃ k, l.getLast? = some k :=
      ⟨_, List.getLast?_eq_getLast_of_ne_nil hl.1.ne_nil⟩
    have hkl : k ∈ l := List.mem_of_getLast? hk
    rw [hk]
    refine wp_seq (wp_allocateClusters put (hq1.1 ▸ hwf) Nat.one_pos) ?_ ?_
    · rintro cs s2 ⟨hm2, hcs, hlen, hv2⟩
      rw [hq1.1] at hcs hv2
      obtain ⟨n, rfl⟩ := List.length_eq_one_iff.mp hlen
      obtain ⟨hn, hfree⟩ := mem_freeClusters.mp (List.mem_of_mem_take (hcs ▸ List.mem_singleton_self n))
      have hkn : n ≠ k := fun he => hl.fat_ne_zero hkl (he ▸ hfree)
      have hs := (allocated_single hn hfree).sameOn (R := R) (v := v)
      obtain ⟨_, hwf2, hext, _, hchains⟩ := hwf.frame hs
      -- linking the new cluster in is the growth step
      have hgrow : v.Step R put (v.view s2.bytes) (v.grown (v.view s.bytes) k n) := by
        rw [hv2]
        exact .grow (hext.directoryAt hd) (hchains d l hl fun x hx => hd.live hl hx) hk hn
          (fun hlive => not_live_of_free hfree (hwf.live_of_frame hs hlive))
          (by simp [linked, isEndOfChain_endOfChainValue])
          (by rw [linked_data (by simp)]; exact clusterEntries_zero n)
      refine wp_seq (wp_writeFAT (hl.inRange hkl) (inRange_lt hn) s2) ?_ ?_
      · rintro _ s3 ⟨hv3, _, hf3⟩
        have hv3 : v.view s3.bytes = v.grown (v.view s.bytes) k n := by
          rw [hv3, hv2]; rfl
        have hm3 : v.Moves R put s s3 :=
          (hm1.trans hm2).trans (.step (hv3 ▸ hgrow) hf3)
        refine wp_seq (wp_writeFAT hn endOfChainValue_lt s3) ?_ ?_
        · rintro _ s4 ⟨hv4, _, hf4⟩
          -- the cluster already ends its chain, so the second write changes nothing
          have hv4 : v.view s4.bytes = v.grown (v.view s.bytes) k n := by
            rw [hv4, hv3]
            exact setFat_eq_self (grown_fat_new hkn)
          refine ⟨hm3.trans ⟨?_, hf4⟩, k, rfl, hn, hfree, hcs.symm, hv4⟩
          rw [hv3, hv4]
        · rintro e s4 ⟨hq4, _, hne⟩
          exact ⟨hm3.trans (.of_quiet hq4), fun h0 => absurd (hm3.2 h0) hne⟩
      · rintro e s3 ⟨hq3, _, hne⟩
        exact ⟨(hm1.trans hm2).trans (.of_quiet hq3),
          fun h0 => absurd ((hm1.trans hm2).2 h0) hne⟩
    · rintro e s2 ⟨hm2, hfull⟩
      refine ⟨hm1.trans hm2, fun h0 => ?_⟩
      have := hfull (hm1.2 h0)
      rw [hq1.1] at this
      omega
  · rintro e s1 ⟨hq1, he⟩
    refine ⟨.of_quiet hq1, fun h0 => ?_⟩
    simp_all

variable (put) in
theorem wp_freeDirectorySlot (hwf : v.WellFormed R (v.view s.bytes))
    (hd : v.DirectoryAt R (v.view s.bytes) d) (hl : v.FatChain (v.view s.bytes) d l) :
    wp (v.freeDirectorySlot d)
      (fun slot s' => v.Moves R put s s' ∧ ∃ k i, slot = v.dataOffset k + i * 64 ∧
        v.SlotFound (v.view s.bytes) l (v.view s'.bytes) k i)
      (fun _ s' => v.Moves R put s s' ∧ (s.faults = [] →
        v.freeSlots (v.view s.bytes) l = [] ∧ v.freeCount (v.view s.bytes) = 0)) s := by
  unfold freeDirectorySlot
  refine wp_seq (reads_clusterChain d s) ?_ ?_
  · rintro chain s1 ⟨hq1, hchain⟩
    obtain rfl : l = chain := by rw [← hl.chainOf_eq]; exact Except.ok.inj hchain
    refine wp_seq (reads_freeSlotLoop l (fun c hc => hl.inRange hc) s1) ?_ ?_
    · rintro slot s2 ⟨hq2, hslot⟩
      have hq := hq1.trans hq2
      have hslot := Except.ok.inj hslot
      rw [hq1.1] at hslot
      cases hfs : v.freeSlots (v.view s.bytes) l with
      | nil =>
        rw [hfs] at hslot
        subst hslot
        refine wp_seq (wp_appendCluster put (hq.1 ▸ hwf) (hq.1 ▸ hd) (hq.1 ▸ hl)) ?_ ?_
        · rintro n s3 ⟨hm, k, hk, hn, hfree, hone, hv⟩
          rw [hq.1] at hfree hone hv
          refine ⟨(Moves.of_quiet hq).trans hm, n, 0, by simp, ?_⟩
          rw [hv]
          exact .grown hfs hk hn hfree hone
        · rintro e s3 ⟨hm, hfull⟩
          rw [hq.1] at hfull
          exact ⟨(Moves.of_quiet hq).trans hm, fun h0 => ⟨rfl, hfull (hq.2.2 h0)⟩⟩
      | cons p rest =>
        rw [hfs] at hslot
        subst hslot
        refine ⟨.of_quiet hq, p.1, p.2, rfl, ?_⟩
        rw [hq.1]
        exact .here (by rw [hfs]; rfl)
    · rintro e s2 ⟨hq2, he⟩
      refine ⟨.of_quiet (hq1.trans hq2), fun h0 => ?_⟩
      rcases he with he | ⟨_, hne⟩
      · cases he
      · exact absurd (hq1.2.2 h0) hne
  · rintro e s1 ⟨hq1, he⟩
    refine ⟨.of_quiet hq1, fun h0 => ?_⟩
    simp_all

end FATXVolume

end DukeX.Fatx
