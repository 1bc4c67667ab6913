import DukeX.Fatx.Slot

/-!
# Writing a directory entry

`writeDirectoryEntry` on a well-formed volume, for an entry whose clusters nobody owns yet.
-/

namespace DukeX.Fatx

open DukeX.Lib DukeX.Swift

namespace FATXVolume

variable (v : FATXVolume) (F : Foundation)

structure Recorded (a a' : ClusterStore) (d : Nat) (e : FATXDirectoryEntry) : Prop where
  confined : v.Confined a a' d
  entries : (v.entriesOf a' d).Perm (e :: v.entriesOf a d)
  room : v.room a' d + 1 = if v.room a d = 0 then v.recordsPerCluster else v.room a d
  free : v.freeCount a' + (if v.room a d = 0 then 1 else 0) = v.freeCount a

def AllLinkable : Prop := ∀ n, v.inRange n = true → v.isEndOfChain n = false

/-- What `writeDirectoryEntry` has done when it returns. -/
structure Wrote (R : List Nat) (a a' : ClusterStore) (d : Nat) (entry : FATXDirectoryEntry)
    (ls : List Nat) : Prop where
  same : v.SameOn (· ∈ ls) a a'
  shown : (∃ ts o e, parseRecord (recordFor entry ts) o = some e ∧ e ∈ v.entriesOf a' d) ∨
    ∀ x ∈ ls, ¬ v.Live R a' x
  recorded : isStorable entry.name = true → entry.size < 2 ^ 32 →
    (∃ ts o, v.Recorded a a' d (stored entry ts o)) ∨
      ¬ v.AllLinkable ∧ v.room a d = 0 ∧ v.freeCount a = 0

variable {v F} {R : List Nat} {put : ClusterStore → Nat → FATXDirectoryEntry → Prop}
variable {a a' : ClusterStore} {d k n i : Nat} {l ls : List Nat} {s : Disk}

theorem WellFormed.grown (hwf : v.WellFormed R a) (hd : v.DirectoryAt R a d) (hl : v.FatChain a d l)
    (hk : l.getLast? = some k) (hn : v.inRange n = true) (hfree : a.fat n = 0) :
    v.WellFormed R (v.grown a k n) ∧ v.DirectoryAt R (v.grown a k n) d ∧
      (∀ c, v.DirectoryAt R a c → v.entriesOf (v.grown a k n) c = v.entriesOf a c) ∧
      ∀ x, v.Live R (v.grown a k n) x → v.Live R a x ∨ x = n := by
  have hs := (allocated_single hn hfree).sameOn (R := R) (v := v)
  obtain ⟨_, hwf1, hext1, hent1, hchain1⟩ := hwf.frame hs
  have hd1 := hext1.directoryAt hd
  obtain ⟨hwf2, hext2, hent2, _, hlive2⟩ := hwf1.grow hd1
    (hchain1 d l hl fun x hx => hd.live hl hx) hk hn
    (fun hlive => not_live_of_free hfree (hwf.live_of_frame hs hlive))
    (by simp [linked, isEndOfChain_endOfChainValue])
    (by rw [linked_data (by simp)]; exact clusterEntries_zero n)
  refine ⟨hwf2, hext2.directoryAt hd1, fun c hc => ?_, fun x hx => ?_⟩
  · exact (hent2 c (hext1.directoryAt hc)).trans (hent1 c hc)
  · exact (hlive2 x hx).imp (hwf.live_of_frame hs) id

theorem sameOn_grown_end (hl : v.FatChain a d l) (hk : l.getLast? = some k) (hfree : a.fat n = 0)
    (hnum : v.isEndOfChain n = true) : v.SameOn (v.Live R a) a (v.grown a k n) := by
  intro x hx
  have hxn : x ≠ n := fun he => not_live_of_free hfree (he ▸ hx)
  refine ⟨?_, grown_data_of_ne hxn⟩
  by_cases hxk : x = k
  · subst hxk
    rw [hl.next_last hk]
    simp [next, FATXVolume.grown, hnum]
  · exact next_eq_of_fat (grown_fat_of_ne hxk hxn)

theorem SlotFound.cases (h : v.SlotFound a l a' k i) (hwf : v.WellFormed R a)
    (hd : v.DirectoryAt R a d) (hl : v.FatChain a d l) :
    v.WellFormed R a' ∧ v.DirectoryAt R a' d ∧ v.Confined a a' d ∧ v.inRange k = true ∧
      i < v.recordsPerCluster ∧ v.entriesOf a' d = v.entriesOf a d ∧
      (∀ x, v.Live R a' x → v.Live R a x ∨ a.fat x = 0) ∧
      ((∃ l', v.FatChain a' d l' ∧ (k, i) ∈ v.freeSlots a' l' ∧
          (v.freeSlots a' l').length = (if v.room a d = 0 then v.recordsPerCluster else v.room a d) ∧
          v.freeCount a' + (if v.room a d = 0 then 1 else 0) = v.freeCount a) ∨
        v.isEndOfChain k = true ∧ ¬ v.Live R a' k ∧ a.fat k = 0 ∧ v.room a d = 0 ∧
          v.freeCount a = 0) := by
  cases h with
  | here hp =>
    have hmem : (k, i) ∈ v.freeSlots a l := List.mem_of_mem_head? hp
    have hroom : v.room a d ≠ 0 := by
      rw [FATXVolume.room, hl.chainOf_eq]
      exact Nat.pos_iff_ne_zero.mp (List.length_pos_of_mem hmem)
    refine ⟨hwf, hd, .refl a d, hl.inRange (mem_freeSlots.mp hmem).1, (mem_freeSlots.mp hmem).2.1,
      rfl, fun x hx => .inl hx, .inl ⟨l, hl, hmem, ?_, ?_⟩⟩
    · rw [if_neg hroom, FATXVolume.room, hl.chainOf_eq]
    · rw [if_neg hroom, Nat.add_zero]
  | @grown last _ hnone hk hn hfree hone =>
    obtain ⟨hwf', hd', hent, hlive⟩ := hwf.grown hd hl hk hn hfree
    have hroom : v.room a d = 0 := by rw [FATXVolume.room, hl.chainOf_eq, hnone]; rfl
    refine ⟨hwf', hd', confined_grown hl hk hn hfree, hn, v.recordsPerCluster_pos, hent d hd,
      fun x hx => (hlive x hx).imp id fun he : x = k => he ▸ hfree, ?_⟩
    have hlast : a.fat last ≠ 0 := hl.fat_ne_zero (List.mem_of_getLast? hk)
    by_cases hnum : v.isEndOfChain k = true
    · -- no usable cluster comes after one that is not usable
      obtain ⟨rest, hr, _⟩ := freeClusters_eq (v := v) (a := a)
      have hcount : v.freeCount a = 0 := by
        by_contra hne
        have hpos : 1 ≤ v.freeCount a := by omega
        rw [take_freeClusters hpos] at hone
        have hu : k ∈ v.usable a := List.mem_of_mem_take (hone ▸ List.mem_singleton_self k)
        have := (List.mem_filter.mp hu).2
        simp [hnum] at this
      have hs := sameOn_grown_end (R := R) hl hk hfree hnum
      exact .inr ⟨hnum, fun hx => not_live_of_free hfree (hwf.live_of_frame hs hx), hfree, hroom,
        hcount⟩
    · have hnum : v.isEndOfChain k = false := by simpa using hnum
      have hu : k ∈ v.usable a :=
        List.mem_filter.mpr ⟨mem_range'_iff.mpr hn, by simp [hfree, hnum]⟩
      have hpos : 1 ≤ v.freeCount a := List.length_pos_of_mem hu
      rw [take_freeClusters hpos] at hone
      have hl' := hl.grown hk hn hfree hnum
      have hkl : k ∉ l := fun hm => hl.fat_ne_zero hm hfree
      have hslots : v.freeSlots (v.grown a last k) (l ++ [k])
          = v.freeSlots (v.grown a last k) [k] := by
        grind [freeSlots_append, freeSlots_congr, grown_data_of_ne]
      have hlen := length_freeSlots_zero (v := v) (grown_data_new (v := v) (a := a) (k := last) (n := k))
      refine .inl ⟨l ++ [k], hl', ?_, ?_, ?_⟩
      · rw [hslots]
        refine mem_freeSlots.mpr ⟨by simp, v.recordsPerCluster_pos, ?_⟩
        rw [grown_data_new, byte]
        simp only [List.getD_eq_getElem?_getD, List.getElem?_replicate]
        split <;> simp [isFreeMark]
      · rw [hslots, hlen, if_pos hroom]
      · have hlinked := (allocated_single hn hfree).freeCount (v := v) hone.symm
        rw [FATXVolume.freeCount, ← usable_grown hlast hn hfree] at hlinked
        rw [if_pos hroom, FATXVolume.freeCount, hlinked]
        omega

theorem room_setData {block : Data} (hl : v.FatChain a d l) :
    v.room (a.setData k block) d = (v.freeSlots (a.setData k block) l).length := by
  rw [FATXVolume.room, (fatChain_setData.mpr hl).chainOf_eq]

variable {entry : FATXDirectoryEntry} {ts : Nat × Nat}

theorem isFreeMark_recordFor
    (h : isStorable entry.name = true) : isFreeMark (byte (recordFor entry ts) 0) = false := by
  simp only [isStorable, Bool.and_eq_true, Bool.not_eq_true', decide_eq_true_eq] at h
  have h0 : (utf8 entry.name).length ≠ 0 := fun h0 => by
    rw [utf8_eq_nil_iff.mp (List.length_eq_zero_iff.mp h0)] at h
    exact absurd h.1 (by decide)
  grind [byte_recordFor_zero, isFreeMark]

theorem recorded_of_slot {l' : List Nat} (hc : v.Confined a a' d)
    (hent : v.entriesOf a' d = v.entriesOf a d) (hl' : v.FatChain a' d l')
    (hp : (k, i) ∈ v.freeSlots a' l') (hsize : (a'.data k).length = v.clusterSize)
    (hroom : (v.freeSlots a' l').length =
      if v.room a d = 0 then v.recordsPerCluster else v.room a d)
    (hfree : v.freeCount a' + (if v.room a d = 0 then 1 else 0) = v.freeCount a)
    (hname : isStorable entry.name = true)
    (hbytes : entry.size < 2 ^ 32) (hstart : entry.startCluster < 2 ^ 32) :
    v.Recorded a (a'.setData k (splice (a'.data k) (i * 64) (recordFor entry ts))) d
      (stored entry ts (v.dataOffset k + i * 64)) := by
  obtain ⟨hk, hi, _⟩ := mem_freeSlots.mp hp
  refine ⟨hc.trans ⟨fun _ h => h, fun x _ hx => ⟨rfl, ?_⟩, fun x hx => .inl ?_⟩, ?_, ?_, ?_⟩
  · exact ClusterStore.setData_data_of_ne _ _ fun he => hx (by rw [hl'.chainOf_eq, he]; exact hk)
  · rwa [(fatChain_setData.mpr hl').chainOf_eq, ← hl'.chainOf_eq] at hx
  · have := hl'.entriesOf_record hk hi hsize (r := recordFor entry ts) length_recordFor
      (parseRecord_of_mem_freeSlots hp _)
    rw [parseRecord_recordFor hname hbytes hstart, hent] at this
    exact this
  · rw [room_setData hl', length_freeSlots_record hl'.1.nodup hp hsize length_recordFor
      (isFreeMark_recordFor hname), ← hroom]
    exact Nat.sub_add_cancel (List.length_pos_of_mem hp)
  · exact hfree

variable (put) in
theorem step_of_slot (hwf : v.WellFormed R a)
    (hd : v.DirectoryAt R a d) (hl : v.FatChain a d l) (hp : (k, i) ∈ v.freeSlots a l)
    (hsize : (a.data k).length = v.clusterSize) (hstart : entry.startCluster < 2 ^ 32)
    (hls : v.FatChain a entry.startCluster ls) (hnl : ∀ x ∈ ls, ¬ v.Live R a x)
    (hempty : entry.isDirectory = true → ∀ x ∈ ls, v.clusterEntries x (a.data x) = [])
    (hput : ∀ e, parseRecord (recordFor entry ts) (v.dataOffset k + i * 64) = some e → put a d e) :
    v.Step R put a (a.setData k (splice (a.data k) (i * 64) (recordFor entry ts))) ∧
      v.SameOn (· ∈ ls) a (a.setData k (splice (a.data k) (i * 64) (recordFor entry ts))) ∧
      ((∃ ts' o e, parseRecord (recordFor entry ts') o = some e ∧
          e ∈ v.entriesOf (a.setData k (splice (a.data k) (i * 64) (recordFor entry ts))) d) ∨
        ∀ x ∈ ls, ¬ v.Live R (a.setData k (splice (a.data k) (i * 64) (recordFor entry ts))) x) := by
  obtain ⟨hk, hi, _⟩ := mem_freeSlots.mp hp
  have hnone := parseRecord_of_mem_freeSlots hp (v.dataOffset k + i * 64)
  have hnew : ∀ e, parseRecord (recordFor entry ts) (v.dataOffset k + i * 64) = some e →
      ∃ ls, v.FatChain a e.startCluster ls ∧ (∀ x ∈ ls, ¬ v.Live R a x) ∧
        (e.isDirectory = true → ∀ x ∈ ls, v.clusterEntries x (a.data x) = []) := by
    intro e he
    obtain ⟨hes, hea⟩ := of_parseRecord_recordFor hstart he
    exact ⟨ls, hes ▸ hls, hnl, fun hdir => hempty (by rwa [isDirectory_congr hea] at hdir)⟩
  refine ⟨.record hd hl hk hi hsize length_recordFor hnone fun e he => ⟨hput e he, hnew e he⟩,
    sameOn_setData fun hx => hnl k hx (hd.live hl hk), ?_⟩
  cases he : parseRecord (recordFor entry ts) (v.dataOffset k + i * 64) with
  | some e =>
    have hperm := hl.entriesOf_record hk hi hsize (r := recordFor entry ts) length_recordFor hnone
    rw [he] at hperm
    exact .inl ⟨ts, _, e, he, hperm.mem_iff.mpr (by simp)⟩
  | none =>
    -- a record that shows nothing gives nobody the clusters
    refine .inr fun x hx hlive => hnl x hx ?_
    refine ((hwf.record hd hl hk hi hsize length_recordFor hnone hnew).2.2.2.2 x
      hlive).resolve_right ?_
    rintro ⟨e, _, he', _⟩
    rw [he] at he'
    cases he'

theorem wp_writeRecord (hk : v.inRange k = true) (hi : i < v.recordsPerCluster) {r : Data}
    (hr : r.length = 64) (s : Disk) :
    wp (writeImage (v.dataOffset k + i * 64) r)
      (fun _ s' => v.view s'.bytes = (v.view s.bytes).setData k
        (splice ((v.view s.bytes).data k) (i * 64) r) ∧ (s.faults = [] → s'.faults = []))
      (fun _ s' => s.Quiet s' ∧ s.faults ≠ []) s := by
  have hfit : i * 64 + r.length ≤ v.clusterSize := by
    have := v.recordsPerCluster_mul
    omega
  refine wp_mono (wp_writeImage _ _ s) ?_ fun _ _ h => ⟨h.1, h.2.2⟩
  rintro _ s' ⟨hb, _, hf⟩
  exact ⟨by rw [hb, view_write_data hk _ hfit], hf⟩

variable (put) in
/-- **What `writeDirectoryEntry` does** with an entry whose clusters nobody owns. -/
theorem wp_writeDirectoryEntry (hwf : v.WellFormed R (v.view s.bytes))
    (hd : v.DirectoryAt R (v.view s.bytes) d) (hstart : entry.startCluster < 2 ^ 32)
    (hls : v.FatChain (v.view s.bytes) entry.startCluster ls)
    (hnl : ∀ x ∈ ls, ¬ v.Live R (v.view s.bytes) x)
    (hempty : entry.isDirectory = true →
      ∀ x ∈ ls, v.clusterEntries x ((v.view s.bytes).data x) = [])
    (hput : ∀ a' ts o e, v.Steps R put (v.view s.bytes) a' → v.Confined (v.view s.bytes) a' d →
      parseRecord (recordFor entry ts) o = some e → put a' d e) :
    wp (v.writeDirectoryEntry F entry d)
      (fun _ s' => v.Moves R put s s' ∧ v.Wrote R (v.view s.bytes) (v.view s'.bytes) d entry ls)
      (fun _ s' => v.Moves R put s s' ∧ (s.faults = [] →
        (∃ e ∈ v.entriesOf (v.view s.bytes) d, F.caseInsensitiveSame e.name entry.name = true) ∨
        v.room (v.view s.bytes) d = 0 ∧ v.freeCount (v.view s.bytes) = 0)) s := by
  obtain ⟨l, hl⟩ := hd.chain hwf
  unfold writeDirectoryEntry
  refine wp_seq (reads_directoryEntries d s) ?_ ?_
  · rintro entries s1 ⟨hq1, hentries⟩
    obtain rfl : v.entriesOf (v.view s.bytes) d = entries := Except.ok.inj hentries
    cases hfind : (v.entriesOf (v.view s.bytes) d).find?
        fun e => F.caseInsensitiveSame e.name entry.name with
    | some existing =>
      refine ⟨.of_quiet hq1, fun _ => .inl ⟨existing, List.mem_of_find?_eq_some hfind, ?_⟩⟩
      simpa using List.find?_some hfind
    | none =>
      refine wp_seq (wp_freeDirectorySlot put (hq1.1 ▸ hwf) (hq1.1 ▸ hd) (hq1.1 ▸ hl)) ?_ ?_
      · rintro slot s2 ⟨hm2, k, i, rfl, hslot⟩
        rw [hq1.1] at hslot
        have hm2 : v.Moves R put s s2 := (Moves.of_quiet hq1).trans hm2
        obtain ⟨hwf2, hd2, hc2, hk, hi, hent2, hlive2, hcases⟩ := hslot.cases hwf hd hl
        refine wp_seq (m := fatTimestamp F) (Q := fun ts s3 => s3.bytes = s2.bytes ∧ s3.faults = s2.faults)
          (E := fun _ _ => False) ⟨rfl, rfl⟩ ?_ (fun _ _ h => h.elim)
        rintro ts s3 ⟨hb3, hf3⟩
        have hm3 : v.Moves R put s s3 := hm2.trans ⟨by rw [hb3], fun h => by rw [hf3, h]⟩
        have hsize : ((v.view s2.bytes).data k).length = v.clusterSize := length_view_data hk _
        -- the entry's clusters are not the directory's, and were not touched
        have hused : ∀ x ∈ ls, (v.view s.bytes).fat x ≠ 0 := fun x hx => hls.fat_ne_zero hx
        have hsame := hc2.sameOn hused fun x hx hm =>
          hnl x hx (hd.live hl (by rwa [hl.chainOf_eq] at hm))
        have hnl2 : ∀ x ∈ ls, ¬ v.Live R (v.view s2.bytes) x := fun x hx hlive =>
          (hlive2 x hlive).elim (hnl x hx) (hused x hx)
        have hls2 := hls.congr fun x hx => (hsame x hx).1
        have hempty2 : entry.isDirectory = true →
            ∀ x ∈ ls, v.clusterEntries x ((v.view s2.bytes).data x) = [] := fun hdir x hx => by
          rw [(hsame x hx).2]
          exact hempty hdir x hx
        refine wp_mono (wp_writeRecord hk hi length_recordFor s3) ?_ ?_
        · rintro _ s4 ⟨hv4, hf4⟩
          rw [hb3] at hv4
          rcases hcases with ⟨l', hl', hp, hroom, hfree⟩ | ⟨hnum, hdet, hkfree, hroom, hcount⟩
          · obtain ⟨hstep, hsame4, hshown⟩ := step_of_slot put hwf2 hd2 hl' hp hsize hstart
              hls2 hnl2 hempty2 fun e he => hput _ ts _ e hm2.1 hc2 he
            rw [← hv4] at hstep hsame4 hshown
            refine ⟨hm3.trans (.step (hb3 ▸ hstep) hf4), hsame.trans hsame4, hshown,
              fun hname hbytes => .inl ⟨ts, v.dataOffset k + i * 64, ?_⟩⟩
            rw [hv4]
            exact recorded_of_slot hc2 hent2 hl' hp hsize hroom hfree hname hbytes hstart
          · have hoff : ∀ x, x ≠ k → (v.view s4.bytes).fat x = (v.view s2.bytes).fat x ∧
                (v.view s4.bytes).data x = (v.view s2.bytes).data x := fun x hx => by
              rw [hv4]; exact ⟨rfl, ClusterStore.setData_data_of_ne _ _ hx⟩
            have hstep : v.Step R put (v.view s2.bytes) (v.view s4.bytes) := .detached k hdet hoff
            have hsame4 : v.SameOn (· ∈ ls) (v.view s2.bytes) (v.view s4.bytes) := by
              rw [hv4]
              exact sameOn_setData fun hx => hused k hx hkfree
            refine ⟨hm3.trans (.step (hb3 ▸ hstep) hf4), hsame.trans hsame4,
              .inr fun x hx hlive => ?_, fun _ _ => .inr ⟨fun hall => ?_, hroom, hcount⟩⟩
            · exact hnl2 x hx (hwf2.live_of_frame (sameOn_of_detached hdet hoff) hlive)
            · rw [hall k hk] at hnum
              cases hnum
        · rintro e s4 ⟨hq4, hne⟩
          exact ⟨hm3.trans (.of_quiet hq4), fun h0 => absurd (hm3.2 h0) hne⟩
      · rintro e s2 ⟨hm2, hfull⟩
        refine ⟨(Moves.of_quiet hq1).trans hm2, fun h0 => .inr ?_⟩
        obtain ⟨hslots, hcount⟩ := hfull (hq1.2.2 h0)
        rw [hq1.1] at hslots hcount
        exact ⟨by rw [FATXVolume.room, hl.chainOf_eq, hslots]; rfl, hcount⟩
  · rintro e s1 ⟨hq1, he⟩
    refine ⟨.of_quiet hq1, fun h0 => ?_⟩
    rcases he with he | ⟨_, hne⟩
    · cases he
    · exact absurd h0 hne

end FATXVolume

end DukeX.Fatx
