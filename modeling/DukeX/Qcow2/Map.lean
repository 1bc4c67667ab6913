import DukeX.Qcow2.Guest

/-!
# Mapping a guest cluster

`physicalOffset` as edits.
-/

namespace DukeX.Qcow2

open DukeX.Lib DukeX.Swift
open Function (update)

def ImageState.l1 (s : ImageState) (i : Nat) : Nat := s.l1Table.getD i 0

def ImageState.view (s : ImageState) : Qcow2DiskImage.View := (s.l1, s.file)

variable {s s' s'' : ImageState}

theorem ImageState.l1_congr (h : s'.l1Table = s.l1Table) : s'.l1 = s.l1 := by
  funext i
  rw [ImageState.l1, h, ImageState.l1]

theorem ImageState.view_congr (hmem : s'.l1Table = s.l1Table) : s'.view = (s.l1, s'.file) := by
  rw [ImageState.view, ImageState.l1_congr hmem]

theorem ImageState.Calm.view (h : s.Calm s') : s'.view = s.view := by
  rw [ImageState.view_congr h.2.1, h.1]
  rfl

theorem ImageState.Wrote.view {offset : Nat} {data : Data} (h : s.Wrote offset data s') :
    s'.view = (s.l1, s.file.write offset data) := by
  rw [ImageState.view_congr h.2.1, h.1]

namespace Qcow2DiskImage

/-! ## Room for allocations -/

section

variable (img : Qcow2DiskImage)

def Room (s : ImageState) (m : Nat) : Prop :=
  s.faults = [] ∧ (img.tableLength * img.entriesPerBlock ≤ img.nextCluster s.file ∨
    img.nextCluster s.file + m < img.tableLength * img.entriesPerBlock ∨
    img.place s.l1 s.file.bytes (.block (img.tableLength - 1)) ≠ none) ∨
  ∀ c, img.nextCluster s.file ≤ c → c ≤ img.nextCluster s.file + m →
    img.tableLength ≤ c / img.entriesPerBlock ∨
    img.place s.l1 s.file.bytes (.block (c / img.entriesPerBlock)) ≠ none

structure Mapped (e : Nat) (G : Nat → Prop) (ok : Prop) (k : Nat) (s s' : ImageState) : Prop where
  links : img.Links e G ok True s.view s'.view
  length : s'.l1Table.length = s.l1Table.length
  faults : s.faults = [] → s'.faults = []
  growth : img.fileEnd s'.file ≤ img.fileEnd s.file + k * img.clusterSize

structure Stopped (e : Nat) (G : Nat → Prop) (ok : Prop) (why : Prop) (s s' : ImageState) :
    Prop where
  links : img.Links e G ok False s.view s'.view
  length : s'.l1Table.length = s.l1Table.length
  why : s.faults = [] → why

end

variable {img : Qcow2DiskImage} {e g k m o t cursor : Nat} {G : Nat → Prop} {ok why : Prop}

theorem Room.ready (h : img.Sound s.l1 s.file) (hroom : img.Room s m) (hm : 1 ≤ m) :
    img.Ready s.l1 s := by
  obtain ⟨_, _, hB, _⟩ := h.entries
  have hpos : 0 < img.entriesPerBlock := by omega
  rcases hroom with ⟨h0, hle | hlt | hlast⟩ | hall
  · exact .inl ((Nat.le_div_iff_mul_le hpos).mpr hle)
  · exact .inr (.inr ⟨h0, (Nat.div_lt_iff_lt_mul hpos).mpr (by omega)⟩)
  · -- the block is the last one, or there is a next one
    rcases Nat.lt_trichotomy (img.nextCluster s.file / img.entriesPerBlock) (img.tableLength - 1)
      with hlt | heq | hgt
    · refine .inr (.inr ⟨h0, ?_⟩)
      have hnext : (img.nextCluster s.file + 1) / img.entriesPerBlock ≤
          img.nextCluster s.file / img.entriesPerBlock + 1 := by
        rw [← Nat.add_div_right _ hpos]
        exact Nat.div_le_div_right (by omega)
      exact Nat.lt_of_le_of_lt hnext (Nat.add_lt_of_lt_sub hlt)
    · exact .inr (.inl (heq ▸ hlast))
    · exact .inl (Nat.le_of_pred_lt hgt)
  · exact (hall _ (Nat.le_refl _) (Nat.le_add_right ..)).imp_right .inl

theorem Mapped.next_le (h : img.Sound s.l1 s.file) (hmap : img.Mapped e G ok k s s') :
    img.nextCluster s'.file ≤ img.nextCluster s.file + k := by
  rw [nextCluster, nextCluster, ← Nat.add_mul_div_right _ _ h.clusterSize_pos]
  exact Nat.div_le_div_right hmap.growth

theorem Links.preserved {synced : Prop} {x y : View} (h : img.Sound x.1 x.2)
    (hlinks : img.Links e G ok synced x y) : img.Preserved e G ok x y := by
  induction hlinks with
  | refl => exact .refl h
  | tail _ hlink ih => exact ih.trans (hlink.preserved ih.sound)

theorem Mapped.preserved (h : img.Sound s.l1 s.file) (hmap : img.Mapped e G ok k s s') :
    img.Preserved e G ok s.view s'.view := hmap.links.preserved h

theorem Mapped.sound (h : img.Sound s.l1 s.file) (hmap : img.Mapped e G ok k s s') :
    img.Sound s'.l1 s'.file := (hmap.preserved h).sound

theorem Room.mapped (h : img.Sound s.l1 s.file) (hroom : img.Room s (k + m))
    (hmap : img.Mapped e G ok k s s') : img.Room s' m := by
  have hle := hmap.next_le h
  have hge : img.nextCluster s.file ≤ img.nextCluster s'.file :=
    Nat.div_le_div_right (hmap.preserved h).grow
  have hblock : ∀ c, img.place s.l1 s.file.bytes (.block c) ≠ none →
      img.place s'.l1 s'.file.bytes (.block c) ≠ none := by
    intro c hc
    obtain ⟨o, ho⟩ := Option.ne_none_iff_exists'.mp hc
    exact Option.ne_none_iff_exists'.mpr ⟨o, (hmap.preserved h).kept _ _ ho⟩
  rcases hroom with ⟨h0, hroom⟩ | hall
  · refine .inl ⟨hmap.faults h0, ?_⟩
    grind
  · refine .inr fun c h1 h2 => ?_
    exact (hall c (by omega) (by omega)).imp_right (hblock _)

theorem Mapped.refl (s : ImageState) : img.Mapped e G ok k s s :=
  ⟨.refl, rfl, id, Nat.le_add_right ..⟩

theorem Mapped.trans {k' : Nat} (h : img.Mapped e G ok k s s') (h' : img.Mapped e G ok k' s' s'') :
    img.Mapped e G ok (k + k') s s'' where
  links := h.links.trans h'.links
  length := h'.length.trans h.length
  faults h0 := h'.faults (h.faults h0)
  growth := by
    have h1 := h.growth
    have h2 := h'.growth
    rw [Nat.add_mul]
    omega

theorem Mapped.mono {k' : Nat} (h : img.Mapped e G ok k s s') (hk : k ≤ k') :
    img.Mapped e G ok k' s s' :=
  ⟨h.links, h.length, h.faults, h.growth.trans (Nat.add_le_add_left (Nat.mul_le_mul_right _ hk) _)⟩

theorem Mapped.of_calm (h : s.Calm s') : img.Mapped e G ok k s s' :=
  ⟨by rw [h.view]; exact .refl, by rw [h.2.1], h.2.2, by rw [h.1]; exact Nat.le_add_right ..⟩

theorem Stopped.of_calm (h : s.Calm s') (hne : s.faults ≠ []) : img.Stopped e G ok why s s' :=
  ⟨by rw [h.view]; exact .refl, by rw [h.2.1], fun h0 => absurd h0 hne⟩

theorem Stopped.after {why' : Prop} (hmap : img.Mapped e G ok k s s')
    (hstop : img.Stopped e G ok why' s' s'') (hwhy : why' → why) : img.Stopped e G ok why s s'' :=
  ⟨hmap.links.unsynced.trans hstop.links, hstop.length.trans hmap.length,
    fun h0 => hwhy (hstop.why (hmap.faults h0))⟩

theorem wp_allocate (h : img.Sound s.l1 s.file) (he : e ≤ img.fileEnd s.file)
    (hfit : img.fileEnd s.file + 3 * img.clusterSize ≤ 2 ^ 56) (hok : ok → img.Ready s.l1 s) :
    wp img.allocateHostCluster
      (fun o s' => img.Mapped e G ok 3 s s' ∧ s'.l1Table = s.l1Table ∧ img.Free e s'.view o ∧
        ∀ g, img.l2EntryOf s.l1 s'.file.bytes g = img.l2EntryOf s.l1 s.file.bytes g)
      (fun _ s' => img.Stopped e G ok
        (img.tableLength ≤ (img.nextCluster s.file + 1) / img.entriesPerBlock) s s') s := by
  have hpos := h.clusterSize_pos
  refine wp_mono (wp_allocateHostCluster h hfit) (fun o s' ha => ?_) fun _ s' hr => ?_
  · have hview := ImageState.view_congr ha.mem
    have hstart := ha.start
    have hgrow : img.Link e G ok True s.view s'.view := by
      rw [hview]
      exact .grow he ha.grown fun _ => ha.counted
    have hheader := h.below .header 0 rfl
    refine ⟨⟨.single hgrow, by rw [ha.mem], ha.faults, ha.growth⟩, ha.mem, ?_, ha.grown.entry h⟩
    rw [hview]
    exact ⟨hstart ▸ he, hstart ▸ aligned_fileEnd img s.file, ha.inside, by omega, by omega,
      ha.unused, ha.clear, ha.one⟩
  · have hgrow : img.Link e G ok False s.view s'.view := by
      rw [ImageState.view_congr hr.mem]
      exact .grow he hr.grown fun hok' hcount => hr.counted hcount (hok hok')
    exact ⟨.single hgrow, by rw [hr.mem], hr.why⟩

theorem l1_set {i value : Nat} (hi : i < s.l1Table.length) (faults : List Bool) :
    ImageState.l1 ⟨s.file, s.l1Table.set i value, faults⟩ = update s.l1 i value := by
  funext j
  simp only [ImageState.l1, List.getD_eq_getElem?_getD]
  by_cases hj : j = i
  · simp_all
  · simp [Ne.symm, ImageState.l1, hj]

/-- **The L2 table of a guest cluster**, made if it is missing. -/
theorem wp_l2TableOffset (h : img.Sound s.l1 s.file) (he : e ≤ img.fileEnd s.file)
    (hfit : img.fileEnd s.file + 3 * img.clusterSize ≤ 2 ^ 56) (hok : ok → img.Ready s.l1 s)
    (hlen : s.l1Table.length = img.l1Size) (hg : G g) (hi : g / img.l2Entries < img.l1Size) :
    wp (img.l2TableOffset (g / img.l2Entries) true)
      (fun r s' => ∃ t, r = some t ∧ img.Mapped e G ok 3 s s' ∧
        img.place s'.l1 s'.file.bytes (.l2 (g / img.l2Entries)) = some t)
      (fun _ s' => img.Stopped e G ok
        (img.tableLength ≤ (img.nextCluster s.file + 1) / img.entriesPerBlock) s s') s := by
  unfold l2TableOffset
  refine wp_bind.mpr (wp_get.mpr ?_)
  refine wp_ite (fun hsome => ?_) fun hnone => ?_
  · exact ⟨_, rfl, .refl s, place_l2.mpr ⟨hi, rfl, hsome⟩⟩
  have hnone : img.place s.l1 s.file.bytes (.l2 (g / img.l2Entries)) = none := by
    cases ht : img.place s.l1 s.file.bytes (.l2 (g / img.l2Entries)) with
    | none => rfl
    | some t =>
      obtain ⟨_, rfl, h0⟩ := place_l2.mp ht
      exact absurd h0 hnone
  rw [if_pos rfl]
  refine wp_seq (wp_allocate h he hfit hok) ?_ fun _ _ hs => hs
  rintro o s1 ⟨hmap, hmem, hfree, _⟩
  have h1 := hmap.sound h
  have hnone1 : img.place s1.l1 s1.file.bytes (.l2 (g / img.l2Entries)) = none := by
    rw [ImageState.l1_congr hmem]
    exact hnone
  refine wp_bind.mpr (wp_modify.mpr ?_)
  set s2 : ImageState := { s1 with l1Table := s1.l1Table.set (g / img.l2Entries) (o ||| copiedFlag) }
    with hs2
  have hl1 : s2.l1 = update s1.l1 (g / img.l2Entries) (o ||| copiedFlag) :=
    l1_set (by rw [hmem, hlen]; exact hi) s1.faults
  have hlen2 : s2.l1Table.length = s.l1Table.length := by
    rw [hs2, List.length_set, hmap.length]
  obtain ⟨t, ht, _, hend⟩ := h1.l1_entry hi
  have hsmall : img.l1TableOffset + g / img.l2Entries * 8 < 2 ^ 56 := by
    have := h1.le_end ht
    have := hmap.growth
    omega
  refine wp_seq (wp_checked (E := fun _ _ => False) (by omega)) ?_ fun _ _ hf => hf.elim
  rintro _ _ ⟨rfl, rfl⟩
  refine wp_seq (wp_writeHandle (by omega)) (fun _ s3 hw => ?_) fun _ s3 hf => ?_
  · -- both the copy and the file have the entry
    have hview : s3.view = (update s1.l1 (g / img.l2Entries) (o ||| copiedFlag),
        s1.file.write (img.l1TableOffset + g / img.l2Entries * 8) (entryFor o)) := by
      rw [hw.view, hl1]
      rfl
    have hlink : img.Link e G ok True s1.view s3.view := by
      rw [hview]
      exact .table hg hi hnone1 hfree (.inl rfl)
    refine ⟨o, rfl, ⟨hmap.links.tail hlink, by rw [hw.2.1, hlen2], fun h0 => hw.2.2 (hmap.faults h0),
      ?_⟩, ?_⟩
    · refine Eq.trans_le ?_ hmap.growth
      rw [hw.1]
      exact fileEnd_write h1.clusterSize_pos (by
        have := h1.le_end ht
        rw [show (writeUInt64BE (List.replicate 8 0) (o ||| copiedFlag) 0).length = 8 from
          length_entryFor o]
        exact (Nat.le_trans hend this))
    · have hl13 : s3.l1 = update s1.l1 (g / img.l2Entries) (o ||| copiedFlag) :=
        congrArg Prod.fst hview
      rw [hl13]
      exact place_l2.mpr ⟨hi, by rw [Function.update_self]; exact hfree.host h1, hfree.pos⟩
  · -- only the copy has it
    have hview : s3.view = (update s1.l1 (g / img.l2Entries) (o ||| copiedFlag),
        s1.file) := by
      rw [hf.1.view, ← hl1]
      rfl
    have hlink : img.Link e G ok False s1.view s3.view := by
      rw [hview]
      exact .table hg hi hnone1 hfree (.inr ⟨id, rfl⟩)
    exact ⟨hmap.links.unsynced.tail hlink, by rw [hf.1.2.1, hlen2],
      fun h0 => absurd (hmap.faults h0) hf.2⟩

variable (img) in
def Located (s : ImageState) (g p : Nat) : Prop :=
  ∃ t, img.place s.l1 s.file.bytes (.l2 (g / img.l2Entries)) = some t ∧
    ¬ isCompressed (entry64 s.file.bytes (img.entryAt t g)) ∧
    hostOffset (entry64 s.file.bytes (img.entryAt t g)) = p ∧ p ≠ 0

theorem wp_readEntry (h : img.Sound s.l1 s.file)
    (ht : img.place s.l1 s.file.bytes (.l2 (g / img.l2Entries)) = some t) :
    wp (readHandle (t + g % img.l2Entries * 8) 8)
      (fun d s' => s.Calm s' ∧ uint64BE d 0 = entry64 s.file.bytes (img.entryAt t g))
      (fun _ s' => s.Calm s' ∧ s.faults ≠ []) s := by
  obtain ⟨_, rfl, _⟩ := place_l2.mp ht
  have hlt := hostOffset_lt (s.l1 (g / img.l2Entries))
  obtain ⟨m, _, hm, hcs⟩ := h.cluster
  obtain ⟨hE, _⟩ := h.entries
  have hj := h.mod_entries_lt g
  refine wp_mono (wp_readHandle (by omega) 8) (fun d s' hd => ⟨hd.1, ?_⟩) fun _ _ hf => hf
  rw [hd.2]
  rfl

/-- **The data cluster of a guest cluster**, made if it is missing. -/
theorem wp_dataOffset (h : img.Sound s.l1 s.file) (he : e ≤ img.fileEnd s.file)
    (hfit : img.fileEnd s.file + 3 * img.clusterSize ≤ 2 ^ 56) (hok : ok → img.Ready s.l1 s)
    (hg : G g) (ht : img.place s.l1 s.file.bytes (.l2 (g / img.l2Entries)) = some t) :
    wp (img.dataOffset (t + g % img.l2Entries * 8) true)
      (fun r s' => ∃ p, r = some p ∧ img.Mapped e G ok 3 s s' ∧ img.Located s' g p)
      (fun _ s' => img.Stopped e G ok
        (img.tableLength ≤ (img.nextCluster s.file + 1) / img.entriesPerBlock ∨
          isCompressed (img.l2EntryOf s.l1 s.file.bytes g)) s s') s := by
  have hend := h.le_end ht
  obtain ⟨hle, hlast⟩ := h.entryAt_fits t g 0
  rw [length_entryFor] at hlast
  unfold dataOffset
  refine wp_seq (wp_readEntry h ht) ?_ fun _ _ hf => .of_calm hf.1 hf.2
  rintro d s1 ⟨hcalm, hentry⟩
  rw [hentry]
  have hl1 : s1.l1 = s.l1 := ImageState.l1_congr hcalm.2.1
  have hmap1 : img.Mapped e G ok 0 s s1 := .of_calm hcalm
  have ht1 : img.place s1.l1 s1.file.bytes (.l2 (g / img.l2Entries)) = some t := by
    rw [hl1, hcalm.1]
    exact ht
  have h1 := hmap1.sound h
  refine wp_ite (fun hcomp => ?_) fun hplain => wp_ite (fun hsome => ?_) fun hnone => ?_
  · exact ⟨hmap1.links.unsynced, hmap1.length, fun _ => .inr (by rw [l2EntryOf_of_place ht]; exact hcomp)⟩
  · refine ⟨_, rfl, hmap1.mono (by omega), t, ht1, ?_⟩
    rw [hcalm.1]
    exact ⟨hplain, rfl, hsome⟩
  rw [if_pos rfl]
  have hready : ok → img.Ready s1.l1 s1 := fun hok' => by
    have := hok hok'
    rw [Ready, hl1, hcalm.1]
    exact this.imp_right (Or.imp_right fun hr => ⟨hcalm.2.2 hr.1, hr.2⟩)
  refine wp_seq (wp_allocate h1 (by rw [hcalm.1]; exact he) (by rw [hcalm.1]; exact hfit) hready) ?_
    fun _ _ hs => .after hmap1 hs fun hw => .inl (by rw [hcalm.1] at hw; exact hw)
  rintro o s2 ⟨hmap, hmem, hfree, hentries⟩
  have h2 := hmap.sound h1
  have ht2 := (hmap.preserved h1).kept _ _ ht1
  have hentry2 : entry64 s2.file.bytes (img.entryAt t g) =
      entry64 s.file.bytes (img.entryAt t g) := by
    rw [← hcalm.1, ← l2EntryOf_of_place ht1, ← hentries g]
    refine (l2EntryOf_of_place ?_).symm
    rw [← ImageState.l1_congr hmem]
    exact ht2
  rw [← hentry2] at hplain hnone
  have hend2 := h2.le_end ht2
  have hgrow := hmap.growth
  rw [hcalm.1] at hgrow
  have hsmall : t + g % img.l2Entries * 8 < 2 ^ 63 := by
    rw [entryAt] at hlast
    omega
  refine wp_seq (wp_writeHandle hsmall) (fun _ s3 hw => ?_) fun _ s3 hf => ?_
  · have hview3 : s3.view = (s2.l1, s2.file.write (img.entryAt t g) (entryFor o)) := hw.view
    have hlink : img.Link e G ok True s2.view s3.view := by
      rw [hview3]
      exact .data hg ht2 hplain (not_not.mp hnone) hfree
    have hmap3 : img.Mapped e G ok 3 s s3 := by
      refine ⟨(hmap1.links.trans hmap.links).tail hlink, ?_, fun h0 => ?_, ?_⟩
      · rw [hw.2.1, hmap.length, hmap1.length]
      · exact hw.2.2 (hmap.faults (hmap1.faults h0))
      · rw [hw.1, fileEnd_write h2.clusterSize_pos]
        · exact hgrow
        · rw [show (writeUInt64BE (List.replicate 8 0) (o ||| copiedFlag) 0).length = 8 from
            length_entryFor o]
          exact Nat.le_trans hlast hend2
    have hentry3 : entry64 s3.file.bytes (img.entryAt t g) = o ||| copiedFlag := by
      rw [hw.1]
      exact entry64_write hfree.value_lt
    refine ⟨o, rfl, hmap3, t, (hlink.preserved h2).kept _ _ ht2, ?_⟩
    rw [hentry3]
    exact ⟨not_isCompressed_or_copiedFlag hfree.small, hfree.host h2, hfree.pos⟩
  · exact .after (hmap1.trans hmap) (.of_calm hf.1 hf.2) id

theorem Links.compressed {synced : Prop} {x y : View} (h : img.Sound x.1 x.2)
    (hlinks : img.Links e G ok synced x y) (hcomp : isCompressed (img.l2EntryOf y.1 y.2.bytes g)) :
    isCompressed (img.l2EntryOf x.1 x.2.bytes g) := by
  refine (hlinks.keep (P := fun y => isCompressed (img.l2EntryOf y.1 y.2.bytes g) →
    isCompressed (img.l2EntryOf x.1 x.2.bytes g)) h (fun h hlink ih hcomp => ?_) id).1 hcomp
  rcases hlink.entry h g with heq | ⟨_, _, o, ho, heq, _⟩
  · exact ih (heq ▸ hcomp)
  · rw [heq] at hcomp
    exact absurd hcomp (not_isCompressed_or_copiedFlag ho.small)

/-- **`physicalOffset` with `allocate`.** -/
theorem wp_physicalOffset_allocate (h : img.Sound s.l1 s.file) (he : e ≤ img.fileEnd s.file)
    (hfit : img.fileEnd s.file + 6 * img.clusterSize ≤ 2 ^ 56) (hm : 6 ≤ m)
    (hok : ok → img.Room s m) (hlen : s.l1Table.length = img.l1Size)
    (hg : G (cursor / img.clusterSize)) :
    wp (img.physicalOffset cursor true)
      (fun r s' => (∃ p, r = some p ∧ img.Mapped e G ok 6 s s' ∧
          img.Located s' (cursor / img.clusterSize) p) ∨
        r = none ∧ s' = s ∧ img.l1Size ≤ cursor / img.clusterSize / img.l2Entries)
      (fun _ s' => img.Stopped e G ok
        (img.tableLength ≤ (img.nextCluster s.file + 4) / img.entriesPerBlock ∨
          isCompressed (img.l2EntryOf s.l1 s.file.bytes (cursor / img.clusterSize))) s s') s := by
  have hpos := h.clusterSize_pos
  obtain ⟨hE, _⟩ := h.entries
  unfold physicalOffset
  rw [if_neg (by omega)]
  refine wp_bind.mpr (wp_get.mpr (wp_ite (fun hi => ?_) fun hi => ?_))
  · rw [hlen] at hi
    have hready : ok → img.Ready s.l1 s := fun hok' => (hok hok').ready h (by omega)
    refine wp_seq (wp_l2TableOffset h he (by omega) hready hlen hg hi) ?_ fun _ _ hs => ?_
    · rintro _ s1 ⟨t, rfl, hmap, ht⟩
      have h1 := hmap.sound h
      have hgrow := hmap.growth
      have hnext := hmap.next_le h
      have hready1 : ok → img.Ready s1.l1 s1 := fun hok' => by
        have hroom := hok hok'
        rw [show m = 3 + (m - 3) by omega] at hroom
        exact (hroom.mapped h hmap).ready h1 (by omega)
      refine wp_mono (wp_dataOffset h1 (he.trans (hmap.preserved h).grow) (by omega) hready1 hg ht)
        ?_ fun _ s2 hs => ?_
      · rintro r s2 ⟨p, rfl, hmap', hp⟩
        exact .inl ⟨p, rfl, hmap.trans hmap', hp⟩
      · refine .after hmap hs (Or.imp (fun hle => hle.trans ?_) fun hcomp => hmap.links.compressed h hcomp)
        exact Nat.div_le_div_right (by omega)
    · refine ⟨hs.links, hs.length, fun h0 => .inl ((hs.why h0).trans ?_)⟩
      exact Nat.div_le_div_right (by omega)
  · exact .inr ⟨rfl, rfl, by rw [hlen] at hi; omega⟩

end Qcow2DiskImage

end DukeX.Qcow2
