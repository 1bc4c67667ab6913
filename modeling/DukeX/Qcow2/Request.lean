import DukeX.Qcow2.Map

/-!
# Requests

`read` and `write` take a request apart at cluster boundaries.
-/

namespace DukeX.Qcow2

open DukeX.Lib DukeX.Swift

namespace Qcow2DiskImage

section

variable (img : Qcow2DiskImage)

def Touched (offset count g : Nat) : Prop :=
  ∃ a, offset ≤ a ∧ a < offset + count ∧ a / img.clusterSize = g

def spanned (offset count : Nat) : Nat :=
  if count = 0 then 0
  else (offset + count - 1) / img.clusterSize + 1 - offset / img.clusterSize

/-- An upper bound for the host clusters a write needs. -/
def demand (offset count : Nat) : Nat := 6 * img.spanned offset count

/-- What can be in the way of a write, other than a failed call. -/
def Obstacle (s : ImageState) (offset count : Nat) : Prop :=
  img.tableLength ≤ (img.nextCluster s.file + img.demand offset count) / img.entriesPerBlock ∨
  (∃ g, img.Touched offset count g ∧
    (isCompressed (img.l2EntryOf s.l1 s.file.bytes g) ∨ img.l1Size ≤ g / img.l2Entries)) ∨
  2 ^ 64 ≤ offset + count

end

variable {img : Qcow2DiskImage} {s s' s₁ : ImageState} {e g k m n o t cursor offset count : Nat}
variable {G : Nat → Prop} {ok why : Prop} {chunk data : Data}

theorem wp_chunkCount (h : img.Sound s.l1 s.file) {E : Halt → ImageState → Prop} :
    wp (img.chunkCount cursor n)
      (fun count s' => s' = s ∧ count = min n (img.clusterSize - cursor % img.clusterSize)) E s := by
  have hpos := h.clusterSize_pos
  obtain ⟨m, _, hm, hcs⟩ := h.cluster
  unfold chunkCount
  rw [if_neg (by omega)]
  refine wp_seq (wp_toInt (by omega)) ?_ fun _ _ hf => hf
  rintro _ _ ⟨rfl, rfl⟩
  exact ⟨rfl, rfl⟩

theorem wp_writeChunk (h : img.Sound s.l1 s.file) (he : e ≤ img.fileEnd s.file)
    (hfit : img.fileEnd s.file + 6 * img.clusterSize ≤ 2 ^ 56) (hm : 6 ≤ m)
    (hok : ok → img.Room s m) (hlen : s.l1Table.length = img.l1Size)
    (hg : G (cursor / img.clusterSize))
    (hchunk : cursor % img.clusterSize + chunk.length ≤ img.clusterSize) :
    wp (img.writeChunk cursor chunk)
      (fun _ s' => ∃ s₁, img.Mapped e G ok 6 s s₁ ∧ img.Stored cursor chunk s₁.view s'.view ∧
        s'.l1Table = s₁.l1Table ∧ (s₁.faults = [] → s'.faults = []) ∧
        img.fileEnd s'.file = img.fileEnd s₁.file)
      (fun _ s' => img.Stopped e G ok
        (img.tableLength ≤ (img.nextCluster s.file + 6) / img.entriesPerBlock ∨
          isCompressed (img.l2EntryOf s.l1 s.file.bytes (cursor / img.clusterSize)) ∨
          img.l1Size ≤ cursor / img.clusterSize / img.l2Entries) s s') s := by
  unfold writeChunk
  refine wp_seq (wp_physicalOffset_allocate h he hfit hm hok hlen hg) ?_ fun _ s₁ hs => ?_
  · rintro _ s₁ (⟨p, rfl, hmap, t, ht, hplain, rfl, hsome⟩ | ⟨rfl, rfl, hbeyond⟩)
    · have h1 := hmap.sound h
      have hplace := h1.place_normal ht hplain hsome
      have hend := h1.le_end hplace
      have hgrow := hmap.growth
      refine wp_mono (wp_writeHandle (by omega)) (fun _ s2 hw => ?_) fun _ s2 hf => ?_
      · refine ⟨s₁, hmap, ?_, hw.2.1, hw.2.2, ?_⟩
        · rw [hw.view]
          exact .mk ht hplain hsome hchunk
        · rw [hw.1]
          exact fileEnd_write h1.clusterSize_pos (by omega)
      · exact .after hmap (.of_calm hf.1 hf.2) id
    · exact ⟨.refl, rfl, fun _ => .inr (.inr hbeyond)⟩
  · refine ⟨hs.links, hs.length, fun h0 => (hs.why h0).imp (fun hle => hle.trans ?_) .inl⟩
    exact Nat.div_le_div_right (by omega)

theorem spanned_rest (hpos : 0 < img.clusterSize) (hcount : 0 < count)
    (hk : k = min count (img.clusterSize - offset % img.clusterSize)) :
    img.spanned (offset + k) (count - k) + 1 = img.spanned offset count := by
  have hmod := Nat.mod_lt offset hpos
  have hdiv := Nat.div_add_mod offset img.clusterSize
  rw [spanned, spanned, if_neg (show ¬ count = 0 by omega)]
  by_cases hlast : count ≤ img.clusterSize - offset % img.clusterSize
  · -- the request ends in this cluster
    have hd : offset + count - 1 = offset + (count - 1) := by omega
    rw [if_pos (by omega), hd, (div_mod_of_chunk (by omega)).1]
    omega
  · have hnext : offset + k = img.clusterSize * (offset / img.clusterSize + 1) := by
      rw [Nat.mul_succ]
      omega
    have hle : offset / img.clusterSize + 1 ≤ (offset + count - 1) / img.clusterSize := by
      rw [Nat.le_div_iff_mul_le hpos, Nat.mul_comm, ← hnext]
      omega
    rw [if_neg (by omega), show offset + k + (count - k) - 1 = offset + count - 1 by omega, hnext,
      Nat.mul_div_cancel_left _ hpos]
    omega

theorem Touched.rest (hk : k ≤ count) (ht : img.Touched (offset + k) (count - k) g) :
    img.Touched offset count g := by
  obtain ⟨a, h1, h2, rfl⟩ := ht
  exact ⟨a, by omega, by omega, rfl⟩

theorem Touched.first (hcount : 0 < count) : img.Touched offset count (offset / img.clusterSize) :=
  ⟨offset, Nat.le_refl _, by omega, rfl⟩

theorem not_touched_zero : ¬ img.Touched offset 0 g := by
  rintro ⟨a, h1, h2, _⟩
  omega

theorem Touched.first_or_rest (hpos : 0 < img.clusterSize)
    (hk : k = min count (img.clusterSize - offset % img.clusterSize))
    (hg : img.Touched offset count g) :
    g = offset / img.clusterSize ∨ img.Touched (offset + k) (count - k) g := by
  obtain ⟨a, h1, h2, rfl⟩ := hg
  have hmod := Nat.mod_lt offset hpos
  by_cases hlt : a < offset + k
  · obtain ⟨d, rfl⟩ := Nat.exists_eq_add_of_le h1
    exact .inl (div_mod_of_chunk (by omega)).1
  · exact .inr ⟨a, by omega, by omega, rfl⟩

variable (img) in
structure Broken (e : Nat) (G : Nat → Prop) (ok : Prop) (why : Prop) (s s' : ImageState) :
    Prop where
  edits : img.Edits e G ok s.view s'.view
  length : s'.l1Table.length = s.l1Table.length
  why : s.faults = [] → why

variable (img) in
structure Advanced (e : Nat) (G : Nat → Prop) (ok : Prop) (cursor : Nat) (chunk : Data)
    (s s' : ImageState) : Prop where
  filled : ∃ y, img.Links e G ok True s.view y ∧ img.Stored cursor chunk y s'.view
  sound : img.Sound s'.l1 s'.file
  length : s'.l1Table.length = s.l1Table.length
  faults : s.faults = [] → s'.faults = []
  grow : img.fileEnd s.file ≤ img.fileEnd s'.file
  growth : img.fileEnd s'.file ≤ img.fileEnd s.file + 6 * img.clusterSize
  room : ∀ m, img.Room s (6 + m) → img.Room s' m
  compressed : ∀ g, isCompressed (img.l2EntryOf s'.l1 s'.file.bytes g) →
    isCompressed (img.l2EntryOf s.l1 s.file.bytes g)

theorem Advanced.of_stored (h : img.Sound s.l1 s.file) (hmap : img.Mapped e G ok 6 s s₁)
    (hstore : img.Stored cursor chunk s₁.view s'.view) (hmem : s'.l1Table = s₁.l1Table)
    (hfaults : s₁.faults = [] → s'.faults = []) (hend : img.fileEnd s'.file = img.fileEnd s₁.file) :
    img.Advanced e G ok cursor chunk s s' := by
  have h1 := hmap.sound h
  have hpre : img.Preserved 0 (fun _ => True) True s₁.view s'.view := hstore.preserved h1 trivial
  refine ⟨⟨_, hmap.links, hstore⟩, hstore.sound h1, by rw [hmem, hmap.length],
    fun h0 => hfaults (hmap.faults h0), by rw [hend]; exact (hmap.preserved h).grow,
    by rw [hend]; exact hmap.growth, fun m hroom => ?_, fun g hcomp => ?_⟩
  · have hblock : ∀ c, img.place s₁.l1 s₁.file.bytes (.block c) ≠ none →
        img.place s'.l1 s'.file.bytes (.block c) ≠ none := by
      intro c hc
      obtain ⟨o, ho⟩ := Option.ne_none_iff_exists'.mp hc
      exact Option.ne_none_iff_exists'.mpr ⟨o, hpre.kept _ _ ho⟩
    have hnext : img.nextCluster s'.file = img.nextCluster s₁.file := by
      rw [nextCluster, hend, nextCluster]
    rw [Room, hnext]
    rcases hroom.mapped h hmap with ⟨h0, hroom⟩ | hall
    · exact .inl ⟨hfaults h0, hroom.imp_right (Or.imp_right (hblock _))⟩
    · exact .inr fun c h1 h2 => (hall c h1 h2).imp_right (hblock _)
  · exact hmap.links.compressed h (hstore.entry h1 g ▸ hcomp)

theorem Obstacle.rest (h : img.Sound s.l1 s.file) (hadv : img.Advanced e G ok cursor chunk s s')
    (hcount : 0 < count)
    (hk : k = min count (img.clusterSize - offset % img.clusterSize))
    (hob : img.Obstacle s' (offset + k) (count - k)) : img.Obstacle s offset count := by
  have hspan := spanned_rest h.clusterSize_pos hcount hk
  have hgrowth := hadv.growth
  have hnext : img.nextCluster s'.file ≤ img.nextCluster s.file + 6 := by
    rw [nextCluster, nextCluster, ← Nat.add_mul_div_right _ _ h.clusterSize_pos]
    exact Nat.div_le_div_right hgrowth
  have hle : k ≤ count := by omega
  rcases hob with hfull | ⟨g, hg, hob⟩ | hbig
  · refine .inl (hfull.trans (Nat.div_le_div_right ?_))
    rw [demand, demand]
    omega
  · exact .inr (.inl ⟨g, hg.rest hle, hob.imp_left (hadv.compressed g)⟩)
  · exact .inr (.inr (by omega))

/-- **The loop of `write`.** The invariant is that the request still fits and has its room. -/
theorem wp_writeLoop (rounds : Nat) (h : img.Sound s.l1 s.file) (he : e ≤ img.fileEnd s.file)
    (hfit : img.fileEnd s.file + img.demand cursor data.length * img.clusterSize ≤ 2 ^ 56)
    (hok : ok → img.Room s (img.demand cursor data.length)) (hlen : s.l1Table.length = img.l1Size)
    (hG : ∀ g, img.Touched cursor data.length g → G g) (hrounds : data.length ≤ rounds) :
    wp (img.writeLoop rounds cursor data)
      (fun _ s' => img.Filled e G ok cursor data s.view s'.view ∧
        s'.l1Table.length = s.l1Table.length)
      (fun _ s' => img.Broken e G ok (img.Obstacle s cursor data.length) s s') s := by
  induction rounds generalizing s cursor data with
  | zero =>
    obtain rfl := List.length_eq_zero_iff.mp (Nat.le_zero.mp hrounds)
    exact ⟨.done, rfl⟩
  | succ rounds ih =>
    unfold writeLoop
    refine wp_ite (fun hdata => ?_) fun hdata => ?_
    · refine wp_seq (wp_chunkCount h) ?_ fun _ _ hf => hf
      rintro count s ⟨rfl, hcount⟩
      have hpos := h.clusterSize_pos
      have hmod := Nat.mod_lt cursor hpos
      have hspan := spanned_rest hpos hdata hcount
      have hdemand : img.demand cursor data.length =
          6 + img.demand (cursor + count) (data.length - count) := by
        rw [demand, demand]
        omega
      rw [hdemand] at hfit hok
      have htake : (data.take count).length = count := by
        rw [List.length_take]
        omega
      rw [Nat.add_mul] at hfit
      refine wp_seq (wp_writeChunk (m := 6 + img.demand (cursor + count) (data.length - count)) h he
        (by omega) (by omega) hok hlen (hG _ (.first hdata)) (by rw [htake]; omega)) ?_ fun _ s' hs => ?_
      · rintro _ s2 ⟨s₁, hmap, hstore, hmem, hfaults, hend⟩
        have hadv := Advanced.of_stored h hmap hstore hmem hfaults hend
        have hedit : img.Edits e G ok s.view s2.view :=
          hmap.links.unsynced.edits.tail (.store (hG _ (.first hdata)) hstore)
        by_cases hbig : cursor + count < 2 ^ 64
        · refine wp_seq (wp_checked (E := fun _ _ => False) hbig) ?_ fun _ _ hf => hf.elim
          rintro _ _ ⟨rfl, rfl⟩
          have hgrowth := hadv.growth
          have hrest : (data.drop count).length = data.length - count := List.length_drop
          refine wp_mono (ih hadv.sound (he.trans hadv.grow)
            (by rw [hrest]; omega) (fun hok' => by rw [hrest]; exact hadv.room _ (hok hok'))
            (hadv.length.trans hlen) (fun g hg => hG g ?_) (by rw [hrest]; omega)) ?_ ?_
          · rw [hrest] at hg
            exact hg.rest (by omega)
          · rintro _ s3 ⟨hfill, hlen3⟩
            refine ⟨?_, hlen3.trans hadv.length⟩
            have hfilled := Filled.chunk (hG _ (.first hdata)) hmap.links hstore (by rw [htake]; exact hfill)
            rwa [List.take_append_drop] at hfilled
          · intro _ s3 hb
            refine ⟨hedit.trans hb.edits, hb.length.trans hadv.length, fun h0 => ?_⟩
            have := hb.why (hadv.faults h0)
            rw [hrest] at this
            exact this.rest h hadv hdata hcount
        · unfold checked
          rw [if_neg hbig]
          exact ⟨hedit, hadv.length, fun _ => .inr (.inr (by omega))⟩
      · refine ⟨hs.links.edits, hs.length, fun h0 => ?_⟩
        rcases hs.why h0 with hfull | hob
        · refine .inl (hfull.trans (Nat.div_le_div_right ?_))
          rw [hdemand]
          omega
        · exact .inr (.inl ⟨_, .first hdata, hob⟩)
    · obtain rfl := List.length_eq_zero_iff.mp (Nat.eq_zero_of_not_pos hdata)
      exact ⟨.done, rfl⟩

variable (img) in
def Fits (s : ImageState) (offset count : Nat) : Prop :=
  img.fileEnd s.file + img.demand offset count * img.clusterSize ≤ 2 ^ 56

/-- **What `write` does.** -/
theorem wp_write (h : img.Sound s.l1 s.file) (hfit : img.Fits s offset data.length)
    (hlen : s.l1Table.length = img.l1Size) :
    wp (img.write offset data)
      (fun _ s' => img.Filled (img.fileEnd s.file) (img.Touched offset data.length)
          (img.Room s (img.demand offset data.length)) offset data s.view s'.view ∧
        s'.l1Table.length = s.l1Table.length)
      (fun _ s' => img.Broken (img.fileEnd s.file) (img.Touched offset data.length)
        (img.Room s (img.demand offset data.length))
        (img.readOnly = true ∨ img.Obstacle s offset data.length) s s') s := by
  unfold write
  refine wp_ite (fun hro => ⟨.refl, rfl, fun _ => .inl hro⟩) fun _ => ?_
  refine wp_mono (wp_writeLoop _ h (Nat.le_refl _) hfit id hlen (fun _ hg => hg) (Nat.le_refl _))
    (fun _ _ hf => hf) fun _ _ hb => ⟨hb.edits, hb.length, fun h0 => .inr (hb.why h0)⟩

variable (img) in
def shown (s : ImageState) : Store := fun a =>
  let l2Entry := img.l2EntryOf s.l1 s.file.bytes (a / img.clusterSize)
  if hostOffset l2Entry = 0 then 0
  else s.file.bytes (hostOffset l2Entry + a % img.clusterSize)

theorem shown_congr (h : s.Calm s') : img.shown s' = img.shown s := by
  funext a
  simp only [shown]
  rw [ImageState.l1_congr h.2.1, h.1]

theorem wp_physicalOffset_mapped (h : img.Sound s.l1 s.file) (hlen : s.l1Table.length = img.l1Size)
    (ht : img.place s.l1 s.file.bytes (.l2 (cursor / img.clusterSize / img.l2Entries)) = some t)
    {entry : Nat} (hentry : img.l2EntryOf s.l1 s.file.bytes (cursor / img.clusterSize) = entry)
    {allocate : Bool} (hfound : hostOffset entry = 0 → allocate = false) :
    wp (img.physicalOffset cursor allocate)
      (fun r s' => s.Calm s' ∧ ¬ isCompressed entry ∧
        r = if hostOffset entry = 0 then none else some (hostOffset entry))
      (fun _ s' => s.Calm s' ∧ (s.faults = [] → isCompressed entry)) s := by
  have hpos := h.clusterSize_pos
  obtain ⟨hE, _⟩ := h.entries
  obtain ⟨hi, ht', hne⟩ := place_l2.mp ht
  rw [l2EntryOf_of_place ht] at hentry
  unfold physicalOffset
  rw [if_neg (by omega)]
  refine wp_bind.mpr (wp_get.mpr ?_)
  rw [if_pos (by rw [hlen]; exact hi)]
  unfold l2TableOffset
  refine wp_bind.mpr (wp_bind.mpr (wp_get.mpr ?_))
  have hl2 : s.l1Table.getD (cursor / img.clusterSize / img.l2Entries) 0 &&& offsetMask = t := ht'
  rw [hl2, if_pos hne]
  show wp (img.dataOffset _ allocate) _ _ s
  unfold dataOffset
  refine wp_seq (wp_readEntry h ht) ?_ fun _ _ hf => ⟨hf.1, fun h0 => absurd h0 hf.2⟩
  rintro d s₁ ⟨hcalm, hread⟩
  rw [hread, hentry]
  refine wp_ite (fun hcomp => ⟨hcalm, fun _ => hcomp⟩) fun hplain => ?_
  refine wp_ite (fun hsome => ⟨hcalm, hplain, (if_neg hsome).symm⟩) fun hnone => ?_
  have hzero := not_not.mp hnone
  rw [hfound hzero]
  exact ⟨hcalm, hplain, (if_pos hzero).symm⟩

theorem wp_physicalOffset_read (h : img.Sound s.l1 s.file) (hlen : s.l1Table.length = img.l1Size)
    {entry : Nat} (hentry : img.l2EntryOf s.l1 s.file.bytes (cursor / img.clusterSize) = entry) :
    wp (img.physicalOffset cursor false)
      (fun r s' => s.Calm s' ∧ ¬ isCompressed entry ∧
        r = if hostOffset entry = 0 then none else some (hostOffset entry))
      (fun _ s' => s.Calm s' ∧ (s.faults = [] → isCompressed entry)) s := by
  cases ht : img.place s.l1 s.file.bytes (.l2 (cursor / img.clusterSize / img.l2Entries)) with
  | some t => exact wp_physicalOffset_mapped h hlen ht hentry fun _ => rfl
  | none =>
    -- where there is no L2 table, the entry is zero
    have hpos := h.clusterSize_pos
    obtain ⟨hE, _⟩ := h.entries
    have habsent : s.Calm s ∧ ¬ isCompressed 0 ∧ (none : Option Nat) = none :=
      ⟨.refl s, not_isCompressed_zero, rfl⟩
    rw [← hentry, l2EntryOf_of_none ht]
    unfold physicalOffset
    rw [if_neg (by omega)]
    refine wp_bind.mpr (wp_get.mpr (wp_ite (fun hi => ?_) fun _ => habsent))
    rw [hlen] at hi
    unfold l2TableOffset
    refine wp_bind.mpr (wp_bind.mpr (wp_get.mpr (wp_ite (fun hsome => ?_) fun _ => habsent)))
    exact absurd (ht.symm.trans (place_l2.mpr ⟨hi, rfl, hsome⟩)) (by simp)

theorem wp_readChunk (h : img.Sound s.l1 s.file) (hlen : s.l1Table.length = img.l1Size)
    (hchunk : cursor % img.clusterSize + count ≤ img.clusterSize) :
    wp (img.readChunk cursor count)
      (fun d s' => s.Calm s' ∧ d = (img.shown s).read cursor count ∧
        ¬ isCompressed (img.l2EntryOf s.l1 s.file.bytes (cursor / img.clusterSize)))
      (fun _ s' => s.Calm s' ∧ (s.faults = [] →
        isCompressed (img.l2EntryOf s.l1 s.file.bytes (cursor / img.clusterSize)))) s := by
  unfold readChunk
  refine wp_seq (wp_physicalOffset_read h hlen rfl) ?_ fun _ _ hf => hf
  rintro r s₁ ⟨hcalm, hplain, rfl⟩
  -- the bytes of the chunk are all in one guest cluster
  have hbyte : ∀ i, i < count → img.shown s (cursor + i) =
      if hostOffset (img.l2EntryOf s.l1 s.file.bytes (cursor / img.clusterSize)) = 0 then 0
      else s.file.bytes (hostOffset (img.l2EntryOf s.l1 s.file.bytes (cursor / img.clusterSize)) +
        cursor % img.clusterSize + i) := by
    intro i hi
    obtain ⟨hdiv, hmod⟩ := div_mod_of_chunk (show cursor % img.clusterSize + i <
      img.clusterSize by omega)
    simp only [shown]
    rw [hdiv, hmod, Nat.add_assoc]
  by_cases hnone : hostOffset (img.l2EntryOf s.l1 s.file.bytes (cursor / img.clusterSize)) = 0
  · rw [if_pos hnone]
    refine ⟨hcalm, List.ext_getElem (by simp) fun i h1 h2 => ?_, hplain⟩
    have hi : i < count := by simpa using h1
    have := hbyte i hi
    rw [if_pos hnone] at this
    simp [Store.read, this]
  · rw [if_neg hnone]
    have hlt := hostOffset_lt (img.l2EntryOf s.l1 s.file.bytes (cursor / img.clusterSize))
    obtain ⟨m, _, hm, hcs⟩ := h.cluster
    refine wp_mono (wp_readHandle (by omega) count) ?_ fun _ _ hf =>
      ⟨hcalm.trans hf.1, fun h0 => absurd (hcalm.2.2 h0) hf.2⟩
    rintro d s2 ⟨hcalm2, rfl⟩
    refine ⟨hcalm.trans hcalm2, ?_, hplain⟩
    rw [hcalm.1]
    refine List.map_congr_left fun i hi => ?_
    have := hbyte i (List.mem_range.mp hi)
    rw [if_neg hnone] at this
    exact this.symm

/-- **What `read` returns.** -/
theorem wp_readLoop (rounds cursor : Nat) (h : img.Sound s.l1 s.file)
    (hlen : s.l1Table.length = img.l1Size) (hrounds : count ≤ rounds) :
    wp (img.readLoop rounds cursor count)
      (fun d s' => s.Calm s' ∧ d = (img.shown s).read cursor count ∧
        ∀ g, img.Touched cursor count g → ¬ isCompressed (img.l2EntryOf s.l1 s.file.bytes g))
      (fun _ s' => s.Calm s' ∧ (s.faults = [] → (∃ g, img.Touched cursor count g ∧
        isCompressed (img.l2EntryOf s.l1 s.file.bytes g)) ∨ 2 ^ 64 ≤ cursor + count)) s := by
  induction rounds generalizing s cursor count with
  | zero =>
    obtain rfl := Nat.le_zero.mp hrounds
    exact ⟨.refl s, rfl, fun g hg => absurd hg not_touched_zero⟩
  | succ rounds ih =>
    unfold readLoop
    refine wp_ite (fun hcount => ?_) fun hcount => ?_
    · refine wp_seq (wp_chunkCount h) ?_ fun _ _ hf => hf
      rintro k s ⟨rfl, hk⟩
      have hpos := h.clusterSize_pos
      have hmod := Nat.mod_lt cursor hpos
      refine wp_seq (wp_readChunk h hlen (by omega)) ?_ fun _ _ hf =>
        ⟨hf.1, fun h0 => .inl ⟨_, .first hcount, hf.2 h0⟩⟩
      rintro _ s₁ ⟨hcalm, rfl, hplain⟩
      by_cases hbig : cursor + k < 2 ^ 64
      · refine wp_seq (wp_checked (E := fun _ _ => False) hbig) ?_ fun _ _ hf => hf.elim
        rintro _ _ ⟨rfl, rfl⟩
        have hl1 := ImageState.l1_congr hcalm.2.1
        refine wp_seq (ih _ (by rw [hl1, hcalm.1]; exact h) (by rw [hcalm.2.1]; exact hlen)
          (by omega)) ?_ fun _ s2 hf => ?_
        · rintro _ s2 ⟨hcalm2, rfl, hrest⟩
          refine ⟨hcalm.trans hcalm2, ?_, fun g hg => ?_⟩
          · rw [shown_congr hcalm, Store.read_append, Nat.add_sub_cancel' (by omega)]
          · rw [hl1, hcalm.1] at hrest
            rcases hg.first_or_rest hpos hk with rfl | hg
            · exact hplain
            · exact hrest g hg
        · refine ⟨hcalm.trans hf.1, fun h0 => ?_⟩
          rcases hf.2 (hcalm.2.2 h0) with ⟨g, hg, hcomp⟩ | hbig
          · rw [hl1, hcalm.1] at hcomp
            exact .inl ⟨g, hg.rest (by omega), hcomp⟩
          · exact .inr (by omega)
      · unfold checked
        rw [if_neg hbig]
        exact ⟨hcalm, fun _ => .inr (by omega)⟩
    · obtain rfl := Nat.eq_zero_of_not_pos hcount
      exact ⟨.refl s, rfl, fun g hg => absurd hg not_touched_zero⟩

end Qcow2DiskImage

end DukeX.Qcow2
