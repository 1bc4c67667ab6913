import DukeX.Qcow2.Layout

/-!
# Allocating host clusters

`allocateHostCluster` appends a cleared cluster and counts it; counting it can take a refcount block
that does not exist yet, which is appended, entered in the refcount table and counted in turn.
-/

namespace DukeX.Qcow2

open DukeX.Lib DukeX.Swift
open DukeX.Fatx (roundUp)

/-! ## Calls on the handle -/

def ImageState.Calm (s s' : ImageState) : Prop :=
  s'.file = s.file ∧ s'.l1Table = s.l1Table ∧ (s.faults = [] → s'.faults = [])

def ImageState.Wrote (offset : Nat) (data : Data) (s s' : ImageState) : Prop :=
  s'.file = s.file.write offset data ∧ s'.l1Table = s.l1Table ∧ (s.faults = [] → s'.faults = [])

variable {s s' s'' : ImageState} {offset : Nat} {data : Data}

theorem ImageState.Calm.refl (s : ImageState) : s.Calm s := ⟨rfl, rfl, id⟩

theorem ImageState.Calm.trans (h : s.Calm s') (h' : s'.Calm s'') : s.Calm s'' :=
  ⟨h'.1.trans h.1, h'.2.1.trans h.2.1, fun hf => h'.2.2 (h.2.2 hf)⟩

theorem wp_handleCall (s : ImageState) :
    wp handleCall (fun _ s' => s.Calm s') (fun _ s' => s.Calm s' ∧ s.faults ≠ []) s := by
  unfold wp handleCall
  cases hf : s.faults with
  | nil => exact .refl s
  | cons b rest =>
    cases b with
    | false => exact ⟨rfl, rfl, by simp [hf]⟩
    | true => exact ⟨⟨rfl, rfl, by simp [hf]⟩, by simp⟩

variable {value : Nat} {E : Halt → ImageState → Prop}

theorem wp_checked (h : value < 2 ^ 64) :
    wp (checked value) (fun x s' => x = value ∧ s' = s) E s := by
  unfold checked
  rw [if_pos h]
  exact ⟨rfl, rfl⟩

theorem wp_toInt (h : value < 2 ^ 63) : wp (toInt value) (fun x s' => x = value ∧ s' = s) E s := by
  unfold toInt
  rw [if_pos h]
  exact ⟨rfl, rfl⟩

theorem wp_seek (h : offset < 2 ^ 63) :
    wp (seek offset) (fun _ s' => s.Calm s') (fun _ s' => s.Calm s' ∧ s.faults ≠ []) s := by
  unfold seek
  refine wp_seq (wp_handleCall s) (fun _ s1 h1 => ?_) fun _ _ h => h
  rw [if_pos h]
  exact h1

theorem wp_readHandle (h : offset < 2 ^ 63) (count : Nat) :
    wp (readHandle offset count)
      (fun d s' => s.Calm s' ∧ d = s.file.bytes.read offset count)
      (fun _ s' => s.Calm s' ∧ s.faults ≠ []) s := by
  unfold readHandle
  refine wp_seq (wp_seek h) (fun _ s1 h1 => ?_) fun _ _ h => h
  refine wp_seq (wp_handleCall s1) (fun _ s2 h2 => ?_) fun _ _ h2 =>
    ⟨h1.trans h2.1, fun h0 => h2.2 (h1.2.2 h0)⟩
  have hc := h1.trans h2
  exact ⟨hc, by rw [← hc.1]⟩

theorem wp_writeHandle (h : offset < 2 ^ 63) :
    wp (writeHandle offset data) (fun _ s' => s.Wrote offset data s')
      (fun _ s' => s.Calm s' ∧ s.faults ≠ []) s := by
  unfold writeHandle
  refine wp_seq (wp_seek h) (fun _ s1 h1 => ?_) fun _ _ h => h
  refine wp_seq (wp_handleCall s1) (fun _ s2 h2 => ?_) fun _ _ h2 =>
    ⟨h1.trans h2.1, fun h0 => h2.2 (h1.2.2 h0)⟩
  have hc := h1.trans h2
  exact ⟨by rw [← hc.1], hc.2.1, hc.2.2⟩

theorem wp_seekToEnd (s : ImageState) :
    wp seekToEnd (fun n s' => s.Calm s' ∧ n = s.file.size)
      (fun _ s' => s.Calm s' ∧ s.faults ≠ []) s := by
  unfold seekToEnd
  refine wp_seq (wp_handleCall s) (fun _ s1 h1 => ?_) fun _ _ h => h
  exact ⟨h1, by rw [← h1.1]⟩

namespace Qcow2DiskImage

section

variable (img : Qcow2DiskImage)

/-- From `f` to `f'`, only refcount blocks were gained, in new clusters, and only the refcount
table and the refcount blocks were written to. -/
structure Grown (l1 : Nat → Nat) (e : Nat) (f f' : HostFile) : Prop where
  sound : img.Sound l1 f'
  grow : img.fileEnd f ≤ img.fileEnd f'
  kept : ∀ r o, img.place l1 f.bytes r = some o → img.place l1 f'.bytes r = some o
  fresh : ∀ r o, img.place l1 f'.bytes r = some o → img.place l1 f.bytes r = some o ∨
    (∃ k, r = .block k) ∧ img.fileEnd f ≤ o
  same : ∀ o, o % img.clusterSize = 0 → (∀ i, img.place l1 f'.bytes (.table i) ≠ some o) →
    (∀ k, img.place l1 f'.bytes (.block k) ≠ some o) → img.Same f.bytes f'.bytes o
  counts : ∀ c, c * img.clusterSize < e → img.refcount f'.bytes c = img.refcount f.bytes c

def CountedBut (l1 : Nat → Nat) (P : Nat → Prop) (b : Store) : Prop :=
  ∀ r o, img.place l1 b r = some o → ¬ P (o / img.clusterSize) →
    img.refcount b (o / img.clusterSize) = 1

end

variable {img : Qcow2DiskImage} {l1 : Nat → Nat} {e c k n o : Nat} {f f₁ f₂ f' : HostFile}
variable {P Q : Nat → Prop}

theorem Grown.refl (h : img.Sound l1 f) : img.Grown l1 e f f where
  sound := h
  grow := Nat.le_refl _
  kept _ _ ho := ho
  fresh _ _ ho := .inl ho
  same _ _ _ _ := .of_bytes rfl
  counts _ _ := rfl

theorem Grown.trans (h : img.Grown l1 e f f₁) (h' : img.Grown l1 e f₁ f₂) :
    img.Grown l1 e f f₂ where
  sound := h'.sound
  grow := h.grow.trans h'.grow
  kept r o ho := h'.kept r o (h.kept r o ho)
  fresh r o ho := by
    rcases h'.fresh r o ho with ho | ⟨hk, hle⟩
    · exact h.fresh r o ho
    · exact .inr ⟨hk, h.grow.trans hle⟩
  same o ho ht hb :=
    (h.same o ho (fun i hi => ht i (h'.kept _ _ hi)) fun k hk => hb k (h'.kept _ _ hk)).trans
      (h'.same o ho ht hb)
  counts c hc := (h'.counts c hc).trans (h.counts c hc)

theorem countedBut_false : img.CountedBut l1 (fun _ => False) f.bytes ↔ img.Counted l1 f.bytes :=
  ⟨fun h r o ho => h r o ho id, fun h r o ho _ => h r o ho⟩

theorem CountedBut.weaken (h : img.CountedBut l1 P f.bytes) (hPQ : ∀ x, P x → Q x) :
    img.CountedBut l1 Q f.bytes := fun r o ho hn => h r o ho fun hp => hn (hPQ _ hp)

theorem Grown.of_bytes (h : img.Sound l1 f) (hb : f'.bytes = f.bytes)
    (hend : img.fileEnd f ≤ img.fileEnd f') : img.Grown l1 e f f' where
  sound := h.congr (.of_bytes hb) hend fun r => by rw [hb]
  grow := hend
  kept r o ho := by rwa [hb]
  fresh r o ho := .inl (by rwa [hb] at ho)
  same _ _ _ _ := .of_bytes hb
  counts _ _ := by rw [hb]

/-- **A new refcount block**: a cleared cluster at the end of the file, entered in the table. -/
theorem grown_newBlock (h : img.Sound l1 f) (hk : k < img.tableLength)
    (hnone : img.place l1 f.bytes (.block k) = none) (hlt : img.fileEnd f < 2 ^ 56)
    (hb : f₁.bytes = f.bytes) (hend : img.fileEnd f₁ = img.fileEnd f + img.clusterSize)
    (hf' : f' = f₁.write (img.refcountTableOffset + k * 8)
      (writeUInt64BE (List.replicate 8 0) (img.fileEnd f) 0)) :
    img.Grown l1 e f f' ∧ img.place l1 f'.bytes (.block k) = some (img.fileEnd f) ∧
      (∀ r, r ≠ .block k → img.place l1 f'.bytes r = img.place l1 f.bytes r) ∧
      (∀ c, img.refcount f'.bytes c = img.refcount f.bytes c) ∧
      img.fileEnd f' = img.fileEnd f + img.clusterSize := by
  have hpos := h.clusterSize_pos
  have hlen : (writeUInt64BE (List.replicate 8 0) (img.fileEnd f) 0).length = 8 :=
    length_writeUInt64BE ..
  have hnew : ∀ r, img.place l1 f.bytes r ≠ some (img.fileEnd f) := fun r hr =>
    Nat.lt_irrefl _ (h.below r _ hr)
  have h0 : img.fileEnd f ≠ 0 := fun h0 => hnew .header (by rw [h0]; rfl)
  obtain ⟨hblock, hrest⟩ := h.place_link_block hk (h.sector (aligned_fileEnd img f))
    (show img.fileEnd f < 2 ^ 64 by omega) h0
  obtain ⟨t, ht, hle, hfit⟩ := h.table_entry hk
  have hbytes : f'.bytes = f.bytes.write (img.refcountTableOffset + k * 8)
      (writeUInt64BE (List.replicate 8 0) (img.fileEnd f) 0) := by rw [hf', ← hb]; rfl
  have hend' : img.fileEnd f' = img.fileEnd f + img.clusterSize := by
    have := h.le_end ht
    rw [hf', fileEnd_write hpos (by rw [hlen, hend]; omega), hend]
  rw [← hbytes] at hblock hrest
  have hsame : ∀ o, o % img.clusterSize = 0 → o ≠ t → img.Same f.bytes f'.bytes o := by
    intro o ho hne
    rw [hbytes]
    exact Same.write ho (h.aligned _ _ ht) hne hle (by rw [hlen]; exact hfit)
  have htable : ∀ i, img.place l1 f'.bytes (.table i) = img.place l1 f.bytes (.table i) :=
    fun i => hrest _ (fun heq => by cases heq)
  -- the new block is clear, so it says what its absence said
  have hzero : ∀ a, img.fileEnd f ≤ a → f'.bytes a = 0 := by
    intro a ha
    have := h.le_end ht
    have := le_fileEnd (f := f) hpos
    rw [hbytes, Store.write_outside (by rw [hlen]; omega)]
    exact f.beyond a (by omega)
  have hcount : ∀ c, img.refcount f'.bytes c = img.refcount f.bytes c := by
    intro c
    by_cases hck : c / img.entriesPerBlock = k
    · rw [refcount_of_block l1 (hck ▸ hblock), refcount_of_none l1 (hck ▸ hnone)]
      exact entry16_zero fun a h1 _ => hzero a (by omega)
    · refine h.refcount_congr (hrest _ fun heq => hck (Ref.block.inj heq)) ?_
      intro o ho
      exact hsame o (h.aligned _ _ ho) (h.ne_of_ne ho ht (fun heq => by cases heq))
  refine ⟨⟨?_, by omega, ?_, ?_, ?_, fun c _ => hcount c⟩, hblock, hrest, hcount, hend'⟩
  · refine h.extend ?_ (by omega) (.block k) (aligned_fileEnd img f)
      (by omega) hnew fun r o ho => ?_
    · exact hsame 0 (Nat.zero_mod _) (h.ne_of_ne (r := .header) rfl ht (fun heq => by cases heq))
    · grind
  · grind
  · intro r o ho
    by_cases hr : r = .block k
    · subst hr
      exact .inr ⟨⟨k, rfl⟩, Nat.le_of_eq (Option.some.inj (hblock.symm.trans ho))⟩
    · exact .inl (hrest r hr ▸ ho)
  · intro o ho hnt _
    exact hsame o ho fun heq => hnt _ (heq ▸ (htable _).trans ht)

/-- **A count** of a cluster that has its block. -/
theorem grown_count (h : img.Sound l1 f)
    (hblock : img.place l1 f.bytes (.block (c / img.entriesPerBlock)) = some o)
    (he : e ≤ c * img.clusterSize)
    (hf' : f' = f.write (o + c % img.entriesPerBlock * 2)
      (writeUInt16BE (List.replicate 2 0) 1 0)) :
    img.Grown l1 e f f' ∧ (∀ r, img.place l1 f'.bytes r = img.place l1 f.bytes r) ∧
      img.refcount f'.bytes c = 1 ∧
      (∀ c', c' ≠ c → img.refcount f'.bytes c' = img.refcount f.bytes c') ∧
      img.fileEnd f' = img.fileEnd f := by
  have hpos := h.clusterSize_pos
  obtain ⟨_, hB, hB256, _⟩ := h.entries
  have hlen : (writeUInt16BE (List.replicate 2 0) 1 0).length = 2 := length_writeUInt16BE ..
  have hmod := Nat.mod_lt c (show 0 < img.entriesPerBlock by omega)
  have hbytes : f'.bytes = f.bytes.write (o + c % img.entriesPerBlock * 2)
      (writeUInt16BE (List.replicate 2 0) 1 0) := by rw [hf']; rfl
  have hend : img.fileEnd f' = img.fileEnd f := by
    have := h.le_end hblock
    rw [hf', fileEnd_write hpos (by rw [hlen]; omega)]
  have hplace : ∀ r, img.place l1 f'.bytes r = img.place l1 f.bytes r := by
    intro r
    rw [hbytes]
    exact h.place_write hblock (by omega) (by rw [hlen]; omega) (fun i heq => by cases heq)
      (fun i heq => by cases heq) r
  have hsame : ∀ o', o' % img.clusterSize = 0 → o' ≠ o → img.Same f.bytes f'.bytes o' := by
    intro o' ho' hne
    rw [hbytes]
    exact Same.write ho' (h.aligned _ _ hblock) hne (by omega) (by rw [hlen]; omega)
  have hone : img.refcount f'.bytes c = 1 := by
    rw [refcount_of_block l1 ((hplace _).trans hblock), hbytes]
    exact entry16_write_one
  have hother : ∀ c', c' ≠ c → img.refcount f'.bytes c' = img.refcount f.bytes c' := by
    intro c' hne
    by_cases hk : c' / img.entriesPerBlock = c / img.entriesPerBlock
    · rw [refcount_of_block l1 (o := o) (by rw [hplace, hk]; exact hblock),
        refcount_of_block l1 (o := o) (by rw [hk]; exact hblock), hbytes]
      have h1 := Nat.div_add_mod c' img.entriesPerBlock
      have h2 := Nat.div_add_mod c img.entriesPerBlock
      rw [hk] at h1
      exact entry16_congr fun a _ _ => Store.write_outside (by rw [hlen]; omega)
    · refine h.refcount_congr (hplace _) fun o' ho' => ?_
      exact hsame o' (h.aligned _ _ ho') (h.ne_of_ne ho' hblock fun heq => hk (Ref.block.inj heq))
  refine ⟨⟨?_, by omega, fun r o' ho' => by rwa [hplace], fun r o' ho' =>
    .inl (by rwa [hplace] at ho'),
    fun o' ho' _ hnb => ?_, fun c' hc' => hother c' fun heq => ?_⟩, hplace, hone, hother, hend⟩
  · refine h.congr (hsame 0 (Nat.zero_mod _) ?_) (by omega) hplace
    exact h.ne_of_ne (r := .header) rfl hblock (fun heq => by cases heq)
  · exact hsame o' ho' fun heq => hnb _ (heq ▸ (hplace _).trans hblock)
  · subst heq
    omega

/-! ## Counting a cluster -/

section

variable (img)

structure Tallied (l1 : Nat → Nat) (e c n : Nat) (s s' : ImageState) : Prop where
  grown : img.Grown l1 e s.file s'.file
  mem : s'.l1Table = s.l1Table
  faults : s.faults = [] → s'.faults = []
  growth : img.fileEnd s'.file ≤ img.fileEnd s.file + n * img.clusterSize
  one : img.refcount s'.file.bytes c = 1
  counted : ∀ P, img.CountedBut l1 (fun x => P x ∨ x = c) s.file.bytes →
    img.CountedBut l1 P s'.file.bytes

/-- The count of cluster `c` failed. -/
structure Failed (l1 : Nat → Nat) (e c n : Nat) (s s' : ImageState) : Prop where
  grown : img.Grown l1 e s.file s'.file
  mem : s'.l1Table = s.l1Table
  growth : img.fileEnd s'.file ≤ img.fileEnd s.file + n * img.clusterSize
  why : s.faults = [] → img.tableLength ≤ c / img.entriesPerBlock ∨
    img.place l1 s.file.bytes (.block (c / img.entriesPerBlock)) = none ∧
      img.tableLength ≤ (c + 1) / img.entriesPerBlock
  counted : img.Counted l1 s.file.bytes → (img.tableLength ≤ c / img.entriesPerBlock ∨
    img.place l1 s.file.bytes (.block (c / img.entriesPerBlock)) ≠ none ∨
    s.faults = [] ∧ (c + 1) / img.entriesPerBlock < img.tableLength) →
    img.Counted l1 s'.file.bytes

end

theorem Failed.of_calm (h : img.Sound l1 s.file) (hc : s.Calm s')
    (hwhy : s.faults = [] → img.tableLength ≤ c / img.entriesPerBlock ∨
      img.place l1 s.file.bytes (.block (c / img.entriesPerBlock)) = none ∧
        img.tableLength ≤ (c + 1) / img.entriesPerBlock) : img.Failed l1 e c n s s' where
  grown := by rw [hc.1]; exact .refl h
  mem := hc.2.1
  growth := by rw [hc.1]; exact Nat.le_add_right ..
  why := hwhy
  counted hcount _ := by rw [hc.1]; exact hcount

theorem Sound.table_bytes (h : img.Sound l1 f) :
    img.refcountTableClusters * img.clusterSize ≤ img.fileEnd f := by
  cases hn : img.refcountTableClusters with
  | zero => simp
  | succ n =>
    have hlast : img.place l1 f.bytes (.table n) =
        some (img.refcountTableOffset + n * img.clusterSize) := if_pos (by omega)
    have := h.le_end hlast
    rw [Nat.succ_mul]
    omega

theorem wp_tableEntries (h : img.Sound l1 s.file) (hfit : img.fileEnd s.file ≤ 2 ^ 56) :
    wp img.tableEntries (fun x s' => x = img.tableLength ∧ s' = s) E s := by
  have := h.table_bytes
  unfold Qcow2DiskImage.tableEntries
  refine wp_seq (wp_checked (E := E) (by omega)) ?_ fun _ _ h => h
  rintro _ _ ⟨rfl, rfl⟩
  exact ⟨rfl, rfl⟩

structure BlockReady (img : Qcow2DiskImage) (l1 : Nat → Nat) (e c n : Nat) (s s' : ImageState)
    (o : Nat) : Prop where
  grown : img.Grown l1 e s.file s'.file
  mem : s'.l1Table = s.l1Table
  faults : s.faults = [] → s'.faults = []
  growth : img.fileEnd s'.file ≤ img.fileEnd s.file + n * img.clusterSize
  block : img.place l1 s'.file.bytes (.block (c / img.entriesPerBlock)) = some o
  counted : ∀ P, img.CountedBut l1 P s.file.bytes → img.CountedBut l1 P s'.file.bytes

section

variable (h : img.Sound l1 s.file)

include h

theorem wp_setRefcount_of_block (hfit : img.fileEnd s.file + n * img.clusterSize ≤ 2 ^ 56)
    (he : e ≤ c * img.clusterSize)
    {depth : Nat}
    (hblock : c / img.entriesPerBlock < img.tableLength →
      wp (img.refcountBlock (fun o => img.setRefcountLoop depth o 1)
          (img.refcountTableOffset + c / img.entriesPerBlock * 8))
        (fun o s' => img.BlockReady l1 e c n s s' o) (fun _ s' => img.Failed l1 e c n s s') s) :
    wp (img.setRefcountLoop (depth + 1) (c * img.clusterSize) 1)
      (fun _ s' => img.Tallied l1 e c n s s') (fun _ s' => img.Failed l1 e c n s s') s := by
  unfold setRefcountLoop
  rw [Nat.mul_div_cancel _ h.clusterSize_pos]
  refine wp_seq (wp_tableEntries (E := fun _ _ => False) h (by omega)) ?_ fun _ _ h => h.elim
  rintro _ _ ⟨rfl, rfl⟩
  refine wp_ite (fun hk => ?_) fun hk => ?_
  · obtain ⟨t, ht, hle, hin⟩ := h.table_entry hk
    have hend := h.le_end ht
    refine wp_seq (wp_checked (E := fun _ _ => False) (by omega)) ?_ fun _ _ h => h.elim
    rintro _ _ ⟨rfl, rfl⟩
    refine wp_seq (hblock hk) ?_ fun _ _ h => h
    intro o s1 hready
    have hsound := hready.grown.sound
    obtain ⟨_, hB, hB256, _⟩ := h.entries
    have hmod := Nat.mod_lt c (show 0 < img.entriesPerBlock by omega)
    have hend1 := hsound.le_end hready.block
    have hgrowth := hready.growth
    refine wp_mono (wp_writeHandle (by omega)) ?_ ?_
    · rintro _ s2 ⟨hfile, hmem, hfaults⟩
      obtain ⟨hgrown, hplace, hone, hother, hsame⟩ := grown_count hsound hready.block he hfile
      refine ⟨hready.grown.trans hgrown, hmem.trans hready.mem,
        fun h0 => hfaults (hready.faults h0), by omega, hone, fun P hP r o' ho' hn => ?_⟩
      by_cases hc : o' / img.clusterSize = c
      · rw [hc]
        exact hone
      · rw [hother _ hc]
        rw [hplace] at ho'
        exact hready.counted _ hP r o' ho' fun hor => hor.elim hn hc
    · rintro _ s2 ⟨hcalm, hne⟩
      refine ⟨?_, hcalm.2.1.trans hready.mem, ?_, fun h0 => absurd (hready.faults h0) hne, ?_⟩
      · rw [hcalm.1]
        exact hready.grown
      · rw [hcalm.1]
        exact hgrowth
      · intro hcount _
        rw [hcalm.1]
        exact countedBut_false.mp (hready.counted _ (countedBut_false.mpr hcount))
  · exact Failed.of_calm h (.refl _) fun _ => .inl (Nat.le_of_not_lt hk)

theorem wp_setRefcount_linked (hfit : img.fileEnd s.file + n * img.clusterSize ≤ 2 ^ 56)
    (he : e ≤ c * img.clusterSize)
    (hblock : img.place l1 s.file.bytes (.block (c / img.entriesPerBlock)) = some o)
    (depth : Nat) :
    wp (img.setRefcountLoop (depth + 1) (c * img.clusterSize) 1)
      (fun _ s' => img.Tallied l1 e c n s s') (fun _ s' => img.Failed l1 e c n s s') s := by
  refine wp_setRefcount_of_block h hfit he fun hk => ?_
  obtain ⟨t, ht, hle, hin⟩ := h.table_entry hk
  have hend := h.le_end ht
  have hbelow := h.below _ _ hblock
  unfold refcountBlock
  refine wp_seq (wp_readHandle (by omega) 8) ?_ ?_
  · rintro _ s1 ⟨hcalm, rfl⟩
    have hentry : uint64BE (s.file.bytes.read (img.refcountTableOffset +
        c / img.entriesPerBlock * 8) 8) 0 &&& offsetMask = o := by
      obtain ⟨_, hoff, _⟩ := place_block.mp hblock
      have := hostOffset_eq_blockOffset (entry64 s.file.bytes (img.refcountTableOffset +
        c / img.entriesPerBlock * 8)) (by omega)
      exact this.trans hoff
    refine wp_ite (fun _ => ?_) fun hzero => ?_
    · rw [hentry]
      refine ⟨?_, hcalm.2.1, hcalm.2.2, ?_, ?_, ?_⟩
      · rw [hcalm.1]
        exact .refl h
      · rw [hcalm.1]
        exact Nat.le_add_right ..
      · rw [hcalm.1]
        exact hblock
      · intro P hP
        rw [hcalm.1]
        exact hP
    · rw [hentry] at hzero
      exact absurd (place_block.mp hblock).2.2 hzero
  · rintro _ s1 ⟨hcalm, hne⟩
    exact Failed.of_calm h hcalm fun h0 => absurd h0 hne

theorem wp_writeZeroCluster (hoff : offset < 2 ^ 63) :
    wp (img.writeZeroCluster offset)
      (fun _ s' => s.Wrote offset (List.replicate img.clusterSize 0) s')
      (fun _ s' => s.Calm s' ∧ s.faults ≠ []) s := by
  obtain ⟨m, _, hm, hcs⟩ := h.cluster
  unfold writeZeroCluster
  refine wp_seq (wp_toInt (E := fun _ _ => False) (by omega)) ?_ fun _ _ h => h.elim
  rintro _ _ ⟨rfl, rfl⟩
  exact wp_writeHandle hoff

theorem Wrote.append (hw : s.Wrote (img.fileEnd s.file) (List.replicate img.clusterSize 0) s') :
    s'.file.bytes = s.file.bytes ∧
      img.fileEnd s'.file = img.fileEnd s.file + img.clusterSize := by
  rw [hw.1]
  exact write_append h.clusterSize_pos

theorem Failed.of_append (hb : s'.file.bytes = s.file.bytes)
    (hend : img.fileEnd s'.file = img.fileEnd s.file + img.clusterSize)
    (hmem : s'.l1Table = s.l1Table) (hne : s.faults ≠ []) :
    img.Failed l1 e c (n + 1) s s' where
  grown := .of_bytes h hb (by omega)
  mem := hmem
  growth := by rw [hend, Nat.succ_mul]; omega
  why h0 := absurd h0 hne
  counted hcount _ := by rw [hb]; exact hcount

end

theorem Sound.succ_div (h : img.Sound l1 f)
    (hne : (c + 1) / img.entriesPerBlock ≠ c / img.entriesPerBlock) :
    (c + 2) / img.entriesPerBlock = (c + 1) / img.entriesPerBlock := by
  obtain ⟨_, _, hB, _⟩ := h.entries
  have hdvd : img.entriesPerBlock ∣ c + 1 := by
    by_contra hdvd
    rw [Nat.succ_div, if_neg hdvd, Nat.add_zero] at hne
    exact hne rfl
  have hnot : ¬ img.entriesPerBlock ∣ c + 1 + 1 := fun hdvd' => by
    have := Nat.le_of_dvd Nat.one_pos ((Nat.dvd_add_right hdvd).mp hdvd')
    omega
  rw [Nat.succ_div, if_neg hnot, Nat.add_zero]

theorem wp_setRefcount_new (h : img.Sound l1 s.file)
    (hfit : img.fileEnd s.file + (n + 1) * img.clusterSize ≤ 2 ^ 56)
    (hend : img.fileEnd s.file = (c + 1) * img.clusterSize) (he : e ≤ c * img.clusterSize)
    (hnone : img.place l1 s.file.bytes (.block (c / img.entriesPerBlock)) = none) {depth : Nat}
    (ih : ∀ s1 : ImageState, img.Sound l1 s1.file →
      img.fileEnd s1.file = img.fileEnd s.file + img.clusterSize →
      img.place l1 s1.file.bytes (.block (c / img.entriesPerBlock)) ≠ none →
      wp (img.setRefcountLoop depth ((c + 1) * img.clusterSize) 1)
        (fun _ s' => img.Tallied l1 e (c + 1) n s1 s') (fun _ s' => img.Failed l1 e (c + 1) n s1 s')
        s1) :
    wp (img.setRefcountLoop (depth + 1) (c * img.clusterSize) 1)
      (fun _ s' => img.Tallied l1 e c (n + 1) s s')
      (fun _ s' => img.Failed l1 e c (n + 1) s s') s := by
  have hpos := h.clusterSize_pos
  refine wp_setRefcount_of_block h hfit he fun hk => ?_
  rw [Nat.succ_mul] at hfit
  obtain ⟨t, ht, hle, hin⟩ := h.table_entry hk
  have htend := h.le_end ht
  unfold refcountBlock
  refine wp_seq (wp_readHandle (by omega) 8) ?_ fun _ s1 hf =>
    Failed.of_calm h hf.1 fun h0 => absurd h0 hf.2
  rintro _ s1 ⟨hcalm1, rfl⟩
  have hentry : uint64BE (s.file.bytes.read (img.refcountTableOffset +
      c / img.entriesPerBlock * 8) 8) 0 &&& offsetMask = 0 := by
    have h0 : blockOffset (entry64 s.file.bytes (img.refcountTableOffset +
        c / img.entriesPerBlock * 8)) = 0 := by
      by_contra hne
      rw [place_block.mpr ⟨hk, rfl, hne⟩] at hnone
      cases hnone
    have := hostOffset_eq_blockOffset (entry64 s.file.bytes (img.refcountTableOffset +
      c / img.entriesPerBlock * 8)) (by omega)
    exact this.trans h0
  refine wp_ite (fun hne => absurd hentry hne) fun _ => ?_
  refine wp_seq (wp_seekToEnd s1) ?_ fun _ s2 hf =>
    Failed.of_calm h (hcalm1.trans hf.1) fun h0 => absurd (hcalm1.2.2 h0) hf.2
  rintro _ s2 ⟨hcalm2, rfl⟩
  have hcalm := hcalm1.trans hcalm2
  have hat : roundUp s1.file.size img.clusterSize = img.fileEnd s.file := by rw [hcalm1.1]; rfl
  rw [hat]
  refine wp_seq (wp_writeZeroCluster (hcalm.1.symm ▸ h) (by omega)) ?_ fun _ s3 hf =>
    Failed.of_calm h (hcalm.trans hf.1) fun h0 => absurd (hcalm.2.2 h0) hf.2
  intro _ s3 hw
  rw [← hcalm.1] at hw
  obtain ⟨hb, hend3⟩ := Wrote.append (hcalm.1.symm ▸ h) hw
  rw [hcalm.1] at hb hend3
  have hmem3 := hw.2.1.trans hcalm.2.1
  unfold writeEntry
  refine wp_seq (wp_writeHandle (by omega)) ?_ fun _ s4 hf => ?_
  · rintro _ s4 ⟨hfile4, hmem4, hfaults4⟩
    obtain ⟨hgrown, hblock, hrest, hcounts, hend4⟩ :=
      grown_newBlock (e := e) h hk hnone (by omega) hb hend3 hfile4
    have hfaults : s.faults = [] → s4.faults = [] := fun h0 => hfaults4 (hw.2.2 (hcalm.2.2 h0))
    have hmem := hmem4.trans hmem3
    rw [hend]
    refine wp_seq (ih s4 hgrown.sound hend4 (by rw [hblock]; nofun)) ?_ fun _ s5 hf => ?_
    · intro _ s5 ht
      refine ⟨hgrown.trans ht.grown, ht.mem.trans hmem, fun h0 => ht.faults (hfaults h0), ?_,
        hend ▸ ht.grown.kept _ _ hblock, fun P hP => ht.counted P fun r o' ho' hn => ?_⟩
      · have := ht.growth
        rw [Nat.succ_mul]
        omega
      · rw [hcounts]
        have hold : r ≠ .block (c / img.entriesPerBlock) := by
          rintro rfl
          refine hn (.inr ?_)
          rw [← Option.some.inj (hblock.symm.trans ho'), hend, Nat.mul_div_cancel _ hpos]
        rw [hrest r hold] at ho'
        exact hP r o' ho' fun hp => hn (.inl hp)
    · have hwhy : s.faults = [] → img.tableLength ≤ (c + 1) / img.entriesPerBlock := by
        intro h0
        rcases hf.why (hfaults h0) with hle | ⟨hmiss, hle⟩
        · exact hle
        · rwa [h.succ_div fun heq => by rw [heq, hblock] at hmiss; cases hmiss] at hle
      refine ⟨hgrown.trans hf.grown, hf.mem.trans hmem, ?_, fun h0 => .inr ⟨hnone, hwhy h0⟩, ?_⟩
      · have := hf.growth
        rw [Nat.succ_mul]
        omega
      · rintro _ (hle | hne | ⟨h0, hlt⟩)
        · omega
        · exact absurd hnone hne
        · exact absurd (hwhy h0) (by omega)
  · refine Failed.of_append h (by rw [hf.1.1, hb]) (by rw [hf.1.1, hend3]) (hf.1.2.1.trans hmem3) ?_
    exact fun h0 => hf.2 (hw.2.2 (hcalm.2.2 h0))

/-- **Counting the last cluster of the file.** -/
theorem wp_setRefcount (h : img.Sound l1 s.file)
    (hfit : img.fileEnd s.file + 2 * img.clusterSize ≤ 2 ^ 56)
    (hend : img.fileEnd s.file = (c + 1) * img.clusterSize) (he : e ≤ c * img.clusterSize) :
    wp (img.setRefcount (c * img.clusterSize) 1)
      (fun _ s' => img.Tallied l1 e c 2 s s') (fun _ s' => img.Failed l1 e c 2 s s') s := by
  obtain ⟨_, _, hB, _⟩ := h.entries
  unfold setRefcount
  rw [if_neg (by omega)]
  cases hblock : img.place l1 s.file.bytes (.block (c / img.entriesPerBlock)) with
  | some o => exact wp_setRefcount_linked h hfit he hblock _
  | none =>
    -- deep enough, unless the table is too short for any block
    by_cases hk : c / img.entriesPerBlock < img.tableLength
    · obtain ⟨depth, hdepth⟩ : ∃ depth, img.refcountTableClusters * img.clusterSize / 8 *
          img.entriesPerBlock + 2 = depth + 1 + 1 + 1 := by
        have : 0 < img.refcountTableClusters * img.clusterSize / 8 * img.entriesPerBlock :=
          Nat.mul_pos (Nat.lt_of_le_of_lt (Nat.zero_le _) hk) (by omega)
        exact ⟨img.refcountTableClusters * img.clusterSize / 8 * img.entriesPerBlock - 1, by omega⟩
      rw [hdepth]
      refine wp_setRefcount_new h hfit hend he hblock fun s1 h1 hend1 hfound => ?_
      cases hnext : img.place l1 s1.file.bytes (.block ((c + 1) / img.entriesPerBlock)) with
      | some o => exact wp_setRefcount_linked h1 (by omega) (by rw [Nat.succ_mul]; omega) hnext _
      | none =>
        have hne : (c + 1) / img.entriesPerBlock ≠ c / img.entriesPerBlock := fun heq =>
          hfound (heq ▸ hnext)
        have hend2 : img.fileEnd s1.file = (c + 1 + 1) * img.clusterSize := by
          rw [Nat.succ_mul]
          omega
        refine wp_setRefcount_new h1 (by omega) hend2 (by rw [Nat.succ_mul]; omega) hnext ?_
        intro s2 h2 hend3 hfound2
        rw [← h.succ_div hne] at hfound2
        obtain ⟨o, ho⟩ := Option.ne_none_iff_exists'.mp hfound2
        exact wp_setRefcount_linked h2 (by omega) (by rw [Nat.succ_mul, Nat.succ_mul]; omega) ho _
    · exact wp_setRefcount_of_block h hfit he fun hlt => absurd hlt hk

section

variable (img)

def nextCluster (f : HostFile) : Nat := img.fileEnd f / img.clusterSize

/-- The next cluster can be counted, or is refused before anything is entered. -/
def Ready (l1 : Nat → Nat) (s : ImageState) : Prop :=
  img.tableLength ≤ img.nextCluster s.file / img.entriesPerBlock ∨
  img.place l1 s.file.bytes (.block (img.nextCluster s.file / img.entriesPerBlock)) ≠ none ∨
  s.faults = [] ∧ (img.nextCluster s.file + 1) / img.entriesPerBlock < img.tableLength

structure Allocated (l1 : Nat → Nat) (s s' : ImageState) (o : Nat) : Prop where
  grown : img.Grown l1 (img.fileEnd s.file) s.file s'.file
  mem : s'.l1Table = s.l1Table
  faults : s.faults = [] → s'.faults = []
  growth : img.fileEnd s'.file ≤ img.fileEnd s.file + 3 * img.clusterSize
  start : o = img.fileEnd s.file
  inside : o < img.fileEnd s'.file
  unused : ∀ r, img.place l1 s'.file.bytes r ≠ some o
  clear : ∀ a, o ≤ a → a < o + img.clusterSize → s'.file.bytes a = 0
  one : img.refcount s'.file.bytes (o / img.clusterSize) = 1
  counted : img.Counted l1 s.file.bytes → img.Counted l1 s'.file.bytes

structure Refused (l1 : Nat → Nat) (s s' : ImageState) : Prop where
  grown : img.Grown l1 (img.fileEnd s.file) s.file s'.file
  mem : s'.l1Table = s.l1Table
  growth : img.fileEnd s'.file ≤ img.fileEnd s.file + 3 * img.clusterSize
  why : s.faults = [] →
    img.tableLength ≤ (img.nextCluster s.file + 1) / img.entriesPerBlock
  counted : img.Counted l1 s.file.bytes → img.Ready l1 s → img.Counted l1 s'.file.bytes

end

theorem Refused.of_calm (h : img.Sound l1 s.file) (hc : s.Calm s') (hne : s.faults ≠ []) :
    img.Refused l1 s s' where
  grown := by rw [hc.1]; exact .refl h
  mem := hc.2.1
  growth := by rw [hc.1]; exact Nat.le_add_right ..
  why h0 := absurd h0 hne
  counted hcount _ := by rw [hc.1]; exact hcount

theorem nextCluster_mul (img : Qcow2DiskImage) (f : HostFile) :
    img.nextCluster f * img.clusterSize = img.fileEnd f :=
  Nat.div_mul_cancel (Nat.dvd_of_mod_eq_zero (aligned_fileEnd img f))

/-- **What `allocateHostCluster` does.** -/
theorem wp_allocateHostCluster (h : img.Sound l1 s.file)
    (hfit : img.fileEnd s.file + 3 * img.clusterSize ≤ 2 ^ 56) :
    wp img.allocateHostCluster (fun o s' => img.Allocated l1 s s' o)
      (fun _ s' => img.Refused l1 s s') s := by
  have hpos := h.clusterSize_pos
  have hmul := nextCluster_mul img s.file
  unfold allocateHostCluster
  refine wp_seq (wp_seekToEnd s) ?_ fun _ s1 hf => .of_calm h hf.1 hf.2
  rintro _ s1 ⟨hcalm, rfl⟩
  rw [show roundUp s.file.size img.clusterSize = img.fileEnd s.file from rfl]
  refine wp_seq (wp_writeZeroCluster (hcalm.1.symm ▸ h) (by omega)) ?_ fun _ s2 hf =>
    .of_calm h (hcalm.trans hf.1) fun h0 => hf.2 (hcalm.2.2 h0)
  intro _ s2 hw
  rw [← hcalm.1] at hw
  obtain ⟨hb, hend⟩ := Wrote.append (hcalm.1.symm ▸ h) hw
  rw [hcalm.1] at hb hend
  have hmem := hw.2.1.trans hcalm.2.1
  have hfaults : s.faults = [] → s2.faults = [] := fun h0 => hw.2.2 (hcalm.2.2 h0)
  have hgrown : img.Grown l1 (img.fileEnd s.file) s.file s2.file := .of_bytes h hb (by omega)
  have hend' : img.fileEnd s2.file = (img.nextCluster s.file + 1) * img.clusterSize := by
    rw [Nat.succ_mul, hmul, hend]
  rw [← hmul]
  refine wp_seq (wp_setRefcount hgrown.sound (by omega) hend' (Nat.le_of_eq hmul.symm)) ?_ ?_
  · intro _ s3 ht
    have hunused : ∀ r, img.place l1 s3.file.bytes r ≠ some (img.fileEnd s.file) := by
      intro r hr
      rcases (hgrown.trans ht.grown).fresh r _ hr with hold | ⟨⟨k, rfl⟩, _⟩
      · exact Nat.lt_irrefl _ (h.below r _ hold)
      · -- a new block comes after the cluster it is made for
        rcases ht.grown.fresh _ _ hr with hold | ⟨_, hle⟩
        · rw [hb] at hold
          exact Nat.lt_irrefl _ (h.below _ _ hold)
        · omega
    have hgrow := ht.grown.grow
    have hgrowth := ht.growth
    refine ⟨hgrown.trans ht.grown, ht.mem.trans hmem, fun h0 => ht.faults (hfaults h0), by omega,
      hmul, by rw [hmul]; omega, hmul ▸ hunused, ?_, ?_, fun hcount => ?_⟩
    · intro a h1 h2
      rw [hmul] at h1 h2
      rw [ht.grown.same _ (aligned_fileEnd img s.file) (fun i => hunused _) (fun k => hunused _)
        a h1 h2, hb]
      exact s.file.beyond a (Nat.le_trans (le_fileEnd hpos) h1)
    · rw [Nat.mul_div_cancel _ hpos]
      exact ht.one
    · refine countedBut_false.mp (ht.counted _ ?_)
      rw [hb]
      exact (countedBut_false.mpr hcount).weaken fun x hx => hx.elim
  · intro _ s3 hf
    have hgrowth := hf.growth
    refine ⟨hgrown.trans hf.grown, hf.mem.trans hmem, by omega, fun h0 => ?_,
      fun hcount hready => ?_⟩
    · rcases hf.why (hfaults h0) with hle | ⟨_, hle⟩
      · exact hle.trans (Nat.div_le_div_right (Nat.le_succ _))
      · exact hle
    · refine hf.counted (hb.symm ▸ hcount) ?_
      rw [hb]
      exact hready.imp id (Or.imp id fun hr => ⟨hfaults hr.1, hr.2⟩)

end Qcow2DiskImage

end DukeX.Qcow2
