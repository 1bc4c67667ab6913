import DukeX.Qcow2.Format

/-!
# Images in order, under writes

A write of the code stays inside one host cluster.
-/

namespace DukeX.Qcow2

open DukeX.Lib DukeX.Swift
open DukeX.Fatx (roundUp le_roundUp)

namespace Qcow2DiskImage

variable {img : Qcow2DiskImage} {l1 l1' : Nat → Nat} {f f' : HostFile} {r r' : Ref}
variable {b b' : Store} {offset o o' k i j : Nat} {data : Data}

/-! ## An image in order -/

theorem Sound.cluster (h : img.Sound l1 f) :
    ∃ m, 0 < m ∧ m ≤ 4096 ∧ img.clusterSize = 512 * m := by
  obtain ⟨hlo, hhi⟩ := h.bits
  obtain ⟨k, hk⟩ := Nat.exists_eq_add_of_le hlo
  refine ⟨2 ^ k, Nat.two_pow_pos k, ?_, ?_⟩
  · exact Nat.pow_le_pow_right (n := 2) (by omega) (show k ≤ 12 by omega)
  · rw [clusterSize, if_pos (by omega), hk, Nat.pow_add]

theorem Sound.clusterSize_pos (h : img.Sound l1 f) : 0 < img.clusterSize := by
  obtain ⟨m, hm, _, hcs⟩ := h.cluster
  omega

theorem Sound.entries (h : img.Sound l1 f) : img.l2Entries * 8 = img.clusterSize ∧
    img.entriesPerBlock * 2 = img.clusterSize ∧ 256 ≤ img.entriesPerBlock ∧
    img.tableLength * 8 = img.refcountTableClusters * img.clusterSize := by
  obtain ⟨m, hm, _, hcs⟩ := h.cluster
  refine ⟨?_, ?_, ?_, ?_⟩
  · rw [l2Entries]
    omega
  · rw [entriesPerBlock]
    omega
  · rw [entriesPerBlock]
    omega
  · rw [tableLength, hcs, Nat.mul_left_comm, show 512 = 8 * 64 from rfl, Nat.mul_assoc,
      Nat.mul_div_cancel_left _ (by decide)]
    ring

theorem Sound.sector (h : img.Sound l1 f) {o : Nat} (ho : o % img.clusterSize = 0) :
    o % 512 = 0 := by
  obtain ⟨m, _, _, hcs⟩ := h.cluster
  rw [hcs] at ho
  exact Nat.mod_eq_zero_of_dvd (Nat.dvd_trans (Nat.dvd_mul_right 512 m) (Nat.dvd_of_mod_eq_zero ho))

theorem place_block {k : Nat} : img.place l1 b (.block k) = some o ↔ k < img.tableLength ∧
    blockOffset (entry64 b (img.refcountTableOffset + k * 8)) = o ∧ o ≠ 0 := by
  simp only [place]
  by_cases hk : k < img.tableLength
  · rw [if_pos hk]
    by_cases h0 : blockOffset (entry64 b (img.refcountTableOffset + k * 8)) = 0
    · simp_all
    · grind
  · rw [if_neg hk]
    simp [hk]

theorem place_l2 {i : Nat} : img.place l1 b (.l2 i) = some o ↔
    i < img.l1Size ∧ hostOffset (l1 i) = o ∧ o ≠ 0 := by
  simp only [place]
  by_cases hi : i < img.l1Size ∧ hostOffset (l1 i) ≠ 0
  · grind
  · grind

theorem place_data {i j p : Nat} : img.place l1 b (.data i j p) = some o ↔
    ∃ t, img.place l1 b (.l2 i) = some t ∧ j < img.l2Entries ∧
      (img.hosts (entry64 b (t + j * 8)))[p]? = some o := by
  constructor
  · intro h
    simp only [place] at h
    split at h
    · rename_i hc
      exact ⟨_, place_l2.mpr ⟨hc.1, rfl, hc.2.1⟩, hc.2.2, h⟩
    · cases h
  · rintro ⟨t, ht, hj, h⟩
    obtain ⟨hi, rfl, hne⟩ := place_l2.mp ht
    simp [place, hi, hne, hj, h]

variable {entry c : Nat}

theorem hosts_of_none (hplain : ¬ isCompressed entry) (hnone : hostOffset entry = 0) :
    img.hosts entry = [] := by
  rw [hosts, if_neg hplain, if_pos hnone]

theorem hosts_of_some (hplain : ¬ isCompressed entry) (hsome : hostOffset entry ≠ 0) :
    img.hosts entry = [hostOffset entry] := by
  rw [hosts, if_neg hplain, if_neg hsome]

theorem hosts_zero : img.hosts 0 = [] := hosts_of_none not_isCompressed_zero hostOffset_zero

theorem place_congr (htable : ∀ k, k < img.tableLength →
      entry64 b' (img.refcountTableOffset + k * 8) = entry64 b (img.refcountTableOffset + k * 8))
    (hl2 : ∀ i t, img.place l1 b (.l2 i) = some t → ∀ j, j < img.l2Entries →
      entry64 b' (t + j * 8) = entry64 b (t + j * 8)) (r : Ref) :
    img.place l1 b' r = img.place l1 b r := by
  cases r with
  | header | l1 i | table i | l2 i => rfl
  | block k =>
    simp only [place]
    simp_all
  | data i j p =>
    simp only [place]
    by_cases hc : i < img.l1Size ∧ hostOffset (l1 i) ≠ 0 ∧ j < img.l2Entries
    · rw [if_pos hc, if_pos hc, hl2 i _ (place_l2.mpr ⟨hc.1, rfl, hc.2.1⟩) j hc.2.2]
    · rw [if_neg hc, if_neg hc]

/-! ## Clusters apart -/

theorem Sound.ne_of_ne (h : img.Sound l1 f) (ho : img.place l1 f.bytes r = some o)
    (ho' : img.place l1 f.bytes r' = some o') (hne : r ≠ r') : o ≠ o' := by
  rintro rfl
  exact hne (h.distinct r r' o ho ho')

theorem div_mul_of_aligned (ho : o % img.clusterSize = 0) :
    o / img.clusterSize * img.clusterSize = o := Nat.div_mul_cancel (Nat.dvd_of_mod_eq_zero ho)

theorem Sound.div_mul_of_place (h : img.Sound l1 f) (ho : img.place l1 f.bytes r = some o) :
    o / img.clusterSize * img.clusterSize = o := div_mul_of_aligned (h.aligned r o ho)

theorem aligned_fileEnd (img : Qcow2DiskImage) (f : HostFile) :
    img.fileEnd f % img.clusterSize = 0 := Nat.mul_mod_left ..

theorem le_fileEnd (hpos : 0 < img.clusterSize) : f.size ≤ img.fileEnd f := le_roundUp _ hpos

theorem Sound.le_end (h : img.Sound l1 f) (ho : img.place l1 f.bytes r = some o) :
    o + img.clusterSize ≤ img.fileEnd f :=
  le_of_aligned (h.aligned r o ho) (aligned_fileEnd img f) (h.below r o ho)

theorem Sound.same_write (h : img.Sound l1 f) (ho' : img.place l1 f.bytes r' = some o')
    (hle : o' ≤ offset) (hfit : offset + data.length ≤ o' + img.clusterSize)
    (ho : img.place l1 f.bytes r = some o) (hne : r ≠ r') :
    img.Same f.bytes (f.bytes.write offset data) o :=
  Same.write (h.aligned r o ho) (h.aligned r' o' ho') (h.ne_of_ne ho ho' hne) hle hfit

theorem Sound.table_entry (h : img.Sound l1 f) (hk : k < img.tableLength) :
    ∃ t, img.place l1 f.bytes (.table (k / img.l2Entries)) = some t ∧
      t ≤ img.refcountTableOffset + k * 8 ∧
      img.refcountTableOffset + k * 8 + 8 ≤ t + img.clusterSize := by
  obtain ⟨hE, _, _, hT⟩ := h.entries
  have hpos := h.clusterSize_pos
  have hdiv := Nat.div_add_mod k img.l2Entries
  have hmod := Nat.mod_lt k (show 0 < img.l2Entries by omega)
  have hsplit : k * 8 = k / img.l2Entries * img.clusterSize + k % img.l2Entries * 8 := by
    rw [← hE, ← Nat.mul_assoc, ← Nat.add_mul, Nat.mul_comm (k / _), hdiv]
  have hlt : k / img.l2Entries < img.refcountTableClusters := by
    by_contra hge
    have := Nat.mul_le_mul_right img.clusterSize (Nat.le_of_not_lt hge)
    omega
  refine ⟨_, if_pos hlt, ?_, ?_⟩ <;> omega

theorem place_l1_entry (hE : img.l2Entries * 8 = img.clusterSize) (hpos : 0 < img.l2Entries)
    (hi : i < img.l1Size) : ∃ t, img.place l1 b (.l1 (i / img.l2Entries)) = some t ∧
      t ≤ img.l1TableOffset + i * 8 ∧
      img.l1TableOffset + i * 8 + 8 ≤ t + img.clusterSize := by
  have hdiv := Nat.div_add_mod i img.l2Entries
  have hmod := Nat.mod_lt i hpos
  have hsplit : i * 8 = i / img.l2Entries * img.clusterSize + i % img.l2Entries * 8 := by
    rw [← hE, ← Nat.mul_assoc, ← Nat.add_mul, Nat.mul_comm (i / _), hdiv]
  refine ⟨_, if_pos (by omega), ?_, ?_⟩ <;> omega

section

variable (h : img.Sound l1 f)

include h

theorem Sound.l1_entry (hi : i < img.l1Size) :
    ∃ t, img.place l1 f.bytes (.l1 (i / img.l2Entries)) = some t ∧
      t ≤ img.l1TableOffset + i * 8 ∧
      img.l1TableOffset + i * 8 + 8 ≤ t + img.clusterSize := by
  obtain ⟨hE, _⟩ := h.entries
  have hpos := h.clusterSize_pos
  exact place_l1_entry hE (by omega) hi

theorem Sound.table_eq_of_same (hk : k < img.tableLength)
    (hs : ∀ i t, img.place l1 f.bytes (.table i) = some t → img.Same f.bytes b' t) :
    entry64 b' (img.refcountTableOffset + k * 8) =
      entry64 f.bytes (img.refcountTableOffset + k * 8) := by
  obtain ⟨t, ht, hle, hfit⟩ := h.table_entry hk
  exact entry64_congr fun a h1 h2 => hs _ t ht a (by omega) (by omega)

theorem Sound.l2_eq_of_same {t : Nat} (hs : img.Same f.bytes b' t)
    (hj : j < img.l2Entries) : entry64 b' (t + j * 8) = entry64 f.bytes (t + j * 8) := by
  obtain ⟨hE, _⟩ := h.entries
  exact entry64_congr fun a h1 h2 => hs a (by omega) (by omega)

theorem Sound.place_of_same (htable : ∀ i t, img.place l1 f.bytes (.table i) = some t → img.Same f.bytes b' t)
    (hl2 : ∀ i t, img.place l1 f.bytes (.l2 i) = some t → img.Same f.bytes b' t) (r : Ref) :
    img.place l1 b' r = img.place l1 f.bytes r :=
  place_congr (fun _ hk => h.table_eq_of_same hk htable)
    (fun i t ht _ hj => h.l2_eq_of_same (hl2 i t ht) hj) r

theorem Sound.place_write (ho' : img.place l1 f.bytes r' = some o')
    (hle : o' ≤ offset) (hfit : offset + data.length ≤ o' + img.clusterSize)
    (htable : ∀ i, r' ≠ .table i) (hl2 : ∀ i, r' ≠ .l2 i) (r : Ref) :
    img.place l1 (f.bytes.write offset data) r = img.place l1 f.bytes r :=
  h.place_of_same (fun i _ ht => h.same_write ho' hle hfit ht fun heq => htable i heq.symm)
    (fun i _ ht => h.same_write ho' hle hfit ht fun heq => hl2 i heq.symm) r

theorem Sound.place_link_block (hk : k < img.tableLength)
    (h512 : o % 512 = 0) (hlt : o < 2 ^ 64) (h0 : o ≠ 0) :
    img.place l1 (f.bytes.write (img.refcountTableOffset + k * 8)
        (writeUInt64BE (List.replicate 8 0) o 0)) (.block k) = some o ∧
      ∀ r, r ≠ .block k → img.place l1 (f.bytes.write (img.refcountTableOffset + k * 8)
        (writeUInt64BE (List.replicate 8 0) o 0)) r = img.place l1 f.bytes r := by
  have hlen : (writeUInt64BE (List.replicate 8 0) o 0).length = 8 := length_writeUInt64BE ..
  refine ⟨place_block.mpr ⟨hk, ?_, h0⟩, fun r hr => ?_⟩
  · rw [entry64_write hlt, blockOffset_eq h512]
  · obtain ⟨t, ht, hle, hfit⟩ := h.table_entry hk
    have hl2 : ∀ i t', img.place l1 f.bytes (.l2 i) = some t' → img.Same f.bytes _ t' :=
      fun i t' ht' => h.same_write ht hle (hlen.symm ▸ hfit) ht' (fun heq => by cases heq)
    cases r with
    | block k' =>
      have hne : k' ≠ k := fun heq => hr (by rw [heq])
      simp only [place]
      rw [entry64_congr fun a h1 h2 => Store.write_outside (by rw [hlen]; omega)]
    | data i j p =>
      simp only [place]
      by_cases hc : i < img.l1Size ∧ hostOffset (l1 i) ≠ 0 ∧ j < img.l2Entries
      · rw [if_pos hc, if_pos hc,
          h.l2_eq_of_same (hl2 i _ (place_l2.mpr ⟨hc.1, rfl, hc.2.1⟩)) hc.2.2]
      · rw [if_neg hc, if_neg hc]
    | header | l1 i | table i | l2 i => rfl

theorem Sound.place_link_data {t value : Nat}
    (ht : img.place l1 f.bytes (.l2 i) = some t) (hj : j < img.l2Entries) (hlt : value < 2 ^ 64) :
    (∀ p, img.place l1 (f.bytes.write (t + j * 8) (writeUInt64BE (List.replicate 8 0) value 0))
      (.data i j p) = (img.hosts value)[p]?) ∧
    ∀ r, (∀ p, r ≠ .data i j p) → img.place l1 (f.bytes.write (t + j * 8)
      (writeUInt64BE (List.replicate 8 0) value 0)) r = img.place l1 f.bytes r := by
  have hlen : (writeUInt64BE (List.replicate 8 0) value 0).length = 8 := length_writeUInt64BE ..
  obtain ⟨hE, _⟩ := h.entries
  obtain ⟨hi, rfl, hne⟩ := place_l2.mp ht
  have hfit : hostOffset (l1 i) + j * 8 + (writeUInt64BE (List.replicate 8 0) value 0).length ≤
      hostOffset (l1 i) + img.clusterSize := by rw [hlen]; omega
  refine ⟨fun p => ?_, fun r hr => ?_⟩
  · simp only [place]
    rw [if_pos ⟨hi, hne, hj⟩, entry64_write hlt]
  · cases r with
    | block k =>
      simp only [place]
      by_cases hk : k < img.tableLength
      · rw [h.table_eq_of_same hk fun i' t' ht' =>
          h.same_write ht (by omega) hfit ht' (fun heq => by cases heq)]
      · rw [if_neg hk, if_neg hk]
    | data i' j' p =>
      simp only [place]
      by_cases hc : i' < img.l1Size ∧ hostOffset (l1 i') ≠ 0 ∧ j' < img.l2Entries
      · rw [if_pos hc, if_pos hc]
        by_cases hii : i' = i
        · subst hii
          have hjj : j' ≠ j := fun heq => hr p (by rw [heq])
          rw [entry64_congr fun a h1 h2 => Store.write_outside (by rw [hlen]; omega)]
        · rw [h.l2_eq_of_same (h.same_write ht (by omega) hfit
            (place_l2.mpr ⟨hc.1, rfl, hc.2.1⟩) fun heq => hii (by cases heq; rfl)) hc.2.2]
      · rw [if_neg hc, if_neg hc]
    | header | l1 i | table i | l2 i => rfl

end

theorem fileEnd_eq {x : Nat} (hpos : 0 < img.clusterSize) (h1 : f.size ≤ x)
    (h2 : x ≤ img.fileEnd f) : roundUp x img.clusterSize = img.fileEnd f := by
  have hle := le_roundUp x hpos
  unfold fileEnd at h2 ⊢
  unfold roundUp at h2 hle ⊢
  refine congrArg (· * img.clusterSize) (Nat.le_antisymm ?_ ?_)
  · refine Nat.le_of_lt_succ ((Nat.div_lt_iff_lt_mul hpos).mpr ?_)
    rw [Nat.succ_mul]
    omega
  · exact Nat.div_le_div_right (by omega)

theorem fileEnd_write (hpos : 0 < img.clusterSize)
    (hfit : offset + data.length ≤ img.fileEnd f) :
    img.fileEnd (f.write offset data) = img.fileEnd f := by
  have hle := le_fileEnd (f := f) hpos
  refine fileEnd_eq hpos (Nat.le_max_left ..) (Nat.max_le.mpr ⟨hle, ?_⟩)
  split <;> omega

theorem write_append (hpos : 0 < img.clusterSize) :
    (f.write (img.fileEnd f) (List.replicate img.clusterSize 0)).bytes = f.bytes ∧
    img.fileEnd (f.write (img.fileEnd f) (List.replicate img.clusterSize 0)) =
      img.fileEnd f + img.clusterSize := by
  have hle := le_fileEnd (f := f) hpos
  constructor
  · funext a
    show f.bytes.write _ _ a = _
    by_cases ha : img.fileEnd f ≤ a ∧ a < img.fileEnd f + img.clusterSize
    · obtain ⟨d, rfl⟩ := Nat.exists_eq_add_of_le ha.1
      rw [Store.write_inside (by simp; omega), f.beyond _ (by omega)]
      simp [List.getD_eq_getElem?_getD]
    · exact Store.write_outside (by simp; omega)
  · have hne : List.replicate img.clusterSize (0 : UInt8) ≠ [] := by
      simp only [ne_eq, List.replicate_eq_nil_iff]
      omega
    have hsize : (f.write (img.fileEnd f) (List.replicate img.clusterSize 0)).size =
        img.fileEnd f + img.clusterSize := by
      show max f.size (if _ then _ else _) = _
      rw [if_neg hne, List.length_replicate]
      omega
    have hmod := aligned_fileEnd img f
    obtain ⟨k, hk⟩ := Nat.dvd_of_mod_eq_zero hmod
    unfold fileEnd at hsize hk ⊢
    rw [hsize, hk, roundUp, show img.clusterSize * k + img.clusterSize + img.clusterSize - 1 =
      (img.clusterSize - 1) + img.clusterSize * (k + 1) by rw [Nat.mul_succ]; omega,
      Nat.add_mul_div_left _ _ hpos, Nat.div_eq_of_lt (by omega)]
    ring

theorem refcountOrder_congr (hcs : 512 ≤ img.clusterSize) (h : img.Same b b' 0) :
    refcountOrder b' = refcountOrder b := by
  have hread : ∀ at', at' ≤ 100 → b'.read at' 4 = b.read at' 4 := fun at' hle =>
    Store.read_congr fun a _ _ => h a (by omega) (by omega)
  simp [refcountOrder, hread]

theorem Sound.cluster_ge (h : img.Sound l1 f) : 512 ≤ img.clusterSize := by
  obtain ⟨m, hm, _, hcs⟩ := h.cluster
  omega

/-- **How an image in order grows**: by one reference, to a cluster nothing else has. -/
theorem Sound.extend (h : img.Sound l1 f) (hheader : img.Same f.bytes f'.bytes 0)
    (hend : img.fileEnd f ≤ img.fileEnd f') (r0 : Ref) {o0 : Nat}
    (ho0 : o0 % img.clusterSize = 0) (hlt : o0 < img.fileEnd f')
    (hnew : ∀ r, img.place l1 f.bytes r ≠ some o0)
    (hplace : ∀ r o, img.place l1' f'.bytes r = some o →
      img.place l1 f.bytes r = some o ∨ r = r0 ∧ o = o0) : img.Sound l1' f' where
  bits := h.bits
  order := (refcountOrder_congr h.cluster_ge hheader).trans h.order
  aligned r o ho := by
    rcases hplace r o ho with hold | ⟨_, rfl⟩
    · exact h.aligned r o hold
    · exact ho0
  below r o ho := by
    rcases hplace r o ho with hold | ⟨_, rfl⟩
    · exact Nat.lt_of_lt_of_le (h.below r o hold) hend
    · exact hlt
  distinct r r' o ho ho' := by
    rcases hplace r o ho with hold | ⟨rfl, rfl⟩ <;> rcases hplace r' _ ho' with hold' | ⟨rfl, heq⟩
    · exact h.distinct r r' o hold hold'
    · exact absurd (heq ▸ hold) (hnew r)
    · exact absurd hold' (hnew r')
    · rfl

theorem Sound.congr (h : img.Sound l1 f) (hheader : img.Same f.bytes f'.bytes 0)
    (hend : img.fileEnd f ≤ img.fileEnd f')
    (hplace : ∀ r, img.place l1' f'.bytes r = img.place l1 f.bytes r) : img.Sound l1' f' where
  bits := h.bits
  order := (refcountOrder_congr h.cluster_ge hheader).trans h.order
  aligned r o ho := h.aligned r o (hplace r ▸ ho)
  below r o ho := Nat.lt_of_lt_of_le (h.below r o (hplace r ▸ ho)) hend
  distinct r r' o ho ho' := h.distinct r r' o (hplace r ▸ ho) (hplace r' ▸ ho')

variable (l1) in
theorem refcount_of_block (h : img.place l1 b (.block (c / img.entriesPerBlock)) = some o) :
    img.refcount b c = entry16 b (o + c % img.entriesPerBlock * 2) := by
  have h' : img.place (fun _ => 0) b (.block (c / img.entriesPerBlock)) = some o := h
  rw [refcount, h']

variable (l1) in
theorem refcount_of_none
    (h : img.place l1 b (.block (c / img.entriesPerBlock)) = none) : img.refcount b c = 0 := by
  have h' : img.place (fun _ => 0) b (.block (c / img.entriesPerBlock)) = none := h
  rw [refcount, h']

theorem Sound.refcount_congr (h : img.Sound l1 f)
    (hplace : img.place l1 b' (.block (c / img.entriesPerBlock)) =
      img.place l1 b (.block (c / img.entriesPerBlock)))
    (hsame : ∀ o, img.place l1 b (.block (c / img.entriesPerBlock)) = some o → img.Same b b' o) :
    img.refcount b' c = img.refcount b c := by
  obtain ⟨_, hB, hB256, _⟩ := h.entries
  have hmod := Nat.mod_lt c (show 0 < img.entriesPerBlock by omega)
  cases ho : img.place l1 b (.block (c / img.entriesPerBlock)) with
  | none => rw [refcount_of_none l1 ho, refcount_of_none l1 (hplace.trans ho)]
  | some o =>
    rw [refcount_of_block l1 ho, refcount_of_block l1 (hplace.trans ho)]
    exact entry16_congr fun a h1 h2 => hsame o ho a (by omega) (by omega)

end Qcow2DiskImage

end DukeX.Qcow2
