import DukeX.Qcow2.Edit

/-!
# What the guest sees of an edit

Linking clusters changes nothing for the guest as long as nothing shows through unallocated
clusters, and storing bytes overwrites those of the request, provided that the cluster is not one of
those that read as zeros whatever is stored in them.
-/

namespace DukeX.Qcow2

open DukeX.Lib DukeX.Swift

section

variable {entry : Nat}

theorem clusterType_of_some (hplain : ¬ isCompressed entry) (hsome : hostOffset entry ≠ 0) :
    clusterType entry = .normal ∨ clusterType entry = .zeroAlloc := by
  rw [clusterType, if_neg hplain, if_pos hsome, if_neg hsome]
  grind

theorem clusterType_of_none (hplain : ¬ isCompressed entry) (hnone : hostOffset entry = 0) :
    clusterType entry = .unallocated ∨ clusterType entry = .zeroPlain := by
  rw [clusterType, if_neg hplain, if_pos hnone, if_neg (not_not_intro hnone)]
  grind

theorem clusterType_compressed : clusterType entry = .compressed ↔ isCompressed entry := by
  constructor
  · grind [clusterType_of_none, clusterType_of_some]
  · intro h
    rw [clusterType, if_pos h]

theorem host_of_clusterType (h : clusterType entry = .normal ∨ clusterType entry = .zeroAlloc) :
    ¬ isCompressed entry ∧ hostOffset entry ≠ 0 := by
  have hplain : ¬ isCompressed entry := fun hc => by
    rw [clusterType_compressed.mpr hc] at h
    rcases h with h | h <;> cases h
  grind [clusterType_of_none]

end

namespace Qcow2DiskImage

variable {img : Qcow2DiskImage} {G : Nat → Prop} {ok synced : Prop} {x y : View} {l1 : Nat → Nat}
variable {f f' : HostFile} {b : Store} {r : Ref} {e i o t g a cursor : Nat} {chunk : Data}

theorem l2EntryOf_of_place (ht : img.place l1 b (.l2 (g / img.l2Entries)) = some t) :
    img.l2EntryOf l1 b g = entry64 b (img.entryAt t g) := by
  obtain ⟨hi, rfl, h0⟩ := place_l2.mp ht
  rw [l2EntryOf, if_pos ⟨hi, h0⟩]
  rfl

theorem l2EntryOf_of_none (ht : img.place l1 b (.l2 (g / img.l2Entries)) = none) :
    img.l2EntryOf l1 b g = 0 := by
  rw [l2EntryOf, if_neg]
  intro hc
  rw [place_l2.mpr ⟨hc.1, rfl, hc.2⟩] at ht
  cases ht

theorem place_l2_of_entry (h0 : img.l2EntryOf l1 b g ≠ 0) :
    ∃ t, img.place l1 b (.l2 (g / img.l2Entries)) = some t := by
  cases ht : img.place l1 b (.l2 (g / img.l2Entries)) with
  | none => exact absurd (l2EntryOf_of_none ht) h0
  | some t => exact ⟨t, rfl⟩

theorem Sound.place_of_entry (h : img.Sound l1 f)
    (hplain : ¬ isCompressed (img.l2EntryOf l1 f.bytes g))
    (hsome : hostOffset (img.l2EntryOf l1 f.bytes g) ≠ 0) :
    img.place l1 f.bytes (.data (g / img.l2Entries) (g % img.l2Entries) 0) =
      some (hostOffset (img.l2EntryOf l1 f.bytes g)) := by
  have h0 : img.l2EntryOf l1 f.bytes g ≠ 0 := fun h0 => hsome (by rw [h0]; rfl)
  obtain ⟨t, ht⟩ := place_l2_of_entry h0
  rw [l2EntryOf_of_place ht] at hplain hsome ⊢
  exact h.place_normal ht hplain hsome

/-! ## The L1 table of the file -/

theorem Sound.l1OnDisk_congr (h : img.Sound l1 f) {b' : Store}
    (hs : ∀ i t, img.place l1 f.bytes (.l1 i) = some t → img.Same f.bytes b' t)
    (hi : i < img.l1Size) : img.l1OnDisk b' i = img.l1OnDisk f.bytes i := by
  obtain ⟨t, ht, hle, hfit⟩ := h.l1_entry hi
  exact entry64_congr fun a h1 h2 => hs _ t ht a (by omega) (by omega)

theorem Grown.same_of_place (hg : img.Grown l1 e f f') (h : img.Sound l1 f)
    (ho : img.place l1 f.bytes r = some o) (htable : ∀ i, r ≠ .table i)
    (hblock : ∀ k, r ≠ .block k) : img.Same f.bytes f'.bytes o :=
  hg.same o (h.aligned r o ho)
    (fun i hi => htable i (hg.sound.distinct _ _ o (hg.kept r o ho) hi))
    (fun k hk => hblock k (hg.sound.distinct _ _ o (hg.kept r o ho) hk))

theorem Link.l1_entry (h : img.Sound x.1 x.2) (hlink : img.Link e G ok synced x y)
    (hi : i < img.l1Size) :
    y.1 i = x.1 i ∧ img.l1OnDisk y.2.bytes i = img.l1OnDisk x.2.bytes i ∨
      hostOffset (x.1 i) = 0 ∧ (img.l1OnDisk y.2.bytes i = y.1 i ∨
        ¬ synced ∧ img.l1OnDisk y.2.bytes i = img.l1OnDisk x.2.bytes i) := by
  cases hlink with
  | grow he hg hok =>
    refine .inl ⟨rfl, h.l1OnDisk_congr (fun i t ht => ?_) hi⟩
    exact hg.same_of_place h ht (fun _ heq => by cases heq) (fun _ heq => by cases heq)
  | @table l1 f f' g o hg hi' hnone ho hf' =>
    by_cases hii : i = g / img.l2Entries
    · subst hii
      have hold : hostOffset (l1 (g / img.l2Entries)) = 0 := by
        by_contra h0
        rw [place_l2.mpr ⟨hi', rfl, h0⟩] at hnone
        cases hnone
      refine .inr ⟨hold, hf'.imp (fun hf' => ?_) fun hf' => ⟨hf'.1, by rw [hf'.2]⟩⟩
      have hself : Function.update l1 (g / img.l2Entries) (o ||| copiedFlag)
        (g / img.l2Entries) = o ||| copiedFlag := Function.update_self ..
      rw [hf']
      exact (entry64_write ho.value_lt).trans hself.symm
    · refine .inl ⟨Function.update_of_ne hii .., ?_⟩
      rcases hf' with rfl | ⟨_, rfl⟩
      · refine entry64_congr fun a h1 h2 => Store.write_outside ?_
        rw [length_entryFor]
        omega
      · rfl
  | data hg ht hplain hnone ho =>
    obtain ⟨hle, hfit⟩ := h.entryAt_fits _ _ _
    refine .inl ⟨rfl, h.l1OnDisk_congr (fun i t ht' => ?_) hi⟩
    exact h.same_write ht hle hfit ht' (fun heq => by cases heq)

variable (img) in
def Lagging (x : View) : Prop := ∀ i, i < img.l1Size →
  img.l1OnDisk x.2.bytes i = x.1 i ∨ hostOffset (img.l1OnDisk x.2.bytes i) = 0

variable (img) in
def Coherent (x : View) : Prop := ∀ i, i < img.l1Size → img.l1OnDisk x.2.bytes i = x.1 i

section

variable (h : img.Sound x.1 x.2)

include h

theorem Link.lagging (hlink : img.Link e G ok synced x y)
    (hlag : img.Lagging x) : img.Lagging y := by
  intro i hi
  rcases hlink.l1_entry h hi with ⟨hmem, hdisk⟩ | ⟨hnone, hdisk | ⟨_, hdisk⟩⟩
  · rw [hmem, hdisk]
    exact hlag i hi
  · exact .inl hdisk
  · refine .inr ?_
    rw [hdisk]
    rcases hlag i hi with heq | h0
    · rw [heq]
      exact hnone
    · exact h0

theorem Link.coherent (hlink : img.Link e G ok True x y)
    (hco : img.Coherent x) : img.Coherent y := by
  intro i hi
  rcases hlink.l1_entry h hi with ⟨hmem, hdisk⟩ | ⟨_, hdisk | ⟨hn, _⟩⟩
  · rw [hmem, hdisk]
    exact hco i hi
  · exact hdisk
  · exact absurd trivial hn

theorem Stored.l1_entry (hstore : img.Stored cursor chunk x y)
    (hi : i < img.l1Size) :
    y.1 i = x.1 i ∧ img.l1OnDisk y.2.bytes i = img.l1OnDisk x.2.bytes i := by
  cases hstore with
  | mk ht hplain hsome hfit =>
    refine ⟨rfl, h.l1OnDisk_congr (fun i t ht' => ?_) hi⟩
    refine h.same_write (h.place_normal ht hplain hsome) (Nat.le_add_right ..) ?_ ht'
      (fun heq => by cases heq)
    rw [Nat.add_assoc]
    exact Nat.add_le_add_left hfit _

theorem Edit.lagging (hedit : img.Edit e G ok x y)
    (hlag : img.Lagging x) : img.Lagging y := by
  cases hedit with
  | link hlink => exact hlink.lagging h hlag
  | store hg hstore =>
    intro i hi
    obtain ⟨hmem, hdisk⟩ := hstore.l1_entry h hi
    rw [hmem, hdisk]
    exact hlag i hi

theorem Edits.lagging (hedits : img.Edits e G ok x y)
    (hlag : img.Lagging x) : img.Lagging y := by
  induction hedits with
  | refl => exact hlag
  | tail hedits hedit ih => exact hedit.lagging (Edits.preserved h hedits).sound ih

theorem Link.data_same (hlink : img.Link e G ok synced x y) {j p : Nat}
    (ho : img.place x.1 x.2.bytes (.data i j p) = some o) : img.Same x.2.bytes y.2.bytes o := by
  cases hlink with
  | grow he hg hok =>
    exact hg.same_of_place h ho (fun _ heq => by cases heq) (fun _ heq => by cases heq)
  | table hg hi' hnone ho' hf' =>
    rcases hf' with rfl | ⟨_, rfl⟩
    · obtain ⟨t, ht, hle, hfit⟩ := h.l1_entry hi'
      exact h.same_write ht hle (by rw [length_entryFor]; exact hfit) ho (fun heq => by cases heq)
    · exact .of_bytes rfl
  | data hg ht hplain hnone ho' =>
    obtain ⟨hle, hfit⟩ := h.entryAt_fits _ _ _
    exact h.same_write ht hle hfit ho (fun heq => by cases heq)

end

theorem Sound.l2EntryOf_congr (h : img.Sound l1 f) {b' : Store}
    (hs : ∀ t, img.place l1 f.bytes (.l2 (g / img.l2Entries)) = some t →
      img.Same f.bytes b' t) : img.l2EntryOf l1 b' g = img.l2EntryOf l1 f.bytes g := by
  cases ht : img.place l1 f.bytes (.l2 (g / img.l2Entries)) with
  | none => rw [l2EntryOf_of_none ht, l2EntryOf_of_none (b := b') ht]
  | some t =>
    rw [l2EntryOf_of_place ht, l2EntryOf_of_place (b := b') ht]
    exact h.l2_eq_of_same (hs t ht) (h.mod_entries_lt g)

theorem Grown.entry (hg : img.Grown l1 e f f') (h : img.Sound l1 f) (g : Nat) :
    img.l2EntryOf l1 f'.bytes g = img.l2EntryOf l1 f.bytes g :=
  h.l2EntryOf_congr fun _ ht =>
    hg.same_of_place h ht (fun _ heq => by cases heq) (fun _ heq => by cases heq)

theorem Link.entry (h : img.Sound x.1 x.2) (hlink : img.Link e G ok synced x y) (g : Nat) :
    img.l2EntryOf y.1 y.2.bytes g = img.l2EntryOf x.1 x.2.bytes g ∨
      ¬ isCompressed (img.l2EntryOf x.1 x.2.bytes g) ∧
      hostOffset (img.l2EntryOf x.1 x.2.bytes g) = 0 ∧
      ∃ o, img.Free e x o ∧ img.l2EntryOf y.1 y.2.bytes g = o ||| copiedFlag ∧
        img.Same x.2.bytes y.2.bytes o := by
  cases hlink with
  | grow he hg hok => exact .inl (hg.entry h g)
  | @table l1 f f' g' o hg hi' hnone ho hf' =>
    left
    have hsame : ∀ {r t}, img.place l1 f.bytes r = some t → (∀ i, r ≠ .l1 i) →
        img.Same f.bytes f'.bytes t := by
      intro r t ht hr
      rcases hf' with rfl | ⟨_, rfl⟩
      · obtain ⟨t', ht', hle, hfit⟩ := h.l1_entry hi'
        exact h.same_write ht' hle (by rw [length_entryFor]; exact hfit) ht (hr _)
      · exact .of_bytes rfl
    by_cases hgg : g / img.l2Entries = g' / img.l2Entries
    · -- the new table is clear
      obtain ⟨hE, _⟩ := h.entries
      have hj := h.mod_entries_lt g
      have hplace : img.place (Function.update l1 (g' / img.l2Entries) (o ||| copiedFlag)) f'.bytes
          (.l2 (g / img.l2Entries)) = some o := by
        rw [hgg]
        exact place_l2.mpr ⟨hi', by rw [Function.update_self, ho.host h], ho.pos⟩
      have hclear : ∀ a, o ≤ a → a < o + img.clusterSize → f'.bytes a = 0 := by
        intro a h1 h2
        refine Eq.trans ?_ (ho.clear a h1 h2)
        rcases hf' with rfl | ⟨_, rfl⟩
        · obtain ⟨t', ht', hle, hfit⟩ := h.l1_entry hi'
          exact Same.write ho.aligned (h.aligned _ _ ht') (fun heq => ho.unused _ (heq ▸ ht')) hle
            (by rw [length_entryFor]; exact hfit) a h1 h2
        · rfl
      rw [l2EntryOf_of_place hplace, l2EntryOf_of_none (hgg ▸ hnone)]
      exact entry64_zero fun a h1 h2 => hclear a (by rw [entryAt] at h1; omega)
        (by rw [entryAt] at h2; omega)
    · refine Eq.trans ?_ (h.l2EntryOf_congr fun t ht => hsame ht fun _ heq => by cases heq)
      simp only [l2EntryOf]
      rw [Function.update_of_ne hgg]
  | @data l1 f g' t o hg ht hplain hnone ho =>
    obtain ⟨hle, hfit⟩ := h.entryAt_fits t g' o
    by_cases hgg : g / img.l2Entries = g' / img.l2Entries
    · have hplace : img.place l1 f.bytes (.l2 (g / img.l2Entries)) = some t := hgg ▸ ht
      rw [l2EntryOf_of_place hplace, l2EntryOf_of_place (b := (f.write _ _).bytes) hplace]
      by_cases hmod : g % img.l2Entries = g' % img.l2Entries
      · have hentry : img.entryAt t g = img.entryAt t g' := by rw [entryAt, entryAt, hmod]
        rw [hentry]
        refine .inr ⟨hplain, hnone, o, ho, entry64_write ho.value_lt, ?_⟩
        exact Same.write ho.aligned (h.aligned _ _ ht) (fun heq => ho.unused _ (heq ▸ ht)) hle hfit
      · refine .inl (entry64_congr fun a h1 h2 => Store.write_outside ?_)
        rw [length_entryFor]
        rw [entryAt] at h1 h2 ⊢
        omega
    · refine .inl (h.l2EntryOf_congr fun t' ht' => ?_)
      exact h.same_write ht hle hfit ht' fun heq => hgg (Ref.l2.inj heq)

/-! ## The contents of the virtual disk -/

variable {behind inflated : Store}

theorem guest_congr_at {l1' : Nat → Nat} {b' : Store}
    (hentry : img.l2EntryOf l1' b' (a / img.clusterSize) = img.l2EntryOf l1 b (a / img.clusterSize))
    (hbyte : clusterType (img.l2EntryOf l1 b (a / img.clusterSize)) = .normal →
      b' (hostOffset (img.l2EntryOf l1 b (a / img.clusterSize)) + a % img.clusterSize) =
        b (hostOffset (img.l2EntryOf l1 b (a / img.clusterSize)) + a % img.clusterSize)) :
    img.guest l1' b' behind inflated a = img.guest l1 b behind inflated a := by
  simp only [guest]
  rw [hentry]
  by_cases ha : a < img.virtualSize
  · rw [if_pos ha, if_pos ha]
    cases htype : clusterType (img.l2EntryOf l1 b (a / img.clusterSize)) with
    | normal => exact hbyte htype
    | unallocated | zeroPlain | zeroAlloc | compressed => rfl
  · rw [if_neg ha, if_neg ha]

variable (img) in
def Unbacked (behind : Store) (x : View) : Prop := ∀ a, a < img.virtualSize →
  clusterType (img.l2EntryOf x.1 x.2.bytes (a / img.clusterSize)) = .unallocated → behind a = 0

variable (img) in
def NoZeroAlloc (x : View) : Prop := ∀ a, a < img.virtualSize →
  clusterType (img.l2EntryOf x.1 x.2.bytes (a / img.clusterSize)) ≠ .zeroAlloc

theorem Free.clusterType (ho : img.Free e x o) (h : img.Sound x.1 x.2) :
    clusterType (o ||| copiedFlag) = .normal :=
  clusterType_or_copiedFlag ho.small (h.sector ho.aligned) ho.pos

section

variable (h : img.Sound x.1 x.2)

include h

section

variable (hlink : img.Link e G ok synced x y)

include hlink

theorem Link.clusterType (g : Nat) :
    clusterType (img.l2EntryOf y.1 y.2.bytes g) = clusterType (img.l2EntryOf x.1 x.2.bytes g) ∨
      clusterType (img.l2EntryOf y.1 y.2.bytes g) = .normal := by
  rcases hlink.entry h g with heq | ⟨_, _, o, ho, heq, _⟩
  · exact .inl (by rw [heq])
  · rw [heq]
    exact .inr (ho.clusterType h)

theorem Link.unbacked (hun : img.Unbacked behind x) : img.Unbacked behind y := by
  intro a ha htype
  rcases hlink.clusterType h (a / img.clusterSize) with heq | heq
  · exact hun a ha (heq.symm.trans htype)
  · cases htype.symm.trans heq

theorem Link.noZeroAlloc (hz : img.NoZeroAlloc x) : img.NoZeroAlloc y := by
  intro a ha htype
  rcases hlink.clusterType h (a / img.clusterSize) with heq | heq
  · exact hz a ha (heq.symm.trans htype)
  · cases htype.symm.trans heq

theorem Link.guest (hun : img.Unbacked behind x) :
    img.guest y.1 y.2.bytes behind inflated = img.guest x.1 x.2.bytes behind inflated := by
  funext a
  have hmod := Nat.mod_lt a h.clusterSize_pos
  rcases hlink.entry h (a / img.clusterSize) with heq | ⟨hplain, hnone, o, ho, heq, hsame⟩
  · refine guest_congr_at heq fun htype => ?_
    obtain ⟨hplain, hsome⟩ := host_of_clusterType (.inl htype)
    exact hlink.data_same h (h.place_of_entry hplain hsome) _ (Nat.le_add_right ..) (by omega)
  · -- the cluster showed nothing, and the new one is clear
    by_cases ha : a < img.virtualSize
    · simp only [Qcow2DiskImage.guest]
      rw [if_pos ha, if_pos ha, heq, ho.clusterType h, ho.host h]
      have hclear : y.2.bytes (o + a % img.clusterSize) = 0 :=
        (hsame _ (Nat.le_add_right ..) (by omega)).trans
          (ho.clear _ (Nat.le_add_right ..) (by omega))
      rcases clusterType_of_none hplain hnone with htype | htype
      · rw [htype]
        exact hclear.trans (hun a ha htype).symm
      · rw [htype]
        exact hclear
    · simp [Qcow2DiskImage.guest, ha]

end

theorem Stored.entry (hstore : img.Stored cursor chunk x y) (g : Nat) :
    img.l2EntryOf y.1 y.2.bytes g = img.l2EntryOf x.1 x.2.bytes g := by
  cases hstore with
  | mk ht hplain hsome hfit =>
    refine h.l2EntryOf_congr fun t' ht' => ?_
    refine h.same_write (h.place_normal ht hplain hsome) (Nat.le_add_right ..) ?_ ht'
      (fun heq => by cases heq)
    rw [Nat.add_assoc]
    exact Nat.add_le_add_left hfit _

end

theorem div_mod_of_chunk {size d : Nat} (h : cursor % size + d < size) :
    (cursor + d) / size = cursor / size ∧ (cursor + d) % size = cursor % size + d := by
  have hsplit : cursor + d = size * (cursor / size) + (cursor % size + d) := by
    rw [← Nat.add_assoc, Nat.div_add_mod]
  rw [hsplit]
  constructor
  · rw [Nat.mul_add_div (by omega), Nat.div_eq_of_lt h, Nat.add_zero]
  · rw [Nat.mul_add_mod, Nat.mod_eq_of_lt h]

/-- **Stored bytes are what the guest reads there**, and nothing else is. -/
theorem Stored.guest (h : img.Sound x.1 x.2) (hstore : img.Stored cursor chunk x y)
    (hz : img.NoZeroAlloc x) (hin : cursor + chunk.length ≤ img.virtualSize) :
    img.guest y.1 y.2.bytes behind inflated =
      (img.guest x.1 x.2.bytes behind inflated).write cursor chunk := by
  funext a
  have hentry := hstore.entry h (a / img.clusterSize)
  cases hstore with
  | @mk l1 f t ht hplain hsome hfit =>
    rw [← l2EntryOf_of_place ht] at hplain hsome hentry ⊢
    set o := hostOffset (img.l2EntryOf l1 f.bytes (cursor / img.clusterSize)) with ho
    have hplace := h.place_of_entry hplain hsome
    have hfit' : o + cursor % img.clusterSize + chunk.length ≤ o + img.clusterSize := by omega
    by_cases ha : a < cursor ∨ cursor + chunk.length ≤ a
    · rw [Store.write_outside ha]
      refine guest_congr_at hentry fun htype => ?_
      obtain ⟨hplain', hsome'⟩ := host_of_clusterType (.inl htype)
      have hmod := Nat.mod_lt a h.clusterSize_pos
      by_cases hcluster : a / img.clusterSize = cursor / img.clusterSize
      · rw [hcluster, ← ho]
        refine Store.write_outside ?_
        have h1 := Nat.div_add_mod a img.clusterSize
        have h2 := Nat.div_add_mod cursor img.clusterSize
        rw [hcluster] at h1
        omega
      · refine h.same_write hplace (Nat.le_add_right ..) hfit' (h.place_of_entry hplain' hsome')
          (fun heq => hcluster ?_) _ (Nat.le_add_right ..) (by omega)
        obtain ⟨hdiv, hrem, _⟩ := Ref.data.inj heq
        rw [← Nat.div_add_mod (a / img.clusterSize) img.l2Entries, hdiv, hrem, Nat.div_add_mod]
    · obtain ⟨d, rfl⟩ := Nat.exists_eq_add_of_le (show cursor ≤ a by omega)
      obtain ⟨hdiv, hmod⟩ := div_mod_of_chunk (show cursor % img.clusterSize + d <
        img.clusterSize by omega)
      have hnormal := (clusterType_of_some hplain hsome).resolve_right
        (hz cursor (show cursor < img.virtualSize by omega))
      rw [hdiv] at hentry
      rw [Store.write_inside (by omega)]
      simp only [Qcow2DiskImage.guest]
      rw [if_pos (show cursor + d < img.virtualSize by omega), hdiv, hmod, hentry, hnormal, ← ho]
      show (f.write _ _).bytes _ = _
      rw [← Nat.add_assoc]
      exact Store.write_inside (by omega)

/-! ## A completed write -/

variable (img) in
def Links (e : Nat) (G : Nat → Prop) (ok synced : Prop) : View → View → Prop :=
  Relation.ReflTransGen (img.Link e G ok synced)

variable (img) in
/-- What a write that returned did. -/
inductive Filled (e : Nat) (G : Nat → Prop) (ok : Prop) : Nat → Data → View → View → Prop
  | done {cursor : Nat} {x : View} : Filled e G ok cursor [] x x
  | chunk {cursor : Nat} {chunk rest : Data} {x y z w : View} (hg : G (cursor / img.clusterSize))
      (hlinks : img.Links e G ok True x y) (hstore : img.Stored cursor chunk y z)
      (hrest : Filled e G ok (cursor + chunk.length) rest z w) :
      Filled e G ok cursor (chunk ++ rest) x w

theorem Link.unsynced (hlink : img.Link e G ok True x y) : img.Link e G ok False x y := by
  cases hlink with
  | grow he hg hok => exact .grow he hg hok
  | table hg hi hnone ho hf' => exact .table hg hi hnone ho (hf'.imp_right fun h => absurd trivial h.1)
  | data hg ht hplain hnone ho => exact .data hg ht hplain hnone ho

theorem Links.unsynced (hlinks : img.Links e G ok True x y) : img.Links e G ok False x y :=
  Relation.ReflTransGen.mono (fun _ _ hlink => Link.unsynced hlink) x y hlinks

theorem Links.edits (hlinks : img.Links e G ok False x y) : img.Edits e G ok x y :=
  Relation.ReflTransGen.mono (fun _ _ hlink => Edit.link hlink) x y hlinks

theorem Filled.edits (hfill : img.Filled e G ok cursor chunk x y) : img.Edits e G ok x y := by
  induction hfill with
  | done => exact .refl
  | chunk hg hlinks hstore _ ih => exact (hlinks.unsynced.edits.tail (.store hg hstore)).trans ih

section

variable (h : img.Sound x.1 x.2)

include h

theorem Links.keep {P : View → Prop} (hlinks : img.Links e G ok synced x y)
    (hstep : ∀ {y z : View}, img.Sound y.1 y.2 → img.Link e G ok synced y z → P y → P z)
    (hP : P x) : P y ∧ img.Sound y.1 y.2 := by
  induction hlinks with
  | refl => exact ⟨hP, h⟩
  | tail _ hlink ih => exact ⟨hstep ih.2 hlink ih.1, (hlink.preserved ih.2).sound⟩

theorem Stored.sound (hstore : img.Stored cursor chunk x y) :
    img.Sound y.1 y.2 := by
  have hpre : img.Preserved 0 (fun _ => True) True x y := hstore.preserved h trivial
  exact hpre.sound

theorem Filled.coherent (hfill : img.Filled e G ok cursor chunk x y)
    (hco : img.Coherent x) : img.Coherent y := by
  induction hfill with
  | done => exact hco
  | chunk hg hlinks hstore _ ih =>
    obtain ⟨hco, h⟩ := hlinks.keep h (fun h hlink => hlink.coherent h) hco
    refine ih (hstore.sound h) fun i hi => ?_
    obtain ⟨hmem, hdisk⟩ := hstore.l1_entry h hi
    rw [hmem, hdisk]
    exact hco i hi

/-- **A completed write, as the guest sees it.** -/
theorem Filled.guest (hfill : img.Filled e G ok cursor chunk x y)
    (hun : img.Unbacked behind x) (hz : img.NoZeroAlloc x)
    (hin : cursor + chunk.length ≤ img.virtualSize) :
    img.guest y.1 y.2.bytes behind inflated =
      (img.guest x.1 x.2.bytes behind inflated).write cursor chunk := by
  induction hfill with
  | done => rw [Store.write_nil]
  | @chunk cursor chunk rest x y z w hg hlinks hstore _ ih =>
    rw [List.length_append] at hin
    have hlinked := hlinks.keep (P := fun y => img.Unbacked behind y ∧ img.NoZeroAlloc y ∧
        img.guest y.1 y.2.bytes behind inflated = img.guest x.1 x.2.bytes behind inflated) h
      (fun h hlink hP => ⟨hlink.unbacked h hP.1, hlink.noZeroAlloc h hP.2.1,
        (hlink.guest h hP.1).trans hP.2.2⟩) ⟨hun, hz, rfl⟩
    obtain ⟨⟨hun, hz, hguest⟩, h⟩ := hlinked
    have hentry := hstore.entry h
    rw [ih (hstore.sound h) (fun a ha => hentry _ ▸ hun a ha) (fun a ha => hentry _ ▸ hz a ha)
      (by omega), hstore.guest h hz (by omega), hguest, Store.write_append]

end

end Qcow2DiskImage

end DukeX.Qcow2
