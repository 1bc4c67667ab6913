import DukeX.Qcow2.Request

/-!
# Runs of writes

An image that `init` accepted, and any number of `write` calls on it, whether they return or throw.
-/

namespace DukeX.Qcow2

open DukeX.Lib DukeX.Swift

/-! ## Opening an image -/

theorem wp_readHandle_any (offset count : Nat) (s : ImageState) :
    wp (readHandle offset count) (fun d s' => s.Calm s' ∧ d = s.file.bytes.read offset count)
      (fun _ _ => True) s := by
  by_cases h : offset < 2 ^ 63
  · exact wp_mono (wp_readHandle h count) (fun _ _ hd => hd) fun _ _ _ => trivial
  · unfold readHandle seek
    refine wp_bind.mpr (wp_seq (wp_handleCall s) (fun _ s₁ _ => ?_) fun _ _ _ => trivial)
    rw [if_neg h]
    exact trivial

def Ref.OfMap : Ref → Prop
  | .l1 _ => True
  | .l2 _ => True
  | .data _ _ _ => True
  | _ => False

namespace Qcow2DiskImage

variable {img : Qcow2DiskImage} {s s' s₀ s₁ s₂ : ImageState} {readOnly : Bool}
variable {offset count o : Nat} {data : Data} {C : ImageState → Nat → Data → Prop}

structure Opened (readOnly : Bool) (img : Qcow2DiskImage) (s₀ s : ImageState) : Prop where
  file : s.file = s₀.file
  readOnly : img.readOnly = readOnly
  virtualSize : img.virtualSize < 2 ^ 64
  length : s.l1Table.length = img.l1Size
  coherent : img.Coherent s.view

theorem wp_init (readOnly : Bool) (s : ImageState) :
    wp (init readOnly) (fun img s' => Opened readOnly img s s') (fun _ _ => True) s := by
  unfold init
  refine wp_seq (wp_readHandle_any 0 104 s) ?_ fun _ _ _ => trivial
  rintro header s₁ ⟨hcalm, rfl⟩
  dsimp only
  refine wp_ite (fun _ => trivial) fun _ => ?_
  refine wp_ite (fun _ => trivial) fun _ => ?_
  refine wp_ite (fun _ => trivial) fun _ => ?_
  refine wp_ite (fun _ => trivial) fun _ => ?_
  refine wp_seq (wp_readHandle_any _ _ s₁) ?_ fun _ _ _ => trivial
  rintro l1Data s₂ ⟨hcalm2, rfl⟩
  have hfile : s₂.file = s.file := hcalm2.1.trans hcalm.1
  refine ⟨hfile, rfl, uint64BE_lt _ _, by simp, fun i hi => ?_⟩
  show entry64 s₂.file.bytes _ = ImageState.l1 _ i
  rw [ImageState.l1, List.getD_eq_getElem?_getD, List.getElem?_map, List.getElem?_range hi, hfile,
    hcalm.1]
  refine (uint64BE_read s.file.bytes _ ?_).symm
  dsimp only at hi ⊢
  omega

theorem opened_of_init (h : init readOnly s₀ = .ok img s) : Opened readOnly img s₀ s :=
  (wp_init readOnly s₀).ok h

variable (img) in
/-- The metadata is in order, as the copy of the L1 table has it, and the file is not ahead. -/
structure Orderly (s : ImageState) : Prop where
  sound : img.Sound s.l1 s.file
  lagging : img.Lagging s.view
  length : s.l1Table.length = img.l1Size

theorem Opened.orderly (h : Opened readOnly img s₀ s) (hs : img.Sound s.l1 s.file) :
    img.Orderly s :=
  ⟨hs, fun i hi => .inl (h.coherent i hi), h.length⟩

/-- **A call of `write` is a sequence of edits**, however it ends. -/
theorem write_edits (h : img.Orderly s) (hfit : img.Fits s offset data.length) :
    img.Edits (img.fileEnd s.file) (img.Touched offset data.length)
        (img.Room s (img.demand offset data.length)) s.view
        (endState (img.write offset data) s).view ∧
      (endState (img.write offset data) s).l1Table.length = s.l1Table.length :=
  (wp_write h.sound hfit h.length).endState
    (P := fun s' => img.Edits _ _ _ s.view s'.view ∧ s'.l1Table.length = s.l1Table.length)
    (fun _ _ hf => ⟨hf.1.edits, hf.2⟩) fun _ _ hb => ⟨hb.edits, hb.length⟩

theorem Orderly.write (h : img.Orderly s) (hfit : img.Fits s offset data.length) :
    img.Orderly (endState (img.write offset data) s) := by
  obtain ⟨hedits, hlen⟩ := write_edits h hfit
  exact ⟨(hedits.preserved h.sound).sound, hedits.lagging h.sound h.lagging, hlen.trans h.length⟩

variable (img) in
inductive Run (C : ImageState → Nat → Data → Prop) (s : ImageState) : ImageState → Prop
  | refl : Run C s s
  | write {s' : ImageState} {offset : Nat} {data : Data} (hrun : Run C s s')
      (hC : C s' offset data) : Run C s (endState (img.write offset data) s')

theorem Run.invariant {I : ImageState → Prop} (hrun : img.Run C s s') (hI : I s)
    (hstep : ∀ s offset data, I s → C s offset data → I (endState (img.write offset data) s)) :
    I s' := by
  induction hrun with
  | refl => exact hI
  | write _ hC ih => exact hstep _ _ _ ih hC

variable {l1 l1' : Nat → Nat}

theorem place_of_lagging {b : Store} {r : Ref}
    (h : ∀ i, i < img.l1Size → l1' i = l1 i ∨ hostOffset (l1' i) = 0)
    (ho : img.place l1' b r = some o) : img.place l1 b r = some o := by
  have hl2 : ∀ {i t}, img.place l1' b (.l2 i) = some t → img.place l1 b (.l2 i) = some t := by
    intro i t ht
    obtain ⟨hi, rfl, h0⟩ := place_l2.mp ht
    rcases h i hi with heq | hzero
    · exact place_l2.mpr ⟨hi, by rw [heq], h0⟩
    · exact absurd hzero h0
  cases r with
  | header | l1 i | table i | block k => exact ho
  | l2 i => exact hl2 ho
  | data i j p =>
    obtain ⟨t, ht, hj, hp⟩ := place_data.mp ho
    exact place_data.mpr ⟨t, hl2 ht, hj, hp⟩

variable (img) in
/-- The metadata of the file is consistent. -/
def Consistent (f : HostFile) : Prop :=
  img.Sound (img.l1OnDisk f.bytes) f ∧ img.Counted (img.l1OnDisk f.bytes) f.bytes

theorem Sound.of_place {f : HostFile} (h : img.Sound l1 f)
    (hplace : ∀ r o, img.place l1' f.bytes r = some o → img.place l1 f.bytes r = some o) :
    img.Sound l1' f where
  bits := h.bits
  order := h.order
  aligned r o ho := h.aligned r o (hplace r o ho)
  below r o ho := h.below r o (hplace r o ho)
  distinct r r' o ho ho' := h.distinct r r' o (hplace r o ho) (hplace r' o ho')

theorem Orderly.consistent (h : img.Orderly s) (hcount : img.Counted s.l1 s.file.bytes) :
    img.Consistent s.file := by
  have hplace : ∀ r o, img.place (img.l1OnDisk s.file.bytes) s.file.bytes r = some o →
      img.place s.l1 s.file.bytes r = some o := fun r o ho => place_of_lagging h.lagging ho
  exact ⟨h.sound.of_place hplace, fun r o ho => hcount r o (hplace r o ho)⟩

theorem Opened.of_consistent (h : Opened readOnly img s₀ s) (hs : img.Consistent s.file) :
    img.Orderly s ∧ img.Counted s.l1 s.file.bytes := by
  have hplace : ∀ r o, img.place s.l1 s.file.bytes r = some o →
      img.place (img.l1OnDisk s.file.bytes) s.file.bytes r = some o := fun r o ho =>
    place_of_lagging (fun i hi => .inl (h.coherent i hi).symm) ho
  exact ⟨h.orderly (hs.1.of_place hplace), fun r o ho => hs.2 r o (hplace r o ho)⟩

/-! ## A small image

Clusters of 512 bytes: the header, the L1 table, the refcount table, a refcount block, an L2 table, a
data cluster for the first guest cluster, and a cluster held by two snapshots. -/

def sampleImage : Qcow2DiskImage where
  readOnly := false
  clusterBits := 9
  l1TableOffset := 512
  l1Size := 1
  refcountTableOffset := 1024
  refcountTableClusters := 1
  virtualSize := 1024

def zeroFile (size : Nat) : HostFile := ⟨fun _ => 0, size, fun _ _ => rfl⟩

def sampleFile (size : Nat) (l1Entry l2Entry counts : Data) : HostFile :=
  let f := (zeroFile size).write 0 [0x51, 0x46, 0x49, 0xFB, 0, 0, 0, 3]
  let f := ((f.write 23 [9]).write 30 [4]).write 39 [1]
  let f := (((f.write 46 [2]).write 54 [4]).write 59 [1]).write 99 [4]
  ((((f.write 512 l1Entry).write 1030 [6]).write 1536 counts).write 2048 l2Entry).write 3072 [7]

def plainFile (size : Nat) : HostFile :=
  sampleFile size [0x80, 0, 0, 0, 0, 0, 8] [0x80, 0, 0, 0, 0, 0, 10]
    [0, 1, 0, 1, 0, 1, 0, 1, 0, 1, 0, 1, 0, 2]

def plainState (size : Nat) : ImageState := ⟨plainFile size, [2 ^ 63 + 2048], []⟩

def plainBytes : Store := (plainFile 0).bytes

theorem plainFile_bytes (size : Nat) : (plainFile size).bytes = plainBytes := by
  simp only [plainBytes, plainFile, sampleFile, HostFile.write, zeroFile]

theorem init_plain : init false ⟨plainFile 3584, [], []⟩ = .ok sampleImage (plainState 3584) := rfl

theorem plain_table : ∀ k < 64, entry64 plainBytes (1024 + k * 8) = if k = 0 then 1536 else 0 := by
  decide

theorem plain_l2 : ∀ j < 64, entry64 plainBytes (2048 + j * 8) =
    if j = 0 then 2 ^ 63 + 2560 else 0 := by
  decide

def plainRefs : List (Ref × Nat) :=
  [(.header, 0), (.l1 0, 512), (.table 0, 1024), (.block 0, 1536), (.l2 0, 2048), (.data 0 0 0, 2560)]

theorem place_plain (hl1 : l1 0 = 2 ^ 63 + 2048) {r : Ref}
    (ho : sampleImage.place l1 plainBytes r = some o) : (r, o) ∈ plainRefs := by
  have hl2 : ∀ {i t}, sampleImage.place l1 plainBytes (.l2 i) = some t → i = 0 ∧ t = 2048 := by
    intro i t ht
    obtain ⟨hi, rfl, _⟩ := place_l2.mp ht
    obtain rfl : i = 0 := Nat.lt_one_iff.mp hi
    exact ⟨rfl, by rw [hl1]; decide⟩
  cases r with
  | header =>
    obtain rfl := Option.some.inj ho
    decide
  | l1 i =>
    simp only [place] at ho
    split at ho
    · rename_i hi
      have hi' : i * 512 < 1 * 8 := hi
      obtain rfl : i = 0 := by omega
      obtain rfl := Option.some.inj ho
      decide
    · cases ho
  | table i =>
    simp only [place] at ho
    split at ho
    · rename_i hi
      obtain rfl : i = 0 := Nat.lt_one_iff.mp hi
      obtain rfl := Option.some.inj ho
      decide
    · cases ho
  | block k =>
    obtain ⟨hk, hentry, h0⟩ := place_block.mp ho
    have hk' : k < 64 := hk
    rw [show sampleImage.refcountTableOffset = 1024 from rfl, plain_table k hk'] at hentry
    by_cases hz : k = 0
    · subst hz
      obtain rfl := hentry
      decide
    · rw [if_neg hz] at hentry
      exact absurd hentry.symm h0
  | l2 i =>
    obtain ⟨rfl, rfl⟩ := hl2 ho
    decide
  | data i j p =>
    obtain ⟨t, ht, hj, hp⟩ := place_data.mp ho
    obtain ⟨rfl, rfl⟩ := hl2 ht
    rw [plain_l2 j hj] at hp
    by_cases hz : j = 0
    · subst hz
      have hhosts : sampleImage.hosts (2 ^ 63 + 2560) = [2560] := by decide
      rw [if_pos rfl, hhosts] at hp
      cases p with
      | zero =>
        obtain rfl := Option.some.inj hp
        decide
      | succ p => cases hp
    · rw [if_neg hz, hosts_zero] at hp
      cases hp

theorem consistent_plain {size : Nat} (hsize : 3072 < sampleImage.fileEnd (plainFile size))
    (hl1 : l1 0 = 2 ^ 63 + 2048) :
    sampleImage.Sound l1 (plainFile size) ∧ sampleImage.Counted l1 (plainFile size).bytes := by
  have hcs : sampleImage.clusterSize = 512 := by decide
  have hbytes := plainFile_bytes size
  have hlist : ∀ p ∈ plainRefs, p.2 % 512 = 0 ∧ p.2 < 3072 ∧
      sampleImage.refcount plainBytes (p.2 / 512) = 1 := by decide
  have hnodup : (plainRefs.map Prod.snd).Nodup := by decide
  have horder : refcountOrder plainBytes = 4 := by decide
  rw [← hbytes] at horder hlist
  have hplace : ∀ {r o}, sampleImage.place l1 (plainFile size).bytes r = some o →
      (r, o) ∈ plainRefs := fun ho => place_plain hl1 (hbytes ▸ ho)
  refine ⟨⟨by decide, horder, fun r o ho => ?_, fun r o ho => ?_, fun r r' o ho ho' => ?_⟩,
    fun r o ho => ?_⟩
  · rw [hcs]
    exact (hlist _ (hplace ho)).1
  · exact Nat.lt_trans (hlist _ (hplace ho)).2.1 hsize
  · exact congrArg Prod.fst (List.inj_on_of_nodup_map hnodup (hplace ho) (hplace ho') rfl)
  · rw [hcs]
    exact (hlist _ (hplace ho)).2.2

variable (img) in
def Countable (s : ImageState) (offset : Nat) (data : Data) : Prop :=
  img.Fits s offset data.length ∧ img.Room s (img.demand offset data.length)

/-- **Runs of countable calls keep the metadata of the file consistent**, after calls that throw as
after those that return. -/
theorem run_consistent (hinit : init readOnly s₀ = .ok img s) (hs : img.Consistent s.file)
    (hrun : img.Run img.Countable s s') : img.Consistent s'.file := by
  obtain ⟨horder, hcount⟩ := (opened_of_init hinit).of_consistent hs
  have hinv := hrun.invariant (I := fun s => img.Orderly s ∧ img.Counted s.l1 s.file.bytes)
    ⟨horder, hcount⟩ fun s offset data hI hC => by
      obtain ⟨hedits, _⟩ := write_edits hI.1 hC.1
      exact ⟨hI.1.write hC.1, (hedits.preserved hI.1.sound).counted hC.2 hI.2⟩
  exact hinv.1.consistent hinv.2

theorem run_consistent_plain :
    sampleImage.Consistent (endState (sampleImage.write 512 [1]) (plainState 3584)).file := by
  have hroom : sampleImage.Countable (plainState 3584) 512 [1] :=
    ⟨by unfold Fits; decide, .inl ⟨rfl, .inr (.inl (by decide))⟩⟩
  exact run_consistent init_plain (consistent_plain (by decide) (by decide))
    (.write .refl hroom)

/-- The cluster before the last one that the refcount table can count is the last of the file. -/
theorem write_uncounted_block :
    ∃ s₀ img s, init false s₀ = .ok img s ∧ img.Consistent s.file ∧
      ¬ img.Consistent (endState (img.write 512 [1]) s).file := by
  refine ⟨⟨plainFile (16383 * 512), [], []⟩, sampleImage, plainState (16383 * 512), rfl,
    consistent_plain (by decide) (by decide), fun hc => ?_⟩
  have hplace : sampleImage.place (fun _ => 0)
      (endState (sampleImage.write 512 [1]) (plainState (16383 * 512))).file.bytes (.block 63) =
        some 8388608 := by decide +kernel
  have hcount : sampleImage.refcount
      (endState (sampleImage.write 512 [1]) (plainState (16383 * 512))).file.bytes 16384 = 0 := by
    decide
  have hone := hc.2 (.block 63) 8388608 hplace
  rw [show 8388608 / sampleImage.clusterSize = 16384 from by decide, hcount] at hone
  cases hone

variable (img) in
/-- What a call may write to is not shared. -/
def Exclusive (s : ImageState) (offset count : Nat) : Prop :=
  ∀ r o, img.Writable (img.Touched offset count) r → img.place s.l1 s.file.bytes r = some o →
    img.refcount s.file.bytes (o / img.clusterSize) = 1

variable (img) in
/-- A cluster of the file that no call may write to. -/
structure Spared (s : ImageState) (o : Nat) : Prop where
  aligned : o % img.clusterSize = 0
  inside : o < img.fileEnd s.file
  apart : img.refcount s.file.bytes (o / img.clusterSize) ≠ 1 ∨
    ∀ r, img.place s.l1 s.file.bytes r ≠ some o

theorem Spared.write (h : img.Orderly s) (hfit : img.Fits s offset data.length)
    (hex : img.Exclusive s offset data.length) (ho : img.Spared s o) :
    img.Same s.file.bytes (endState (img.write offset data) s).file.bytes o ∧
      img.Spared (endState (img.write offset data) s) o := by
  have hpre := (write_edits h hfit).1.preserved h.sound
  have hinside := ho.inside
  -- a reference to an old cluster is an old reference
  have hold : ∀ r, img.place (endState (img.write offset data) s).l1
      (endState (img.write offset data) s).file.bytes r = some o →
      img.place s.l1 s.file.bytes r = some o := by
    intro r hr
    rcases hpre.fresh r o hr with hold | hnew
    · exact hold
    · exact absurd hnew (by omega)
  refine ⟨hpre.same o ho.aligned fun r hw hr => ?_, ho.aligned, ?_, ?_⟩
  · rcases ho.apart with hne | hunused
    · exact hne (hex r o hw (hold r hr))
    · exact hunused r (hold r hr)
  · exact Nat.lt_of_lt_of_le hinside hpre.grow
  · refine ho.apart.imp (fun hne => ?_) fun hunused r hr => hunused r (hold r hr)
    intro hone
    refine hne (Eq.trans (hpre.counts _ ?_).symm hone)
    rw [div_mul_of_aligned ho.aligned]
    exact hinside

variable (img) in
def Unshared (s : ImageState) (offset : Nat) (data : Data) : Prop :=
  img.Fits s offset data.length ∧ img.Exclusive s offset data.length

theorem Spared.run (h : img.Orderly s) (ho : img.Spared s o) (hrun : img.Run img.Unshared s s') :
    img.Same s.file.bytes s'.file.bytes o := by
  have hinv := hrun.invariant (I := fun s' => img.Orderly s' ∧ img.Spared s' o ∧
      img.Same s.file.bytes s'.file.bytes o) ⟨h, ho, .of_bytes rfl⟩ fun s' offset data hI hC => by
    obtain ⟨hsame, ho'⟩ := hI.2.1.write hI.1 hC.1 hC.2
    exact ⟨hI.1.write hC.1, ho', hI.2.2.trans hsame⟩
  exact hinv.2.2

/-! ## Snapshots -/

structure Snapshot where
  l1TableOffset : Nat
  l1Size : Nat
  diskSize : Nat

def through (img : Qcow2DiskImage) (snapshot : Snapshot) : Qcow2DiskImage :=
  { img with
    l1TableOffset := snapshot.l1TableOffset
    l1Size := snapshot.l1Size
    virtualSize := snapshot.diskSize }

def snapshotGuest (img : Qcow2DiskImage) (snapshot : Snapshot) (b behind inflated : Store) : Store :=
  (img.through snapshot).guest ((img.through snapshot).l1OnDisk b) b behind inflated

variable (img) in
/-- A snapshot of the image. -/
def HasSnapshot (s : ImageState) (snapshot : Snapshot) : Prop :=
  ∀ r o, r.OfMap → (img.through snapshot).place ((img.through snapshot).l1OnDisk s.file.bytes)
    s.file.bytes r = some o → img.Spared s o

variable (img) in
theorem guest_congr {b b' behind inflated : Store} (hE : img.l2Entries * 8 = img.clusterSize)
    (hpos : 0 < img.l2Entries)
    (hsame : ∀ r o, r.OfMap → img.place (img.l1OnDisk b) b r = some o → img.Same b b' o) :
    img.guest (img.l1OnDisk b') b' behind inflated =
      img.guest (img.l1OnDisk b) b behind inflated := by
  have hl1 : ∀ i, i < img.l1Size → img.l1OnDisk b' i = img.l1OnDisk b i := by
    intro i hi
    obtain ⟨t, ht, hle, hfit⟩ := place_l1_entry (b := b) hE hpos hi
    exact entry64_congr fun a h1 h2 => hsame (.l1 _) t trivial ht a (by omega) (by omega)
  have hentry : ∀ g, img.l2EntryOf (img.l1OnDisk b') b' g = img.l2EntryOf (img.l1OnDisk b) b g := by
    intro g
    simp only [l2EntryOf]
    by_cases hi : g / img.l2Entries < img.l1Size
    · rw [hl1 _ hi]
      by_cases h0 : hostOffset (img.l1OnDisk b (g / img.l2Entries)) ≠ 0
      · rw [if_pos ⟨hi, h0⟩, if_pos ⟨hi, h0⟩]
        have hj := Nat.mod_lt g hpos
        exact entry64_congr fun a h1 h2 => hsame (.l2 _) _ trivial (place_l2.mpr ⟨hi, rfl, h0⟩) a
          (by omega) (by omega)
      · rw [if_neg (fun hc => h0 hc.2), if_neg (fun hc => h0 hc.2)]
    · rw [if_neg (fun hc => hi hc.1), if_neg (fun hc => hi hc.1)]
  funext a
  refine guest_congr_at (hentry _) fun htype => ?_
  obtain ⟨hplain, hsome⟩ := host_of_clusterType (.inl htype)
  have h0 : img.l2EntryOf (img.l1OnDisk b) b (a / img.clusterSize) ≠ 0 := fun h0 =>
    hsome (by rw [h0]; rfl)
  obtain ⟨t, ht⟩ := place_l2_of_entry h0
  have hmod := Nat.mod_lt a (show 0 < img.clusterSize by omega)
  refine hsame (.data (a / img.clusterSize / img.l2Entries) (a / img.clusterSize % img.l2Entries) 0)
    _ trivial (place_data.mpr ⟨t, ht, Nat.mod_lt _ hpos, ?_⟩) _ (Nat.le_add_right ..) (by omega)
  rw [l2EntryOf_of_place ht] at hplain hsome ⊢
  exact congrArg (·[0]?) (hosts_of_some hplain hsome)

/-- **Runs of unshared calls write to no shared cluster**, and what a snapshot shows stays. -/
theorem run_keeps_shared (hinit : init readOnly s₀ = .ok img s) (hs : img.Sound s.l1 s.file)
    (hrun₁ : img.Run img.Unshared s s₁) (hrun₂ : img.Run img.Unshared s₁ s₂) :
    (∀ o, o % img.clusterSize = 0 → o < img.fileEnd s₁.file →
      img.refcount s₁.file.bytes (o / img.clusterSize) ≠ 1 →
      img.Same s₁.file.bytes s₂.file.bytes o) ∧
    ∀ snapshot behind inflated, img.HasSnapshot s₁ snapshot →
      img.snapshotGuest snapshot s₂.file.bytes behind inflated =
        img.snapshotGuest snapshot s₁.file.bytes behind inflated := by
  have horder : img.Orderly s₁ := hrun₁.invariant ((opened_of_init hinit).orderly hs)
    fun _ _ _ hI hC => hI.write hC.1
  obtain ⟨hE, _, hB, _⟩ := horder.sound.entries
  have hpos := horder.sound.clusterSize_pos
  refine ⟨fun o ha hin hne => ?_, fun snapshot behind inflated hsnap => ?_⟩
  · exact Spared.run horder ⟨ha, hin, .inl hne⟩ hrun₂
  · refine guest_congr (img.through snapshot) hE ?_ fun r o hr ho => ?_
    · show 0 < img.l2Entries
      omega
    · have hspared : img.Spared s₁ o := hsnap r o hr ho
      have hsame : img.Same s₁.file.bytes s₂.file.bytes o := hspared.run horder hrun₂
      exact hsame

theorem run_keeps_shared_plain :
    sampleImage.refcount (plainState 3584).file.bytes 6 = 2 ∧
      sampleImage.Same (plainState 3584).file.bytes
        (endState (sampleImage.write 512 [1]) (plainState 3584)).file.bytes 3072 := by
  have hplain : 3072 < sampleImage.fileEnd (plainFile 3584) := by decide
  have hl1 : (plainState 3584).l1 0 = 2 ^ 63 + 2048 := rfl
  obtain ⟨hsound, hcount⟩ := consistent_plain hplain hl1
  have hunshared : sampleImage.Unshared (plainState 3584) 512 [1] :=
    ⟨by unfold Fits; decide, fun r o _ ho => hcount r o ho⟩
  refine ⟨by decide, ?_⟩
  exact (run_keeps_shared init_plain hsound .refl (.write .refl hunshared)).1 3072 (by decide)
    (by decide) (by decide)

/-- An image right after a snapshot was taken. -/
def sharedFile : HostFile :=
  (sampleFile 3584 [0, 0, 0, 0, 0, 0, 8] [0, 0, 0, 0, 0, 0, 10]
    [0, 1, 0, 1, 0, 1, 0, 1, 0, 2, 0, 2, 0, 1]).write 3072 [0, 0, 0, 0, 0, 0, 8]

def sharedSnapshot : Snapshot := ⟨3072, 1, 1024⟩

theorem write_shared_cluster :
    ∃ s₀ img s s', init false s₀ = .ok img s ∧ img.write 0 [1] s = .ok () s' ∧
      img.refcount s.file.bytes 5 = 2 ∧ s.file.bytes 2560 = 0 ∧ s'.file.bytes 2560 = 1 ∧
      img.snapshotGuest sharedSnapshot s.file.bytes (fun _ => 0) (fun _ => 0) 0 = 0 ∧
      img.snapshotGuest sharedSnapshot s'.file.bytes (fun _ => 0) (fun _ => 0) 0 = 1 := by
  refine ⟨⟨sharedFile, [], []⟩, sampleImage, ⟨sharedFile, [2048], []⟩, _, rfl, rfl, ?_⟩
  decide

end Qcow2DiskImage

end DukeX.Qcow2
