import DukeX.Fatx.Volume
import DukeX.Lib.Chain

/-!
# The disk image, and the volume seen cluster by cluster

`XboxDiskImage` is a byte store: a read returns the bytes last written. Any call may fail instead.
-/

namespace DukeX.Fatx

open DukeX.Lib DukeX.Swift

structure Disk where
  bytes : Store
  /-- One outcome for each call still to come, `true` for a failure; none left, none fails. -/
  faults : List Bool
  stamps : Nat

abbrev DiskM := EStateM Halt Disk

def storageCall : DiskM Unit := fun d =>
  match d.faults with
  | [] => .ok () d
  | false :: rest => .ok () { d with faults := rest }
  | true :: rest => .error .io { d with faults := rest }

def readImage (offset count : Nat) : DiskM Data := do
  storageCall
  return (← get).bytes.read offset count

def writeImage (offset : Nat) (data : Data) : DiskM Unit := do
  storageCall
  modify fun d => { d with bytes := d.bytes.write offset data }

/-! ## Actions that only read -/

def Disk.Quiet (d d' : Disk) : Prop :=
  d'.bytes = d.bytes ∧ d'.stamps = d.stamps ∧ (d.faults = [] → d'.faults = [])

theorem Disk.Quiet.refl (d : Disk) : d.Quiet d := ⟨rfl, rfl, id⟩

theorem Disk.Quiet.trans {d1 d2 d3 : Disk} (h : d1.Quiet d2) (h' : d2.Quiet d3) : d1.Quiet d3 :=
  ⟨h'.1.trans h.1, h'.2.1.trans h.2.1, fun hf => h'.2.2 (h.2.2 hf)⟩

/-- `m` computes `f` of the image and leaves the image alone. -/
def Reads {α : Type} (m : DiskM α) (f : Store → Except Halt α) : Prop :=
  ∀ d, wp m (fun a d' => d.Quiet d' ∧ f d.bytes = .ok a)
    (fun e d' => d.Quiet d' ∧ (f d.bytes = .error e ∨ e = .io ∧ d.faults ≠ [])) d

variable {α β : Type}

theorem Reads.pure (a : α) : Reads (Pure.pure a : DiskM α) (fun _ => .ok a) :=
  fun d => ⟨.refl d, rfl⟩

theorem Reads.throw (e : Halt) : Reads (MonadExcept.throw e : DiskM α) (fun _ => .error e) :=
  fun d => ⟨.refl d, .inl rfl⟩

variable {m : DiskM α} {k : α → DiskM β} {f : Store → Except Halt α} {g : α → Store → Except Halt β}

theorem Reads.bind (hm : Reads m f)
    (hk : ∀ a b, f b = .ok a → Reads (k a) (g a)) :
    Reads (m >>= k) (fun b => f b >>= fun a => g a b) := by
  intro d
  refine wp_seq (hm d) ?_ ?_
  · rintro a d1 ⟨hq, hf⟩
    refine wp_mono (hk a d.bytes hf d1) ?_ ?_
    · rintro b d2 ⟨hq2, hg⟩
      refine ⟨hq.trans hq2, ?_⟩
      show (f d.bytes >>= fun a => g a d.bytes) = _
      rw [hf, ← hg, hq.1]; rfl
    · rintro e d2 ⟨hq2, he⟩
      refine ⟨hq.trans hq2, ?_⟩
      rcases he with he | ⟨he, hn⟩
      · left
        show (f d.bytes >>= fun a => g a d.bytes) = _
        rw [hf, ← he, hq.1]; rfl
      · exact .inr ⟨he, fun h0 => hn (hq.2.2 h0)⟩
  · rintro e d1 ⟨hq, he⟩
    refine ⟨hq, ?_⟩
    rcases he with he | he
    · left
      show (f d.bytes >>= fun a => g a d.bytes) = _
      rw [he]; rfl
    · exact .inr he

theorem Reads.congr {g : Store → Except Halt α} (h : Reads m f)
    (hfg : ∀ b, f b = g b) : Reads m g :=
  (funext hfg : f = g) ▸ h

theorem Reads.bind_ok {f : Store → α} (hm : Reads m (fun b => .ok (f b)))
    (hk : ∀ a b, f b = a → Reads (k a) (g a)) : Reads (m >>= k) (fun b => g (f b) b) :=
  hm.bind fun a b h => hk a b (Except.ok.inj h)

theorem Reads.ite {c : Prop} [Decidable c] {m1 m2 : DiskM α} {f1 f2 : Store → Except Halt α}
    (h1 : Reads m1 f1) (h2 : Reads m2 f2) :
    Reads (if c then m1 else m2) (fun b => if c then f1 b else f2 b) := by
  by_cases hc : c
  · simpa [hc] using h1
  · simpa [hc] using h2

theorem Reads.wp_of_no_faults {a : α} {d : Disk}
    (hm : Reads m f) (hf : f d.bytes = .ok a) (h0 : d.faults = []) :
    wp m (fun x d' => d.Quiet d' ∧ x = a) (fun _ _ => False) d := by
  refine wp_mono (hm d) (fun x _ h => ⟨h.1, ?_⟩) fun _ _ h => ?_
  · exact (Except.ok.inj (hf.symm.trans h.2)).symm
  · simp_all

theorem reads_storageCall : Reads storageCall (fun _ => .ok ()) := by
  intro d
  unfold wp storageCall
  cases hf : d.faults with
  | nil => exact ⟨.refl d, rfl⟩
  | cons b rest =>
    cases b with
    | false => exact ⟨⟨rfl, rfl, by simp [hf]⟩, rfl⟩
    | true => exact ⟨⟨rfl, rfl, by simp [hf]⟩, .inr ⟨rfl, by simp⟩⟩

theorem reads_readImage (offset count : Nat) :
    Reads (readImage offset count) (fun b => .ok (b.read offset count)) := by
  unfold readImage
  refine reads_storageCall.bind_ok (g := fun _ b => .ok (b.read offset count)) fun _ _ _ d => ?_
  exact ⟨.refl d, rfl⟩

theorem wp_writeImage (offset : Nat) (data : Data) (d : Disk) :
    wp (writeImage offset data)
      (fun _ d' => d'.bytes = d.bytes.write offset data ∧ d'.stamps = d.stamps ∧
        (d.faults = [] → d'.faults = []))
      (fun e d' => d.Quiet d' ∧ e = .io ∧ d.faults ≠ []) d := by
  unfold writeImage
  refine wp_seq (reads_storageCall d) ?_ ?_
  · rintro _ d1 ⟨⟨hb, hs, hf⟩, -⟩
    exact ⟨congrArg (·.write offset data) hb, hs, hf⟩
  · simp_all

namespace FATXVolume

variable (v : FATXVolume)

def readFAT (cluster : Nat) : DiskM Nat := do
  let data ← readImage (v.fatOffset cluster) v.entrySize
  return if v.entrySize = 2 then uint16LE data 0 else uint32LE data 0

def writeFAT (cluster value : Nat) : DiskM Unit :=
  let data := List.replicate v.entrySize 0
  let data :=
    if v.entrySize = 2 then writeUInt16LE data (value % 2 ^ 16) 0
    else writeUInt32LE data value 0
  writeImage (v.fatOffset cluster) data

end FATXVolume

/-! ## Clusters -/

structure ClusterStore where
  fat : Nat → Nat
  data : Nat → Data

namespace ClusterStore

def setFat (a : ClusterStore) (c x : Nat) : ClusterStore := { a with fat := Function.update a.fat c x }

def setData (a : ClusterStore) (c : Nat) (block : Data) : ClusterStore :=
  { a with data := Function.update a.data c block }

variable (a : ClusterStore) (c x : Nat) (block : Data)

@[simp] theorem setFat_data : (a.setFat c x).data = a.data := rfl
@[simp] theorem setData_fat : (a.setData c block).fat = a.fat := rfl
@[simp] theorem setFat_fat_self : (a.setFat c x).fat c = x := Function.update_self ..
@[simp] theorem setData_data_self : (a.setData c block).data c = block := Function.update_self ..

theorem setFat_fat_of_ne {c c' : Nat} (h : c' ≠ c) : (a.setFat c x).fat c' = a.fat c' :=
  Function.update_of_ne h ..

theorem setData_data_of_ne {c c' : Nat} (h : c' ≠ c) : (a.setData c block).data c' = a.data c' :=
  Function.update_of_ne h ..

theorem setFat_fat_apply (c' : Nat) :
    (a.setFat c x).fat c' = if c' = c then x else a.fat c' := Function.update_apply ..

theorem setData_data_apply (c' : Nat) :
    (a.setData c block).data c' = if c' = c then block else a.data c' := Function.update_apply ..

end ClusterStore

namespace FATXVolume

variable (v : FATXVolume)

def view (b : Store) : ClusterStore where
  fat c := if v.inRange c then leNat (b.read (v.fatOffset c) v.entrySize) else 0
  data c := if v.inRange c then b.read (v.dataOffset c) v.clusterSize else []

variable {v}

variable {c : Nat}

theorem view_fat (h : v.inRange c = true) (b : Store) :
    (v.view b).fat c = leNat (b.read (v.fatOffset c) v.entrySize) := if_pos h

theorem view_data (h : v.inRange c = true) (b : Store) :
    (v.view b).data c = b.read (v.dataOffset c) v.clusterSize := if_pos h

theorem length_view_data (h : v.inRange c = true) (b : Store) :
    ((v.view b).data c).length = v.clusterSize := by
  rw [view_data h, Store.length_read]

theorem ClusterStore.ext_view {a a' : ClusterStore} (hf : ∀ c, a.fat c = a'.fat c)
    (hd : ∀ c, a.data c = a'.data c) : a = a' := by
  cases a; cases a'
  congr
  · exact funext hf
  · exact funext hd

variable {data : Data}

section

variable (h : v.inRange c = true)

include h

theorem view_write_fat (b : Store)
    (hl : data.length = v.entrySize) :
    v.view (b.write (v.fatOffset c) data) = (v.view b).setFat c (leNat data) := by
  refine ClusterStore.ext_view (fun c' => ?_) fun c' => ?_
  · rw [ClusterStore.setFat_fat_apply]
    by_cases hc' : v.inRange c' = true
    · rw [view_fat hc', view_fat hc']
      by_cases he : c' = c
      · subst he
        rw [if_pos rfl, ← hl, Store.read_write_same]
      · rw [if_neg he, Store.read_write_disjoint]
        have := fatOffset_disjoint h hc' (Ne.symm he)
        omega
    · grind [view]
  · by_cases hc' : v.inRange c' = true
    · rw [ClusterStore.setFat_data, view_data hc', view_data hc', Store.read_write_disjoint]
      have := fatOffset_le_dataOffset h c'
      omega
    · simp [view, hc']

theorem view_write_data {at' : Nat} (b : Store)
    (hl : at' + data.length ≤ v.clusterSize) :
    v.view (b.write (v.dataOffset c + at') data)
      = (v.view b).setData c (splice ((v.view b).data c) at' data) := by
  refine ClusterStore.ext_view (fun c' => ?_) fun c' => ?_
  · by_cases hc' : v.inRange c' = true
    · rw [ClusterStore.setData_fat, view_fat hc', view_fat hc', Store.read_write_disjoint]
      have := fatOffset_le_dataOffset hc' c
      omega
    · simp [view, hc']
  · rw [ClusterStore.setData_data_apply]
    by_cases hc' : v.inRange c' = true
    · rw [view_data hc', view_data hc', view_data h]
      by_cases he : c' = c
      · subst he
        rw [if_pos rfl, Store.read_write_splice b hl]
      · rw [if_neg he, Store.read_write_disjoint]
        have := dataOffset_disjoint h hc' (Ne.symm he)
        omega
    · grind [view]

theorem view_write_cluster (b : Store)
    (hl : data.length = v.clusterSize) :
    v.view (b.write (v.dataOffset c) data) = (v.view b).setData c data := by
  have key : v.view (b.write (v.dataOffset c + 0) data)
      = (v.view b).setData c (splice ((v.view b).data c) 0 data) :=
    view_write_data h b (by omega)
  rw [Nat.add_zero] at key
  simp [splice, List.drop_of_length_le, length_view_data, key, h, hl]

theorem reads_readFAT :
    Reads (v.readFAT c) (fun b => .ok ((v.view b).fat c)) := by
  unfold readFAT
  refine (reads_readImage _ _).bind_ok (g := fun data _ =>
    .ok (if v.entrySize = 2 then uint16LE data 0 else uint32LE data 0)) (fun _ _ _ => .pure _)
    |>.congr fun b => ?_
  have hlen := Store.length_read b (v.fatOffset c) v.entrySize
  rw [view_fat h]
  generalize b.read (v.fatOffset c) v.entrySize = data at hlen
  rcases v.entrySize_eq with hs | hs
  · rw [hs] at hlen
    obtain ⟨x, y, rfl⟩ := List.length_eq_two.mp hlen
    simp [hs, uint16LE_eq, byte]
  · rw [hs] at hlen
    obtain ⟨x, y, z, w, rfl⟩ := List.length_eq_four.mp hlen
    simp [hs, uint32LE_eq, byte]

theorem wp_writeFAT {x : Nat} (hx : x < 256 ^ v.entrySize) (d : Disk) :
    wp (v.writeFAT c x)
      (fun _ d' => v.view d'.bytes = (v.view d.bytes).setFat c x ∧ d'.stamps = d.stamps ∧
        (d.faults = [] → d'.faults = []))
      (fun e d' => d.Quiet d' ∧ e = .io ∧ d.faults ≠ []) d := by
  have hdata : (if v.entrySize = 2 then writeUInt16LE (List.replicate v.entrySize 0) (x % 2 ^ 16) 0
      else writeUInt32LE (List.replicate v.entrySize 0) x 0) = leBytes v.entrySize x := by
    rcases v.entrySize_eq with hs | hs
    · rw [hs] at hx ⊢
      rw [if_pos rfl, Nat.mod_eq_of_lt (by simpa using hx), writeUInt16LE_fresh]
    · rw [hs, if_neg (by decide), writeUInt32LE_fresh]
  unfold writeFAT
  simp only [hdata]
  refine wp_mono (wp_writeImage _ _ d) ?_ (fun _ _ he => he)
  rintro _ d' ⟨hb, hs, hf⟩
  refine ⟨?_, hs, hf⟩
  rw [hb, view_write_fat h _ (length_leBytes ..), leNat_leBytes, Nat.mod_eq_of_lt hx]

theorem wp_writeCluster (hl : data.length = v.clusterSize) (d : Disk) :
    wp (writeImage (v.dataOffset c) data)
      (fun _ d' => v.view d'.bytes = (v.view d.bytes).setData c data ∧ d'.stamps = d.stamps ∧
        (d.faults = [] → d'.faults = []))
      (fun e d' => d.Quiet d' ∧ e = .io ∧ d.faults ≠ []) d := by
  refine wp_mono (wp_writeImage _ _ d) ?_ (fun _ _ he => he)
  rintro _ d' ⟨hb, hs, hf⟩
  exact ⟨by rw [hb, view_write_cluster h _ hl], hs, hf⟩

end

end FATXVolume

end DukeX.Fatx
