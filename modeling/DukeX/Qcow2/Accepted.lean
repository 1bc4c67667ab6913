import DukeX.Qcow2.Runs
import DukeX.Lib.Invariant

/-!
# Which headers are handled

`Qcow2DiskImage.init` looks at the magic, the version, the encryption method and the incompatible
features, and takes the rest of the header as it is.
-/

namespace DukeX.Qcow2

open DukeX.Lib DukeX.Swift
open DukeX.Fatx (roundUp le_roundUp)

namespace Qcow2DiskImage

def imageOf (readOnly : Bool) (header : Data) : Qcow2DiskImage where
  readOnly := readOnly
  virtualSize := uint64BE header 24
  clusterBits := uint32BE header 20
  l1Size := uint32BE header 36
  l1TableOffset := uint64BE header 40
  refcountTableOffset := uint64BE header 48
  refcountTableClusters := uint32BE header 56

def incompatibleFeatures (header : Data) : Nat :=
  if 3 ≤ uint32BE header 4 then uint64BE header 72 else 0

structure Accepted (header : Data) : Prop where
  magic : uint32BE header 0 = 0x514649FB
  version : uint32BE header 4 = 2 ∨ uint32BE header 4 = 3
  method : uint32BE header 32 = 0
  features : incompatibleFeatures header &&& 0xFFFFFFFFFFFFFFFE = 0
  l1Table : uint64BE header 40 < 2 ^ 63

variable {img : Qcow2DiskImage} {s s' : ImageState} {readOnly : Bool} {header : Data}

theorem wp_handleCall_io (s : ImageState) :
    wp handleCall (fun _ s' => s.Calm s') (fun e s' => s.Calm s' ∧ e = .io ∧ s.faults ≠ []) s := by
  unfold wp handleCall
  cases hf : s.faults with
  | nil => exact .refl s
  | cons b rest =>
    cases b with
    | false => exact ⟨rfl, rfl, by simp [hf]⟩
    | true => exact ⟨⟨rfl, rfl, by simp [hf]⟩, rfl, by simp⟩

theorem wp_seek_any (offset : Nat) (s : ImageState) :
    wp (seek offset) (fun _ s' => offset < 2 ^ 63 ∧ s.Calm s')
      (fun e s' => s.Calm s' ∧ e = .io ∧ (offset < 2 ^ 63 → s.faults ≠ [])) s := by
  refine wp_seq (wp_handleCall_io s) (fun _ s1 h1 => ?_) fun _ _ h => ⟨h.1, h.2.1, fun _ => h.2.2⟩
  refine wp_ite (fun h => ⟨h, h1⟩) fun h => ?_
  exact ⟨h1, rfl, fun hlt => absurd hlt h⟩

theorem wp_readHandle_seek (offset count : Nat) (s : ImageState) :
    wp (readHandle offset count)
      (fun d s' => offset < 2 ^ 63 ∧ s.Calm s' ∧ d = s.file.bytes.read offset count)
      (fun e s' => s.Calm s' ∧ e = .io ∧ (offset < 2 ^ 63 → s.faults ≠ [])) s := by
  refine wp_seq (wp_seek_any offset s) (fun _ s1 h1 => ?_) fun _ _ h => h
  refine wp_seq (wp_handleCall_io s1) (fun _ s2 h2 => ?_) fun _ _ h2 =>
    ⟨h1.2.trans h2.1, h2.2.1, fun _ h0 => h2.2.2 (h1.2.2.2 h0)⟩
  have hc := h1.2.trans h2
  exact ⟨h1.1, hc, by rw [← hc.1]⟩

theorem wp_writeHandle_seek (offset : Nat) (data : Data) (s : ImageState) :
    wp (writeHandle offset data) (fun _ s' => offset < 2 ^ 63 ∧ s.Wrote offset data s')
      (fun e s' => s.Calm s' ∧ e = .io) s := by
  refine wp_seq (wp_seek_any offset s) (fun _ s1 h1 => ?_) fun _ _ h => ⟨h.1, h.2.1⟩
  refine wp_seq (wp_handleCall_io s1) (fun _ s2 h2 => ?_) fun _ _ h2 => ⟨h1.2.trans h2.1, h2.2.1⟩
  have hc := h1.2.trans h2
  exact ⟨h1.1, by rw [← hc.1], hc.2.1, hc.2.2⟩

theorem wp_init_header (readOnly : Bool) (s : ImageState) :
    wp (init readOnly)
      (fun img s' => Accepted (s.file.bytes.read 0 104) ∧
        img = imageOf readOnly (s.file.bytes.read 0 104) ∧ s'.file = s.file ∧
        s'.l1Table.length = img.l1Size ∧ (s.faults = [] → s'.faults = []))
      (fun e _ => e ≠ .trap ∧ (s.faults = [] → ¬ Accepted (s.file.bytes.read 0 104))) s := by
  refine wp_seq (wp_readHandle_seek 0 104 s) ?_ ?_
  · rintro header s1 ⟨-, hcalm, rfl⟩
    generalize s.file.bytes.read 0 104 = header
    refine wp_ite (fun h => ⟨by simp, fun _ ha => h ha.magic⟩) fun hmagic => ?_
    refine wp_ite (fun h => ⟨by simp, fun _ ha => h ha.version⟩) fun hversion => ?_
    refine wp_ite (fun h => ⟨by simp, fun _ ha => h ha.method⟩) fun hmethod => ?_
    refine wp_ite (fun h => ⟨by simp, fun _ ha => h ha.features⟩) fun hfeatures => ?_
    refine wp_seq (wp_readHandle_seek _ _ s1) ?_ ?_
    · rintro l1Data s2 ⟨hseek, hcalm2, -⟩
      have haccepted : Accepted header :=
        ⟨not_not.mp hmagic, not_not.mp hversion, not_not.mp hmethod, not_not.mp hfeatures, hseek⟩
      exact ⟨haccepted, rfl, hcalm2.1.trans hcalm.1, by simp, fun h => hcalm2.2.2 (hcalm.2.2 h)⟩
    · rintro e s2 ⟨-, rfl, hfault⟩
      exact ⟨by simp, fun h ha => hfault ha.l1Table (hcalm.2.2 h)⟩
  · simp_all

/-! ## Requests that cannot stop the process -/

section

variable (img : Qcow2DiskImage)

def Holding (least : Nat) (s : ImageState) : Prop :=
  s.l1Table.length = img.l1Size ∧ least ≤ s.file.size

/-- The numbers of an image that all its arithmetic fits. -/
structure Workable (least : Nat) : Prop where
  bits : 3 ≤ img.clusterBits ∧ img.clusterBits ≤ 62
  l1TableOffset : img.l1TableOffset < 2 ^ 63
  l1Size : img.l1Size < 2 ^ 32
  table : 0 < img.l1Size → img.refcountTableClusters * img.clusterSize < 2 ^ 64
  entries : 0 < img.l1Size → ∀ o, o % img.clusterSize = 0 → least ≤ o → o < 2 ^ 63 →
    o / img.clusterSize / img.entriesPerBlock < img.tableLength →
      img.refcountTableOffset + o / img.clusterSize / img.entriesPerBlock * 8 < 2 ^ 64

end

variable {least n o v : Nat}

theorem Holding.calm (h : img.Holding n s) (hcalm : s.Calm s') : img.Holding n s' :=
  ⟨by rw [hcalm.2.1]; exact h.1, by rw [hcalm.1]; exact h.2⟩

theorem Holding.wrote {data : Data} (h : img.Holding n s) (hwrote : s.Wrote o data s') :
    img.Holding n s' := by
  refine ⟨by rw [hwrote.2.1]; exact h.1, ?_⟩
  rw [hwrote.1]
  exact h.2.trans (Nat.le_max_left ..)

theorem upholds_readHandle (offset count : Nat) :
    Upholds (img.Holding n) (· ≠ Halt.trap) (readHandle offset count) := by
  intro s hs
  refine wp_mono (wp_readHandle_seek offset count s) ?_ ?_
  · exact fun _ _ h => hs.calm h.2.1
  · rintro _ _ ⟨hcalm, rfl, -⟩
    exact ⟨hs.calm hcalm, by simp⟩

theorem upholds_writeHandle (offset : Nat) (data : Data) :
    Upholds (img.Holding n) (· ≠ Halt.trap) (writeHandle offset data) := by
  intro s hs
  refine wp_mono (wp_writeHandle_seek offset data s) ?_ ?_
  · exact fun _ _ h => hs.wrote h.2
  · rintro _ _ ⟨hcalm, rfl⟩
    exact ⟨hs.calm hcalm, by simp⟩

theorem wp_seekToEnd_holding (hs : img.Holding n s) :
    wp seekToEnd (fun size s' => img.Holding size s' ∧ n ≤ size)
      (fun e s' => img.Holding n s' ∧ e ≠ .trap) s := by
  refine wp_seq (wp_handleCall_io s) (fun _ s1 h1 => ?_) ?_
  · exact ⟨⟨(hs.calm h1).1, Nat.le_refl _⟩, (hs.calm h1).2⟩
  · rintro _ _ ⟨hcalm, rfl, -⟩
    exact ⟨hs.calm hcalm, by simp⟩

theorem upholds_checked (h : v < 2 ^ 64) :
    Upholds (img.Holding n) (· ≠ Halt.trap) (checked v) := by
  unfold checked
  rw [if_pos h]
  exact .pure v

theorem clusterSize_bounds (hbits : 3 ≤ img.clusterBits ∧ img.clusterBits ≤ 62) :
    8 ≤ img.clusterSize ∧ img.clusterSize ≤ 2 ^ 62 := by
  have hcs : img.clusterSize = 2 ^ img.clusterBits := by
    unfold clusterSize
    rw [if_pos (by omega)]
  rw [hcs]
  constructor
  · calc 8 = 2 ^ 3 := rfl
      _ ≤ 2 ^ img.clusterBits := Nat.pow_le_pow_right (by decide) hbits.1
  · exact Nat.pow_le_pow_right (by decide) hbits.2

namespace Workable

variable (h : img.Workable least)

include h

theorem eight_le : 8 ≤ img.clusterSize := (clusterSize_bounds h.bits).1

theorem clusterSize_lt : img.clusterSize < 2 ^ 63 := by
  have := (clusterSize_bounds h.bits).2
  omega

theorem wp_writeZeroCluster (hs : img.Holding n s) :
    wp (img.writeZeroCluster o)
      (fun _ s' => img.Holding (max n (o + img.clusterSize)) s' ∧ o < 2 ^ 63)
      (fun e s' => img.Holding n s' ∧ e ≠ .trap) s := by
  have hpos := h.eight_le
  refine wp_seq (wp_toInt h.clusterSize_lt) ?_ fun _ _ hf => hf
  rintro _ _ ⟨rfl, rfl⟩
  refine wp_mono (wp_writeHandle_seek o _ _) ?_ ?_
  · rintro _ s1 ⟨hseek, hwrote⟩
    refine ⟨⟨(hs.wrote hwrote).1, ?_⟩, hseek⟩
    have hne : List.replicate img.clusterSize (0 : UInt8) ≠ [] := by
      intro hnil
      simp_all
    rw [hwrote.1]
    show max n (o + img.clusterSize) ≤ max _ (if _ then 0 else _)
    rw [if_neg hne, List.length_replicate]
    have := hs.2
    omega
  · rintro _ s1 ⟨hcalm, rfl⟩
    exact ⟨hs.calm hcalm, by simp⟩

theorem upholds_newCluster {α : Type} {k : Nat → ImageM α}
    (hk : ∀ new, new % img.clusterSize = 0 → n ≤ new → new < 2 ^ 63 →
      Upholds (img.Holding (max n (new + img.clusterSize))) (· ≠ Halt.trap) (k new)) :
    Upholds (img.Holding n) (· ≠ Halt.trap) (do
      let size ← seekToEnd
      img.writeZeroCluster (roundUp size img.clusterSize)
      k (roundUp size img.clusterSize)) := by
  have hpos := h.eight_le
  intro s hs
  refine wp_seq (wp_seekToEnd_holding hs) ?_ fun _ _ hf => hf
  rintro size s1 ⟨hs1, hsize⟩
  refine wp_seq (h.wp_writeZeroCluster (n := n) ⟨hs1.1, hsize.trans hs1.2⟩) ?_ fun _ _ hf => hf
  rintro _ s2 ⟨hs2, hseek⟩
  have hround := le_roundUp size (show 0 < img.clusterSize by omega)
  refine wp_mono (hk _ (Nat.mul_mod_left _ _) (hsize.trans hround) hseek s2 hs2) (fun _ _ hk => ?_)
    fun _ _ hk => ⟨?_, hk.2⟩
  · exact ⟨hk.1, (Nat.le_max_left ..).trans hk.2⟩
  · exact ⟨hk.1.1, (Nat.le_max_left ..).trans hk.1.2⟩

theorem upholds_setRefcountLoop (hl1 : 0 < img.l1Size) (depth level : Nat)
    (hdepth : img.tableLength * img.entriesPerBlock + 2 ≤ depth + level)
    (hlevel : level ≤ o / img.clusterSize) (hlast : level ≤ img.tableLength * img.entriesPerBlock)
    (haligned : o % img.clusterSize = 0) (hleast : least ≤ o) (hseek : o < 2 ^ 63)
    (hn : o + img.clusterSize ≤ n) :
    Upholds (img.Holding n) (· ≠ Halt.trap) (img.setRefcountLoop depth o v) := by
  induction depth generalizing level o n v with
  | zero => omega
  | succ depth ih =>
    have hpos := h.eight_le
    have hblock : 0 < img.entriesPerBlock := by
      unfold entriesPerBlock
      omega
    refine Upholds.bind_of (P := fun entries => entries = img.tableLength) (fun s hs => ?_) ?_
    · refine wp_seq (wp_checked (h.table hl1)) ?_ fun _ _ hf => hf
      rintro _ _ ⟨rfl, rfl⟩
      exact ⟨hs, rfl⟩
    rintro _ rfl
    refine .ite (fun hlt => ?_) fun _ => .throw (by simp)
    have hentry := h.entries hl1 o haligned hleast hseek hlt
    refine Upholds.bind_of (P := fun x => x = _) (fun s hs => wp_mono (wp_checked hentry)
      (fun _ _ hx => ⟨hx.2 ▸ hs, hx.1⟩) fun _ _ hf => hf) ?_
    rintro _ rfl
    refine Upholds.bind ?_ fun blockOffset => upholds_writeHandle _ _
    refine (upholds_readHandle _ _).bind fun entry => .ite (fun _ => .pure _) fun _ => ?_
    have hcounted : level < img.tableLength * img.entriesPerBlock := by
      refine Nat.lt_of_le_of_lt hlevel ?_
      exact (Nat.div_lt_iff_lt_mul hblock).mp hlt
    refine h.upholds_newCluster (k := fun new => do
      writeEntry new _
      img.setRefcountLoop depth new 1
      return new) fun new haligned' hnew hseek' => ?_
    -- the new block lies behind the cluster that is being counted
    have hfurther : o / img.clusterSize + 1 ≤ new / img.clusterSize := by
      rw [Nat.le_div_iff_mul_le (by omega), Nat.add_mul, Nat.one_mul]
      have := Nat.div_mul_le_self o img.clusterSize
      omega
    refine (upholds_writeHandle _ _).bind fun _ => Upholds.bind ?_ fun _ => .pure _
    exact ih (level + 1) (by omega) (by omega) (by omega) haligned' (by omega) hseek'
      (Nat.le_max_right ..)

theorem upholds_allocateHostCluster (hl1 : 0 < img.l1Size) (hn : least ≤ n) :
    Upholds (img.Holding n) (· ≠ Halt.trap) img.allocateHostCluster := by
  have hpos := h.eight_le
  have hblock : img.entriesPerBlock ≠ 0 := by
    unfold entriesPerBlock
    omega
  refine h.upholds_newCluster (k := fun new => do
    img.setRefcount new 1
    return new) fun new haligned hnew hseek => Upholds.bind ?_ fun _ => .pure _
  unfold setRefcount
  rw [if_neg hblock]
  exact h.upholds_setRefcountLoop hl1 _ 0 (Nat.le_refl _) (Nat.zero_le _) (Nat.zero_le _) haligned
    (by omega) hseek (Nat.le_max_right ..)

theorem upholds_l2TableOffset {l1Index : Nat} (hindex : l1Index < img.l1Size) (allocate : Bool)
    (hn : least ≤ n) : Upholds (img.Holding n) (· ≠ Halt.trap) (img.l2TableOffset l1Index allocate) := by
  refine Upholds.bind (fun s hs => hs) fun s0 => ?_
  refine .ite (fun _ => .pure _) fun _ => .ite (fun _ => ?_) fun _ => .pure _
  refine (h.upholds_allocateHostCluster (by omega) hn).bind fun l2Offset => ?_
  have hmodify : Upholds (img.Holding n) (· ≠ Halt.trap)
      (modify fun s : ImageState => { s with l1Table := s.l1Table.set l1Index (l2Offset ||| copiedFlag) }) :=
    fun s hs => ⟨by simpa using hs.1, hs.2⟩
  have hsum : img.l1TableOffset + l1Index * 8 < 2 ^ 64 := by
    have h1 := h.l1TableOffset
    have h2 := h.l1Size
    omega
  refine hmodify.bind fun _ => (upholds_checked hsum).bind fun _ => ?_
  exact (upholds_writeHandle _ _).bind fun _ => .pure _

theorem upholds_dataOffset (hl1 : 0 < img.l1Size) (entryOffset : Nat) (allocate : Bool)
    (hn : least ≤ n) : Upholds (img.Holding n) (· ≠ Halt.trap) (img.dataOffset entryOffset allocate) := by
  refine (upholds_readHandle _ _).bind fun entry => .ite (fun _ => .throw (by simp)) fun _ => ?_
  refine .ite (fun _ => .pure _) fun _ => .ite (fun _ => ?_) fun _ => .pure _
  refine (h.upholds_allocateHostCluster hl1 hn).bind fun physical => ?_
  exact (upholds_writeHandle _ _).bind fun _ => .pure _

theorem upholds_physicalOffset (cursor : Nat) (allocate : Bool) (hn : least ≤ n) :
    Upholds (img.Holding n) (· ≠ Halt.trap) (img.physicalOffset cursor allocate) := by
  have hpos := h.eight_le
  have hentries : img.l2Entries ≠ 0 := by
    unfold l2Entries
    omega
  unfold physicalOffset
  rw [if_neg hentries]
  refine Upholds.bind_of (P := fun s0 => s0.l1Table.length = img.l1Size) (fun s hs => ⟨hs, hs.1⟩) ?_
  intro s0 hlen
  refine .ite (fun hindex => ?_) fun _ => .pure _
  rw [hlen] at hindex
  refine (h.upholds_l2TableOffset hindex allocate hn).bind fun table => ?_
  cases table with
  | none => exact .pure _
  | some l2Offset => exact h.upholds_dataOffset (Nat.zero_lt_of_lt hindex) _ allocate hn

theorem wp_chunkCount {cursor remaining : Nat} (hs : img.Holding n s) :
    wp (img.chunkCount cursor remaining)
      (fun count s' => img.Holding n s' ∧ count ≤ remaining ∧ (0 < remaining → 0 < count))
      (fun e s' => img.Holding n s' ∧ e ≠ .trap) s := by
  have hpos := h.eight_le
  have hlt := h.clusterSize_lt
  have hmod := Nat.mod_lt cursor (show 0 < img.clusterSize by omega)
  unfold chunkCount
  rw [if_neg (by omega)]
  refine wp_seq (wp_toInt (by omega)) ?_ fun _ _ hf => hf
  rintro _ _ ⟨rfl, rfl⟩
  exact ⟨hs, Nat.min_le_left .., by omega⟩

theorem upholds_readLoop (rounds cursor remaining : Nat) (hn : least ≤ n)
    (hfit : cursor + remaining < 2 ^ 64) :
    Upholds (img.Holding n) (· ≠ Halt.trap) (img.readLoop rounds cursor remaining) := by
  induction rounds generalizing cursor remaining with
  | zero => exact .pure _
  | succ rounds ih =>
    refine .ite (fun _ => ?_) fun _ => .pure _
    refine Upholds.bind_of (fun s hs => h.wp_chunkCount hs) fun count hcount => ?_
    have hchunk : Upholds (img.Holding n) (· ≠ Halt.trap) (img.readChunk cursor count) := by
      refine (h.upholds_physicalOffset cursor false hn).bind fun physical => ?_
      cases physical with
      | none => exact .pure _
      | some physical => exact upholds_readHandle _ _
    refine hchunk.bind fun chunk => ?_
    refine Upholds.bind_of (P := fun x => x = cursor + count) (fun s hs =>
      wp_mono (wp_checked (by omega)) (fun _ _ hx => ⟨hx.2 ▸ hs, hx.1⟩) fun _ _ hf => hf) ?_
    rintro _ rfl
    exact (ih (cursor + count) (remaining - count) (by omega)).bind fun _ => .pure _

theorem upholds_writeLoop (rounds cursor : Nat) (data : Data) (hn : least ≤ n)
    (hfit : cursor + data.length < 2 ^ 64) :
    Upholds (img.Holding n) (· ≠ Halt.trap) (img.writeLoop rounds cursor data) := by
  induction rounds generalizing cursor data with
  | zero => exact .pure _
  | succ rounds ih =>
    refine .ite (fun _ => ?_) fun _ => .pure _
    refine Upholds.bind_of (fun s hs => h.wp_chunkCount hs) fun count hcount => ?_
    have hchunk : Upholds (img.Holding n) (· ≠ Halt.trap) (img.writeChunk cursor (data.take count)) := by
      refine (h.upholds_physicalOffset cursor true hn).bind fun physical => ?_
      cases physical with
      | none => exact .throw (by simp)
      | some physical => exact upholds_writeHandle _ _
    refine hchunk.bind fun _ => ?_
    refine Upholds.bind_of (P := fun x => x = cursor + count) (fun s hs =>
      wp_mono (wp_checked (by omega)) (fun _ _ hx => ⟨hx.2 ▸ hs, hx.1⟩) fun _ _ hf => hf) ?_
    simp_all

end Workable

inductive Request where
  | read (offset count : Nat)
  | write (offset : Nat) (data : Data)

def Request.stop : Request → Nat
  | .read offset count => offset + count
  | .write offset data => offset + data.length

def serve (img : Qcow2DiskImage) : Request → ImageM Unit
  | .read offset count => do
    let _ ← img.read offset count
    return ()
  | .write offset data => img.write offset data

inductive Served (img : Qcow2DiskImage) (s : ImageState) : ImageState → Prop
  | refl : Served img s s
  | request {s' : ImageState} {r : Request} (hserved : Served img s s')
      (hr : r.stop ≤ img.virtualSize) : Served img s (endState (img.serve r) s')

def Safe (img : Qcow2DiskImage) (s : ImageState) : Prop :=
  ∀ s', img.Served s s' → ∀ r : Request, r.stop ≤ img.virtualSize →
    wp (img.serve r) (fun _ _ => True) (fun e _ => e ≠ .trap) s'

theorem safe_of_upholds {I : ImageState → Prop} (hI : I s)
    (h : ∀ r : Request, r.stop ≤ img.virtualSize → Upholds I (· ≠ Halt.trap) (img.serve r)) :
    img.Safe s := by
  intro s' hserved r hr
  have hinv : I s' := by
    induction hserved with
    | refl => exact hI
    | request _ hr' ih =>
      exact (h _ hr' _ ih).endState (fun _ _ hk => hk) fun _ _ hk => hk.1
  exact wp_mono (h r hr s' hinv) (fun _ _ _ => trivial) fun _ _ hk => hk.2

theorem Workable.safe (h : img.Workable least) (hsize : img.virtualSize < 2 ^ 64)
    (hs : img.Holding least s) : img.Safe s := by
  refine safe_of_upholds hs fun r hr => ?_
  cases r with
  | read offset count =>
    refine Upholds.bind ?_ fun _ => .pure _
    exact h.upholds_readLoop count offset count (Nat.le_refl _) (Nat.lt_of_le_of_lt hr hsize)
  | write offset data =>
    refine .ite (fun _ => .throw (by simp)) fun _ => ?_
    exact h.upholds_writeLoop data.length offset data (Nat.le_refl _) (Nat.lt_of_le_of_lt hr hsize)

theorem safe_of_empty (h : img.virtualSize = 0) : img.Safe s := by
  refine safe_of_upholds (I := fun _ => True) trivial fun r hr => ?_
  cases r with
  | read offset count =>
    have hcount : count = 0 := by
      simp only [Request.stop] at hr
      omega
    subst hcount
    exact .pure _
  | write offset data =>
    have hnil : data = [] := by
      simp only [Request.stop] at hr
      exact List.length_eq_zero_iff.mp (by omega)
    subst hnil
    exact .ite (fun _ => .throw (by simp)) fun _ => .pure _

/-- What the class takes for granted about the layout, as the header declares it: an L2 table and a
refcount block hold at least one entry, refcounts have 16 bits, nothing is encrypted, and there are
neither an external data file nor extended L2 entries. -/
structure Declared (header : Data) : Prop where
  l2Table : 0 < (imageOf false header).l2Entries
  block : 0 < (imageOf false header).entriesPerBlock
  order : uint32BE header 4 < 3 ∨ uint32BE header 96 = 4
  method : uint32BE header 32 = 0
  dataFile : (incompatibleFeatures header).testBit 2 = false
  extendedL2 : (incompatibleFeatures header).testBit 4 = false

def BeginsBelow (header : Data) (size : Nat) : Prop := ∀ i, header.getD i 0 ≠ 0 → i < size

/-- The refcount table and the entries of it that a file with this header can use are below 2^64. -/
def Refcountable (img : Qcow2DiskImage) (header : Data) : Prop :=
  img.refcountTableClusters * img.clusterSize < 2 ^ 64 ∧
    ∀ o, o % img.clusterSize = 0 → BeginsBelow header o → o < 2 ^ 63 →
      o / img.clusterSize / img.entriesPerBlock < img.tableLength →
        img.refcountTableOffset + o / img.clusterSize / img.entriesPerBlock * 8 < 2 ^ 64

/-- The header is refused, or it is handled: it declares the layout that is assumed, and, unless
the disk is empty, its clusters are below 2^63 bytes and, unless nothing can be mapped, its refcount
table is within reach. -/
def Handled (header : Data) : Prop :=
  Accepted header → Declared header ∧
    (uint64BE header 24 = 0 ∨
      uint32BE header 20 ≤ 62 ∧
        (uint32BE header 36 = 0 ∨ Refcountable (imageOf false header) header))

theorem BeginsBelow.mono {size size' : Nat} (h : BeginsBelow header size) (hle : size ≤ size') :
    BeginsBelow header size' := fun i hi => (h i hi).trans_le hle

theorem beginsBelow_of_read {f : HostFile} (h : f.bytes.read 0 104 = header) :
    BeginsBelow header f.size := by
  intro i hi
  subst h
  by_contra hge
  apply hi
  by_cases hlt : i < 104
  · rw [Store.getD_read _ _ hlt, Nat.zero_add]
    exact f.beyond i (by omega)
  · simp_all

theorem three_le_of_l2Entries (h : 0 < img.l2Entries) : 3 ≤ img.clusterBits ∧ img.clusterBits < 64 := by
  unfold l2Entries clusterSize at h
  by_cases hbits : img.clusterBits < 64
  · rw [if_pos hbits] at h
    refine ⟨?_, hbits⟩
    by_contra hlt
    have : 2 ^ img.clusterBits < 2 ^ 3 := Nat.pow_lt_pow_right (by decide) (by omega)
    omega
  · rw [if_neg hbits] at h
    simp at h

theorem safe_of_handled (h : Handled header) (haccepted : Accepted header)
    (hread : s.file.bytes.read 0 104 = header)
    (hlen : s.l1Table.length = (imageOf readOnly header).l1Size) :
    (imageOf readOnly header).Safe s := by
  obtain ⟨hdeclared, hempty | ⟨hbits, htable⟩⟩ := h haccepted
  · exact safe_of_empty hempty
  · have hthree := (three_le_of_l2Entries hdeclared.l2Table).1
    have hwork : (imageOf readOnly header).Workable s.file.size := by
      refine ⟨⟨hthree, hbits⟩, haccepted.l1Table, uint32BE_lt _ _, fun hl1 => ?_, fun hl1 => ?_⟩
      · rcases htable with hzero | htable
        · exact absurd hzero (Nat.ne_of_gt hl1)
        · exact htable.1
      · rcases htable with hzero | htable
        · exact absurd hzero (Nat.ne_of_gt hl1)
        · intro o haligned hleast
          exact htable.2 o haligned ((beginsBelow_of_read hread).mono hleast)
    exact hwork.safe (uint64BE_lt _ _) ⟨hlen, Nat.le_refl _⟩

/-! ## Files that show what is not handled -/

def headerFile (header : Data) (size : Nat) (h : BeginsBelow header size) : HostFile where
  bytes a := header.getD a 0
  size := size
  beyond a ha := by
    by_contra hne
    exact absurd (h a hne) (Nat.not_lt_of_le ha)

theorem read_headerFile {size : Nat} (h : BeginsBelow header size) (hlen : header.length = 104) :
    (headerFile header size h).bytes.read 0 104 = header := by
  refine List.ext_getElem (by simp [hlen]) fun i h1 h2 => ?_
  simp [Store.read, headerFile, List.getD_eq_getElem?_getD, h2]

theorem init_returns (haccepted : Accepted (s.file.bytes.read 0 104)) (h0 : s.faults = []) :
    ∃ s', init readOnly s = .ok (imageOf readOnly (s.file.bytes.read 0 104)) s' ∧ s'.file = s.file ∧
      s'.l1Table.length = (imageOf readOnly (s.file.bytes.read 0 104)).l1Size ∧ s'.faults = [] := by
  obtain ⟨img, s', hrun, -, himg, hfile, hlen, hfaults⟩ := Lib.wp.total (wp_mono
    (wp_init_header readOnly s) (fun _ _ h => h) fun _ _ h => h.2 h0 haccepted)
  subst himg
  exact ⟨s', hrun, hfile, hlen, hfaults h0⟩

theorem read_traps (hbits : img.clusterBits = 63) :
    wp (img.serve (.read 0 1)) (fun _ _ => False) (fun e _ => e = .trap) s := by
  have hcs : img.clusterSize = 2 ^ 63 := by
    unfold clusterSize
    rw [hbits]
    rfl
  refine wp_bind.mpr ?_
  show wp (img.readLoop 1 0 1) _ _ s
  refine wp_bind.mpr ?_
  unfold chunkCount
  rw [hcs, if_neg (by decide)]
  refine wp_bind.mpr ?_
  rfl

theorem allocateHostCluster_traps (hbits : 3 ≤ img.clusterBits ∧ img.clusterBits ≤ 62)
    (h0 : s.faults = []) (haligned : s.file.size % img.clusterSize = 0) (hseek : s.file.size < 2 ^ 63)
    (hreach : 2 ^ 64 ≤ img.refcountTableClusters * img.clusterSize ∨
      s.file.size / img.clusterSize / img.entriesPerBlock < img.tableLength ∧
        2 ^ 64 ≤ img.refcountTableOffset +
          s.file.size / img.clusterSize / img.entriesPerBlock * 8) :
    wp img.allocateHostCluster (fun _ _ => False) (fun e _ => e = .trap) s := by
  obtain ⟨height, hle⟩ := clusterSize_bounds hbits
  have hlt : img.clusterSize < 2 ^ 63 := by omega
  have hblock : img.entriesPerBlock ≠ 0 := by
    unfold entriesPerBlock
    omega
  have hround : roundUp s.file.size img.clusterSize = s.file.size := by
    obtain ⟨k, hk⟩ := Nat.dvd_of_mod_eq_zero haligned
    unfold roundUp
    rw [hk, Nat.add_sub_assoc (by omega), Nat.mul_add_div (by omega), Nat.div_eq_of_lt (by omega),
      Nat.add_zero, Nat.mul_comm]
  refine wp_seq (wp_seekToEnd s) ?_ fun _ _ h => absurd h0 h.2
  rintro _ s1 ⟨hcalm1, rfl⟩
  rw [hround]
  have hzero : wp (img.writeZeroCluster s.file.size) (fun _ s' => s'.faults = []) (fun _ _ => False) s1 := by
    refine wp_seq (wp_toInt hlt) ?_ fun _ _ h => h
    rintro _ _ ⟨rfl, rfl⟩
    refine wp_mono (wp_writeHandle hseek) (fun _ _ h => h.2.2 (hcalm1.2.2 h0)) fun _ _ h => ?_
    exact h.2 (hcalm1.2.2 h0)
  refine wp_seq hzero (fun _ s2 _ => ?_) fun _ _ h => h.elim
  refine wp_bind.mpr ?_
  unfold setRefcount
  rw [if_neg hblock]
  refine wp_bind.mpr (wp_bind.mpr ?_)
  unfold checked
  by_cases htable : img.refcountTableClusters * img.clusterSize < 2 ^ 64
  · obtain ⟨hindex, hsum⟩ := hreach.resolve_left (Nat.not_le_of_lt htable)
    rw [if_pos htable]
    show wp (if _ then _ else _) _ _ _
    rw [tableLength] at hindex
    rw [if_pos hindex]
    refine wp_bind.mpr ?_
    rw [if_neg (Nat.not_lt_of_le hsum)]
    rfl
  · rw [if_neg htable]
    rfl

theorem write_traps {size : Nat} (hbelow : BeginsBelow header size) (hlen : header.length = 104)
    (hbits : 3 ≤ img.clusterBits ∧ img.clusterBits ≤ 62) (hwritable : img.readOnly = false)
    (hl1 : 0 < img.l1Size) (hfile : s.file = headerFile header size hbelow) (h0 : s.faults = [])
    (htable : s.l1Table.length = img.l1Size) (haligned : size % img.clusterSize = 0)
    (hseek : size < 2 ^ 63)
    (hreach : 2 ^ 64 ≤ img.refcountTableClusters * img.clusterSize ∨
      size / img.clusterSize / img.entriesPerBlock < img.tableLength ∧
        2 ^ 64 ≤ img.refcountTableOffset + size / img.clusterSize / img.entriesPerBlock * 8) :
    wp (img.serve (.write 0 [0])) (fun _ _ => False) (fun e _ => e = .trap) s := by
  obtain ⟨height, hle⟩ := clusterSize_bounds hbits
  have hlt : img.clusterSize < 2 ^ 63 := by omega
  have hentries : img.l2Entries ≠ 0 := by
    unfold l2Entries
    omega
  have halloc : ∀ s1 : ImageState, s1.file = s.file → s1.faults = [] →
      wp img.allocateHostCluster (fun _ _ => False) (fun e _ => e = .trap) s1 := by
    intro s1 hfile1 h01
    have hsize : s1.file.size = size := by
      rw [hfile1, hfile]
      rfl
    exact allocateHostCluster_traps hbits h01 (by rwa [hsize]) (by rwa [hsize]) (by rwa [hsize])
  show wp (img.write 0 [0]) _ _ s
  unfold Qcow2DiskImage.write
  rw [if_neg (by simp [hwritable])]
  show wp (img.writeLoop 1 0 [0]) _ _ s
  refine wp_bind.mpr ?_
  unfold chunkCount
  rw [if_neg (by omega), Nat.zero_mod, Nat.sub_zero]
  refine wp_bind.mpr (wp_mono (wp_toInt hlt) ?_ fun _ _ h => h)
  rintro _ s0 ⟨rfl, hs0⟩
  rw [hs0]
  refine wp_bind.mpr (wp_bind.mpr ?_)
  unfold physicalOffset
  rw [if_neg hentries]
  simp only [Nat.zero_div, Nat.zero_mod, Nat.zero_mul, Nat.add_zero]
  refine wp_bind.mpr ?_
  rw [wp_get, htable, if_pos hl1]
  refine wp_bind.mpr ?_
  refine wp_bind.mpr ?_
  rw [wp_get]
  generalize s.l1Table.getD 0 0 = l1Entry
  by_cases hl2 : l1Entry &&& offsetMask ≠ 0
  · rw [if_pos hl2]
    -- the L2 table lies behind the header, so its first entry is zero
    have hoffset := hostOffset_eq l1Entry
    have hoffset_lt := hostOffset_lt l1Entry
    unfold hostOffset at hoffset hoffset_lt
    generalize l1Entry &&& offsetMask = l2Offset at *
    show wp (img.dataOffset l2Offset true) _ _ s
    refine wp_seq (wp_readHandle (by omega) 8) ?_ fun _ _ h => absurd h0 h.2
    rintro _ s1 ⟨hcalm, rfl⟩
    have hzero : uint64BE (s.file.bytes.read l2Offset 8) 0 = 0 := by
      refine entry64_zero fun a ha _ => ?_
      rw [hfile]
      show header.getD a 0 = 0
      rw [List.getD_eq_getElem?_getD, List.getElem?_eq_none (by omega)]
      rfl
    rw [hzero]
    refine wp_bind.mpr (wp_mono (halloc s1 hcalm.1 (hcalm.2.2 h0)) (fun _ _ h => h.elim) fun _ _ h => h)
  · rw [if_neg hl2]
    exact wp_bind.mpr (wp_mono (halloc s rfl h0) (fun _ _ h => h.elim) fun _ _ h => h)

theorem refcountable_of_safe (haccepted : Accepted header) (hlen : header.length = 104)
    (hbits : 3 ≤ uint32BE header 20 ∧ uint32BE header 20 ≤ 62) (hsize : 0 < uint64BE header 24)
    (hl1 : 0 < uint32BE header 36)
    (hsafe : ∀ s img s', s.file.bytes.read 0 104 = header → init false s = .ok img s' → img.Safe s') :
    Refcountable (imageOf false header) header := by
  obtain ⟨height, hle⟩ := @clusterSize_bounds (imageOf false header) hbits
  -- a file that ends where the refcount table is out of reach
  have hnone : ∀ o, o % (imageOf false header).clusterSize = 0 → BeginsBelow header o → o < 2 ^ 63 →
      ¬ (2 ^ 64 ≤ (imageOf false header).refcountTableClusters * (imageOf false header).clusterSize ∨
        o / (imageOf false header).clusterSize / (imageOf false header).entriesPerBlock <
            (imageOf false header).tableLength ∧
          2 ^ 64 ≤ (imageOf false header).refcountTableOffset +
            o / (imageOf false header).clusterSize / (imageOf false header).entriesPerBlock * 8) := by
    intro o haligned hbelow hseek hreach
    have hread := read_headerFile hbelow hlen
    obtain ⟨s', hrun, hfile, htable, h0⟩ := @init_returns
      ⟨headerFile header o hbelow, [], []⟩ false (by rwa [hread]) rfl
    have htrap := write_traps hbelow hlen hbits rfl hl1 hfile h0 htable haligned hseek hreach
    have hok := hsafe _ _ s' hread hrun s' .refl (.write 0 [0]) hsize
    obtain ⟨_, _, _, h, _⟩ := Lib.wp.total (wp_mono (htrap.and hok) (fun _ _ h => h)
      fun _ _ h => h.2 h.1)
    exact h
  constructor
  · by_contra hge
    have hround := le_roundUp 104 (show 0 < (imageOf false header).clusterSize by omega)
    refine hnone (roundUp 104 (imageOf false header).clusterSize) (Nat.mul_mod_left _ _) ?_ ?_
      (.inl (Nat.le_of_not_lt hge))
    · intro i hi
      grind
    · have hdiv := Nat.div_mul_le_self (104 + (imageOf false header).clusterSize - 1)
        (imageOf false header).clusterSize
      unfold roundUp
      omega
  · grind

/-- For every file, all files with its header are refused or handled without stopping the process
and as their header declares, exactly when the header is one that is handled. -/
theorem handled_iff (f : HostFile) :
    (∀ readOnly (s : ImageState), s.file.bytes.read 0 104 = f.bytes.read 0 104 →
      wp (init readOnly) (fun img s' => Declared (f.bytes.read 0 104) ∧ img.Safe s')
        (fun e _ => e ≠ .trap) s) ↔ Handled (f.bytes.read 0 104) := by
  constructor
  · intro h haccepted
    have hlen : (f.bytes.read 0 104).length = 104 := Store.length_read ..
    obtain ⟨s', hrun, -⟩ := @init_returns ⟨f, [], []⟩ false haccepted rfl
    obtain ⟨hdeclared, hsafe⟩ := (h false ⟨f, [], []⟩ rfl).ok hrun
    refine ⟨hdeclared, ?_⟩
    have hbits := three_le_of_l2Entries hdeclared.l2Table
    by_cases hsize : uint64BE (f.bytes.read 0 104) 24 = 0
    · exact .inl hsize
    · have hpos := Nat.pos_of_ne_zero hsize
      have hle : uint32BE (f.bytes.read 0 104) 20 ≤ 62 := by
        by_contra hlt
        have htrap : wp ((imageOf false (f.bytes.read 0 104)).serve (.read 0 1)) (fun _ _ => False)
            (fun e _ => e = .trap) s' :=
          read_traps (Nat.le_antisymm (Nat.le_of_lt_succ hbits.2) (Nat.lt_of_not_le hlt))
        have hok := hsafe s' .refl (.read 0 1) hpos
        obtain ⟨_, _, _, h, _⟩ := Lib.wp.total (wp_mono (htrap.and hok) (fun _ _ h => h)
          fun _ _ h => h.2 h.1)
        exact h
      refine .inr ⟨hle, ?_⟩
      by_cases hl1 : uint32BE (f.bytes.read 0 104) 36 = 0
      · exact .inl hl1
      · refine .inr (refcountable_of_safe haccepted hlen ⟨hbits.1, hle⟩ hpos
          (Nat.pos_of_ne_zero hl1) fun s img s' hread hinit => ?_)
        exact ((h false s hread).ok hinit).2
  · intro h readOnly s hread
    refine wp_mono (wp_init_header readOnly s) ?_ fun _ _ he => he.1
    rintro img s' ⟨haccepted, rfl, hfile, hlen, -⟩
    rw [hread] at haccepted hlen ⊢
    exact ⟨(h haccepted).1, safe_of_handled h haccepted (by rw [hfile, hread]) hlen⟩

def tinyFile : HostFile :=
  ((zeroFile 0).write 0 [0x51, 0x46, 0x49, 0xFB, 0, 0, 0, 2]).write 31 [1]

theorem read_tinyFile :
    ∃ img s s', init true ⟨tinyFile, [], []⟩ = .ok img s ∧ 1 ≤ img.virtualSize ∧
      img.read 0 1 s = .error .trap s' :=
  ⟨_, _, _, rfl, by decide, rfl⟩

end Qcow2DiskImage

end DukeX.Qcow2
