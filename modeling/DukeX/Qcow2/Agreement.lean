import DukeX.Qcow2.Runs

/-!
# Agreement with the emulator

The code and the emulator's block driver read the same L2 entries.
-/

namespace DukeX.Qcow2

open DukeX.Lib DukeX.Swift

namespace Qcow2DiskImage

variable {img : Qcow2DiskImage} {s s' s₀ : ImageState} {readOnly : Bool} {x y : View}
variable {offset count o t a g e : Nat} {data : Data} {backing behind inflated : Store}
variable {G : Nat → Prop} {ok : Prop}

def behindOf (f : HostFile) (backing : Store) : Store :=
  if entry64 f.bytes 8 ≠ 0 then backing else fun _ => 0

def contents (img : Qcow2DiskImage) (f : HostFile) (backing inflated : Store) : Store :=
  img.guest (img.l1OnDisk f.bytes) f.bytes (behindOf f backing) inflated

def entryOnDisk (img : Qcow2DiskImage) (f : HostFile) (g : Nat) : Nat :=
  img.l2EntryOf (img.l1OnDisk f.bytes) f.bytes g

theorem Coherent.entry (h : img.Coherent x) (g : Nat) :
    img.l2EntryOf (img.l1OnDisk x.2.bytes) x.2.bytes g = img.l2EntryOf x.1 x.2.bytes g := by
  simp only [l2EntryOf]
  by_cases hi : g / img.l2Entries < img.l1Size
  · rw [h _ hi]
  · rw [if_neg (fun hc => hi hc.1), if_neg (fun hc => hi hc.1)]

theorem Coherent.guest (h : img.Coherent x) :
    img.guest (img.l1OnDisk x.2.bytes) x.2.bytes behind inflated =
      img.guest x.1 x.2.bytes behind inflated := by
  funext a
  exact guest_congr_at (h.entry _) fun _ => rfl

structure Agrees (img : Qcow2DiskImage) (s : ImageState) (backing inflated : Store) : Prop where
  read : ∀ faults offset count, offset + count ≤ img.virtualSize →
    wp (img.read offset count)
      (fun d _ => d = (img.contents s.file backing inflated).read offset count)
      (fun _ _ => faults ≠ [] ∨ ∃ g, img.Touched offset count g ∧
        isCompressed (img.entryOnDisk s.file g)) { s with faults := faults }
  write : img.readOnly = false → ∀ faults offset data, offset + data.length ≤ img.virtualSize →
    img.Fits s offset data.length →
    wp (img.write offset data)
      (fun _ s' => img.contents s'.file backing inflated =
        (img.contents s.file backing inflated).write offset data)
      (fun _ _ => faults ≠ [] ∨ img.Obstacle s offset data.length) { s with faults := faults }

/-- A byte of the disk that the code and the driver see alike. -/
def AlikeAt (img : Qcow2DiskImage) (f : HostFile) (backing : Store) (a : Nat) : Prop :=
  let l2Entry := img.entryOnDisk f (a / img.clusterSize)
  match clusterType l2Entry with
  | .unallocated => behindOf f backing a = 0
  | .zeroAlloc => img.readOnly = true ∧ f.bytes (hostOffset l2Entry + a % img.clusterSize) = 0
  | _ => True

def Alike (img : Qcow2DiskImage) (f : HostFile) (backing : Store) : Prop :=
  ∀ a, a < img.virtualSize → img.AlikeAt f backing a

theorem shown_eq_contents (hco : img.Coherent s.view) (ha : a < img.virtualSize)
    (halike : img.AlikeAt s.file backing a)
    (hplain : ¬ isCompressed (img.l2EntryOf s.l1 s.file.bytes (a / img.clusterSize))) :
    img.shown s a = img.contents s.file backing inflated a := by
  have hentry : img.entryOnDisk s.file (a / img.clusterSize) =
      img.l2EntryOf s.l1 s.file.bytes (a / img.clusterSize) := hco.entry _
  simp only [AlikeAt, hentry] at halike
  simp only [shown, contents, guest]
  rw [if_pos ha, show img.l2EntryOf (img.l1OnDisk s.file.bytes) s.file.bytes (a / img.clusterSize) =
    img.l2EntryOf s.l1 s.file.bytes (a / img.clusterSize) from hentry]
  by_cases hnone : hostOffset (img.l2EntryOf s.l1 s.file.bytes (a / img.clusterSize)) = 0
  · rw [if_pos hnone]
    grind [clusterType_of_none]
  · rw [if_neg hnone]
    rcases clusterType_of_some hplain hnone with htype | htype
    · rw [htype]
    · rw [htype] at halike ⊢
      exact halike.2

theorem Alike.unbacked (hco : img.Coherent s.view) (h : img.Alike s.file backing) :
    img.Unbacked (behindOf s.file backing) s.view := by
  intro a ha htype
  have halike := h a ha
  have hentry : img.entryOnDisk s.file (a / img.clusterSize) =
      img.l2EntryOf s.view.1 s.view.2.bytes (a / img.clusterSize) := hco.entry _
  simp only [AlikeAt, hentry, htype] at halike
  exact halike

theorem Alike.noZeroAlloc (hco : img.Coherent s.view) (h : img.Alike s.file backing)
    (hwritable : img.readOnly = false) : img.NoZeroAlloc s.view := by
  intro a ha htype
  have halike := h a ha
  have hentry : img.entryOnDisk s.file (a / img.clusterSize) =
      img.l2EntryOf s.view.1 s.view.2.bytes (a / img.clusterSize) := hco.entry _
  simp only [AlikeAt, hentry, htype] at halike
  rw [hwritable] at halike
  cases halike.1

theorem Preserved.behindOf {e : Nat} {G : Nat → Prop} {ok : Prop} (h : img.Sound s.l1 s.file)
    (hpre : img.Preserved e G ok s.view s'.view) (backing : Store) :
    behindOf s'.file backing = behindOf s.file backing := by
  have hcs := h.cluster_ge
  have hsame : img.Same s.file.bytes s'.file.bytes 0 := hpre.same 0 (Nat.zero_mod _) fun r hw hr => by
    obtain rfl := hpre.sound.distinct r .header 0 hr rfl
    exact hw
  have hentry : entry64 s'.file.bytes 8 = entry64 s.file.bytes 8 :=
    entry64_congr fun a h1 h2 => hsame a (by omega) (by omega)
  rw [Qcow2DiskImage.behindOf, hentry, Qcow2DiskImage.behindOf]

section

variable (hs : img.Sound s.l1 s.file)

include hs

section

variable (hlen : s.l1Table.length = img.l1Size)

include hlen

theorem Alike.read (hco : img.Coherent s.view) (hsize : img.virtualSize < 2 ^ 64)
    (h : img.Alike s.file backing) (hin : offset + count ≤ img.virtualSize) :
    wp (img.read offset count)
      (fun d _ => d = (img.contents s.file backing inflated).read offset count)
      (fun _ _ => s.faults ≠ [] ∨ ∃ g, img.Touched offset count g ∧
        isCompressed (img.entryOnDisk s.file g)) s := by
  refine wp_mono (wp_readLoop count offset hs hlen (Nat.le_refl _)) ?_ fun _ s' hf => ?_
  · rintro _ s' ⟨_, rfl, hplain⟩
    refine Store.read_congr fun a h1 h2 => ?_
    exact shown_eq_contents hco (by omega) (h a (by omega)) (hplain _ ⟨a, h1, h2, rfl⟩)
  · by_cases h0 : s.faults = []
    · rcases hf.2 h0 with ⟨g, hg, hcomp⟩ | hbig
      · refine .inr ⟨g, hg, ?_⟩
        rw [show img.entryOnDisk s.file g = img.l2EntryOf s.l1 s.file.bytes g from hco.entry g]
        exact hcomp
      · exact absurd hbig (by omega)
    · exact .inl h0

theorem Alike.write
    (hco : img.Coherent s.view) (hwritable : img.readOnly = false) (h : img.Alike s.file backing)
    (hin : offset + data.length ≤ img.virtualSize) (hfit : img.Fits s offset data.length) :
    wp (img.write offset data)
      (fun _ s' => img.contents s'.file backing inflated =
        (img.contents s.file backing inflated).write offset data)
      (fun _ _ => s.faults ≠ [] ∨ img.Obstacle s offset data.length) s := by
  refine wp_mono (wp_write hs hfit hlen) (fun _ s' hf => ?_) fun _ s' hb => ?_
  · rw [contents, (hf.1.edits.preserved hs).behindOf hs backing, contents]
    refine ((hf.1.coherent hs hco).guest).trans ?_
    refine (hf.1.guest hs (h.unbacked hco) (h.noZeroAlloc hco hwritable) hin).trans ?_
    rw [← hco.guest]
    rfl
  · by_cases h0 : s.faults = []
    · rcases hb.why h0 with hro | hob
      · rw [hwritable] at hro
        cases hro
      · exact .inr hob
    · exact .inl h0

/-! ## Necessary -/

theorem wp_physicalOffset_located (allocate : Bool)
    (hplain : ¬ isCompressed (img.l2EntryOf s.l1 s.file.bytes (a / img.clusterSize)))
    (hsome : hostOffset (img.l2EntryOf s.l1 s.file.bytes (a / img.clusterSize)) ≠ 0) :
    wp (img.physicalOffset a allocate)
      (fun r s' => s.Calm s' ∧
        r = some (hostOffset (img.l2EntryOf s.l1 s.file.bytes (a / img.clusterSize))))
      (fun _ s' => s.Calm s' ∧ s.faults ≠ []) s := by
  have h0 : img.l2EntryOf s.l1 s.file.bytes (a / img.clusterSize) ≠ 0 := fun h0 =>
    hsome (by rw [h0]; rfl)
  obtain ⟨t, ht⟩ := place_l2_of_entry h0
  refine wp_mono (wp_physicalOffset_mapped hs hlen ht rfl fun hzero => absurd hzero hsome)
    (fun _ _ h => ⟨h.1, h.2.2.trans (if_neg hsome)⟩) fun _ _ h => ⟨h.1, fun h0 => hplain (h.2 h0)⟩

theorem wp_write_located
    (hwritable : img.readOnly = false) (h0 : s.faults = []) (ha : a + 1 < 2 ^ 64)
    (hplain : ¬ isCompressed (img.l2EntryOf s.l1 s.file.bytes (a / img.clusterSize)))
    (hsome : hostOffset (img.l2EntryOf s.l1 s.file.bytes (a / img.clusterSize)) ≠ 0) (v : UInt8) :
    wp (img.write a [v]) (fun _ s' => img.Stored a [v] s.view s'.view) (fun _ _ => False) s := by
  have hpos := hs.clusterSize_pos
  have hmod := Nat.mod_lt a hpos
  unfold write
  rw [if_neg (by rw [hwritable]; exact Bool.false_ne_true)]
  show wp (img.writeLoop 1 a [v]) _ _ s
  unfold writeLoop
  rw [if_pos (show 0 < [v].length from Nat.one_pos)]
  refine wp_seq (wp_chunkCount hs) ?_ fun _ _ hf => hf
  rintro count s ⟨rfl, hcount⟩
  obtain rfl : count = 1 := by
    rw [hcount, List.length_singleton]
    omega
  have hstore : wp (img.writeChunk a ([v].take 1))
      (fun _ s' => img.Stored a [v] s.view s'.view) (fun _ _ => False) s := by
    unfold writeChunk
    refine wp_seq (wp_physicalOffset_located hs hlen true hplain hsome) ?_ fun _ _ hf => hf.2 h0
    rintro _ s1 ⟨hcalm, rfl⟩
    have hlt := hostOffset_lt (img.l2EntryOf s.l1 s.file.bytes (a / img.clusterSize))
    obtain ⟨m, _, hm, hcs⟩ := hs.cluster
    refine wp_mono (wp_writeHandle (by omega)) (fun _ s2 hw => ?_) fun _ _ hf =>
      hf.2 (hcalm.2.2 h0)
    have hne : img.l2EntryOf s.l1 s.file.bytes (a / img.clusterSize) ≠ 0 := fun hne =>
      hsome (by rw [hne]; rfl)
    obtain ⟨t, ht⟩ := place_l2_of_entry hne
    rw [hw.view, hcalm.1, ImageState.l1_congr hcalm.2.1, l2EntryOf_of_place ht]
    rw [l2EntryOf_of_place ht] at hplain hsome
    exact .mk ht hplain hsome (by rw [List.length_singleton]; omega)
  refine wp_seq hstore (fun _ s1 hst => ?_) fun _ _ hf => hf
  refine wp_seq (wp_checked ha) ?_ fun _ _ hf => hf
  rintro _ _ ⟨rfl, rfl⟩
  exact hst

end

end

theorem Agrees.byte (h : img.Agrees s backing inflated) (hs : img.Sound s.l1 s.file)
    (hlen : s.l1Table.length = img.l1Size) (hsize : img.virtualSize < 2 ^ 64)
    (ha : a < img.virtualSize)
    (hplain : ¬ isCompressed (img.l2EntryOf s.l1 s.file.bytes (a / img.clusterSize))) :
    img.shown s a = img.contents s.file backing inflated a := by
  have hread := wp_readLoop (s := { s with faults := [] }) 1 a hs hlen (Nat.le_refl 1)
  have hboth := (h.read [] a 1 (by omega)).and hread
  have honly : ∀ g, img.Touched a 1 g → g = a / img.clusterSize := by
    rintro g ⟨a', h1, h2, rfl⟩
    obtain rfl : a' = a := by omega
    rfl
  have htotal : wp (img.read a 1)
      (fun d _ => d = (img.contents s.file backing inflated).read a 1 ∧ d = (img.shown s).read a 1)
      (fun _ _ => False) { s with faults := [] } := by
    refine wp_mono hboth (fun d s' hd => ⟨hd.1, hd.2.2.1⟩) fun _ _ hf => ?_
    rcases hf.2.2 rfl with ⟨g, hg, hcomp⟩ | hbig
    · rw [honly g hg] at hcomp
      exact hplain hcomp
    · omega
  obtain ⟨d, s', _, hd, hd'⟩ := htotal.total
  have heq : (img.shown s).read a 1 = (img.contents s.file backing inflated).read a 1 :=
    hd'.symm.trans hd
  exact List.head_eq_of_cons_eq heq

theorem Agrees.alike (h : img.Agrees s backing inflated) (hs : img.Sound s.l1 s.file)
    (hlen : s.l1Table.length = img.l1Size) (hco : img.Coherent s.view)
    (hsize : img.virtualSize < 2 ^ 64)
    (hfit : img.fileEnd s.file + 6 * img.clusterSize ≤ 2 ^ 56) : img.Alike s.file backing := by
  intro a ha
  have hentry : img.entryOnDisk s.file (a / img.clusterSize) =
      img.l2EntryOf s.l1 s.file.bytes (a / img.clusterSize) := hco.entry _
  have hcontents : img.contents s.file backing inflated a =
      img.guest s.l1 s.file.bytes (behindOf s.file backing) inflated a := congrFun hco.guest a
  simp only [AlikeAt, hentry]
  cases htype : clusterType (img.l2EntryOf s.l1 s.file.bytes (a / img.clusterSize)) with
  | normal | zeroPlain | compressed => trivial
  | unallocated =>
    have hplain : ¬ isCompressed (img.l2EntryOf s.l1 s.file.bytes (a / img.clusterSize)) :=
      fun hc => by cases htype.symm.trans (clusterType_compressed.mpr hc)
    have hnone : hostOffset (img.l2EntryOf s.l1 s.file.bytes (a / img.clusterSize)) = 0 := by
      grind [clusterType_of_some]
    have hbyte := h.byte hs hlen hsize ha hplain
    rw [hcontents] at hbyte
    simp only [shown, guest] at hbyte
    rw [if_pos hnone, if_pos ha, htype] at hbyte
    exact hbyte.symm
  | zeroAlloc =>
    obtain ⟨hplain, hsome⟩ := host_of_clusterType (.inr htype)
    have hbyte := h.byte hs hlen hsize ha hplain
    rw [hcontents] at hbyte
    simp only [shown, guest] at hbyte
    rw [if_neg hsome, if_pos ha, htype] at hbyte
    refine ⟨?_, hbyte⟩
    by_contra hro
    have hwritable : img.readOnly = false := Bool.eq_false_iff.mpr hro
    have hspan : img.demand a 1 = 6 := by
      simp [demand, spanned]
    -- a one written there is lost
    have hwrite := h.write hwritable [] a [1] (by rw [List.length_singleton]; omega) (by
      rw [Fits, List.length_singleton, hspan]
      exact hfit)
    have hstored := wp_write_located (s := { s with faults := [] }) hs hlen hwritable rfl
      (show a + 1 < 2 ^ 64 by omega) hplain hsome 1
    have hboth : wp (img.write a [1]) _ (fun _ _ => False) { s with faults := [] } :=
      wp_mono (hwrite.and hstored) (fun _ _ hb => hb) fun _ _ hf => hf.2
    obtain ⟨_, s', _, hnew, hst⟩ := hboth.total
    have hone : img.contents s'.file backing inflated a = 1 := by
      rw [hnew]
      exact Store.write_inside (i := 0) (by decide)
    have hzero : img.contents s'.file backing inflated a = 0 := by
      have hs' := hst.sound hs
      have hentry' := hst.entry hs (a / img.clusterSize)
      have hco' : img.Coherent s'.view := fun i hi => by
        obtain ⟨hmem, hdisk⟩ := hst.l1_entry hs hi
        rw [hmem, hdisk]
        exact hco i hi
      have hcontents' : img.contents s'.file backing inflated a =
        img.guest s'.l1 s'.file.bytes (behindOf s'.file backing) inflated a :=
          congrFun hco'.guest a
      rw [hcontents']
      simp only [guest]
      rw [if_pos ha, show img.l2EntryOf s'.l1 s'.file.bytes (a / img.clusterSize) =
        img.l2EntryOf s.l1 s.file.bytes (a / img.clusterSize) from hentry', htype]
    rw [hone] at hzero
    cases hzero

/-- **Reads and writes agree with the driver exactly on images that are alike to both.** -/
theorem agrees_iff_alike (hinit : init readOnly s₀ = .ok img s)
    (hs : img.Sound (img.l1OnDisk s.file.bytes) s.file)
    (hfit : img.fileEnd s.file + 6 * img.clusterSize ≤ 2 ^ 56) :
    img.Agrees s backing inflated ↔ img.Alike s.file backing := by
  have hopen := opened_of_init hinit
  have hsound : img.Sound s.l1 s.file := hs.of_place fun r o ho =>
    place_of_lagging (fun i hi => .inl (hopen.coherent i hi).symm) ho
  constructor
  · intro h
    exact h.alike hsound hopen.length hopen.coherent hopen.virtualSize hfit
  · intro h
    refine ⟨fun faults offset count hin => ?_, fun hwritable faults offset data hin hfits => ?_⟩
    · exact Alike.read (s := { s with faults := faults }) hsound hopen.length hopen.coherent
        hopen.virtualSize h hin
    · exact Alike.write (s := { s with faults := faults }) hsound hopen.length hopen.coherent
        hwritable h hin hfits

theorem agrees_plain : sampleImage.Agrees (plainState 3584) (fun _ => 0) (fun _ => 0) := by
  have hplain : 3072 < sampleImage.fileEnd (plainFile 3584) := by decide
  refine (agrees_iff_alike init_plain (consistent_plain hplain (by decide)).1
    (by decide)).mpr fun a ha => ?_
  have htype : ∀ g < 2, clusterType (sampleImage.entryOnDisk (plainFile 3584) g) =
      if g = 0 then .normal else .unallocated := by decide
  have hg : a / 512 < 2 := Nat.div_lt_of_lt_mul ha
  show sampleImage.AlikeAt (plainFile 3584) (fun _ => 0) a
  simp only [AlikeAt, show sampleImage.clusterSize = 512 from by decide, htype _ hg]
  by_cases h0 : a / 512 = 0
  · rw [if_pos h0]
    trivial
  · rw [if_neg h0]
    show behindOf (plainFile 3584) (fun _ => 0) a = 0
    rw [behindOf, ite_self]

def zeroFlagFile : HostFile :=
  (sampleFile 3584 [0x80, 0, 0, 0, 0, 0, 8] [0x80, 0, 0, 0, 0, 0, 10, 1]
    [0, 1, 0, 1, 0, 1, 0, 1, 0, 1, 0, 1]).write 2560 [5]

theorem read_zero_flag :
    ∃ s₀ img s, init false s₀ = .ok img s ∧ 1 ≤ img.virtualSize ∧
      wp (img.read 0 1) (fun d _ => d = [5]) (fun _ _ => False) s ∧
      (img.contents s.file (fun _ => 0) (fun _ => 0)).read 0 1 = [0] := by
  refine ⟨⟨zeroFlagFile, [], []⟩, sampleImage, ⟨zeroFlagFile, [2 ^ 63 + 2048], []⟩, rfl, by decide,
    ?_, by decide⟩
  have hread : (match sampleImage.read 0 1 ⟨zeroFlagFile, [2 ^ 63 + 2048], []⟩ with
      | .ok d _ => some d
      | .error _ _ => none) = some [5] := by decide
  grind [wp]

theorem Filled.unbacked (h : img.Sound x.1 x.2) (hfill : img.Filled e G ok offset data x y)
    (hun : img.Unbacked behind x) (hz : img.NoZeroAlloc x) :
    img.Unbacked behind y ∧ img.NoZeroAlloc y := by
  induction hfill with
  | done => exact ⟨hun, hz⟩
  | chunk hg hlinks hstore _ ih =>
    obtain ⟨⟨hun, hz⟩, h⟩ := hlinks.keep (P := fun y => img.Unbacked behind y ∧ img.NoZeroAlloc y) h
      (fun h hlink hP => ⟨hlink.unbacked h hP.1, hlink.noZeroAlloc h hP.2⟩) ⟨hun, hz⟩
    have hentry := hstore.entry h
    exact ih (hstore.sound h) (fun a ha => hentry _ ▸ hun a ha) fun a ha => hentry _ ▸ hz a ha

/-- What every write that returns keeps. -/
structure Trusted (img : Qcow2DiskImage) (backing : Store) (s : ImageState) : Prop where
  sound : img.Sound s.l1 s.file
  length : s.l1Table.length = img.l1Size
  coherent : img.Coherent s.view
  alike : img.Alike s.file backing

theorem Trusted.filled (h : img.Trusted backing s) (hwritable : img.readOnly = false)
    (hfill : img.Filled e G ok offset data s.view s'.view)
    (hlen : s'.l1Table.length = s.l1Table.length) : img.Trusted backing s' := by
  have hpre := hfill.edits.preserved h.sound
  have hco := hfill.coherent h.sound h.coherent
  obtain ⟨hun, hz⟩ := hfill.unbacked h.sound (h.alike.unbacked h.coherent)
    (h.alike.noZeroAlloc h.coherent hwritable)
  refine ⟨hpre.sound, hlen.trans h.length, hco, fun a ha => ?_⟩
  have hentry : img.entryOnDisk s'.file (a / img.clusterSize) =
    img.l2EntryOf s'.view.1 s'.view.2.bytes (a / img.clusterSize) := hco.entry _
  simp only [AlikeAt, hentry, hpre.behindOf h.sound backing]
  grind [hun a ha, hz a ha]

def Completes (img : Qcow2DiskImage) (s : ImageState) (offset : Nat) (data : Data) : Prop :=
  img.Fits s offset data.length ∧ ∃ s', img.write offset data s = .ok () s'

/-- **The code and the driver keep agreeing** over every run of writes that return. -/
theorem run_agrees (hinit : init false s₀ = .ok img s) (hs : img.Sound s.l1 s.file)
    (halike : img.Alike s.file backing) (hrun : img.Run img.Completes s s') :
    img.Agrees s' backing inflated := by
  have hopen := opened_of_init hinit
  have h := hrun.invariant (I := img.Trusted backing) ⟨hs, hopen.length, hopen.coherent, halike⟩
    fun s offset data h hC => by
      obtain ⟨hfit, s', hwrite⟩ := hC
      obtain ⟨hfill, hlen⟩ := (wp_write h.sound hfit h.length).ok hwrite
      rw [endState, hwrite]
      exact h.filled hopen.readOnly hfill hlen
  refine ⟨fun faults offset count hin => ?_, fun hwritable faults offset data hin hfits => ?_⟩
  · exact Alike.read (s := { s' with faults := faults }) h.sound h.length h.coherent
      hopen.virtualSize h.alike hin
  · exact Alike.write (s := { s' with faults := faults }) h.sound h.length h.coherent hwritable
      h.alike hin hfits

theorem run_agrees_plain : sampleImage.Agrees
    (endState (sampleImage.write 512 [1]) (plainState 3584)) (fun _ => 0) (fun _ => 0) := by
  have htype : ∀ g < 2, clusterType (sampleImage.entryOnDisk (plainFile 3584) g) ≠ .zeroAlloc := by
    decide
  refine run_agrees init_plain (consistent_plain (by decide) rfl).1 (fun a ha => ?_)
    (.write .refl ⟨by unfold Fits; decide, _, rfl⟩)
  have hg : a / 512 < 2 := Nat.div_lt_of_lt_mul ha
  simp only [AlikeAt, behindOf, ite_self]
  split
  · trivial
  · next heq => exact absurd heq (htype _ hg)
  · trivial

end Qcow2DiskImage

end DukeX.Qcow2
