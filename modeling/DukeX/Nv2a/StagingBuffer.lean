import Mathlib

/-!
# Staging buffers

`hw/xbox/nv2a/pgraph/vk/buffer.c`: data for the host GPU is appended to buffers of a fixed size.
-/

namespace DukeX.Nv2a

def roundUp (n d : Nat) : Nat := (n + d - 1) / d * d

structure StorageBuffer where
  bufferOffset : Nat
  bufferSize : Nat
  deriving DecidableEq, Repr

def bufferHasSpaceFor (b : StorageBuffer) (size alignment : Nat) : Bool :=
  decide (roundUp b.bufferOffset alignment + size ≤ b.bufferSize)

def appendLoop (alignment : Nat) : Nat → List Nat → List Nat × Nat
  | offset, [] => ([], offset)
  | offset, size :: sizes =>
    let start := roundUp offset alignment
    let rest := appendLoop alignment (start + size) sizes
    (start :: rest.1, rest.2)

def appendToBuffer (b : StorageBuffer) (sizes : List Nat) (alignment : Nat) :
    Option (StorageBuffer × List Nat) :=
  if bufferHasSpaceFor b sizes.sum alignment then
    let placed := appendLoop alignment b.bufferOffset sizes
    some ({ b with bufferOffset := placed.2 }, placed.1)
  else none

theorem dvd_roundUp (n d : Nat) : d ∣ roundUp n d := Nat.dvd_mul_left _ _

theorem le_roundUp (n : Nat) {d : Nat} (hd : 0 < d) : n ≤ roundUp n d := by
  have hdiv := Nat.div_add_mod (n + d - 1) d
  have hmod := Nat.mod_lt (n + d - 1) hd
  rw [Nat.mul_comm] at hdiv
  rw [roundUp]
  omega

theorem roundUp_add (n size : Nat) {d : Nat} (hd : 0 < d) :
    roundUp (roundUp n d + size) d = roundUp n d + roundUp size d := by
  have hsub : (n + d - 1) / d * d + size + d - 1 = size + d - 1 + (n + d - 1) / d * d := by omega
  rw [roundUp, roundUp, roundUp, hsub, Nat.add_mul_div_right _ _ hd, Nat.add_mul, Nat.add_comm]

theorem appendLoop_concat {d : Nat} (hd : 0 < d) (offset last : Nat) (sizes : List Nat) :
    (appendLoop d offset (sizes ++ [last])).2 =
      roundUp offset d + (sizes.map (roundUp · d)).sum + last := by
  induction sizes generalizing offset with
  | nil => rfl
  | cons size sizes ih =>
    rw [List.cons_append, appendLoop, List.map_cons, List.sum_cons, ← Nat.add_assoc]
    exact (ih _).trans (by rw [roundUp_add _ _ hd])

theorem appendLoop_places {d : Nat} (hd : 0 < d) (offset : Nat) (sizes : List Nat) :
    offset ≤ (appendLoop d offset sizes).2 ∧
      ∀ p ∈ (appendLoop d offset sizes).1.zip sizes,
        d ∣ p.1 ∧ p.1 + p.2 ≤ (appendLoop d offset sizes).2 := by
  induction sizes generalizing offset with
  | nil => simp [appendLoop]
  | cons size sizes ih =>
    obtain ⟨hle, hplaces⟩ := ih (roundUp offset d + size)
    refine ⟨?_, ?_⟩
    · have := le_roundUp offset hd
      exact Nat.le_trans (by omega) hle
    · intro p hp
      rcases List.mem_cons.mp hp with rfl | hp
      · exact ⟨dvd_roundUp _ _, hle⟩
      · exact hplaces p hp

/-- **Appending stays inside the buffer** exactly when the chunks fit with the padding that aligns
each of them, not only with the padding of the first. -/
theorem append_inside_iff (b b' : StorageBuffer) (sizes places : List Nat) (alignment : Nat)
    (ha : 0 < alignment) (h : appendToBuffer b sizes alignment = some (b', places)) :
    b'.bufferOffset ≤ b.bufferSize ∧
        (∀ p ∈ places.zip sizes, alignment ∣ p.1 ∧ p.1 + p.2 ≤ b.bufferSize) ↔
      roundUp b.bufferOffset alignment + (sizes.dropLast.map (roundUp · alignment)).sum +
        sizes.getLastD 0 ≤ b.bufferSize := by
  obtain ⟨hspace, heq⟩ := Option.ite_none_right_eq_some.mp h
  have hspace := of_decide_eq_true hspace
  obtain ⟨rfl, rfl⟩ := Prod.mk.inj (Option.some.inj heq)
  have hend : (appendLoop alignment b.bufferOffset sizes).2 ≤ b.bufferSize ↔
      roundUp b.bufferOffset alignment + (sizes.dropLast.map (roundUp · alignment)).sum +
        sizes.getLastD 0 ≤ b.bufferSize := by
    rcases List.eq_nil_or_concat' sizes with rfl | ⟨init, last, rfl⟩
    · exact ⟨fun _ => hspace, fun _ => Nat.le_trans (le_roundUp _ ha) hspace⟩
    · rw [appendLoop_concat ha, List.dropLast_concat, List.getLastD_concat]
  rw [← hend]
  refine ⟨And.left, fun hle => ⟨hle, ?_⟩⟩
  intro p hp
  obtain ⟨hdvd, hplace⟩ := (appendLoop_places ha b.bufferOffset sizes).2 p hp
  exact ⟨hdvd, Nat.le_trans hplace hle⟩

theorem append_inside_padded :
    712 ≤ 768 ∧ ∀ p ∈ [256, 512].zip [1, 200], 256 ∣ p.1 ∧ p.1 + p.2 ≤ 768 :=
  (append_inside_iff ⟨1, 768⟩ ⟨712, 768⟩ [1, 200] [256, 512] 256 (by decide) (by decide)).mpr
    (by decide)

/-- The second chunk is aligned past the room that was asked for. -/
theorem append_outside :
    appendToBuffer ⟨0, 512⟩ [1, 511] 256 = some (⟨767, 512⟩, [0, 256]) := by decide

/-! ## Remapped vertex attributes -/

structure ActiveAttribute where
  offset : Nat
  stride : Nat
  elementSize : Nat
  elementCount : Nat
  size_mem : elementSize ∈ [1, 2, 4]

def ActiveAttribute.Valid (a : ActiveAttribute) : Prop :=
  a.elementSize ∣ a.offset ∧ a.elementSize ∣ a.stride

instance (a : ActiveAttribute) : Decidable a.Valid := inferInstanceAs (Decidable (_ ∧ _))

abbrev Remap := List (ActiveAttribute × Option Nat)

def remapLoop (numVertices : Nat) : Nat → List ActiveAttribute → Remap × Nat
  | output, [] => ([], output)
  | output, a :: attrs =>
    if a.Valid then
      let rest := remapLoop numVertices output attrs
      ((a, none) :: rest.1, rest.2)
    else
      let offset := roundUp output a.elementSize
      let rest := remapLoop numVertices
        (offset + a.elementSize * a.elementCount * numVertices) attrs
      ((a, some offset) :: rest.1, rest.2)

def Remap.isEmpty (remap : Remap) : Bool := remap.all (·.2.isNone)

/-- The end of `remap_unaligned_attributes`. -/
def reserveSpace (b : StorageBuffer) (remap : Remap) (required : Nat) : StorageBuffer :=
  if remap.isEmpty then b
  else
    let total := roundUp b.bufferOffset 16 - b.bufferOffset + required
    let b := if bufferHasSpaceFor b total 1 then b else { b with bufferOffset := 0 }
    { b with bufferOffset := roundUp b.bufferOffset 16 }

def ActiveAttribute.copied (b : StorageBuffer) (a : ActiveAttribute) : Option Nat → ActiveAttribute
  | none => a
  | some offset => { a with
      offset := b.bufferOffset + offset, stride := a.elementSize * a.elementCount }

def InTurn (numVertices limit : Nat) : Nat → Remap → Prop
  | start, [] => start ≤ limit
  | start, (_, none) :: rest => InTurn numVertices limit start rest
  | start, (a, some offset) :: rest => start ≤ offset ∧
    InTurn numVertices limit (offset + a.elementSize * a.elementCount * numVertices) rest

/-- The copy passes its assertion, to regions one after the other inside the buffer, and leaves every
attribute valid. -/
def RemapFits (b : StorageBuffer) (numVertices : Nat) (remap : Remap) (required : Nat) : Prop :=
  (remap.isEmpty = false → bufferHasSpaceFor b required 256 = true ∧
    InTurn numVertices (b.bufferSize - b.bufferOffset) 0 remap) ∧
    ∀ p ∈ remap, (p.1.copied b p.2).Valid

theorem remapLoop_spec {numVertices output limit : Nat} {attrs : List ActiveAttribute}
    (h : (remapLoop numVertices output attrs).2 ≤ limit) (b : StorageBuffer)
    (hb : (remapLoop numVertices output attrs).1.isEmpty = false → 16 ∣ b.bufferOffset) :
    InTurn numVertices limit output (remapLoop numVertices output attrs).1 ∧
      ∀ p ∈ (remapLoop numVertices output attrs).1, (p.1.copied b p.2).Valid := by
  induction attrs generalizing output with
  | nil => exact ⟨h, by simp [remapLoop]⟩
  | cons a attrs ih =>
    rw [remapLoop] at h hb ⊢
    by_cases hvalid : a.Valid
    · rw [if_pos hvalid] at h hb ⊢
      obtain ⟨hturn, hrest⟩ := ih h hb
      exact ⟨hturn, List.forall_mem_cons.mpr ⟨hvalid, hrest⟩⟩
    · rw [if_neg hvalid] at h hb ⊢
      have hb := hb rfl
      have hsize : ∀ size ∈ [1, 2, 4], size ∣ 16 ∧ 0 < size := by decide
      obtain ⟨hdvd, hpos⟩ := hsize _ a.size_mem
      obtain ⟨hturn, hrest⟩ := ih h fun _ => hb
      refine ⟨⟨le_roundUp _ hpos, hturn⟩, List.forall_mem_cons.mpr ⟨?_, hrest⟩⟩
      exact ⟨Nat.dvd_add (hdvd.trans hb) (dvd_roundUp _ _), Nat.dvd_mul_right _ _⟩

/-- **Remapped attributes fit** exactly when nothing is remapped, or the space that was found is
enough from the next multiple of 256 on, or none was found and the buffer was emptied. -/
theorem remap_fits_iff (b : StorageBuffer) (attrs : List ActiveAttribute) (numVertices : Nat)
    (hempty : (remapLoop numVertices 0 attrs).2 ≤ b.bufferSize) :
    let r := remapLoop numVertices 0 attrs
    RemapFits (reserveSpace b r.1 r.2) numVertices r.1 r.2 ↔
      (r.1.isEmpty = false → roundUp b.bufferOffset 16 + r.2 ≤ b.bufferSize →
        roundUp (roundUp b.bufferOffset 16) 256 + r.2 ≤ b.bufferSize) := by
  intro r
  cases hr : r.1.isEmpty with
  | true =>
    have hspec := remapLoop_spec (Nat.le_refl r.2) b fun h => absurd (hr.symm.trans h) (by decide)
    simp only [RemapFits, reserveSpace, hr, if_true]
    exact ⟨fun _ h => absurd h (by decide), fun _ => ⟨fun h => absurd h (by decide), hspec.2⟩⟩
  | false =>
    have hle := le_roundUp b.bufferOffset (d := 16) (by decide)
    have hone : bufferHasSpaceFor b (roundUp b.bufferOffset 16 - b.bufferOffset + r.2) 1 = true ↔
        roundUp b.bufferOffset 16 + r.2 ≤ b.bufferSize := by
      rw [bufferHasSpaceFor, decide_eq_true_iff, roundUp, Nat.div_one, Nat.mul_one]
      omega
    by_cases hspace : roundUp b.bufferOffset 16 + r.2 ≤ b.bufferSize
    · -- No finish: the copy starts at the multiple of 16, the assertion at one of 256.
      have hb : reserveSpace b r.1 r.2 = { b with bufferOffset := roundUp b.bufferOffset 16 } := by
        simp only [reserveSpace, hr, Bool.false_eq_true, if_false, hone.mpr hspace, if_true]
      have hspec := remapLoop_spec (show r.2 ≤ b.bufferSize - roundUp b.bufferOffset 16 by omega)
        { b with bufferOffset := roundUp b.bufferOffset 16 } fun _ => dvd_roundUp _ _
      rw [hb]
      constructor
      · intro h _ _
        exact of_decide_eq_true (h.1 hr).1
      · intro h
        exact ⟨fun _ => ⟨decide_eq_true (h rfl hspace), hspec.1⟩, hspec.2⟩
    · have hb : reserveSpace b r.1 r.2 = { b with bufferOffset := 0 } := by
        simp only [reserveSpace, hr, Bool.false_eq_true, if_false, hone.not.mpr hspace]
        rfl
      have hspec := remapLoop_spec hempty { b with bufferOffset := 0 } fun _ => Nat.dvd_zero 16
      have hzero : roundUp 0 256 + r.2 ≤ b.bufferSize := by
        rwa [show roundUp 0 256 = 0 by decide, Nat.zero_add]
      rw [hb]
      exact ⟨fun _ _ h => absurd h hspace,
        fun _ => ⟨fun _ => ⟨decide_eq_true hzero, hspec.1⟩, hspec.2⟩⟩

def oddAttribute : ActiveAttribute := ⟨3, 4, 2, 2, by decide⟩

theorem remap_fits_empty :
    RemapFits (reserveSpace ⟨0, 512⟩ [(oddAttribute, some 0)] 4) 1 [(oddAttribute, some 0)] 4 :=
  (remap_fits_iff ⟨0, 512⟩ [oddAttribute] 1 (by decide)).mpr (by decide)

/-- From offset 480 of 512 the four bytes fit, but not from the next multiple of 256. -/
theorem remap_refused :
    remapLoop 1 0 [oddAttribute] = ([(oddAttribute, some 0)], 4) ∧
      reserveSpace ⟨480, 512⟩ [(oddAttribute, some 0)] 4 = ⟨480, 512⟩ ∧
      bufferHasSpaceFor ⟨480, 512⟩ 4 256 = false :=
  ⟨rfl, by decide, by decide⟩

end DukeX.Nv2a
