import DukeX.Lib.Copy
import DukeX.Lib.Interleave

/-!
# Swizzled textures

`swizzle.c`: between the rows of a texture and the order in which the bits of the coordinates are
interleaved.
-/

namespace DukeX.Nv2a

open DukeX.Lib

inductive Axis where
  | x
  | y
  | z
  deriving DecidableEq

instance : Fintype Axis := ⟨{.x, .y, .z}, fun axis => by cases axis <;> simp⟩

abbrev SwizzleMasks := Axis → UInt32

structure MaskLoop where
  mask : Axis → UInt32
  bit : UInt32
  maskBit : UInt32
  done : Bool

def MaskLoop.deal (axis : Axis) (size : UInt32) (st : MaskLoop) : MaskLoop :=
  if st.bit < size then
    { st with
      mask := Function.update st.mask axis (st.mask axis ||| st.maskBit)
      maskBit := st.maskBit <<< 1
      done := false }
  else st

def maskRound (width height depth : UInt32) (st : MaskLoop) : MaskLoop :=
  let st := (({ st with done := true }.deal .x width).deal .y height).deal .z depth
  { st with bit := st.bit <<< 1 }

def maskLoop (width height depth : UInt32) : Nat → MaskLoop → Option MaskLoop
  | 0, _ => none
  | fuel + 1, st =>
    let st := maskRound width height depth st
    if st.done then some st else maskLoop width height depth fuel st

/-- `none` is a loop that has not ended when `bit` has left its 32 bits, or the failed assertion. -/
def generateSwizzleMasks (width height depth : UInt32) : Option SwizzleMasks := do
  let st ← maskLoop width height depth 33 ⟨fun _ => 0, 1, 1, false⟩
  if st.mask .x ^^^ st.mask .y ^^^ st.mask .z = st.maskBit - 1 then some st.mask else none

def advance (mask off : UInt32) : UInt32 := (off - mask) &&& mask

structure Box where
  width : UInt32
  height : UInt32
  depth : UInt32
  rowPitch : UInt32
  slicePitch : UInt32
  bytesPerPixel : UInt32

section Walk

/-! The three loops of both functions: `copy` is called with the swizzled and the linear offset of
each texel. -/

variable (box : Box) (masks : SwizzleMasks) (copy : Store → Nat → Nat → Store)

def walkRow (swizzledTmp linearTmp : Nat) (dst : Store) : Store :=
  ((List.range box.width.toNat).foldl (fun st x =>
    (copy st.1 (swizzledTmp + (st.2 * box.bytesPerPixel).toNat)
      (linearTmp + (UInt32.ofNat x * box.bytesPerPixel).toNat),
      advance (masks .x) st.2)) (dst, 0)).1

def walkSlice (offZ : UInt32) (linear : Nat) (dst : Store) : Store :=
  ((List.range box.height.toNat).foldl (fun st y =>
    (walkRow box masks copy ((st.2 + offZ) * box.bytesPerPixel).toNat
      (linear + (UInt32.ofNat y * box.rowPitch).toNat) st.1,
      advance (masks .y) st.2)) (dst, 0)).1

def walkBox (dst : Store) : Store :=
  ((List.range box.depth.toNat).foldl (fun st _ =>
    (walkSlice box masks copy st.2.1 st.2.2 st.1,
      (advance (masks .z) st.2.1, st.2.2 + box.slicePitch.toNat))) (dst, (0, 0))).1

end Walk

def swizzleBox (src : Store) (box : Box) (dst : Store) : Option Store := do
  let masks ← generateSwizzleMasks box.width box.height box.depth
  some (walkBox box masks (fun dst swizzled linear =>
    dst.copy swizzled src linear box.bytesPerPixel.toNat) dst)

def unswizzleBox (src : Store) (box : Box) (dst : Store) : Option Store := do
  let masks ← generateSwizzleMasks box.width box.height box.depth
  some (walkBox box masks (fun dst swizzled linear =>
    dst.copy linear src swizzled box.bytesPerPixel.toNat) dst)

def roundOwners (a b c i : Nat) : List Axis :=
  (if i < a then [.x] else []) ++ (if i < b then [.y] else []) ++ (if i < c then [.z] else [])

def zOrder (a b c : Nat) : List Axis :=
  (List.range (max a (max b c))).flatMap (roundOwners a b c)

def texel (x y z : Nat) : Axis → Nat
  | .x => x
  | .y => y
  | .z => z

def swizzledOffset (a b c : Nat) (x y z : Nat) : Nat := interleave (zOrder a b c) (texel x y z)

theorem count_rounds (a b c n : Nat) (axis : Axis) :
    ((List.range n).flatMap (roundOwners a b c)).count axis = min n (texel a b c axis) := by
  induction n with
  | zero => simp
  | succ n ih =>
    have hround : (roundOwners a b c n).count axis = if n < texel a b c axis then 1 else 0 := by
      unfold roundOwners
      cases axis <;> simp only [texel] <;> split <;> split <;> split <;> simp [*]
    rw [List.range_succ, List.flatMap_append, List.count_append, ih, List.flatMap_singleton, hround]
    split <;> omega

theorem count_zOrder (a b c : Nat) (axis : Axis) : (zOrder a b c).count axis = texel a b c axis := by
  rw [zOrder, count_rounds]
  cases axis <;> simp only [texel] <;> omega

theorem length_eq_counts (owner : List Axis) :
    owner.length = owner.count .x + owner.count .y + owner.count .z := by
  induction owner with
  | nil => rfl
  | cons axis owner ih =>
    cases axis <;> simp [ih] <;> omega

theorem length_zOrder (a b c : Nat) : (zOrder a b c).length = a + b + c := by
  rw [length_eq_counts, count_zOrder, count_zOrder, count_zOrder]
  rfl

theorem xor_ownMask (owner : List Axis) :
    ownMask .x owner ^^^ ownMask .y owner ^^^ ownMask .z owner = 2 ^ owner.length - 1 := by
  induction owner with
  | nil => rfl
  | cons axis owner ih =>
    have hpow : 0 < 2 ^ owner.length := Nat.two_pow_pos _
    simp only [ownMask, Nat.xor_bit, ih, List.length_cons, Nat.pow_succ]
    cases axis <;> simp only [Nat.bit_val] <;> simp <;> omega

/-! ## What the loop over the masks computes -/

structure MaskLoop.Tracks (st : MaskLoop) (owner : List Axis) : Prop where
  mask : ∀ axis, (st.mask axis).toNat = ownMask axis owner
  maskBit : st.maskBit.toNat = 2 ^ owner.length % 2 ^ 32

variable {mask maskBit : UInt32} {owner : List Axis} {axis : Axis} {st : MaskLoop} {n i : Nat}

theorem toNat_or_maskBit
    (hmask : mask.toNat = ownMask axis owner) (hbit : maskBit.toNat = 2 ^ owner.length % 2 ^ 32)
    (hlen : owner.length < 32) :
    (mask ||| maskBit).toNat = ownMask axis (owner ++ [axis]) := by
  have hpow : 2 ^ owner.length < 2 ^ 32 := Nat.pow_lt_pow_right (by decide) hlen
  rw [UInt32.toNat_or, hmask, hbit, Nat.mod_eq_of_lt hpow, ownMask_append, if_pos rfl, Nat.or_comm,
    Nat.add_comm]
  have hor := Nat.two_pow_add_eq_or_of_lt (ownMask_lt axis owner) 1
  rw [Nat.mul_one] at hor
  exact hor.symm

theorem toNat_maskBit_shift (axis : Axis) (hbit : maskBit.toNat = 2 ^ owner.length % 2 ^ 32) :
    (maskBit <<< 1).toNat = 2 ^ (owner ++ [axis]).length % 2 ^ 32 := by
  have hshift : (maskBit <<< 1).toNat = maskBit.toNat * 2 % 2 ^ 32 := by
    simp [UInt32.toNat_shiftLeft, Nat.shiftLeft_eq]
  rw [hshift, hbit, List.length_append, List.length_singleton, Nat.mod_mul_mod]
  rfl

structure MaskLoop.Dealt (axis : Axis) (n i : Nat) (owner : List Axis) (st st' : MaskLoop) : Prop where
  tracks : st'.Tracks (owner ++ if i < n then [axis] else [])
  bit : st'.bit = st.bit
  done : st'.done = (st.done && decide (n ≤ i))

theorem MaskLoop.deal_dealt {size : UInt32}
    (axis : Axis) (h : st.Tracks owner) (hbit : st.bit.toNat = 2 ^ i) (hsize : size.toNat = 2 ^ n)
    (hlen : (owner ++ if i < n then [axis] else []).length ≤ 32) :
    Dealt axis n i owner st (st.deal axis size) := by
  have hlt : st.bit < size ↔ i < n := by
    simp [UInt32.lt_iff_toNat_lt, Nat.pow_lt_pow_iff_right, hbit, hsize]
  unfold MaskLoop.deal
  by_cases hn : i < n
  · rw [if_pos hn, List.length_append] at hlen
    rw [if_pos (hlt.mpr hn)]
    refine ⟨?_, rfl, by simp [hn]⟩
    rw [if_pos hn]
    refine ⟨?_, toNat_maskBit_shift axis h.maskBit⟩
    intro other
    dsimp only
    by_cases hother : other = axis
    · subst hother
      rw [Function.update_self]
      exact toNat_or_maskBit (h.mask other) h.maskBit hlen
    · rw [Function.update_of_ne hother, ownMask_append, if_neg (Ne.symm hother), Nat.add_zero, h.mask]
  · rw [if_neg (mt hlt.mp hn)]
    refine ⟨?_, rfl, ?_⟩
    · rwa [if_neg hn, List.append_nil]
    · rw [decide_eq_true (Nat.le_of_not_lt hn), Bool.and_true]

theorem lt_of_toNat_eq_two_pow {size : UInt32} (h : size.toNat = 2 ^ n) : n < 32 := by
  have hlt := size.toNat_lt
  rw [h] at hlt
  exact (Nat.pow_lt_pow_iff_right (by decide)).mp hlt

section Masks

variable {width height depth : UInt32} {a b c : Nat}

theorem maskRound_tracks (h : st.Tracks owner)
    (hbit : st.bit.toNat = 2 ^ i) (hwidth : width.toNat = 2 ^ a) (hheight : height.toNat = 2 ^ b)
    (hdepth : depth.toNat = 2 ^ c) (hlen : (owner ++ roundOwners a b c i).length ≤ 32) :
    (maskRound width height depth st).Tracks (owner ++ roundOwners a b c i) ∧
      (maskRound width height depth st).bit = st.bit <<< 1 ∧
      (maskRound width height depth st).done = decide (max a (max b c) ≤ i) := by
  have hround : owner ++ roundOwners a b c i = ((owner ++ if i < a then [.x] else []) ++
      if i < b then [.y] else []) ++ if i < c then [.z] else [] := by
    simp only [roundOwners, List.append_assoc]
  rw [hround] at hlen ⊢
  have hleny := Nat.le_trans ((List.sublist_append_left _ _).length_le) hlen
  have hlenx := Nat.le_trans ((List.sublist_append_left _ _).length_le) hleny
  have hstart : ({ st with done := true } : MaskLoop).Tracks owner := ⟨h.mask, h.maskBit⟩
  have hx := MaskLoop.deal_dealt .x hstart hbit hwidth hlenx
  have hbitx := (congrArg UInt32.toNat hx.bit).trans hbit
  have hy := MaskLoop.deal_dealt .y hx.tracks hbitx hheight hleny
  have hbity := (congrArg UInt32.toNat hy.bit).trans hbitx
  have hz := MaskLoop.deal_dealt .z hy.tracks hbity hdepth hlen
  refine ⟨⟨hz.tracks.mask, hz.tracks.maskBit⟩, ?_, ?_⟩
  · simp only [maskRound, hz.bit, hy.bit, hx.bit]
  · simp only [maskRound, hz.done, hy.done, hx.done]
    simp only [Bool.true_and, ← Bool.decide_and, decide_eq_decide]
    omega

theorem maskLoop_tracks (hwidth : width.toNat = 2 ^ a) (hheight : height.toNat = 2 ^ b)
    (hdepth : depth.toNat = 2 ^ c) (hlen : a + b + c ≤ 32) (fuel i : Nat) (st : MaskLoop)
    (hi : i ≤ max a (max b c)) (hfuel : max a (max b c) < fuel + i)
    (h : st.Tracks ((List.range i).flatMap (roundOwners a b c))) (hbit : st.bit.toNat = 2 ^ i) :
    ∃ st', maskLoop width height depth fuel st = some st' ∧ st'.Tracks (zOrder a b c) := by
  induction fuel generalizing i st with
  | zero => omega
  | succ fuel ih =>
    have hrange : (List.range i).flatMap (roundOwners a b c) ++ roundOwners a b c i =
        (List.range (i + 1)).flatMap (roundOwners a b c) := by
      rw [List.range_succ, List.flatMap_append, List.flatMap_singleton]
    have hcount : ((List.range (i + 1)).flatMap (roundOwners a b c)).length ≤ 32 := by
      rw [length_eq_counts, count_rounds, count_rounds, count_rounds]
      simp only [texel]
      omega
    obtain ⟨htracks, hnext, hdone⟩ :=
      maskRound_tracks h hbit hwidth hheight hdepth (hrange ▸ hcount)
    rw [hrange] at htracks
    rw [maskLoop]
    by_cases hend : max a (max b c) ≤ i
    · -- the round that finds nothing to deal
      refine ⟨_, if_pos (by rw [hdone, decide_eq_true hend]), ?_⟩
      have hlast : max a (max b c) = i := Nat.le_antisymm hend hi
      have hempty : roundOwners a b c i = [] := by
        simp only [roundOwners]
        rw [if_neg (by omega), if_neg (by omega), if_neg (by omega)]
        rfl
      rw [← hrange, hempty, List.append_nil, ← hlast] at htracks
      exact htracks
    · rw [if_neg (by rw [hdone, decide_eq_false hend]; decide)]
      apply ih (i + 1) _ (by omega) (by omega) htracks
      have ha := lt_of_toNat_eq_two_pow hwidth
      have hb := lt_of_toNat_eq_two_pow hheight
      have hc := lt_of_toNat_eq_two_pow hdepth
      have hsize : 2 ^ i * 2 < 2 ^ 32 := Nat.pow_lt_pow_right Nat.one_lt_two (by omega : i + 1 < 32)
      rw [hnext]
      simp only [UInt32.toNat_shiftLeft, hbit, Nat.pow_succ]
      simpa [Nat.shiftLeft_eq] using hsize

theorem generateSwizzleMasks_eq (hwidth : width.toNat = 2 ^ a) (hheight : height.toNat = 2 ^ b)
    (hdepth : depth.toNat = 2 ^ c) (hlen : a + b + c ≤ 32) :
    ∃ masks, generateSwizzleMasks width height depth = some masks ∧
      ∀ axis, (masks axis).toNat = ownMask axis (zOrder a b c) := by
  have hstart : (⟨fun _ => 0, 1, 1, false⟩ : MaskLoop).Tracks
      ((List.range 0).flatMap (roundOwners a b c)) := ⟨fun _ => rfl, rfl⟩
  obtain ⟨st, hloop, htracks⟩ := maskLoop_tracks hwidth hheight hdepth hlen 33 0 _ (Nat.zero_le _)
    (by omega) hstart rfl
  -- the assertion: together the masks are one less than the next bit, also when that bit is the 33rd
  have hassert : st.mask .x ^^^ st.mask .y ^^^ st.mask .z = st.maskBit - 1 := by
    apply UInt32.toNat.inj
    have hpow : 0 < 2 ^ (a + b + c) := Nat.two_pow_pos _
    have hle : 2 ^ (a + b + c) ≤ 2 ^ 32 := Nat.pow_le_pow_right Nat.two_pos hlen
    rw [UInt32.toNat_xor, UInt32.toNat_xor, htracks.mask, htracks.mask, htracks.mask, xor_ownMask,
      UInt32.toNat_sub, htracks.maskBit, length_zOrder]
    simp only [UInt32.toNat_one]
    omega
  refine ⟨st.mask, ?_, htracks.mask⟩
  simp only [generateSwizzleMasks, hloop, Option.bind_eq_bind, Option.bind_some, if_pos hassert]

end Masks

theorem iterate_advance
    (hmask : mask.toNat = ownMask axis owner) (hlen : owner.length ≤ 32) (n : Nat) :
    ((advance mask)^[n] 0).toNat = deposit axis owner n := by
  induction n with
  | zero => exact (deposit_zero axis owner).symm
  | succ n ih =>
    have hlt := mask.toNat_lt
    have hbound : (deposit axis owner n + (2 ^ 32 - ownMask axis owner)) &&& ownMask axis owner <
        2 ^ 32 := Nat.lt_of_le_of_lt Nat.and_le_right (hmask ▸ hlt)
    rw [Function.iterate_succ_apply', advance, UInt32.toNat_and, UInt32.toNat_sub, ih, hmask,
      ← deposit_succ axis owner n hlen, Nat.add_comm (2 ^ 32 - ownMask axis owner)]
    -- the subtraction wraps at 32 bits, the mask lies below them
    rw [← Nat.mod_eq_of_lt hbound, Nat.and_mod_two_pow, ← hmask, Nat.mod_eq_of_lt (b := 2 ^ 32) hlt]

def walkedOffset (box : Box) (masks : SwizzleMasks) (x y z : Nat) : Nat :=
  (((advance (masks .y))^[y] 0 + (advance (masks .z))^[z] 0) * box.bytesPerPixel).toNat +
    ((advance (masks .x))^[x] 0 * box.bytesPerPixel).toNat

def boxOffsets (box : Box) (masks : SwizzleMasks) : List (Nat × Nat) :=
  (List.range box.depth.toNat).flatMap fun z => (List.range box.height.toNat).flatMap fun y =>
    (List.range box.width.toNat).map fun x =>
      (walkedOffset box masks x y z, z * box.slicePitch.toNat +
        (UInt32.ofNat y * box.rowPitch).toNat + (UInt32.ofNat x * box.bytesPerPixel).toNat)

theorem iterate_slice (f : UInt32 → UInt32) (pitch n : Nat) :
    (fun st : UInt32 × Nat => (f st.1, st.2 + pitch))^[n] (0, 0) = (f^[n] 0, n * pitch) := by
  induction n with
  | zero => simp
  | succ n ih =>
    rw [Function.iterate_succ_apply', ih, Function.iterate_succ_apply', Nat.succ_mul]

theorem walkBox_eq (box : Box) (masks : SwizzleMasks) (copy : Store → Nat → Nat → Store)
    (dst : Store) :
    walkBox box masks copy dst =
      (boxOffsets box masks).foldl (fun dst offsets => copy dst offsets.1 offsets.2) dst := by
  have hrow : ∀ swizzledTmp linearTmp dst, walkRow box masks copy swizzledTmp linearTmp dst =
      (List.range box.width.toNat).foldl (fun dst x =>
        copy dst (swizzledTmp + ((advance (masks .x))^[x] 0 * box.bytesPerPixel).toNat)
          (linearTmp + (UInt32.ofNat x * box.bytesPerPixel).toNat)) dst := by
    intro swizzledTmp linearTmp dst
    exact congrArg Prod.fst (foldl_range_iterate (fun dst (offX : UInt32) x =>
      copy dst (swizzledTmp + (offX * box.bytesPerPixel).toNat)
        (linearTmp + (UInt32.ofNat x * box.bytesPerPixel).toNat)) (advance (masks .x)) dst 0 _)
  have hslice : ∀ offZ linear dst, walkSlice box masks copy offZ linear dst =
      (List.range box.height.toNat).foldl (fun dst y =>
        walkRow box masks copy (((advance (masks .y))^[y] 0 + offZ) * box.bytesPerPixel).toNat
          (linear + (UInt32.ofNat y * box.rowPitch).toNat) dst) dst := by
    intro offZ linear dst
    exact congrArg Prod.fst (foldl_range_iterate (fun dst (offY : UInt32) y =>
      walkRow box masks copy ((offY + offZ) * box.bytesPerPixel).toNat
        (linear + (UInt32.ofNat y * box.rowPitch).toNat) dst) (advance (masks .y)) dst 0 _)
  have hbox : walkBox box masks copy dst = (List.range box.depth.toNat).foldl (fun dst z =>
      walkSlice box masks copy ((advance (masks .z))^[z] 0) (z * box.slicePitch.toNat) dst) dst := by
    refine (congrArg Prod.fst (foldl_range_iterate (fun dst (st : UInt32 × Nat) _ =>
      walkSlice box masks copy st.1 st.2 dst)
      (fun st => (advance (masks .z) st.1, st.2 + box.slicePitch.toNat)) dst (0, 0) _)).trans ?_
    simp only [iterate_slice]
  rw [hbox, boxOffsets]
  simp only [List.foldl_flatMap, List.foldl_map, hslice, hrow, walkedOffset]

/-! ## Boxes the loops can address -/

structure Box.Regular (box : Box) (a b c : Nat) : Prop where
  width : box.width.toNat = 2 ^ a
  height : box.height.toNat = 2 ^ b
  depth : box.depth.toNat = 2 ^ c
  row : box.width.toNat * box.bytesPerPixel.toNat ≤ box.rowPitch.toNat
  slice : box.height.toNat * box.rowPitch.toNat ≤ box.slicePitch.toNat

structure Box.Addressable (box : Box) : Prop where
  texels : box.width.toNat * box.height.toNat * box.depth.toNat ≤ 2 ^ 32
  bytes : box.width.toNat * box.height.toNat * box.depth.toNat * box.bytesPerPixel.toNat ≤ 2 ^ 32

def Box.texels (box : Box) : Set (Nat × Nat × Nat) :=
  {t | t.1 < box.width.toNat ∧ t.2.1 < box.height.toNat ∧ t.2.2 < box.depth.toNat}

def Box.linearOffset (box : Box) (x y z : Nat) : Nat :=
  z * box.slicePitch.toNat + y * box.rowPitch.toNat + x * box.bytesPerPixel.toNat

section Regular

variable {box : Box} {a b c : Nat}

theorem Box.Regular.size (h : box.Regular a b c) :
    box.width.toNat * box.height.toNat * box.depth.toNat = 2 ^ (zOrder a b c).length := by
  rw [h.width, h.height, h.depth, length_zOrder, Nat.pow_add, Nat.pow_add]

theorem Box.Regular.length_le (h : box.Regular a b c) (hbox : box.Addressable) :
    (zOrder a b c).length ≤ 32 := by
  have hsize := hbox.texels
  rw [h.size] at hsize
  exact (Nat.pow_le_pow_iff_right Nat.one_lt_two).mp hsize

/-- **The swizzled offset is a bijection** from the texels of the box. -/
theorem Box.Regular.bijOn (h : box.Regular a b c) :
    Set.BijOn (fun t : Nat × Nat × Nat => swizzledOffset a b c t.1 t.2.1 t.2.2) box.texels
      (Set.Iio (box.width.toNat * box.height.toNat * box.depth.toNat)) := by
  have htexel : Set.BijOn (fun t : Nat × Nat × Nat => texel t.1 t.2.1 t.2.2) box.texels
      {f | ∀ axis, f axis < 2 ^ (zOrder a b c).count axis} := by
    refine ⟨?_, ?_, ?_⟩
    · intro t ht axis
      rw [count_zOrder]
      cases axis with
      | x => exact h.width ▸ ht.1
      | y => exact h.height ▸ ht.2.1
      | z => exact h.depth ▸ ht.2.2
    · intro t _ t' _ heq
      exact Prod.ext (congrFun heq .x) (Prod.ext (congrFun heq .y) (congrFun heq .z))
    · intro f hf
      simp only [Set.mem_ofPred_eq, count_zOrder] at hf
      refine ⟨(f .x, f .y, f .z), ⟨?_, ?_, ?_⟩, ?_⟩
      · rw [h.width]
        exact hf .x
      · rw [h.height]
        exact hf .y
      · rw [h.depth]
        exact hf .z
      · funext axis
        cases axis <;> rfl
  rw [h.size]
  exact (bijOn_interleave (zOrder a b c)).comp htexel

theorem swizzledOffset_eq (x y z : Nat) :
    swizzledOffset a b c x y z = deposit .y (zOrder a b c) y + deposit .z (zOrder a b c) z +
      deposit .x (zOrder a b c) x := by
  rw [swizzledOffset, interleave_eq_sum]
  change ∑ axis ∈ ({.x, .y, .z} : Finset Axis), _ = _
  grind [Finset.sum_insert, texel]

theorem mul_lt_of_lt_of_mul_le {n m k l : Nat} (hn : n < m) (h : m * k ≤ l) (hl : 0 < l) :
    n * k < l := by
  rcases Nat.eq_zero_or_pos k with hk | hk
  · subst hk
    exact hl
  · exact Nat.lt_of_lt_of_le (Nat.mul_lt_mul_of_pos_right hn hk) h

theorem boxOffsets_eq (h : box.Regular a b c) (masks : SwizzleMasks) :
    boxOffsets box masks =
      (List.range box.depth.toNat).flatMap fun z => (List.range box.height.toNat).flatMap fun y =>
        (List.range box.width.toNat).map fun x =>
          (walkedOffset box masks x y z, box.linearOffset x y z) := by
  refine List.flatMap_congr fun z _ => List.flatMap_congr fun y hy => List.map_congr_left fun x hx => ?_
  rw [List.mem_range] at hx hy
  have hmulx : x * box.bytesPerPixel.toNat < 2 ^ 32 :=
    Nat.lt_of_le_of_lt (Nat.mul_le_mul_right _ (Nat.le_of_lt hx))
      (Nat.lt_of_le_of_lt h.row box.rowPitch.toNat_lt)
  have hmuly : y * box.rowPitch.toNat < 2 ^ 32 :=
    Nat.lt_of_le_of_lt (Nat.mul_le_mul_right _ (Nat.le_of_lt hy))
      (Nat.lt_of_le_of_lt h.slice box.slicePitch.toNat_lt)
  have hx32 := Nat.lt_trans hx box.width.toNat_lt
  have hy32 := Nat.lt_trans hy box.height.toNat_lt
  simp only [UInt32.toNat_mul, UInt32.toNat_ofNat', Box.linearOffset]
  rw [Nat.mod_eq_of_lt hx32, Nat.mod_eq_of_lt hy32, Nat.mod_eq_of_lt hmulx, Nat.mod_eq_of_lt hmuly]

theorem walkedOffset_eq (h : box.Regular a b c) (hbox : box.Addressable) {masks : SwizzleMasks}
    (hmasks : ∀ axis, (masks axis).toNat = ownMask axis (zOrder a b c)) (x y z : Nat) :
    walkedOffset box masks x y z = swizzledOffset a b c x y z * box.bytesPerPixel.toNat := by
  have hlen := h.length_le hbox
  have hoffset : swizzledOffset a b c x y z < 2 ^ (zOrder a b c).length := interleave_lt _ _
  have hbytes := hbox.bytes
  rw [h.size] at hbytes
  have hproduct := mul_lt_of_lt_of_mul_le hoffset hbytes (by decide)
  have hfit := Nat.lt_of_lt_of_le hoffset (Nat.pow_le_pow_right Nat.two_pos hlen)
  rw [swizzledOffset_eq] at hproduct hfit
  rw [Nat.add_mul] at hproduct
  simp only [walkedOffset, UInt32.toNat_mul, UInt32.toNat_add, iterate_advance (hmasks _) hlen]
  rw [Nat.mod_eq_of_lt (Nat.lt_of_le_of_lt (Nat.le_add_right _ _) hfit),
    Nat.mod_eq_of_lt (Nat.lt_of_le_of_lt (Nat.le_add_right _ _) hproduct),
    Nat.mod_eq_of_lt (Nat.lt_of_le_of_lt (Nat.le_add_left _ _) hproduct), swizzledOffset_eq,
    ← Nat.add_mul]

theorem mem_offsets {n m k : Nat} {f : Nat → Nat → Nat → Nat × Nat} {p : Nat × Nat} :
    p ∈ ((List.range n).flatMap fun z => (List.range m).flatMap fun y =>
      (List.range k).map fun x => f x y z) ↔ ∃ x < k, ∃ y < m, ∃ z < n, f x y z = p := by
  simp only [List.mem_flatMap, List.mem_map, List.mem_range]
  grind

theorem block_inj {q q' r r' m : Nat} (hr : r < m) (hr' : r' < m) (h : q * m + r = q' * m + r') :
    q = q' ∧ r = r' := by
  have hm : 0 < m := Nat.zero_lt_of_lt hr
  have hq : q = q' := by
    have := congrArg (· / m) h
    simpa only [Nat.mul_comm _ m, Nat.mul_add_div hm, Nat.div_eq_of_lt hr, Nat.div_eq_of_lt hr',
      Nat.add_zero] using this
  subst hq
  exact ⟨rfl, Nat.add_left_cancel h⟩

section

variable (h : box.Regular a b c)

include h

variable {t u : Nat × Nat × Nat}

section

variable {i j : Nat} (ht : t ∈ box.texels) (hu : u ∈ box.texels) (hi : i < box.bytesPerPixel.toNat)
  (hj : j < box.bytesPerPixel.toNat)

include ht hu hi hj

theorem Box.Regular.swizzled_inj
    (heq : swizzledOffset a b c t.1 t.2.1 t.2.2 * box.bytesPerPixel.toNat + i =
      swizzledOffset a b c u.1 u.2.1 u.2.2 * box.bytesPerPixel.toNat + j) : t = u ∧ i = j := by
  obtain ⟨hoffset, hij⟩ := block_inj hi hj heq
  exact ⟨h.bijOn.injOn ht hu hoffset, hij⟩

theorem Box.Regular.linear_inj
    (heq : box.linearOffset t.1 t.2.1 t.2.2 + i = box.linearOffset u.1 u.2.1 u.2.2 + j) :
    t = u ∧ i = j := by
  have hrow : ∀ {t : Nat × Nat × Nat} {i : Nat}, t ∈ box.texels → i < box.bytesPerPixel.toNat →
      t.1 * box.bytesPerPixel.toNat + i < box.rowPitch.toNat := by
    intro t i ht hi
    have hx := Nat.mul_le_mul_right box.bytesPerPixel.toNat (Nat.succ_le_of_lt ht.1)
    rw [Nat.succ_mul] at hx
    exact Nat.lt_of_lt_of_le (by omega) h.row
  have hslice : ∀ {t : Nat × Nat × Nat} {i : Nat}, t ∈ box.texels → i < box.bytesPerPixel.toNat →
      t.2.1 * box.rowPitch.toNat + (t.1 * box.bytesPerPixel.toNat + i) < box.slicePitch.toNat := by
    intro t i ht hi
    have hy := Nat.mul_le_mul_right box.rowPitch.toNat (Nat.succ_le_of_lt ht.2.1)
    have hlt := hrow ht hi
    rw [Nat.succ_mul] at hy
    exact Nat.lt_of_lt_of_le (by omega) h.slice
  simp only [Box.linearOffset, Nat.add_assoc] at heq
  obtain ⟨hz, hrest⟩ := block_inj (hslice ht hi) (hslice hu hj) heq
  obtain ⟨hy, hrest⟩ := block_inj (hrow ht hi) (hrow hu hj) hrest
  obtain ⟨hx, hij⟩ := block_inj hi hj hrest
  exact ⟨Prod.ext hx (Prod.ext hy hz), hij⟩

end

theorem swizzleBox_eq (hbox : box.Addressable) (src dst : Store) :
    ∃ packed, swizzleBox src box dst = some packed ∧
      ∀ t ∈ box.texels, ∀ i < box.bytesPerPixel.toNat,
        packed (swizzledOffset a b c t.1 t.2.1 t.2.2 * box.bytesPerPixel.toNat + i) =
          src (box.linearOffset t.1 t.2.1 t.2.2 + i) := by
  obtain ⟨masks, hgen, hmasks⟩ := generateSwizzleMasks_eq h.width h.height h.depth
    (length_zOrder a b c ▸ h.length_le hbox)
  refine ⟨_, by rw [swizzleBox, hgen]; rfl, ?_⟩
  rw [walkBox_eq, boxOffsets_eq h]
  simp only [walkedOffset_eq h hbox hmasks]
  intro t ht i hi
  refine src.copyAll_inside box.bytesPerPixel.toNat _ dst ?_
    (p := (swizzledOffset a b c t.1 t.2.1 t.2.2 * box.bytesPerPixel.toNat, _))
    (mem_offsets.mpr ⟨t.1, ht.1, t.2.1, ht.2.1, t.2.2, ht.2.2, rfl⟩) hi
  intro p hp q hq i hi j hj heq
  obtain ⟨x, hx, y, hy, z, hz, rfl⟩ := mem_offsets.mp hp
  obtain ⟨x', hx', y', hy', z', hz', rfl⟩ := mem_offsets.mp hq
  obtain ⟨htexel, rfl⟩ := h.swizzled_inj (t := (x, y, z)) (u := (x', y', z')) ⟨hx, hy, hz⟩
    ⟨hx', hy', hz'⟩ hi hj heq
  obtain ⟨rfl, rfl, rfl⟩ := htexel
  rfl

theorem unswizzleBox_walked {masks : SwizzleMasks}
    (hgen : generateSwizzleMasks box.width box.height box.depth = some masks) (src dst : Store) :
    ∃ rows, unswizzleBox src box dst = some rows ∧
      ∀ t ∈ box.texels, ∀ i < box.bytesPerPixel.toNat,
        rows (box.linearOffset t.1 t.2.1 t.2.2 + i) =
          src (walkedOffset box masks t.1 t.2.1 t.2.2 + i) := by
  refine ⟨_, by rw [unswizzleBox, hgen]; rfl, ?_⟩
  rw [walkBox_eq, boxOffsets_eq h]
  intro t ht i hi
  have hswap : ∀ (offsets : List (Nat × Nat)) (dst : Store),
      offsets.foldl (fun dst p => dst.copy p.2 src p.1 box.bytesPerPixel.toNat) dst =
        src.copyAll box.bytesPerPixel.toNat (offsets.map Prod.swap) dst := by
    simp [Store.copyAll, List.foldl_map]
  rw [hswap]
  simp only [List.map_flatMap, List.map_map, Function.comp_def, Prod.swap_prod_mk]
  refine src.copyAll_inside box.bytesPerPixel.toNat _ dst ?_
    (p := (box.linearOffset t.1 t.2.1 t.2.2, _))
    (mem_offsets.mpr ⟨t.1, ht.1, t.2.1, ht.2.1, t.2.2, ht.2.2, rfl⟩) hi
  intro p hp q hq i hi j hj heq
  obtain ⟨x, hx, y, hy, z, hz, rfl⟩ := mem_offsets.mp hp
  obtain ⟨x', hx', y', hy', z', hz', rfl⟩ := mem_offsets.mp hq
  obtain ⟨htexel, rfl⟩ := h.linear_inj (t := (x, y, z)) (u := (x', y', z')) ⟨hx, hy, hz⟩
    ⟨hx', hy', hz'⟩ hi hj heq
  obtain ⟨rfl, rfl, rfl⟩ := htexel
  rfl

theorem unswizzleBox_eq (hbox : box.Addressable) (src dst : Store) :
    ∃ rows, unswizzleBox src box dst = some rows ∧
      ∀ t ∈ box.texels, ∀ i < box.bytesPerPixel.toNat,
        rows (box.linearOffset t.1 t.2.1 t.2.2 + i) =
          src (swizzledOffset a b c t.1 t.2.1 t.2.2 * box.bytesPerPixel.toNat + i) := by
  obtain ⟨masks, hgen, hmasks⟩ := generateSwizzleMasks_eq h.width h.height h.depth
    (length_zOrder a b c ▸ h.length_le hbox)
  obtain ⟨rows, hrows, hmoved⟩ := unswizzleBox_walked h hgen src dst
  grind [walkedOffset_eq]

end

end Regular

/-- **Swizzling and unswizzling are inverse**: the interleaved offset is a bijection from the box,
`swizzle_box` and `unswizzle_box` move every texel along it, and either one undoes the other. -/
theorem swizzleBox_unswizzleBox (box : Box) (a b c : Nat) (h : box.Regular a b c)
    (hbox : box.Addressable) :
    Set.BijOn (fun t : Nat × Nat × Nat => swizzledOffset a b c t.1 t.2.1 t.2.2) box.texels
      (Set.Iio (box.width.toNat * box.height.toNat * box.depth.toNat)) ∧
    (∀ src dst, ∃ packed, swizzleBox src box dst = some packed ∧
      (∀ t ∈ box.texels, ∀ i < box.bytesPerPixel.toNat,
        packed (swizzledOffset a b c t.1 t.2.1 t.2.2 * box.bytesPerPixel.toNat + i) =
          src (box.linearOffset t.1 t.2.1 t.2.2 + i)) ∧
      ∀ dst', ∃ rows, unswizzleBox packed box dst' = some rows ∧
        ∀ t ∈ box.texels, ∀ i < box.bytesPerPixel.toNat,
          rows (box.linearOffset t.1 t.2.1 t.2.2 + i) = src (box.linearOffset t.1 t.2.1 t.2.2 + i)) ∧
    ∀ packed dst, ∃ rows, unswizzleBox packed box dst = some rows ∧
      ∀ dst', ∃ packed', swizzleBox rows box dst' = some packed' ∧
        ∀ n < box.width.toNat * box.height.toNat * box.depth.toNat * box.bytesPerPixel.toNat,
          packed' n = packed n := by
  refine ⟨h.bijOn, ?_, ?_⟩
  · intro src dst
    obtain ⟨packed, hpacked, hmoved⟩ := swizzleBox_eq h hbox src dst
    refine ⟨packed, hpacked, hmoved, ?_⟩
    intro dst'
    obtain ⟨rows, hrows, hback⟩ := unswizzleBox_eq h hbox packed dst'
    refine ⟨rows, hrows, ?_⟩
    intro t ht i hi
    rw [hback t ht i hi, hmoved t ht i hi]
  · intro packed dst
    obtain ⟨rows, hrows, hmoved⟩ := unswizzleBox_eq h hbox packed dst
    refine ⟨rows, hrows, ?_⟩
    intro dst'
    obtain ⟨packed', hpacked, hback⟩ := swizzleBox_eq h hbox rows dst'
    refine ⟨packed', hpacked, ?_⟩
    intro n hn
    -- every byte of the packed box belongs to the texel its offset comes from
    have hbytes : 0 < box.bytesPerPixel.toNat := Nat.pos_of_mul_pos_left (Nat.zero_lt_of_lt hn)
    obtain ⟨t, ht, hoffset⟩ := h.bijOn.surjOn (Nat.div_lt_of_lt_mul (Nat.mul_comm _ _ ▸ hn) :
      n / box.bytesPerPixel.toNat < _)
    have hi := Nat.mod_lt n hbytes
    have hsplit : n = swizzledOffset a b c t.1 t.2.1 t.2.2 * box.bytesPerPixel.toNat +
        n % box.bytesPerPixel.toNat := by
      rw [show swizzledOffset a b c t.1 t.2.1 t.2.2 = n / box.bytesPerPixel.toNat from hoffset,
        Nat.div_add_mod']
    rw [hsplit, hback t ht _ hi, hmoved t ht _ hi]

theorem swizzleBox_unswizzleBox_small :
    (⟨8, 32, 1, 32, 1024, 4⟩ : Box).Regular 3 5 0 ∧ (⟨8, 32, 1, 32, 1024, 4⟩ : Box).Addressable ∧
      ∀ packed dst, ∃ rows, unswizzleBox packed ⟨8, 32, 1, 32, 1024, 4⟩ dst = some rows ∧
        ∀ dst', ∃ packed', swizzleBox rows ⟨8, 32, 1, 32, 1024, 4⟩ dst' = some packed' ∧
          ∀ n < 1024, packed' n = packed n := by
  have hregular : (⟨8, 32, 1, 32, 1024, 4⟩ : Box).Regular 3 5 0 :=
    ⟨rfl, rfl, rfl, by decide, by decide⟩
  have hbox : (⟨8, 32, 1, 32, 1024, 4⟩ : Box).Addressable := ⟨by decide, by decide⟩
  exact ⟨hregular, hbox, (swizzleBox_unswizzleBox _ 3 5 0 hregular hbox).2.2⟩

/-- A box of `2 ^ 33` texels: its last position does not fit into 32 bits, so that the slices 0 and
1024 are walked at the same offsets, and unswizzling what was swizzled loses one of them. -/
theorem swizzleBox_wraps :
    ∃ (box : Box) (src dst packed rows : Store), box.Regular 11 11 11 ∧
      swizzleBox src box dst = some packed ∧ unswizzleBox packed box dst = some rows ∧
      ∃ t ∈ box.texels, ∃ i < box.bytesPerPixel.toNat,
        rows (box.linearOffset t.1 t.2.1 t.2.2 + i) ≠ src (box.linearOffset t.1 t.2.1 t.2.2 + i) := by
  let box : Box := ⟨2048, 2048, 2048, 2048, 4194304, 1⟩
  have hregular : box.Regular 11 11 11 := ⟨rfl, rfl, rfl, by decide, by decide⟩
  obtain ⟨masks, hgen, hmaskZ⟩ : ∃ masks, generateSwizzleMasks 2048 2048 2048 = some masks ∧
      (masks .z).toNat = ownMask .z (zOrder 11 11 10) := by
    have hsome : (generateSwizzleMasks 2048 2048 2048).map (fun masks => (masks .z).toNat) =
        some (ownMask .z (zOrder 11 11 10)) := by decide +kernel
    exact Option.map_eq_some_iff.mp hsome
  have hslice : (advance (masks .z))^[1024] 0 = 0 := by
    apply UInt32.toNat.inj
    rw [iterate_advance hmaskZ (by decide +kernel)]
    decide +kernel
  have hsame : walkedOffset box masks 0 0 1024 = walkedOffset box masks 0 0 0 := by
    simp only [walkedOffset, hslice, Function.iterate_zero, id]
  -- the two slices hold different bytes before, and the same byte after
  let src : Store := fun n => if n < 4194304 then 0 else 1
  let packed := walkBox box masks (fun dst swizzled linear => dst.copy swizzled src linear 1) src
  have hpacked : swizzleBox src box src = some packed := by
    rw [swizzleBox, show generateSwizzleMasks box.width box.height box.depth = some masks from hgen]
    rfl
  obtain ⟨rows, hrows, hmoved⟩ := unswizzleBox_walked hregular hgen packed src
  refine ⟨box, src, src, packed, rows, hregular, hpacked, hrows, ?_⟩
  have hlow : (0, 0, 0) ∈ box.texels := ⟨by decide, by decide, by decide⟩
  have hhigh : (0, 0, 1024) ∈ box.texels := ⟨by decide, by decide, by decide⟩
  have heq : rows (box.linearOffset 0 0 0 + 0) = rows (box.linearOffset 0 0 1024 + 0) := by
    rw [hmoved _ hlow 0 (by decide), hmoved _ hhigh 0 (by decide), hsame]
  by_cases hzero : rows (box.linearOffset 0 0 0 + 0) = 0
  · refine ⟨_, hhigh, 0, by decide, ?_⟩
    rw [← heq, hzero]
    decide +kernel
  · exact ⟨_, hlow, 0, by decide, hzero⟩

end DukeX.Nv2a
