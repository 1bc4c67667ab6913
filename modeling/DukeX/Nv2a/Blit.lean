import DukeX.Lib.Copy
import DukeX.Nv2a.SurfaceRuns

/-!
# Image blits

`pgraph_vk_image_blit` copies a rectangle inside VRAM.
-/

namespace DukeX.Nv2a.Vk

open DukeX.Lib

inductive BlitFormat where
  | y8 | r5g6b5 | x8r8g8b8Z8r8g8b8 | x8r8g8b8 | a8r8g8b8 | y32
  deriving DecidableEq

def BlitFormat.bytesPerPixel : BlitFormat → Nat
  | y8 => 1
  | r5g6b5 => 2
  | _ => 4

def BlitFormat.alphaOverride : BlitFormat → Option UInt8
  | x8r8g8b8 => some 0xff
  | x8r8g8b8Z8r8g8b8 => some 0
  | _ => none

inductive BlitOperation where
  | srccopy
  | blendAnd (beta : Nat)
  deriving DecidableEq

structure ContextSurfaces2D where
  objectInstance : Nat
  dmaImageSource : Nat
  dmaImageDest : Nat
  colorFormat : BlitFormat
  sourcePitch : Nat
  destPitch : Nat
  sourceOffset : Nat
  destOffset : Nat

structure ImageBlit where
  contextSurfaces : Nat
  operation : BlitOperation
  inX : Nat
  inY : Nat
  outX : Nat
  outY : Nat
  width : Nat
  height : Nat

structure GpuTile where
  valid : Bool
  limit : Nat

def nvClipGpuTileBlit (tiles : List GpuTile) (blitBaseAddress len : Nat) : Nat :=
  match tiles.find? fun tile =>
      tile.valid && decide (blitBaseAddress < tile.limit) && decide (blitBaseAddress + len > tile.limit) with
  | some tile => ((tile.limit + 1) % 2 ^ 32 + 2 ^ 64 - blitBaseAddress) % 2 ^ 64
  | none => len

/-! ## What the blit computes from it -/

structure Blit extends ImageBlit where
  colorFormat : BlitFormat
  sourcePitch : Nat
  destPitch : Nat
  sourceAddr : Nat
  destAddr : Nat
  tiles : List GpuTile

namespace Blit

variable (b : Blit)

def bytesPerPixel : Nat := b.colorFormat.bytesPerPixel

def sourceOffset : Nat := (b.inY * b.sourcePitch + b.inX * b.bytesPerPixel) % 2 ^ 32

def destOffset : Nat := (b.outY * b.destPitch + b.outX * b.bytesPerPixel) % 2 ^ 32

def maxRowPixels : Nat := min b.sourcePitch b.destPitch / b.bytesPerPixel

def rowPixels : Nat := min b.maxRowPixels b.width

def rowBytes : Nat := b.rowPixels * b.bytesPerPixel

def destSize : Nat := ((b.height + 2 ^ 32 - 1) * b.destPitch + b.width * b.bytesPerPixel) % 2 ^ 32

def sourceRow : Nat := b.sourceAddr + b.sourceOffset

def destRow : Nat := b.destAddr + b.destOffset

def clippedDestSize : Nat := nvClipGpuTileBlit b.tiles b.destRow b.destSize

def adjustedHeight : Nat :=
  if b.clippedDestSize < b.destSize then b.clippedDestSize / b.destPitch else b.height

def leftoverBytes : Nat :=
  if b.clippedDestSize < b.destSize then b.clippedDestSize - b.adjustedHeight * b.destPitch else 0

end Blit

def nvDmaMap (st : SurfaceState) (vramSize dmaObjAddress : Nat) : SurfaceM (Nat × Nat) :=
  match st.ramin dmaObjAddress with
  | some dma =>
    if dma.address % 2 ^ 27 < vramSize then .ok (dma.address % 2 ^ 27, dma.limit)
    else .error .unsupported
  | none => .error .unsupported

def locateBlit (st : SurfaceState) (vramSize : Nat) (contextSurfaces : ContextSurfaces2D)
    (imageBlit : ImageBlit) (tiles : List GpuTile) : SurfaceM Blit := do
  SurfaceM.assert (contextSurfaces.objectInstance = imageBlit.contextSurfaces) .unsupported
  let source ← nvDmaMap st vramSize contextSurfaces.dmaImageSource
  SurfaceM.assert (contextSurfaces.sourceOffset < source.2) .unsupported
  let dest ← nvDmaMap st vramSize contextSurfaces.dmaImageDest
  SurfaceM.assert (contextSurfaces.destOffset < dest.2) .unsupported
  .ok
    { imageBlit with
      colorFormat := contextSurfaces.colorFormat
      sourcePitch := contextSurfaces.sourcePitch
      destPitch := contextSurfaces.destPitch
      sourceAddr := source.1 + contextSurfaces.sourceOffset
      destAddr := dest.1 + contextSurfaces.destOffset
      tiles := tiles }

def fetchSource (st : SurfaceState) (b : Blit) : SurfaceState :=
  match surfaceGet st b.sourceAddr with
  | some surfSrc => surfaceDownloadIfDirty st surfSrc
  | none => st

/-- The surface that begins where the destination does. -/
def prepareDest (st : SurfaceState) (b : Blit) : SurfaceState :=
  match surfaceGet st b.destAddr with
  | some surfDest =>
    let st :=
      if b.adjustedHeight < surfDest.height ∨ b.rowPixels < surfDest.width then
        surfaceDownloadIfDirty st surfDest
      else st.onSurface surfDest.id fun s => { s with downloadPending := false, drawDirty := false }
    st.onSurface surfDest.id fun s => { s with uploadPending := true }
  | none => st

def blitSurfaces (st : SurfaceState) (b : Blit) : SurfaceState := prepareDest (fetchSource st b) b

/-! ## Bytes -/

def SurfaceBinding.covers (s : SurfaceBinding) (a : Nat) : Bool :=
  decide (s.vramAddr ≤ a) && decide (a < s.vramAddr + s.size) &&
    if s.swizzle then decide (a - s.vramAddr < s.width * s.height * s.bytesPerPixel)
    else decide ((a - s.vramAddr) / s.pitch < s.height) && decide (0 < s.pitch) &&
      decide ((a - s.vramAddr) % s.pitch < s.width * s.bytesPerPixel)

def inDirtyRange (addr size page : Nat) : Bool :=
  decide (addr / 2 ^ 12 ≤ page) && decide (page * 2 ^ 12 < addr + size)

structure Contents where
  vram : Store
  image : Nat → Store
  dirty : Nat → Bool

def Contents.setClientDirty (c : Contents) (addr size : Nat) : Contents :=
  { c with dirty := fun page => c.dirty page || inDirtyRange addr size page }

def Contents.transfer (c : Contents) : Transfer → Contents
  | .download s =>
    { c with vram := fun a => if s.covers a then c.image s.id a else c.vram a }.setClientDirty
      s.vramAddr (s.pitch * s.height % 2 ^ 32)
  | .upload s =>
    { c with image := Function.update c.image s.id fun a =>
        if s.covers a then c.vram a else c.image s.id a }

def guestView (st : SurfaceState) (c : Contents) (a : Nat) : UInt8 :=
  match st.surfaces.find? fun s => s.drawDirty && s.covers a with
  | some s => c.image s.id a
  | none => c.vram a

def blendByte (beta : Nat) (source dest : UInt8) : UInt8 :=
  let maxBetaMult := 0x7f80
  let betaMult := beta / 2 ^ 16
  let invBetaMult := (maxBetaMult + 2 ^ 32 - betaMult) % 2 ^ 32
  .ofNat ((source.toNat * betaMult + dest.toNat * invBetaMult) % 2 ^ 32 / maxBetaMult)

def blendRow (beta : Nat) (vram : Store) (source dest width : Nat) : Store :=
  (List.range width).foldl (fun vram x =>
    (List.range 3).foldl (fun vram ch =>
      vram.write (dest + x * 4 + ch)
        [blendByte beta (vram (source + x * 4 + ch)) (vram (dest + x * 4 + ch))]) vram) vram

def performBlit (operation : BlitOperation) (vram : Store)
    (source dest width height widthBytes sourcePitch destPitch : Nat) : Store :=
  (List.range height).foldl (fun vram y =>
    match operation with
    | .srccopy => vram.copy (dest + y * destPitch) vram (source + y * sourcePitch) widthBytes
    | .blendAnd beta => blendRow beta vram (source + y * sourcePitch) (dest + y * destPitch) width) vram

def patchAlpha (vram : Store) (dest widthPixels height destPitch : Nat) (alphaVal : UInt8) : Store :=
  (List.range height).foldl (fun vram y =>
    (List.range widthPixels).foldl (fun vram x =>
      vram.write (dest + y * destPitch + (x * 4 + 3)) [alphaVal]) vram) vram

def blitRows (vram : Store) (b : Blit) : Store :=
  let vram := performBlit b.operation vram b.sourceRow b.destRow b.rowPixels b.adjustedHeight b.rowBytes
    b.sourcePitch b.destPitch
  if b.leftoverBytes > 0 then
    performBlit b.operation vram (b.sourceRow + b.adjustedHeight * b.sourcePitch)
      (b.destRow + b.adjustedHeight * b.destPitch) (b.leftoverBytes / b.bytesPerPixel) 1 b.leftoverBytes
      b.sourcePitch b.destPitch
  else vram

def patchRows (vram : Store) (b : Blit) (alphaOverride : UInt8) : Store :=
  let vram := patchAlpha vram b.destRow b.rowPixels b.adjustedHeight b.destPitch alphaOverride
  if b.leftoverBytes > 0 then
    patchAlpha vram (b.destRow + b.adjustedHeight * b.destPitch) (b.leftoverBytes / 4) 1 0 alphaOverride
  else vram

def blitVram (vram : Store) (b : Blit) : Store :=
  match b.colorFormat.alphaOverride with
  | some alphaOverride => patchRows (blitRows vram b) b alphaOverride
  | none => blitRows vram b

def transfersSince (st st' : SurfaceState) : List Transfer :=
  st'.transfers.drop st.transfers.length

def blitContents (c : Contents) (transfers : List Transfer) (b : Blit) : Contents :=
  let c := transfers.foldl Contents.transfer c
  { c with vram := blitVram c.vram b }.setClientDirty b.destRow b.clippedDestSize

def imageBlit (tcgEnabled : Bool) (st : SurfaceState) (c : Contents) (vramSize : Nat)
    (contextSurfaces : ContextSurfaces2D) (imageBlit : ImageBlit) (tiles : List GpuTile)
    (memDirty : Bool → Bool) : SurfaceM (SurfaceState × Contents) := do
  let st₁ ← surfaceUpdate tcgEnabled st false (fun _ => true) memDirty
  let b ← locateBlit st₁ vramSize contextSurfaces imageBlit tiles
  let st₂ := blitSurfaces st₁ b
  .ok (st₂, blitContents c (transfersSince st st₂) b)

/-! ## The rectangles -/

namespace Blit

def sourceAt (b : Blit) (y j : Nat) : Nat :=
  b.sourceAddr + ((b.inY + y) * b.sourcePitch + b.inX * b.bytesPerPixel + j)

def destAt (b : Blit) (y j : Nat) : Nat :=
  b.destAddr + ((b.outY + y) * b.destPitch + b.outX * b.bytesPerPixel + j)

def rowLength (b : Blit) : Nat := b.width * b.bytesPerPixel

/-- Rectangles that are not empty, with rows that fit their pitches, apart from each other and inside
VRAM. -/
structure Proper (b : Blit) (vramSize : Nat) : Prop where
  width : 0 < b.width
  height : 0 < b.height
  sourcePitch : b.rowLength ≤ b.sourcePitch
  destPitch : b.rowLength ≤ b.destPitch
  source : ∀ y < b.height, ∀ j < b.rowLength, b.sourceAt y j < vramSize
  dest : ∀ y < b.height, ∀ j < b.rowLength, b.destAt y j < vramSize
  apart : ∀ y < b.height, ∀ j < b.rowLength, ∀ y' < b.height, ∀ j' < b.rowLength,
    b.sourceAt y j ≠ b.destAt y' j'

def Below (b : Blit) (y j : Nat) : Prop :=
  y < b.height ∧ j < b.rowLength ∧ y * b.destPitch + j < b.clippedDestSize

def alphaAt (b : Blit) (j : Nat) : Option UInt8 :=
  if j % 4 = 3 then b.colorFormat.alphaOverride else none

theorem bytesPerPixel_pos (b : Blit) : 0 < b.bytesPerPixel := by
  rw [bytesPerPixel]
  cases b.colorFormat with
  | _ => decide

theorem nvClip_bounds (tiles : List GpuTile) {base len : Nat} (hpos : 0 < len)
    (hend : base + len < 2 ^ 32) :
    0 < nvClipGpuTileBlit tiles base len ∧ nvClipGpuTileBlit tiles base len ≤ len := by
  rw [nvClipGpuTileBlit]
  split
  case h_1 tile hfound =>
    have hfits := List.find?_some hfound
    simp only [Bool.and_eq_true, decide_eq_true_eq] at hfits
    omega
  case h_2 => exact ⟨hpos, le_rfl⟩

section

variable {b : Blit} {vramSize : Nat}

section

variable (h : b.Proper vramSize)

include h

theorem Proper.rowLength_pos : 0 < b.rowLength :=
  Nat.mul_pos h.width b.bytesPerPixel_pos

theorem Proper.destPitch_pos : 0 < b.destPitch :=
  h.rowLength_pos.trans_le h.destPitch

theorem Proper.rowPixels_eq : b.rowPixels = b.width := by
  rw [rowPixels, maxRowPixels]
  apply min_eq_right
  exact (Nat.le_div_iff_mul_le b.bytesPerPixel_pos).mpr (le_min h.sourcePitch h.destPitch)

theorem Proper.rowBytes_eq : b.rowBytes = b.rowLength := by
  rw [rowBytes, h.rowPixels_eq, rowLength]

section

variable (hvram : vramSize ≤ 2 ^ 27)

include hvram

theorem Proper.sourceRow_eq (y j : Nat) :
    b.sourceRow + y * b.sourcePitch + j = b.sourceAt y j := by
  have hfirst := h.source 0 h.height 0 h.rowLength_pos
  simp only [sourceAt, Nat.add_zero] at hfirst
  rw [sourceRow, sourceOffset, Nat.mod_eq_of_lt (by omega), sourceAt, Nat.add_mul]
  omega

theorem Proper.destRow_eq (y j : Nat) :
    b.destRow + y * b.destPitch + j = b.destAt y j := by
  have hfirst := h.dest 0 h.height 0 h.rowLength_pos
  simp only [destAt, Nat.add_zero] at hfirst
  rw [destRow, destOffset, Nat.mod_eq_of_lt (by omega), destAt, Nat.add_mul]
  omega

theorem Proper.destSize_eq :
    b.destSize = (b.height - 1) * b.destPitch + b.rowLength ∧ b.destRow + b.destSize < 2 ^ 32 := by
  have hpos := h.rowLength_pos
  have hlast := h.dest (b.height - 1) (Nat.sub_lt h.height Nat.one_pos) (b.rowLength - 1)
    (Nat.sub_lt hpos Nat.one_pos)
  rw [← h.destRow_eq hvram] at hlast
  -- the last byte of the rectangle is inside VRAM, so nothing wraps around
  have hsize : b.destSize = (b.height - 1) * b.destPitch + b.rowLength := by
    obtain ⟨n, hn⟩ := Nat.exists_eq_succ_of_ne_zero h.height.ne'
    rw [hn, Nat.succ_sub_one] at hlast
    rw [destSize, ← rowLength, hn, Nat.succ_sub_one,
      show n.succ + 2 ^ 32 - 1 = n + 2 ^ 32 by omega, Nat.add_mul,
      show n * b.destPitch + 2 ^ 32 * b.destPitch + b.rowLength =
        n * b.destPitch + b.rowLength + 2 ^ 32 * b.destPitch by omega,
      Nat.add_mul_mod_self_left]
    exact Nat.mod_eq_of_lt (by omega)
  exact ⟨hsize, by omega⟩

theorem Proper.clip_bounds :
    0 < b.clippedDestSize ∧ b.clippedDestSize ≤ b.destSize := by
  obtain ⟨hsize, hend⟩ := h.destSize_eq hvram
  have hpos := h.rowLength_pos
  exact nvClip_bounds b.tiles (by omega) hend

end

end

theorem row_lt_iff {pitch y j bound : Nat} (hj : j < pitch) :
    y * pitch + j < bound ↔ y < bound / pitch ∨ y = bound / pitch ∧ j < bound - bound / pitch * pitch := by
  have hdiv := Nat.div_add_mod' bound pitch
  have hmod := Nat.mod_lt bound (Nat.zero_lt_of_lt hj)
  rcases lt_trichotomy y (bound / pitch) with hlt | heq | hgt
  · have hrow := Nat.mul_le_mul_right pitch (Nat.succ_le_of_lt hlt)
    grind
  · subst heq
    omega
  · have hrow := Nat.mul_le_mul_right pitch (Nat.succ_le_of_lt hgt)
    rw [Nat.succ_mul] at hrow
    omega

theorem Proper.below_iff (h : b.Proper vramSize) (hvram : vramSize ≤ 2 ^ 27) (y j : Nat) :
    b.Below y j ↔
      j < b.rowLength ∧ (y < b.adjustedHeight ∨ y = b.adjustedHeight ∧ j < b.leftoverBytes) := by
  obtain ⟨hsize, _⟩ := h.destSize_eq hvram
  have hclip := (h.clip_bounds hvram).2
  have hpitch := h.destPitch
  have hpos := h.destPitch_pos
  have hlast : (b.height - 1) * b.destPitch + b.destPitch = b.height * b.destPitch := by
    rw [← Nat.succ_mul, Nat.succ_eq_add_one, Nat.sub_add_cancel h.height]
  rw [Below]
  by_cases hcut : b.clippedDestSize < b.destSize
  · -- the clip ends in one of the rows
    have hrows : b.clippedDestSize / b.destPitch < b.height :=
      (Nat.div_lt_iff_lt_mul h.destPitch_pos).mpr (by omega)
    rw [leftoverBytes, adjustedHeight, if_pos hcut, if_pos hcut]
    constructor
    · grind [row_lt_iff]
    · intro ⟨hj, hrow⟩
      refine ⟨?_, hj, (row_lt_iff (hj.trans_le hpitch)).mpr hrow⟩
      grind
  · rw [leftoverBytes, adjustedHeight, if_neg hcut, if_neg hcut]
    constructor
    · intro ⟨hy, hj, _⟩
      exact ⟨hj, .inl hy⟩
    · intro ⟨hj, hrow⟩
      have hy : y < b.height := hrow.resolve_right fun heq => Nat.not_lt_zero j heq.2
      have hrow := Nat.mul_le_mul_right b.destPitch (Nat.le_sub_one_of_lt hy)
      exact ⟨hy, hj, by omega⟩

theorem Proper.adjustedHeight_le (h : b.Proper vramSize) (hvram : vramSize ≤ 2 ^ 27) :
    b.adjustedHeight ≤ b.height ∧ (0 < b.leftoverBytes → b.adjustedHeight < b.height) := by
  obtain ⟨hsize, _⟩ := h.destSize_eq hvram
  have hpitch := h.destPitch
  have hlast : (b.height - 1) * b.destPitch + b.destPitch = b.height * b.destPitch := by
    rw [← Nat.succ_mul, Nat.succ_eq_add_one, Nat.sub_add_cancel h.height]
  by_cases hcut : b.clippedDestSize < b.destSize
  · have hrows : b.clippedDestSize / b.destPitch < b.height :=
      (Nat.div_lt_iff_lt_mul h.destPitch_pos).mpr (by omega)
    rw [leftoverBytes, adjustedHeight, if_pos hcut]
    exact ⟨hrows.le, fun _ => hrows⟩
  · simp [leftoverBytes, adjustedHeight, hcut]

theorem leftoverBytes_lt (h : b.Proper vramSize) : b.leftoverBytes < b.destPitch := by
  rw [leftoverBytes, adjustedHeight]
  by_cases hcut : b.clippedDestSize < b.destSize
  · have hdiv := Nat.div_add_mod' b.clippedDestSize b.destPitch
    have hmod := Nat.mod_lt b.clippedDestSize h.destPitch_pos
    rw [if_pos hcut, if_pos hcut]
    omega
  · rw [if_neg hcut]
    exact h.destPitch_pos

theorem destAt_add (b : Blit) (y j : Nat) : b.destAt y 0 + j = b.destAt y j := Nat.add_assoc ..

theorem sourceAt_add (b : Blit) (y j : Nat) : b.sourceAt y 0 + j = b.sourceAt y j := Nat.add_assoc ..

theorem destAt_inj {y y' j j' : Nat} (hj : j < b.destPitch) (hj' : j' < b.destPitch)
    (heq : b.destAt y j = b.destAt y' j') : y = y' ∧ j = j' := by
  rw [destAt, destAt, Nat.add_mul, Nat.add_mul] at heq
  rcases lt_trichotomy y y' with hlt | hy | hgt
  · have hrow := Nat.mul_le_mul_right b.destPitch (Nat.succ_le_of_lt hlt)
    rw [Nat.succ_mul] at hrow
    omega
  · subst hy
    omega
  · have hrow := Nat.mul_le_mul_right b.destPitch (Nat.succ_le_of_lt hgt)
    rw [Nat.succ_mul] at hrow
    omega

/-! ## What is written -/

/-- The byte of a row is written. -/
def Written (b : Blit) (y j : Nat) : Prop :=
  y < b.adjustedHeight ∧ j < b.rowLength ∨ y = b.adjustedHeight ∧ j < b.leftoverBytes

def rows (b : Blit) : List (Nat × Nat) :=
  (List.range b.adjustedHeight).map fun y =>
    (b.destRow + y * b.destPitch, b.sourceRow + y * b.sourcePitch)

theorem performBlit_srccopy (vram : Store) (source dest width height widthBytes sourcePitch destPitch : Nat) :
    performBlit .srccopy vram source dest width height widthBytes sourcePitch destPitch =
      Store.moveAll widthBytes
        ((List.range height).map fun y => (dest + y * destPitch, source + y * sourcePitch)) vram := by
  rw [Store.moveAll, List.foldl_map]
  rfl

variable {y j : Nat}

section

variable (h : b.Proper vramSize) (hvram : vramSize ≤ 2 ^ 27)

include h hvram

theorem rows_move (vram : Store) : Store.moveAll b.rowLength b.rows vram =
    vram.copyAll b.rowLength b.rows vram := by
  have hheight := (h.adjustedHeight_le hvram).1
  apply Store.moveAll_eq_copyAll
  · exact fun _ _ _ _ => rfl
  · intro p hp q hq i hi j hj heq
    obtain ⟨y, hy, rfl⟩ := List.mem_map.mp hp
    obtain ⟨y', hy', rfl⟩ := List.mem_map.mp hq
    rw [h.destRow_eq hvram, h.sourceRow_eq hvram] at heq
    exact h.apart y' ((List.mem_range.mp hy').trans_le hheight) j hj y
      ((List.mem_range.mp hy).trans_le hheight) i hi heq.symm

theorem rows_inside (vram : Store) (hy : y < b.adjustedHeight) (hj : j < b.rowLength) :
    Store.moveAll b.rowLength b.rows vram (b.destAt y j) = vram (b.sourceAt y j) := by
  rw [rows_move h hvram, ← h.destRow_eq hvram, ← h.sourceRow_eq hvram]
  refine Store.copyAll_inside vram b.rowLength b.rows vram ?_
    (List.mem_map_of_mem (List.mem_range.mpr hy)) hj
  intro p hp q hq i hi i' hi' heq
  obtain ⟨y1, _, rfl⟩ := List.mem_map.mp hp
  obtain ⟨y2, _, rfl⟩ := List.mem_map.mp hq
  rw [h.destRow_eq hvram, h.destRow_eq hvram] at heq
  obtain ⟨rfl, rfl⟩ := destAt_inj (hi.trans_le h.destPitch) (hi'.trans_le h.destPitch) heq
  rfl

variable {a : Nat} {alphaVal : UInt8}

theorem rows_outside (vram : Store)
    (ha : ∀ y < b.adjustedHeight, ∀ j < b.rowLength, a ≠ b.destAt y j) :
    Store.moveAll b.rowLength b.rows vram a = vram a := by
  rw [rows_move h hvram]
  apply Store.copyAll_outside
  intro p hp
  obtain ⟨y, hy, rfl⟩ := List.mem_map.mp hp
  by_contra hin
  have hlo : b.destRow + y * b.destPitch ≤ a := by omega
  obtain ⟨j, rfl⟩ := Nat.exists_eq_add_of_le hlo
  exact ha y (List.mem_range.mp hy) j (by omega) (h.destRow_eq hvram y j)

section

variable (hcopy : b.operation = .srccopy)

include hcopy

theorem blitRows_eq (vram : Store) :
    blitRows vram b =
      (Store.moveAll b.rowLength b.rows vram).copy (b.destAt b.adjustedHeight 0)
        (Store.moveAll b.rowLength b.rows vram) (b.sourceAt b.adjustedHeight 0) b.leftoverBytes := by
  have hrows : performBlit b.operation vram b.sourceRow b.destRow b.rowPixels b.adjustedHeight b.rowBytes
      b.sourcePitch b.destPitch = Store.moveAll b.rowLength b.rows vram := by
    rw [hcopy, performBlit_srccopy, h.rowBytes_eq, rows]
  rw [blitRows, hrows, ← h.destRow_eq hvram, ← h.sourceRow_eq hvram]
  split
  case isTrue =>
    rw [hcopy, performBlit_srccopy]
    simp [Store.moveAll]
  case isFalse hnone =>
    rw [Nat.eq_zero_of_not_pos hnone, Store.copy, Store.read_zero, Store.write_nil]

theorem blitRows_leftover (vram : Store)
    (hj : j < b.leftoverBytes) : blitRows vram b (b.destAt b.adjustedHeight j) =
      Store.moveAll b.rowLength b.rows vram (b.sourceAt b.adjustedHeight j) := by
  rw [blitRows_eq h hvram hcopy, ← destAt_add b _ j, Store.copy_inside _ _ _ _ hj, sourceAt_add]

theorem blitRows_rest (vram : Store) (ha : ∀ j < b.leftoverBytes, a ≠ b.destAt b.adjustedHeight j) :
    blitRows vram b a = Store.moveAll b.rowLength b.rows vram a := by
  rw [blitRows_eq h hvram hcopy]
  apply Store.copy_outside
  by_contra hin
  have hlo : b.destAt b.adjustedHeight 0 ≤ a := by omega
  obtain ⟨j, rfl⟩ := Nat.exists_eq_add_of_le hlo
  exact ha j (by omega) (destAt_add ..)

theorem blitRows_inside (vram : Store) (hwritten : b.Written y j) (hj : j < b.rowLength) :
    blitRows vram b (b.destAt y j) = vram (b.sourceAt y j) := by
  obtain ⟨hheight, hleft⟩ := h.adjustedHeight_le hvram
  cases hwritten with
  | inl hrow =>
    rw [blitRows_rest h hvram hcopy, rows_inside h hvram vram hrow.1 hj]
    intro j' hj' heq
    have hinj := destAt_inj (hj.trans_le h.destPitch) (hj'.trans (leftoverBytes_lt h)) heq
    exact hrow.1.ne hinj.1
  | inr hlast =>
    obtain ⟨rfl, hj'⟩ := hlast
    rw [blitRows_leftover h hvram hcopy vram hj']
    -- the source of the last row is not among the rows written before it
    apply rows_outside h hvram
    intro y hy i hi
    exact h.apart _ (hleft (Nat.zero_lt_of_lt hj')) j hj y (hy.trans_le hheight) i hi

theorem blitRows_outside (vram : Store)
    (ha : ∀ y j, b.Written y j → a ≠ b.destAt y j) : blitRows vram b a = vram a := by
  rw [blitRows_rest h hvram hcopy]
  · exact rows_outside h hvram vram fun y hy j hj => ha y j (.inl ⟨hy, hj⟩)
  · exact fun j hj => ha _ j (.inr ⟨rfl, hj⟩)

end

theorem blitRows_extra (hcopy : b.operation = .srccopy) (hlo : b.rowLength ≤ j)
    (hj : j < b.leftoverBytes) : ∃ x, x ≠ b.destAt b.adjustedHeight j ∧
      ∀ vram, blitRows vram b (b.destAt b.adjustedHeight j) = vram x := by
  have hpitch := leftoverBytes_lt h
  obtain ⟨hheight, hleft⟩ := h.adjustedHeight_le hvram
  by_cases hmoved : ∃ y < b.adjustedHeight, ∃ i < b.rowLength, b.sourceAt b.adjustedHeight j = b.destAt y i
  · -- the byte it is copied from has itself been written, from a third place
    obtain ⟨y, hy, i, hi, heq⟩ := hmoved
    refine ⟨b.sourceAt y i, fun hsame => ?_, fun vram => ?_⟩
    · -- the two rows would have to be swapped, but both pitches go up
      have hsource := Nat.mul_le_mul_right b.sourcePitch (Nat.succ_le_of_lt hy)
      have hdest := Nat.mul_le_mul_right b.destPitch (Nat.succ_le_of_lt hy)
      rw [Nat.succ_mul] at hsource hdest
      simp only [sourceAt, destAt, Nat.add_mul] at heq hsame
      omega
    · rw [blitRows_leftover h hvram hcopy vram hj, heq, rows_inside h hvram vram hy hi]
  · refine ⟨b.sourceAt b.adjustedHeight j, fun hsame => ?_, fun vram => ?_⟩
    · -- then the rows of the two rectangles would meet
      have hrow := h.apart b.adjustedHeight (hleft (Nat.zero_lt_of_lt hj)) 0 h.rowLength_pos
        b.adjustedHeight (hleft (Nat.zero_lt_of_lt hj)) 0 h.rowLength_pos
      simp only [sourceAt, destAt] at hsame hrow
      omega
    · rw [blitRows_leftover h hvram hcopy vram hj]
      apply rows_outside h hvram
      intro y hy i hi heq
      exact hmoved ⟨y, hy, i, hi, heq⟩

omit h hvram in
theorem patchAlpha_eq (vram : Store) (dest widthPixels height destPitch : Nat) (alphaVal : UInt8) :
    patchAlpha vram dest widthPixels height destPitch alphaVal =
      Store.setAll alphaVal ((List.range height).flatMap fun y =>
        (List.range widthPixels).map fun x => dest + y * destPitch + (x * 4 + 3)) vram := by
  rw [Store.setAll, List.foldl_flatMap]
  simp only [List.foldl_map]
  rfl

omit h hvram in
theorem bytesPerPixel_of_alpha (halpha : b.colorFormat.alphaOverride = some alphaVal) :
    b.bytesPerPixel = 4 := by
  rw [bytesPerPixel]
  cases hformat : b.colorFormat with
  | x8r8g8b8 | x8r8g8b8Z8r8g8b8 => rfl
  | _ =>
    rw [hformat] at halpha
    cases halpha

def alphaPlaces (b : Blit) : List Nat :=
  ((List.range b.adjustedHeight).flatMap fun y =>
      (List.range b.rowPixels).map fun x => b.destRow + y * b.destPitch + (x * 4 + 3)) ++
    (List.range (b.leftoverBytes / 4)).map fun x =>
      b.destRow + b.adjustedHeight * b.destPitch + (x * 4 + 3)

omit h hvram in
theorem patchRows_eq (vram : Store) (alphaVal : UInt8) :
    patchRows vram b alphaVal = Store.setAll alphaVal b.alphaPlaces vram := by
  rw [patchRows, alphaPlaces, Store.setAll_append, patchAlpha_eq, patchAlpha_eq]
  split
  case isTrue => simp
  case isFalse hnone =>
    rw [Nat.eq_zero_of_not_pos hnone, Nat.zero_div, List.range_zero, List.map_nil]
    exact (List.foldl_nil ..).symm

theorem mem_alphaPlaces (halpha : b.colorFormat.alphaOverride = some alphaVal)
    (a : Nat) : a ∈ b.alphaPlaces ↔ ∃ y j, b.Written y j ∧ j % 4 = 3 ∧ b.destAt y j = a := by
  have hlength : b.rowLength = b.width * 4 := by rw [rowLength, bytesPerPixel_of_alpha halpha]
  simp only [alphaPlaces, List.mem_append, List.mem_flatMap, List.mem_map, List.mem_range,
    h.rowPixels_eq, h.destRow_eq hvram]
  constructor
  · intro hmem
    cases hmem with
    | inl hrow =>
      obtain ⟨y, hy, x, hx, heq⟩ := hrow
      exact ⟨y, x * 4 + 3, .inl ⟨hy, by omega⟩, by omega, heq⟩
    | inr hlast =>
      obtain ⟨x, hx, heq⟩ := hlast
      exact ⟨_, x * 4 + 3, .inr ⟨rfl, by omega⟩, by omega, heq⟩
  · intro ⟨y, j, hwritten, hmod, heq⟩
    have hj : j / 4 * 4 + 3 = j := by omega
    cases hwritten with
    | inl hrow => exact .inl ⟨y, hrow.1, j / 4, by omega, by rw [hj, heq]⟩
    | inr hlast => exact .inr ⟨j / 4, by omega, by rw [hj, ← hlast.1, heq]⟩

theorem blitVram_written (vram : Store) (hwritten : b.Written y j) :
    blitVram vram b (b.destAt y j) = (b.alphaAt j).getD (blitRows vram b (b.destAt y j)) := by
  have hpitch (y j : Nat) (hw : b.Written y j) : j < b.destPitch := by
    cases hw with
    | inl hrow => exact hrow.2.trans_le h.destPitch
    | inr hlast => exact hlast.2.trans (leftoverBytes_lt h)
  rw [blitVram, alphaAt]
  cases halpha : b.colorFormat.alphaOverride with
  | none => rw [ite_self, Option.getD_none]
  | some alphaVal =>
    dsimp only
    rw [patchRows_eq, Store.setAll_apply]
    by_cases hmod : j % 4 = 3
    · rw [if_pos hmod, if_pos ((mem_alphaPlaces h hvram halpha _).mpr ⟨y, j, hwritten, hmod, rfl⟩),
        Option.getD_some]
    · rw [if_neg hmod, if_neg, Option.getD_none]
      intro hmem
      obtain ⟨y', j', hwritten', hmod', heq⟩ := (mem_alphaPlaces h hvram halpha _).mp hmem
      have hinj := destAt_inj (hpitch y' j' hwritten') (hpitch y j hwritten) heq
      exact hmod (hinj.2 ▸ hmod')

theorem blitVram_outside (hcopy : b.operation = .srccopy) (vram : Store)
    (ha : ∀ y j, b.Written y j → a ≠ b.destAt y j) : blitVram vram b a = vram a := by
  rw [blitVram, ← blitRows_outside h hvram hcopy vram ha]
  cases halpha : b.colorFormat.alphaOverride with
  | none => rfl
  | some alphaVal =>
    dsimp only
    rw [patchRows_eq, Store.setAll_apply, if_neg]
    intro hmem
    obtain ⟨y, j, hwritten, _, heq⟩ := (mem_alphaPlaces h hvram halpha a).mp hmem
    exact ha y j hwritten heq.symm

end

end

end Blit

end DukeX.Nv2a.Vk
