import DukeX.Nv2a.Device

/-!
# What the registers of a texture stage describe

`pgraph/texture.c`: the shape of the texture, its place and length in VRAM, and its palette.
-/

namespace DukeX.Nv2a

open Lib

/-! ## Formats -/

structure BasicColorFormatInfo where
  bytesPerPixel : Nat
  linear : Bool
  deriving DecidableEq

def szI8A8r8g8b8 : Nat := 0x0B
def lDxt1A1r5g5b5 : Nat := 0x0C
def lDxt23A8r8g8b8 : Nat := 0x0E
def lDxt45A8r8g8b8 : Nat := 0x0F
def lcImageCr8yb8cb8ya8 : Nat := 0x24
def lcImageYb8cr8ya8cb8 : Nat := 0x25

def kelvinColorFormatInfos : List (Nat × BasicColorFormatInfo) :=
  [(0x00, ⟨1, false⟩), (0x01, ⟨1, false⟩), (0x02, ⟨2, false⟩), (0x03, ⟨2, false⟩),
    (0x04, ⟨2, false⟩), (0x05, ⟨2, false⟩), (0x06, ⟨4, false⟩), (0x07, ⟨4, false⟩),
    (szI8A8r8g8b8, ⟨1, false⟩), (lDxt1A1r5g5b5, ⟨4, false⟩), (lDxt23A8r8g8b8, ⟨4, false⟩),
    (lDxt45A8r8g8b8, ⟨4, false⟩), (0x10, ⟨2, true⟩), (0x11, ⟨2, true⟩), (0x12, ⟨4, true⟩),
    (0x13, ⟨1, true⟩), (0x17, ⟨2, true⟩), (0x19, ⟨1, false⟩), (0x1A, ⟨2, false⟩),
    (0x1B, ⟨1, true⟩), (0x1C, ⟨2, true⟩), (0x1D, ⟨2, true⟩), (0x1E, ⟨4, true⟩), (0x1F, ⟨1, true⟩),
    (0x20, ⟨2, true⟩), (lcImageCr8yb8cb8ya8, ⟨2, true⟩), (lcImageYb8cr8ya8cb8, ⟨2, true⟩),
    (0x27, ⟨2, false⟩), (0x28, ⟨2, false⟩), (0x29, ⟨2, false⟩), (0x2C, ⟨2, false⟩),
    (0x2E, ⟨4, true⟩), (0x2F, ⟨4, true⟩), (0x30, ⟨2, true⟩), (0x31, ⟨2, true⟩), (0x35, ⟨2, true⟩),
    (0x3A, ⟨4, false⟩), (0x3B, ⟨4, false⟩), (0x3C, ⟨4, false⟩), (0x3F, ⟨4, true⟩),
    (0x40, ⟨4, true⟩), (0x41, ⟨4, true⟩)]

def kelvinColorFormatInfoMap (colorFormat : Nat) : BasicColorFormatInfo :=
  (kelvinColorFormatInfos.lookup colorFormat).getD ⟨0, false⟩

def pgraphIsTextureFormatCompressed (colorFormat : Nat) : Bool :=
  colorFormat = lDxt1A1r5g5b5 || colorFormat = lDxt23A8r8g8b8 || colorFormat = lDxt45A8r8g8b8

/-! ## Registers -/

def nvPgraphBordercolor0 : Nat := 0x180C
def nvPgraphShaderprog : Nat := 0x199C
def nvPgraphTexaddress0 : Nat := 0x19BC
def nvPgraphTexctl00 : Nat := 0x19CC
def nvPgraphTexctl00MaxAnisotropy : Word := 0x30
def nvPgraphTexctl00MaxLodClamp : Word := 0x0003FFC0
def nvPgraphTexctl00MinLodClamp : Word := 0x3FFC0000
def nvPgraphTexctl00Enable : Word := 1#32 <<< 30
def nvPgraphTexctl10 : Nat := 0x19DC
def nvPgraphTexctl10ImagePitch : Word := 0xFFFF0000
def nvPgraphTexfilter0 : Nat := 0x19F4
def nvPgraphTexfmt0 : Nat := 0x1A04
def nvPgraphTexfmt0ContextDma : Word := 1#32 <<< 1
def nvPgraphTexfmt0Cubemapenable : Word := 1#32 <<< 2
def nvPgraphTexfmt0BorderSource : Word := 1#32 <<< 3
def nvPgraphTexfmt0BorderSourceColor : Word := 1
def nvPgraphTexfmt0Dimensionality : Word := 0xC0
def nvPgraphTexfmt0Color : Word := 0x7F00
def nvPgraphTexfmt0MipmapLevels : Word := 0x000F0000
def nvPgraphTexfmt0BaseSizeU : Word := 0x00F00000
def nvPgraphTexfmt0BaseSizeV : Word := 0x0F000000
def nvPgraphTexfmt0BaseSizeP : Word := 0xF0000000
def nvPgraphTeximagerect0 : Nat := 0x1A14
def nvPgraphTeximagerect0Width : Word := 0x1FFF0000
def nvPgraphTeximagerect0Height : Word := 0x00001FFF
def nvPgraphTexoffset0 : Nat := 0x1A24
def nvPgraphTexpalette0 : Nat := 0x1A34
def nvPgraphTexpalette0ContextDma : Word := 1
def nvPgraphTexpalette0Length : Word := 0xC
def nvPgraphTexpalette0Offset : Word := 0xFFFFFFC0

structure StageRegs where
  ctl0 : Word
  ctl1 : Word
  fmt : Word
  filter : Word
  address : Word
  imageRect : Word
  offset : Word
  palette : Word
  borderColor : Word
  shaderprog : Word
  deriving DecidableEq

section Stage

variable {K : Type}

def stageRegs (pg : PGRAPHState K) (i : Fin 4) : StageRegs where
  ctl0 := pg.regs (nvPgraphTexctl00 + i * 4)
  ctl1 := pg.regs (nvPgraphTexctl10 + i * 4)
  fmt := pg.regs (nvPgraphTexfmt0 + i * 4)
  filter := pg.regs (nvPgraphTexfilter0 + i * 4)
  address := pg.regs (nvPgraphTexaddress0 + i * 4)
  imageRect := pg.regs (nvPgraphTeximagerect0 + i * 4)
  offset := pg.regs (nvPgraphTexoffset0 + i * 4)
  palette := pg.regs (nvPgraphTexpalette0 + i * 4)
  borderColor := pg.regs (nvPgraphBordercolor0 + i * 4)
  shaderprog := pg.regs nvPgraphShaderprog

def pgraphIsTextureEnabled (s : StageRegs) : Bool := getMask s.ctl0 nvPgraphTexctl00Enable != 0

end Stage

structure TextureShape where
  cubemap : Bool
  dimensionality : Nat
  colorFormat : Nat
  levels : Nat
  width : Nat
  height : Nat
  depth : Nat
  border : Bool
  minMipmapLevel : Nat
  maxMipmapLevel : Nat
  pitch : Nat
  deriving DecidableEq

def clampLevels (levels maxMipmapLevel dimensionality logWidth logHeight : Nat) : Option Nat :=
  let levels := min levels (maxMipmapLevel + 1)
  let levels := min levels (max logWidth logHeight + 1)
  if levels = 0 then none
  else if dimensionality = 3 then
    if logWidth < 2 ∨ logHeight < 2 then some 1
    else some (min levels (min logWidth logHeight - 1))
  else some levels

def pgraphGetTextureShape (s : StageRegs) (i : Fin 4) : Option TextureShape := do
  let minMipmapLevel := (getMask s.ctl0 nvPgraphTexctl00MinLodClamp).toNat
  let maxMipmapLevel := (getMask s.ctl0 nvPgraphTexctl00MaxLodClamp).toNat
  let dimensionality := (getMask s.fmt nvPgraphTexfmt0Dimensionality).toNat
  let cubemap := getMask s.fmt nvPgraphTexfmt0Cubemapenable != 0
  let texMode := (s.shaderprog >>> (i.val * 5)) &&& 0x1F
  guard (texMode = 2 → pgraphIsTextureEnabled s = true)
  let colorFormat := (getMask s.fmt nvPgraphTexfmt0Color).toNat
  let levels := (getMask s.fmt nvPgraphTexfmt0MipmapLevels).toNat
  let logWidth := (getMask s.fmt nvPgraphTexfmt0BaseSizeU).toNat
  let logHeight := (getMask s.fmt nvPgraphTexfmt0BaseSizeV).toNat
  let logDepth := (getMask s.fmt nvPgraphTexfmt0BaseSizeP).toNat
  let border := getMask s.fmt nvPgraphTexfmt0BorderSource != nvPgraphTexfmt0BorderSourceColor
  guard (colorFormat < 66)
  let f := kelvinColorFormatInfoMap colorFormat
  guard (f.bytesPerPixel ≠ 0)
  if f.linear then
    guard (dimensionality = 2)
    return {
      cubemap, dimensionality, colorFormat, levels, border, minMipmapLevel, maxMipmapLevel
      width := (getMask s.imageRect nvPgraphTeximagerect0Width).toNat
      height := (getMask s.imageRect nvPgraphTeximagerect0Height).toNat
      depth := 1
      pitch := (getMask s.ctl1 nvPgraphTexctl10ImagePitch).toNat }
  else
    let levels ← clampLevels levels maxMipmapLevel dimensionality logWidth logHeight
    return {
      cubemap, dimensionality, colorFormat, levels, border
      minMipmapLevel := min (levels - 1) minMipmapLevel
      maxMipmapLevel := min (levels - 1) maxMipmapLevel
      width := 2 ^ logWidth
      height := 2 ^ logHeight
      depth := 2 ^ logDepth
      pitch := 0 }

def nv2aCubemapFaceAlignment : Nat := 128

def alignFace (length : Nat) : Nat :=
  (length + nv2aCubemapFaceAlignment - 1) / nv2aCubemapFaceAlignment * nv2aCubemapFaceAlignment

def texelBytes (bytesPerPixel w h : Nat) : Nat := w * h % 2 ^ 32 * bytesPerPixel % 2 ^ 32

def physical (w : Nat) : Nat := (w + 3) / 4 * 4

def blockBytes (blockSize w h : Nat) : Nat :=
  physical w / 4 * physical h % 2 ^ 32 / 4 * blockSize % 2 ^ 32

def dxtBlockSize (colorFormat : Nat) : Nat := if colorFormat = lDxt1A1r5g5b5 then 8 else 16

def mipLength (size : Nat → Nat → Nat) : Nat → Nat → Nat → Nat
  | 0, _, _ => 0
  | levels + 1, w, h =>
    size (max w 1) (max h 1) + mipLength size levels (max w 1 / 2) (max h 1 / 2)

def levelBytes (shape : TextureShape) : Nat → Nat → Nat :=
  if pgraphIsTextureFormatCompressed shape.colorFormat then
    blockBytes (dxtBlockSize shape.colorFormat)
  else texelBytes (kelvinColorFormatInfoMap shape.colorFormat).bytesPerPixel

def pgraphGetTextureLength (shape : TextureShape) : Option Nat :=
  if (kelvinColorFormatInfoMap shape.colorFormat).linear then
    if shape.cubemap = false ∧ shape.dimensionality = 2 then
      some (shape.height * shape.pitch % 2 ^ 32)
    else none
  else if shape.dimensionality < 2 then some 0
  else
    let length := mipLength (levelBytes shape) shape.levels shape.width shape.height
    if shape.cubemap then
      if shape.dimensionality = 2 then some (alignFace length * 6) else none
    else if 3 ≤ shape.dimensionality then some (length * shape.depth)
    else some length

/-! ## The place in VRAM -/

def nvDmaAdjust : Word := 0xFFF00000
def nvDmaAddress : Word := 0xFFFFF000

def NV2AState.nvDmaMap {K : Type} (d : NV2AState K) (dmaObjAddress : Nat) : Option (Nat × Nat) :=
  if dmaObjAddress < d.raminSize then
    let flags := ldlLeP d.ramin dmaObjAddress
    let limit := ldlLeP d.ramin (dmaObjAddress + 4)
    let frame := ldlLeP d.ramin (dmaObjAddress + 8)
    let address := ((frame &&& nvDmaAddress) ||| getMask flags nvDmaAdjust) &&& 0x07FFFFFF
    if address.toNat < d.vramSize then some (address.toNat, limit.toNat) else none
  else none

structure TextureFields where
  dmaA : Word
  dmaB : Word
  textureDirty : Fin 4 → Bool

def NV2AState.dmaOffset {K : Type} (d : NV2AState K) (dmaObjAddress : Word) (offset : Nat) :
    Option Nat := do
  let dma ← d.nvDmaMap dmaObjAddress.toNat
  guard (offset < dma.2)
  return dma.1 + offset

def TextureFields.dma (t : TextureFields) (selectB : Bool) : Word := if selectB then t.dmaB else t.dmaA

def textureSelectsB (s : StageRegs) : Bool := getMask s.fmt nvPgraphTexfmt0ContextDma != 0

def paletteSelectsB (s : StageRegs) : Bool := getMask s.palette nvPgraphTexpalette0ContextDma != 0

def paletteOffset (s : StageRegs) : Nat := (s.palette &&& nvPgraphTexpalette0Offset).toNat

def pgraphGetTexturePhysAddr (d : NV2AState TextureFields) (s : StageRegs) : Option Nat :=
  d.dmaOffset (d.pgraph.rest.dma (textureSelectsB s)) s.offset.toNat

def paletteLength (s : StageRegs) : Nat :=
  256 / 2 ^ (getMask s.palette nvPgraphTexpalette0Length).toNat * 4

def pgraphGetTexturePalettePhysAddr (d : NV2AState TextureFields) (s : StageRegs) : Option Nat :=
  d.dmaOffset (d.pgraph.rest.dma (paletteSelectsB s)) (paletteOffset s)

end DukeX.Nv2a
