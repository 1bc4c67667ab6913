import Mathlib

/-!
# The surface cache of the Vulkan renderer

Render targets live in GPU images that stand for ranges of VRAM.
-/

namespace DukeX.Nv2a.Vk

open Function (update)

structure DMAObject where
  dmaClass : Nat
  address : Nat
  limit : Nat
  deriving DecidableEq

def nvDmaInMemoryClass : Nat := 0x3D

structure SurfaceShape where
  zFormat : Nat
  colorFormat : Nat
  zetaFormat : Nat
  logWidth : Nat
  logHeight : Nat
  clipX : Nat
  clipY : Nat
  clipWidth : Nat
  clipHeight : Nat
  antiAliasing : Nat
  deriving DecidableEq

def SurfaceShape.zero : SurfaceShape := ⟨0, 0, 0, 0, 0, 0, 0, 0, 0, 0⟩

structure Surface where
  drawDirty : Bool
  bufferDirty : Bool
  writeEnabledCache : Bool
  pitch : Nat
  offset : Nat
  deriving DecidableEq

def surfaceTypeSwizzle : Nat := 2

/-! ## Surfaces -/

inductive VkFormat where
  | a1r5g5b5 | r5g6b5 | b8g8r8a8 | r8 | r8g8 | d16 | depthStencil
  deriving DecidableEq

structure SurfaceBinding where
  id : Nat
  vramAddr : Nat
  shape : SurfaceShape
  color : Bool
  swizzle : Bool
  width : Nat
  height : Nat
  pitch : Nat
  size : Nat
  bytesPerPixel : Nat
  vkFormat : VkFormat
  frameTime : Int
  drawDirty : Bool
  downloadPending : Bool
  uploadPending : Bool
  deriving DecidableEq

inductive Transfer where
  | download (surface : SurfaceBinding)
  | upload (surface : SurfaceBinding)
  deriving DecidableEq

/-- Where a run stops. -/
inductive SurfaceFault where
  | unsupported
  | boundInvalidated
  | occupied
  | dimensionsDiffer
  deriving DecidableEq

structure SurfaceRegs where
  ramin : Nat → Option DMAObject
  dma : Bool → Nat
  surfaceShape : SurfaceShape
  lastSurfaceShape : SurfaceShape
  setupRasterZFormat : Nat
  surfaceType : Nat
  surface : Bool → Surface
  writeEnabled : Bool → Bool
  clearing : Bool
  frameTime : Int

structure SurfaceState extends SurfaceRegs where
  surfaces : List SurfaceBinding
  invalidSurfaces : List SurfaceBinding
  binding : Bool → Option Nat
  nextId : Nat
  transfers : List Transfer

abbrev SurfaceM := Except SurfaceFault

def SurfaceM.assert (p : Prop) [Decidable p] (fault : SurfaceFault) : SurfaceM Unit :=
  if p then .ok () else .error fault

namespace SurfaceState

def setSurface (st : SurfaceState) (color : Bool) (f : Surface → Surface) : SurfaceState :=
  { st with surface := update st.surface color (f (st.surface color)) }

def setBinding (st : SurfaceState) (color : Bool) (id : Option Nat) : SurfaceState :=
  { st with binding := update st.binding color id }

def onSurface (st : SurfaceState) (id : Nat) (f : SurfaceBinding → SurfaceBinding) : SurfaceState :=
  { st with surfaces := st.surfaces.map fun s => if s.id = id then f s else s }

def bound (st : SurfaceState) (color : Bool) : Option SurfaceBinding :=
  (st.binding color).bind fun id => st.surfaces.find? fun s => s.id = id

end SurfaceState

/-! ## Taking surfaces out of the list -/

def checkSurfaceOverlapsRange (surface : SurfaceBinding) (rangeStart rangeLen : Nat) : Bool :=
  !(surface.vramAddr ≥ rangeStart + rangeLen || rangeStart ≥ surface.vramAddr + surface.size)

def checkSurfacesOverlap (surface otherSurface : SurfaceBinding) : Bool :=
  checkSurfaceOverlapsRange surface otherSurface.vramAddr otherSurface.size

def surfaceGet (st : SurfaceState) (addr : Nat) : Option SurfaceBinding :=
  st.surfaces.find? fun s => s.vramAddr = addr

def downloadSurface (st : SurfaceState) (s : SurfaceBinding) (force : Bool) : SurfaceState :=
  if !(s.downloadPending || force) || s.width = 0 || s.height = 0 then st
  else
    { st.onSurface s.id fun s => { s with downloadPending := false, drawDirty := false } with
      transfers := st.transfers ++ [.download s] }

def surfaceDownloadIfDirty (st : SurfaceState) (s : SurfaceBinding) : SurfaceState :=
  if s.drawDirty then downloadSurface st s true else st

def unbindSurface (st : SurfaceState) (color : Bool) : SurfaceState := st.setBinding color none

def unbindIf (st : SurfaceState) (s : SurfaceBinding) (color : Bool) : SurfaceM SurfaceState :=
  if st.binding color = some s.id then
    if (st.surface color).bufferDirty then .ok (unbindSurface st color) else .error .boundInvalidated
  else .ok st

def removeSurface (st : SurfaceState) (id : Nat) : SurfaceState :=
  { st with
    surfaces := st.surfaces.filter fun s => s.id ≠ id
    invalidSurfaces := (st.surfaces.filter fun s => s.id = id) ++ st.invalidSurfaces }

def invalidateSurface (st : SurfaceState) (s : SurfaceBinding) : SurfaceM SurfaceState := do
  let st ← unbindIf st s true
  let st ← unbindIf st s false
  .ok (removeSurface st s.id)

def evictSurface (st : SurfaceState) (s : SurfaceBinding) : SurfaceM SurfaceState :=
  invalidateSurface (surfaceDownloadIfDirty st s) s

def evictWhere (p : SurfaceBinding → Bool) (st : SurfaceState) : SurfaceM SurfaceState :=
  st.surfaces.foldlM (fun st s => if p s then evictSurface st s else .ok st) st

def invalidateOverlappingSurfaces (st : SurfaceState) (surface : SurfaceBinding) :
    SurfaceM SurfaceState :=
  evictWhere (fun other => checkSurfacesOverlap surface other) st

def surfacePut (st : SurfaceState) (surface : SurfaceBinding) : SurfaceM SurfaceState := do
  SurfaceM.assert (surfaceGet st surface.vramAddr = none) .occupied
  let st ← invalidateOverlappingSurfaces st surface
  .ok { st with surfaces := surface :: st.surfaces, nextId := st.nextId + 1 }

def maxSurfaceFrameTimeDelta : Int := 5

def expireOldSurfaces (st : SurfaceState) : SurfaceM SurfaceState :=
  evictWhere (fun s => st.frameTime - s.frameTime ≥ maxSurfaceFrameTimeDelta) st

def colorFormatInfo : Nat → Option (Nat × VkFormat)
  | 0x1 => some (2, .a1r5g5b5)
  | 0x3 => some (2, .r5g6b5)
  | 0x4 => some (4, .b8g8r8a8)
  | 0x8 => some (4, .b8g8r8a8)
  | 0x9 => some (1, .r8)
  | 0xA => some (2, .r8g8)
  | _ => none

def zetaFormatInfo : Nat → Option (Nat × VkFormat)
  | 1 => some (2, .d16)
  | 2 => some (4, .depthStencil)
  | _ => none

def formatInfo (shape : SurfaceShape) (color : Bool) : Option (Nat × VkFormat) :=
  if color then colorFormatInfo shape.colorFormat else zetaFormatInfo shape.zetaFormat

def targetShape (st : SurfaceState) (color : Bool) : SurfaceShape :=
  match color, st.bound true with
  | false, some other => other.shape
  | _, _ => st.surfaceShape

def populateSurfaceBindingTargetSized (st : SurfaceState) (color : Bool) (width height : Nat) :
    SurfaceM SurfaceBinding :=
  match formatInfo st.surfaceShape color, st.ramin (st.dma color) with
  | some (bytesPerPixel, vkFormat), some dma =>
    let surface := st.surface color
    if dma.dmaClass = nvDmaInMemoryClass ∧ surface.offset ≤ dma.limit ∧
        surface.offset + surface.pitch * height % 2 ^ 32 ≤ dma.limit + 1 ∧
        surface.pitch % bytesPerPixel = 0 ∧ dma.address < 2 ^ 27 then
      .ok
        { id := st.nextId
          vramAddr := dma.address + surface.offset
          shape := targetShape st color
          color := color
          swizzle := st.surfaceType = surfaceTypeSwizzle
          width := width
          height := height
          pitch := surface.pitch
          size := height * max surface.pitch (width * bytesPerPixel) % 2 ^ 32
          bytesPerPixel := bytesPerPixel
          vkFormat := vkFormat
          frameTime := st.frameTime
          drawDirty := false
          downloadPending := false
          uploadPending := true }
    else .error .unsupported
  | _, _ => .error .unsupported

def getSurfaceDimensions (st : SurfaceState) : SurfaceM (Nat × Nat) :=
  let shape := st.surfaceShape
  if st.surfaceType = surfaceTypeSwizzle then
    if shape.logWidth < 31 ∧ shape.logHeight < 31 then
      .ok (2 ^ shape.logWidth, 2 ^ shape.logHeight)
    else .error .unsupported
  else .ok (shape.clipWidth, shape.clipHeight)

def applyAntiAliasingFactor (shape : SurfaceShape) (dim : Nat × Nat) : SurfaceM (Nat × Nat) :=
  match shape.antiAliasing with
  | 0 => .ok dim
  | 1 => .ok (dim.1 * 2, dim.2)
  | 2 => .ok (dim.1 * 2, dim.2 * 2)
  | _ => .error .unsupported

def registerDimensions (st : SurfaceState) : SurfaceM (Nat × Nat) := do
  let dim ← getSurfaceDimensions st
  let dim ← applyAntiAliasingFactor st.surfaceShape dim
  .ok (if st.surfaceType = surfaceTypeSwizzle then dim
    else (dim.1 + st.surfaceShape.clipX, dim.2 + st.surfaceShape.clipY))

def populateSurfaceBindingTarget (st : SurfaceState) (color : Bool) : SurfaceM SurfaceBinding :=
  match color, st.bound true with
  | false, some other => populateSurfaceBindingTargetSized st false other.width other.height
  | _, _ => do
    let dim ← registerDimensions st
    populateSurfaceBindingTargetSized st color dim.1 dim.2

/-! ## Binding -/

def checkSurfaceCompatibility (s1 s2 : SurfaceBinding) (strict : Bool) : Bool :=
  s1.color == s2.color && s1.vkFormat == s2.vkFormat && s1.pitch == s2.pitch &&
    (if strict then s1.width == s2.width && s1.height == s2.height
      else s1.width ≥ s2.width && s1.height ≥ s2.height)

def leavesRoom (st : SurfaceState) (color : Bool) (surface target : SurfaceBinding) : SurfaceM Bool :=
  if color && !checkSurfaceCompatibility surface target true then do
    let zetaEntry ← populateSurfaceBindingTargetSized st (!color) surface.width surface.height
    .ok (surface.vramAddr ≥ zetaEntry.vramAddr + zetaEntry.size ||
      zetaEntry.vramAddr ≥ surface.vramAddr + surface.size)
  else .ok true

def goesWithColor (st : SurfaceState) (color : Bool) (surface : SurfaceBinding) : Bool :=
  match color, st.bound true with
  | false, some other => surface.width == other.width && surface.height == other.height
  | _, _ => true

def isCompatible (st : SurfaceState) (color : Bool) (surface target : SurfaceBinding) :
    SurfaceM Bool :=
  if checkSurfaceCompatibility surface target false then do
    let room ← leavesRoom st color surface target
    .ok (room && goesWithColor st color surface)
  else .ok false

def bindSurface (st : SurfaceState) (color : Bool) (id : Nat) : SurfaceState :=
  (st.setBinding color (some id)).setSurface color fun s => { s with bufferDirty := false }

def reuseSurface (st : SurfaceState) (color memDirty : Bool) (surface : SurfaceBinding) :
    SurfaceState :=
  let st := st.onSurface surface.id fun s => { s with uploadPending := s.uploadPending || memDirty }
  let st := st.setSurface false fun s => { s with bufferDirty := s.bufferDirty || color }
  bindSurface st color surface.id

def outgrowsZeta (st : SurfaceState) (color : Bool) (surface : SurfaceBinding) : Bool :=
  match color, st.bound false with
  | true, some zeta => zeta.width != surface.width || zeta.height != surface.height
  | _, _ => false

def createSurface (st : SurfaceState) (color : Bool) (target : SurfaceBinding) :
    SurfaceM SurfaceState := do
  let st ← surfacePut st target
  let st := st.setSurface false fun s =>
    { s with bufferDirty := s.bufferDirty || outgrowsZeta st color target }
  .ok (bindSurface st color target.id)

def unbindOther (st : SurfaceState) (color : Bool) (surface : SurfaceBinding) : SurfaceState :=
  if st.binding (!color) = some surface.id then unbindSurface st (!color) else st

def bindTarget (st : SurfaceState) (color memDirty : Bool) (target : SurfaceBinding) :
    SurfaceM SurfaceState :=
  let st := unbindSurface st color
  match surfaceGet st target.vramAddr with
  | none => createSurface st color target
  | some surface => do
    let st := unbindOther st color surface
    SurfaceM.assert (!(target.swizzle && st.clearing)) .unsupported
    let compatible ← isCompatible st color surface target
    if compatible then .ok (reuseSurface st color memDirty surface)
    else do
      let st ← evictSurface st surface
      createSurface st color target

section

variable (tcgEnabled : Bool)

def flushSurface (st : SurfaceState) (color : Bool) : SurfaceState :=
  let st :=
    match tcgEnabled, st.bound color with
    | false, some s => downloadSurface st s true
    | _, _ => st
  st.setSurface color fun s => { s with writeEnabledCache := false, drawDirty := false }

def mustBind (st : SurfaceState) (upload color memDirty : Bool) : Bool :=
  (st.binding color).isNone || (upload && ((st.surface color).bufferDirty || memDirty))

def bindIfNeeded (st : SurfaceState) (upload color memDirty : Bool) (target : SurfaceBinding) :
    SurfaceM SurfaceState :=
  if mustBind st upload color memDirty then bindTarget st color memDirty target else .ok st

def updateSurfacePart (st : SurfaceState) (upload color memDirty : Bool) : SurfaceM SurfaceState := do
  let target ← populateSurfaceBindingTarget st color
  let st ← bindIfNeeded st upload color (!tcgEnabled && memDirty) target
  .ok (if !upload && (st.surface color).drawDirty then flushSurface tcgEnabled st color else st)

/-! ## Updates -/

def framebufferDirty (st : SurfaceState) : Bool :=
  st.surfaceShape != st.lastSurfaceShape &&
    (st.surfaceShape.colorFormat != 0 || st.surfaceShape.zetaFormat != 0)

def noteShape (st : SurfaceState) : SurfaceState :=
  if framebufferDirty st then
    { st with
      lastSurfaceShape := st.surfaceShape
      surface := fun color => { st.surface color with bufferDirty := true } }
  else st

def unbindDirty (st : SurfaceState) (color : Bool) : SurfaceState :=
  if (st.surface color).bufferDirty then unbindSurface st color else st

def uploadPart (st : SurfaceState) (color write memDirty : Bool) : SurfaceM SurfaceState :=
  let st := unbindDirty st color
  if write then updateSurfacePart tcgEnabled st true color memDirty else .ok st

def flushPart (st : SurfaceState) (color write memDirty : Bool) : SurfaceM SurfaceState :=
  if (write || (st.surface color).writeEnabledCache) && (st.surface color).drawDirty then
    updateSurfacePart tcgEnabled st false color memDirty
  else .ok st

def uploadSurfaceData (st : SurfaceState) (s : SurfaceBinding) : SurfaceState :=
  if s.uploadPending then
    { st.onSurface s.id fun s => { s with uploadPending := false } with
      transfers := if s.width = 0 ∨ s.height = 0 then st.transfers else st.transfers ++ [.upload s] }
  else st

def touchBound (st : SurfaceState) (upload color : Bool) : SurfaceState :=
  match st.bound color with
  | none => st
  | some s =>
    let st := st.onSurface s.id fun s => { s with frameTime := st.frameTime }
    if upload then
      (uploadSurfaceData st s).onSurface s.id fun s =>
        { s with swizzle := st.surfaceType = surfaceTypeSwizzle }
    else st

def dimensionsMatch (st : SurfaceState) : Bool :=
  match st.bound true, st.bound false with
  | some color, some zeta => color.width == zeta.width && color.height == zeta.height
  | _, _ => true

def updateParts (st : SurfaceState) (upload : Bool) (write memDirty : Bool → Bool) :
    SurfaceM SurfaceState :=
  if upload then do
    let st ← uploadPart tcgEnabled (noteShape st) true (write true) (memDirty true)
    uploadPart tcgEnabled st false (write false) (memDirty false)
  else do
    let st ← flushPart tcgEnabled st true (write true) (memDirty true)
    flushPart tcgEnabled st false (write false) (memDirty false)

def writes (st : SurfaceState) (requested : Bool → Bool) (color : Bool) : Bool :=
  requested color && (st.clearing || st.writeEnabled color)

def surfaceUpdate (st : SurfaceState) (upload : Bool) (requested memDirty : Bool → Bool) :
    SurfaceM SurfaceState := do
  let st := { st with surfaceShape := { st.surfaceShape with zFormat := st.setupRasterZFormat } }
  let st ← updateParts tcgEnabled st upload (writes st requested) memDirty
  let st := touchBound (touchBound st upload true) upload false
  SurfaceM.assert (dimensionsMatch st) .dimensionsDiffer
  expireOldSurfaces st

/-! ## What happens to the cache -/

def setSurfaceDirty (st : SurfaceState) (drawn : Bool → Bool) : SurfaceState :=
  let drawn := fun color => drawn color && st.writeEnabled color
  let draw := fun (st : SurfaceState) (color : Bool) =>
    let st := st.setSurface color fun s => { s with drawDirty := s.drawDirty || drawn color }
    match st.binding color with
    | none => st
    | some id => st.onSurface id fun s =>
        { s with drawDirty := s.drawDirty || drawn color, frameTime := st.frameTime }
  draw (draw st true) false

def surfaceFlush (st : SurfaceState) : SurfaceM SurfaceState :=
  let st := st.setSurface true fun s => { s with drawDirty := false }
  let st := st.setSurface false fun s => { s with drawDirty := false }
  let st := { st with lastSurfaceShape := .zero }
  evictWhere (fun _ => true) (unbindSurface (unbindSurface st true) false)

def surfaceAccess (st : SurfaceState) (addr len : Nat) (write : Bool) : SurfaceState :=
  { st with surfaces := st.surfaces.map fun s =>
      if checkSurfaceOverlapsRange s addr len then
        { s with
          downloadPending := s.downloadPending || s.drawDirty
          uploadPending := s.uploadPending || write }
      else s }

def processPendingDownloads (st : SurfaceState) : SurfaceState :=
  st.surfaces.foldl (fun st s => downloadSurface st s false) st

/-- The methods that program the surfaces, with the words the guest sends, the other ways in which
their registers change, and the calls of the renderer. -/
inductive SurfaceEvent where
  | surfaceUpdate (upload : Bool) (requested : Bool → Bool)
  | setContextDmaColor (parameter : Nat)
  | setContextDmaZeta (parameter : Nat)
  | setSurfaceClipHorizontal (parameter : Nat)
  | setSurfaceClipVertical (parameter : Nat)
  | setSurfaceFormat (parameter : Nat)
  | setSurfacePitch (parameter : Nat)
  | setSurfaceColorOffset (parameter : Nat)
  | setSurfaceZetaOffset (parameter : Nat)
  | setColorMask (enabled : Bool)
  | setDepthMask (enabled : Bool)
  | setControl0 (zetaEnabled : Bool) (zFormat : Nat)
  | writeControl0 (enabled : Bool → Bool)
  | writeSetupRaster (zFormat : Nat)
  | writeRamin (address : Nat) (object : Option DMAObject)
  | flipIncrementWrite
  | waitForIdle
  | clearSurface (written : Bool → Bool)
  | setSurfaceDirty (drawn : Bool → Bool)
  | surfaceFlush
  | surfaceAccess (addr len : Nat) (write : Bool)
  | processPendingDownloads

def SurfaceEvent.flushes : SurfaceEvent → Bool
  | setContextDmaColor _ | setSurfaceClipHorizontal _ | setSurfaceClipVertical _ => true
  | setSurfaceFormat _ | setSurfacePitch _ | setSurfaceColorOffset _ | setSurfaceZetaOffset _ => true
  | setControl0 _ _ | waitForIdle => true
  | _ => false

def setSurfaceFormat (st : SurfaceState) (parameter : Nat) : SurfaceState :=
  let shape := { st.surfaceShape with
    colorFormat := parameter % 2 ^ 4
    zetaFormat := parameter / 2 ^ 4 % 2 ^ 4
    antiAliasing := parameter / 2 ^ 12 % 2 ^ 4
    logWidth := parameter / 2 ^ 16 % 2 ^ 8
    logHeight := parameter / 2 ^ 24 % 2 ^ 8 }
  let surfaceType := parameter / 2 ^ 8 % 2 ^ 4
  if surfaceType = st.surfaceType then { st with surfaceShape := shape }
  else
    { st with
      surfaceShape := shape
      surfaceType := surfaceType
      surface := fun color => { st.surface color with bufferDirty := true } }

def setPitch (st : SurfaceState) (color : Bool) (pitch : Nat) : SurfaceState :=
  st.setSurface color fun s =>
    { s with bufferDirty := s.bufferDirty || s.pitch != pitch, pitch := pitch }

def setOffset (st : SurfaceState) (color : Bool) (offset : Nat) : SurfaceState :=
  st.setSurface color fun s =>
    { s with bufferDirty := s.bufferDirty || s.offset != offset, offset := offset }

def setDma (st : SurfaceState) (color : Bool) (parameter : Nat) : SurfaceState :=
  { st with dma := update st.dma color parameter }.setSurface color fun s =>
    { s with bufferDirty := true }

def setMask (st : SurfaceState) (color enabled : Bool) : SurfaceState :=
  { st.setSurface color fun s =>
      { s with writeEnabledCache := s.writeEnabledCache || st.writeEnabled color } with
    writeEnabled := update st.writeEnabled color enabled }

def SurfaceEvent.program (st : SurfaceState) : SurfaceEvent → SurfaceState
  | setContextDmaColor parameter => setDma st true parameter
  | setContextDmaZeta parameter => setDma st false parameter
  | setSurfaceClipHorizontal parameter =>
    { st with surfaceShape :=
        { st.surfaceShape with clipX := parameter % 2 ^ 16, clipWidth := parameter / 2 ^ 16 % 2 ^ 16 } }
  | setSurfaceClipVertical parameter =>
    { st with surfaceShape :=
        { st.surfaceShape with clipY := parameter % 2 ^ 16, clipHeight := parameter / 2 ^ 16 % 2 ^ 16 } }
  | setSurfaceFormat parameter => Vk.setSurfaceFormat st parameter
  | setSurfacePitch parameter =>
    setPitch (setPitch st true (parameter % 2 ^ 16)) false (parameter / 2 ^ 16 % 2 ^ 16)
  | setSurfaceColorOffset parameter => setOffset st true parameter
  | setSurfaceZetaOffset parameter => setOffset st false parameter
  | setColorMask enabled => setMask st true enabled
  | setDepthMask enabled => setMask st false enabled
  | setControl0 zetaEnabled zFormat =>
    { st with
      writeEnabled := update st.writeEnabled false zetaEnabled
      setupRasterZFormat := zFormat }
  | writeControl0 enabled => { st with writeEnabled := enabled }
  | writeSetupRaster zFormat => { st with setupRasterZFormat := zFormat }
  | writeRamin address object => { st with ramin := update st.ramin address object }
  | flipIncrementWrite => { st with frameTime := st.frameTime + 1 }
  | _ => st

def clearSurface (st : SurfaceState) (written memDirty : Bool → Bool) : SurfaceM SurfaceState := do
  let st ← surfaceUpdate tcgEnabled { st with clearing := true } true written memDirty
  let st := { st with clearing := false }
  .ok (if (st.binding true).isNone && (st.binding false).isNone then st else setSurfaceDirty st written)

def flushFirst (st : SurfaceState) (flushes : Bool) (memDirty : Bool → Bool) : SurfaceM SurfaceState :=
  if flushes then surfaceUpdate tcgEnabled st false (fun _ => true) memDirty else .ok st

def SurfaceEvent.step (st : SurfaceState) (memDirty : Bool → Bool) : SurfaceEvent → SurfaceM SurfaceState
  | .surfaceUpdate upload requested => Vk.surfaceUpdate tcgEnabled st upload requested memDirty
  | .clearSurface written => Vk.clearSurface tcgEnabled st written memDirty
  | .setSurfaceDirty drawn => .ok (Vk.setSurfaceDirty st drawn)
  | .surfaceFlush => Vk.surfaceFlush st
  | .surfaceAccess addr len write => .ok (Vk.surfaceAccess st addr len write)
  | .processPendingDownloads => .ok (Vk.processPendingDownloads st)
  | event => do
    let st ← flushFirst tcgEnabled st event.flushes memDirty
    .ok (event.program st)

def runSurfaces (st : SurfaceState) (events : List (SurfaceEvent × (Bool → Bool))) :
    SurfaceM SurfaceState :=
  events.foldlM (fun st e => e.1.step tcgEnabled st e.2) st

def SurfaceRegs.start (regs : SurfaceRegs) : SurfaceState where
  toSurfaceRegs := regs
  surfaces := []
  invalidSurfaces := []
  binding := fun _ => none
  nextId := 0
  transfers := []

end

end DukeX.Nv2a.Vk
