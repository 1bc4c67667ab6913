import DukeX.Nv2a.TextureShape
import DukeX.Qemu.LruCorrect

/-!
# The cache of textures

`pgraph/vk/texture.c`: textures are kept in an LRU cache under a key made of everything the
registers of a stage say.
-/

namespace DukeX.Nv2a

open Lib Qemu
open Function (update update_of_ne)

structure TextureKey where
  state : TextureShape
  textureVramOffset : Nat
  textureLength : Nat
  paletteVramOffset : Nat
  paletteLength : Nat
  scale : Nat
  filter : Word
  address : Word
  borderColor : Word
  maxAnisotropy : Nat
  deriving DecidableEq

instance : Setoid TextureKey := ⟨Eq, eq_equivalence⟩

instance : DecidableRel ((· ≈ ·) : TextureKey → TextureKey → Prop) :=
  inferInstanceAs (DecidableEq TextureKey)

inductive ImageSource where
  | memory (texture palette : List UInt8)
  | surface (drawTime : Nat)
  deriving DecidableEq

structure TextureEntry where
  image : Option ImageSource
  possiblyDirty : Bool
  hash : UInt64
  drawTime : Nat

inductive BoundTexture (N : Type) where
  | null
  | dummy
  | entry (node : N)
  deriving DecidableEq

structure VkTextures (N : Type) where
  textureCache : Lru N TextureKey
  entries : N → TextureEntry
  textureBindings : Fin 4 → BoundTexture N

structure TextureState (N : Type) where
  d : NV2AState TextureFields
  r : VkTextures N
  dirty : Nat → Bool

structure CreateEnv (N : Type) where
  surface : Option Nat
  surfaceScaleFactor : Nat
  downloads : List (Nat × List UInt8)
  inCommandBuffer : N → Bool

/-! ## Pages -/

def targetPageSize : Nat := 4096

def firstPage (addr : Nat) : Nat := addr / targetPageSize

def endPage (addr size : Nat) : Nat := (addr + size + targetPageSize - 1) / targetPageSize

section Code

variable {N : Type} [DecidableEq N]

def TextureState.write (m : TextureState N) (addr : Nat) (data : List UInt8) : TextureState N :=
  { m with
    d := { m.d with vram := m.d.vram.write addr data }
    dirty := fun page =>
      m.dirty page || (decide (firstPage addr ≤ page) && decide (page < endPage addr data.length)) }

def checkTextureDirty (m : TextureState N) (addr size : Nat) : Option (Bool × TextureState N) :=
  if endPage addr size * targetPageSize < m.d.vramSize then
    some ((List.range' (firstPage addr) (endPage addr size - firstPage addr)).any m.dirty,
      { m with
        dirty := fun page =>
          m.dirty page && !(decide (firstPage addr ≤ page) && decide (page < endPage addr size)) })
  else none

def rangeEnd (addr size : Nat) : Nat := (addr + size + 2 ^ 64 - 1) % 2 ^ 64

def overlapping (addr addrEnd addr' addrEnd' : Nat) : Bool :=
  !(decide (addrEnd' < addr) || decide (addrEnd < addr'))

def markTexturesPossiblyDirtyVisitor (addr addrEnd : Nat) (key : TextureKey) (e : TextureEntry) :
    TextureEntry :=
  if e.possiblyDirty then e
  else
    let texture := overlapping addr addrEnd key.textureVramOffset
      (rangeEnd key.textureVramOffset key.textureLength)
    let palette := decide (0 < key.paletteLength) &&
      overlapping addr addrEnd key.paletteVramOffset
        (rangeEnd key.paletteVramOffset key.paletteLength)
    { e with possiblyDirty := texture || palette }

def markEntries (r : VkTextures N) (addr addrEnd : Nat) : N → TextureEntry :=
  lruVisitActive r.textureCache (fun entries node =>
    update entries node (markTexturesPossiblyDirtyVisitor addr addrEnd
      (r.textureCache.key node) (entries node))) r.entries

def pgraphVkMarkTexturesPossiblyDirty (m : TextureState N) (addr size : Nat) :
    Option (TextureState N) :=
  let addrEnd := rangeEnd 0 (endPage addr size * targetPageSize)
  let addr := firstPage addr * targetPageSize
  if addrEnd ≤ m.d.vramSize then
    some { m with r := { m.r with entries := markEntries m.r addr addrEnd } }
  else none

def checkRange (m : TextureState N) (addr size : Nat) : Option (Bool × TextureState N) := do
  let (found, m) ← checkTextureDirty m addr size
  if found then return (true, ← pgraphVkMarkTexturesPossiblyDirty m addr size)
  else return (false, m)

def checkTexturePossiblyDirty (m : TextureState N)
    (textureVramOffset length paletteVramOffset paletteLength : Nat) :
    Option (Bool × TextureState N) := do
  let (texture, m) ← checkRange m textureVramOffset (length % 2 ^ 32)
  if paletteLength % 2 ^ 32 = 0 then return (texture, m)
  else
    let (palette, m) ← checkRange m paletteVramOffset (paletteLength % 2 ^ 32)
    return (texture || palette, m)

/-! ## Keys and content -/

def isIndexed (shape : TextureShape) : Bool := shape.colorFormat = szI8A8r8g8b8

def paletteVramOffset (d : NV2AState TextureFields) (s : StageRegs) (state : TextureShape) :
    Option Nat :=
  if isIndexed state then pgraphGetTexturePalettePhysAddr d s else some 0

def StageRegs.key (s : StageRegs) (state : TextureShape)
    (textureVramOffset textureLength paletteVramOffset : Nat) : TextureKey where
  state
  textureVramOffset
  textureLength
  paletteVramOffset
  paletteLength := if isIndexed state then paletteLength s else 0
  scale := 1
  filter := s.filter
  address := s.address
  borderColor := s.borderColor
  maxAnisotropy := 2 ^ (getMask s.ctl0 nvPgraphTexctl00MaxAnisotropy).toNat

def textureKey (d : NV2AState TextureFields) (i : Fin 4) : Option TextureKey := do
  let s := stageRegs d.pgraph i
  let state ← pgraphGetTextureShape s i
  let textureVramOffset ← pgraphGetTexturePhysAddr d s
  let textureLength ← pgraphGetTextureLength state
  let paletteVramOffset ← paletteVramOffset d s state
  return s.key state textureVramOffset textureLength paletteVramOffset

def TextureKey.content (key : TextureKey) (vram : Store) : ImageSource :=
  .memory (vram.read key.textureVramOffset key.textureLength)
    (vram.read key.paletteVramOffset key.paletteLength)

def TextureKey.InVram (key : TextureKey) (vramSize : Nat) : Prop :=
  key.textureVramOffset + key.textureLength ≤ vramSize ∧
    key.paletteVramOffset + key.paletteLength ≤ vramSize

instance (key : TextureKey) (vramSize : Nat) : Decidable (key.InVram vramSize) :=
  inferInstanceAs (Decidable (_ ∧ _))

variable (fastHash : List UInt8 → UInt64) (keyHash : TextureKey → UInt64)

def TextureKey.sourceHash (key : TextureKey) : ImageSource → UInt64
  | .memory texture palette =>
    if isIndexed key.state then fastHash texture ^^^ fastHash palette else fastHash texture
  | .surface _ => 0

/-- The calls of `fast_hash` on VRAM; `none` where they run past its end. -/
def contentHash (m : TextureState N) (key : TextureKey) : Option UInt64 :=
  if key.InVram m.d.vramSize then some (key.sourceHash fastHash (key.content m.d.vram)) else none

def textureCacheEntryPreEvict (m : TextureState N) (inCommandBuffer : N → Bool) (node : N) : Bool :=
  !(List.finRange 4).any (fun i => m.r.textureBindings i = .entry node) && !inCommandBuffer node

def lookupTexture (m : TextureState N) (inCommandBuffer : N → Bool) (key : TextureKey) :
    Option (N × TextureState N) := do
  let (node, cache) ← lruLookup m.r.textureCache (keyHash key) key
    (textureCacheEntryPreEvict m inCommandBuffer)
  let entries :=
    if (lruFind m.r.textureCache (keyHash key) key).isSome then m.r.entries
    else update m.r.entries node { m.r.entries node with image := none }
  return (node, { m with r := { m.r with textureCache := cache, entries } })

def TextureState.setEntry (m : TextureState N) (node : N) (e : TextureEntry) : TextureState N :=
  { m with r := { m.r with entries := update m.r.entries node e } }

def TextureState.bind (m : TextureState N) (i : Fin 4) (t : BoundTexture N) : TextureState N :=
  { m with r := { m.r with textureBindings := update m.r.textureBindings i t } }

def createFromSurface (m : TextureState N) (node : N) (drawTime : Nat) : TextureState N :=
  let e := m.r.entries node
  if e.image.isSome then
    if drawTime ≠ e.drawTime then
      m.setEntry node { e with image := some (.surface drawTime), drawTime }
    else m
  else m.setEntry node
    { image := some (.surface drawTime), possiblyDirty := false, hash := 0, drawTime }

/-- `create_texture` without such a surface, once the entry is found. -/
def createFromMemory (m : TextureState N) (node : N) (key : TextureKey) :
    Option (TextureState N) := do
  let found := m.r.entries node
  let (checked, m) ← checkTexturePossiblyDirty m key.textureVramOffset key.textureLength
    key.paletteVramOffset key.paletteLength
  if found.image.isSome then
    if found.possiblyDirty || checked then
      let hash ← contentHash fastHash m key
      if hash ≠ found.hash then
        return m.setEntry node
          { m.r.entries node with image := some (key.content m.d.vram), hash }
      else return m
    else return m
  else
    let hash ← contentHash fastHash m key
    return m.setEntry node
      { image := some (key.content m.d.vram), possiblyDirty := false, hash, drawTime := 0 }

def createTexture (env : CreateEnv N) (m : TextureState N) (i : Fin 4) :
    Option (TextureState N) := do
  let key ← textureKey m.d i
  match env.surface with
  | some drawTime =>
    let key := { key with scale := max 1 env.surfaceScaleFactor }
    let (node, m) ← lookupTexture keyHash m env.inCommandBuffer key
    return createFromSurface (m.bind i (.entry node)) node drawTime
  | none =>
    let m := env.downloads.foldl (fun m w => m.write w.1 w.2) m
    let (node, m) ← lookupTexture keyHash m env.inCommandBuffer key
    createFromMemory fastHash (m.bind i (.entry node)) node key

def checkTexturesDirty (m : TextureState N) : Bool :=
  (List.finRange 4).any fun i =>
    m.r.textureBindings i = .null || m.d.pgraph.rest.textureDirty i

def enabled (m : TextureState N) (i : Fin 4) : Bool :=
  pgraphIsTextureEnabled (stageRegs m.d.pgraph i)

def TextureState.setTextureDirty (m : TextureState N) (i : Fin 4) (flag : Bool) : TextureState N :=
  { m with d := { m.d with pgraph := { m.d.pgraph with rest := { m.d.pgraph.rest with
      textureDirty := update m.d.pgraph.rest.textureDirty i flag } } } }

def bindStage (env : Fin 4 → CreateEnv N) (m : TextureState N) (i : Fin 4) :
    Option (TextureState N) :=
  if enabled m i then
    (createTexture fastHash keyHash (env i) m i).map (·.setTextureDirty i false)
  else some (m.bind i .dummy)

def pgraphVkBindTextures (env : Fin 4 → CreateEnv N) (m : TextureState N) :
    Option (TextureState N) :=
  if checkTexturesDirty m then (List.finRange 4).foldlM (bindStage fastHash keyHash env) m
  else some m

end Code

section Lookup

variable {N : Type} [DecidableEq N] {keyHash : TextureKey → UInt64}

structure CacheOk (r : VkTextures N) : Prop where
  wf : r.textureCache.Wf
  recent : ∃ returned, r.textureCache.Recent returned
  bound : ∀ i n, r.textureBindings i = .entry n → r.textureCache.Used n

/-- From `r` to `r'` by looking up a key. -/
structure LookedUp (key : TextureKey) (node : N) (r r' : VkTextures N) : Prop where
  ok : CacheOk r'
  bindings : r'.textureBindings = r.textureBindings
  used : r'.textureCache.Used node
  keyed : r'.textureCache.key node = key
  inUse : ∀ n, n ≠ node → (r'.textureCache.Used n ↔ r.textureCache.Used n)
  keys : ∀ n, n ≠ node → r'.textureCache.key n = r.textureCache.key n
  entries : ∀ n, n ≠ node → r'.entries n = r.entries n
  hit_or_miss : (r.textureCache.Used node ∧ r.textureCache.key node = key ∧
      r'.entries node = r.entries node) ∨
    ((r'.entries node).image = none ∧ ∀ i, r.textureBindings i ≠ .entry node)

variable {m m' : TextureState N} {inCommandBuffer : N → Bool} {node : N} {key : TextureKey}
  {addr size a offset length : Nat} {found : Bool}

theorem not_bound_of_preEvict
    (h : textureCacheEntryPreEvict m inCommandBuffer node = true) (i : Fin 4) :
    m.r.textureBindings i ≠ .entry node := by
  rw [textureCacheEntryPreEvict, Bool.and_eq_true, Bool.not_eq_true', List.any_eq_false] at h
  simp_all

theorem lookupTexture_spec (hok : CacheOk m.r)
    (h : lookupTexture keyHash m inCommandBuffer key = some (node, m')) :
    m'.d = m.d ∧ m'.dirty = m.dirty ∧ LookedUp key node m.r m'.r := by
  obtain ⟨⟨_, cache⟩, hl, hret⟩ := Option.bind_eq_some_iff.mp h
  cases hret
  obtain ⟨returned, hrecent⟩ := hok.recent
  obtain ⟨hwf', hrecent', hperm, hused, hmatch⟩ := hok.wf.lookup hrecent hl
  -- both outcomes leave the other nodes alone
  have hinUse : cache.inUse = update m.r.textureCache.inUse node true := by
    rcases lruLookup_frame hl with ⟨_, hinUse, _⟩ | ⟨_, _, hinUse, _⟩
    · exact hinUse
    · exact hinUse
  have hothers : ∀ n, n ≠ node → (cache.Used n ↔ m.r.textureCache.Used n) := by
    intro n hn
    rw [Lru.Used, Lru.Used, hperm.mem_iff, hinUse, update_of_ne hn]
  have hbound : ∀ i n, m.r.textureBindings i = .entry n → cache.Used n := by
    intro i n hin
    by_cases hn : n = node
    · exact hn ▸ hused
    · exact (hothers n hn).mpr (hok.bound i n hin)
  refine ⟨rfl, rfl, ⟨⟨hwf', ⟨_, hrecent'⟩, hbound⟩, rfl, hused, hmatch.2, hothers, ?_, ?_, ?_⟩⟩
  · intro n hn
    rcases lruLookup_frame hl with ⟨_, _, hkey⟩ | ⟨_, _, _, hkey⟩
    · exact congrFun hkey n
    · exact (congrFun hkey n).trans (update_of_ne hn _ _)
  · grind
  · rcases lruLookup_frame hl with ⟨hfind, _, _⟩ | ⟨hfind, hmay, _, _⟩
    · left
      obtain ⟨hused', hmatch', _⟩ := lruFind_some hok.wf hfind
      refine ⟨hused', hmatch'.2, ?_⟩
      simp only [hfind, Option.isSome_some, if_true]
    · right
      constructor
      · simp only [hfind, Option.isSome_none, Bool.false_eq_true, if_false, Function.update_self]
      · intro i hi
        rcases hmay with hfree | hmay
        · have hused' := (hok.bound i node hi).2
          exact Bool.noConfusion (hfree.symm.trans hused')
        · exact not_bound_of_preEvict hmay i hi

theorem LookedUp.bind_ok {m m1 : TextureState N}
    (h : LookedUp key node m.r m1.r) (i : Fin 4) : CacheOk (m1.bind i (.entry node)).r := by
  refine ⟨h.ok.wf, h.ok.recent, fun j n hj => ?_⟩
  change update m1.r.textureBindings i (.entry node) j = .entry n at hj
  rw [Function.update_apply] at hj
  split at hj
  · cases hj
    exact h.used
  · exact h.ok.bound j n hj

/-! ## What a check of the pages does -/

def OnPages (addr size page : Nat) : Prop := firstPage addr ≤ page ∧ page < endPage addr size

omit [DecidableEq N] in
theorem checkTextureDirty_spec (h : checkTextureDirty m addr size = some (found, m')) :
    m'.d = m.d ∧ m'.r = m.r ∧ endPage addr size * targetPageSize < m.d.vramSize ∧
      (∀ page, ¬ OnPages addr size page → m'.dirty page = m.dirty page) ∧
      (found = false → ∀ page, OnPages addr size page → m.dirty page = false) := by
  rw [checkTextureDirty, Option.ite_none_right_eq_some, Option.some.injEq, Prod.mk.injEq] at h
  obtain ⟨hend, rfl, rfl⟩ := h
  refine ⟨rfl, rfl, hend, fun page hpage => ?_, fun hfound page hpage => ?_⟩
  · have hkeep : (decide (firstPage addr ≤ page) && decide (page < endPage addr size)) = false := by
      rw [← Bool.decide_and, decide_eq_false_iff_not]
      exact hpage
    simp only [hkeep, Bool.not_false, Bool.and_true]
  · have hmem : page ∈ List.range' (firstPage addr) (endPage addr size - firstPage addr) := by
      have := hpage.1
      have := hpage.2
      exact List.mem_range'_1.mpr (by omega)
    exact Bool.eq_false_iff.mpr (List.any_eq_false.mp hfound page hmem)

theorem pgraphVkMarkTexturesPossiblyDirty_spec
    (h : pgraphVkMarkTexturesPossiblyDirty m addr size = some m') :
    m'.d = m.d ∧ m'.dirty = m.dirty ∧ m'.r = { m.r with
      entries := (markEntries m.r (firstPage addr * targetPageSize)
        (rangeEnd 0 (endPage addr size * targetPageSize))) } := by
  rw [pgraphVkMarkTexturesPossiblyDirty] at h
  obtain ⟨_, h⟩ := Option.ite_none_right_eq_some.mp h
  exact Option.some.inj h ▸ ⟨rfl, rfl, rfl⟩

theorem checkTexturePossiblyDirty_cases {offset length offset' length' : Nat}
    (h : checkTexturePossiblyDirty m offset length offset' length' = some (found, m')) :
    ∃ texture m1, checkRange m offset (length % 2 ^ 32) = some (texture, m1) ∧
      ((length' % 2 ^ 32 = 0 ∧ found = texture ∧ m' = m1) ∨
        ∃ palette, checkRange m1 offset' (length' % 2 ^ 32) = some (palette, m') ∧
          found = (texture || palette)) := by
  obtain ⟨⟨texture, m1⟩, htexture, h⟩ := Option.bind_eq_some_iff.mp h
  refine ⟨texture, m1, htexture, ?_⟩
  dsimp only at h
  split at h
  · rename_i hzero
    obtain ⟨rfl, rfl⟩ := Prod.mk.inj (Option.some.inj h)
    exact .inl ⟨hzero, rfl, rfl⟩
  · obtain ⟨⟨palette, m2⟩, hpalette, h⟩ := Option.bind_eq_some_iff.mp h
    obtain ⟨rfl, rfl⟩ := Prod.mk.inj (Option.some.inj h)
    exact .inr ⟨palette, hpalette, rfl⟩

end Lookup

def unbound : TextureState (Fin 2) where
  d :=
    { pmc := ⟨0, 0⟩
      pfifo := { pendingInterrupts := 0, enabledInterrupts := 0, regs := fun _ => 0 }
      ptimer := ⟨⟨0, 0⟩, 0, 0, 0⟩
      pcrtc := ⟨⟨0, 0⟩, 0, 0⟩
      pgraph :=
        { pendingInterrupts := 0
          enabledInterrupts := 0
          regs := fun _ => 0
          regsDirty := fun _ => false
          waitingForNop := false
          waitingForFlip := false
          waitingForContextSwitch := false
          rest := ⟨0, 0, fun _ => false⟩ }
      vram := fun _ => 0
      vramSize := 0x4000000
      ramin := fun a => if a = 6 then 0xFF else 0
      raminSize := 0x100000
      irq := false }
  r :=
    { textureCache :=
        { global := [0, 1]
          bins := fun _ => []
          numUsed := 0
          numFree := 2
          hash := fun _ => 0
          inUse := fun _ => false
          key := fun _ => (⟨0, 0, 0, 0, 0, 0, 0, 0, 0, 0⟩ : StageRegs).key
            ⟨false, 0, 0, 0, 0, 0, 0, false, 0, 0, 0⟩ 0 0 0 }
      entries := fun _ => ⟨none, false, 0, 0⟩
      textureBindings := fun _ => .null }
  dirty := fun _ => false

theorem unbound_ok : CacheOk unbound.r where
  wf :=
    { nodup := by decide
      mem_bins := fun b n => by simp [unbound, Lru.Used]
      bins_nodup := fun b => List.nodup_nil
      numUsed := by decide
      numFree := by decide
      unique := fun n m hn => by simp [unbound, Lru.Used] at hn }
  recent := ⟨[], fun n hn => by simp [unbound, Lru.Used] at hn, by decide⟩
  bound := fun i n h => nomatch h

end DukeX.Nv2a
