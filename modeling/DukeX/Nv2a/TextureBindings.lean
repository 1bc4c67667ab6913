import DukeX.Lib.Trace
import DukeX.Nv2a.TextureCache

/-!
# Bound textures and the registers they were bound for

A draw binds the textures anew only if a stage is flagged as dirty or has nothing bound.
-/

namespace DukeX.Nv2a

open Lib Qemu
open Function (update update_of_ne update_self)
open Option (bind_eq_bind bind_eq_some_iff map_eq_some_iff pure_def)

/-! ## The methods of a texture stage -/

inductive TextureMethod where
  | offset | format | address | control0 | control1 | filter | imageRect | palette | borderColor
  deriving DecidableEq

def setTextureFormatContextDma : Word := 0x3
def setTextureFormatCubemapEnable : Word := 1#32 <<< 2
def setTextureFormatBorderSource : Word := 1#32 <<< 3
def setTextureFormatDimensionality : Word := 0xF0
def setTextureFormatColor : Word := 0xFF00
def setTextureFormatMipmapLevels : Word := 0x000F0000
def setTextureFormatBaseSizeU : Word := 0x00F00000
def setTextureFormatBaseSizeV : Word := 0x0F000000
def setTextureFormatBaseSizeP : Word := 0xF0000000
def setTexturePaletteContextDma : Word := 1
def setTexturePaletteLength : Word := 0xC
def setTexturePaletteOffset : Word := 0xFFFFFFC0

def flagTexture (pg : PGRAPHState TextureFields) (slot : Fin 4) : PGRAPHState TextureFields :=
  { pg with rest := { pg.rest with
      textureDirty := update pg.rest.textureDirty slot true } }

def setTextureRegister (register : Nat) (pg : PGRAPHState TextureFields) (slot : Fin 4)
    (parameter : Word) : Option (PGRAPHState TextureFields) :=
  pgraphRegW pg (register + slot * 4) parameter

def setFlaggedRegister (register : Nat) (pg : PGRAPHState TextureFields) (slot : Fin 4)
    (parameter : Word) : Option (PGRAPHState TextureFields) :=
  (setTextureRegister register pg slot parameter).map (flagTexture · slot)

def setTextureOffset := setFlaggedRegister nvPgraphTexoffset0
def setTextureControl0 := setFlaggedRegister nvPgraphTexctl00
def setTextureControl1 := setFlaggedRegister nvPgraphTexctl10
def setTextureFilter := setFlaggedRegister nvPgraphTexfilter0
def setTextureImageRect := setFlaggedRegister nvPgraphTeximagerect0

-- these two do not raise the flag
def setTextureAddress := setTextureRegister nvPgraphTexaddress0
def setTextureBorderColor := setTextureRegister nvPgraphBordercolor0

def setTextureFormat (pg : PGRAPHState TextureFields) (slot : Fin 4) (parameter : Word) :
    Option (PGRAPHState TextureFields) := do
  let reg := nvPgraphTexfmt0 + slot * 4
  let dmaSelect : Word := if getMask parameter setTextureFormatContextDma = 2 then 1 else 0
  let cubemap : Word := if getMask parameter setTextureFormatCubemapEnable = 0 then 0 else 1
  let pg ← pgSetMask pg reg nvPgraphTexfmt0ContextDma dmaSelect
  let pg ← pgSetMask pg reg nvPgraphTexfmt0Cubemapenable cubemap
  let pg ← pgSetMask pg reg nvPgraphTexfmt0BorderSource
    (getMask parameter setTextureFormatBorderSource)
  let pg ← pgSetMask pg reg nvPgraphTexfmt0Dimensionality
    (getMask parameter setTextureFormatDimensionality)
  let pg ← pgSetMask pg reg nvPgraphTexfmt0Color (getMask parameter setTextureFormatColor)
  let pg ← pgSetMask pg reg nvPgraphTexfmt0MipmapLevels
    (getMask parameter setTextureFormatMipmapLevels)
  let pg ← pgSetMask pg reg nvPgraphTexfmt0BaseSizeU (getMask parameter setTextureFormatBaseSizeU)
  let pg ← pgSetMask pg reg nvPgraphTexfmt0BaseSizeV (getMask parameter setTextureFormatBaseSizeV)
  let pg ← pgSetMask pg reg nvPgraphTexfmt0BaseSizeP (getMask parameter setTextureFormatBaseSizeP)
  return flagTexture pg slot

def setTexturePalette (pg : PGRAPHState TextureFields) (slot : Fin 4) (parameter : Word) :
    Option (PGRAPHState TextureFields) := do
  let reg := nvPgraphTexpalette0 + slot * 4
  let dmaSelect : Word := if getMask parameter setTexturePaletteContextDma = 1 then 1 else 0
  let pg ← pgSetMask pg reg nvPgraphTexpalette0ContextDma dmaSelect
  let pg ← pgSetMask pg reg nvPgraphTexpalette0Length (getMask parameter setTexturePaletteLength)
  let pg ← pgSetMask pg reg nvPgraphTexpalette0Offset (getMask parameter setTexturePaletteOffset)
  return flagTexture pg slot

def textureMethod : TextureMethod → PGRAPHState TextureFields → Fin 4 → Word →
    Option (PGRAPHState TextureFields)
  | .offset => setTextureOffset
  | .format => setTextureFormat
  | .address => setTextureAddress
  | .control0 => setTextureControl0
  | .control1 => setTextureControl1
  | .filter => setTextureFilter
  | .imageRect => setTextureImageRect
  | .palette => setTexturePalette
  | .borderColor => setTextureBorderColor

def setContextDma (pg : PGRAPHState TextureFields) (selectB : Bool) (parameter : Word) :
    PGRAPHState TextureFields :=
  { pg with rest :=
      if selectB then { pg.rest with dmaB := parameter } else { pg.rest with dmaA := parameter } }

inductive TextureEvent (N : Type) where
  | method (kind : TextureMethod) (slot : Fin 4) (parameter : Word)
  | contextDma (selectB : Bool) (parameter : Word)
  | draw (env : Fin 4 → CreateEnv N)

section Bindings

variable {N : Type} [DecidableEq N] (fastHash : List UInt8 → UInt64) (keyHash : TextureKey → UInt64)

def TextureState.setPgraph (m : TextureState N) (pg : PGRAPHState TextureFields) : TextureState N :=
  { m with d := { m.d with pgraph := pg } }

def textureStep (m : TextureState N) : TextureEvent N → Option (TextureState N)
  | .method kind slot parameter =>
    (textureMethod kind m.d.pgraph slot parameter).map m.setPgraph
  | .contextDma selectB parameter => some (m.setPgraph (setContextDma m.d.pgraph selectB parameter))
  | .draw env => pgraphVkBindTextures fastHash keyHash env m

def TextureKey.unscaled (key : TextureKey) : TextureKey := { key with scale := 1 }

/-- What is bound to the stage has the key its registers and DMA objects make, but for the scale. -/
def BoundAsDescribed (m : TextureState N) (i : Fin 4) : Prop :=
  ∃ node, m.r.textureBindings i = .entry node ∧
    textureKey m.d i = some (m.r.textureCache.key node).unscaled

instance [Fintype N] (m : TextureState N) (i : Fin 4) : Decidable (BoundAsDescribed m i) :=
  inferInstanceAs (Decidable (∃ _, _ ∧ _))

def SamplesDescribed (m : TextureState N) : Prop :=
  ∀ i, enabled m i = true → BoundAsDescribed m i

variable {d : NV2AState TextureFields} {i slot : Fin 4} {key : TextureKey} {m m' : TextureState N}
  {found : Bool} {env : Fin 4 → CreateEnv N} {register : Nat} {pg pg' : PGRAPHState TextureFields}
  {parameter : Word} {kind : TextureMethod} {e : TextureEvent N}

theorem textureKey_eq_some :
    textureKey d i = some key ↔ ∃ state offset length palette,
      pgraphGetTextureShape (stageRegs d.pgraph i) i = some state ∧
      pgraphGetTexturePhysAddr d (stageRegs d.pgraph i) = some offset ∧
      pgraphGetTextureLength state = some length ∧
      paletteVramOffset d (stageRegs d.pgraph i) state = some palette ∧
      key = (stageRegs d.pgraph i).key state offset length palette := by
  simp only [textureKey, bind_eq_bind, bind_eq_some_iff, pure_def,
    Option.some.injEq]
  constructor
  · grind
  · grind

theorem textureKey_unscaled (h : textureKey d i = some key) : key.unscaled = key := by
  obtain ⟨_, _, _, _, _, _, _, _, rfl⟩ := textureKey_eq_some.mp h
  rfl

/-! ## Creating a texture -/

variable {fastHash keyHash}

theorem checkRange_frame {addr size : Nat} (h : checkRange m addr size = some (found, m')) :
    m'.d = m.d ∧ m'.r.textureCache = m.r.textureCache ∧
      m'.r.textureBindings = m.r.textureBindings := by
  obtain ⟨⟨found', m1⟩, hcheck, h⟩ := bind_eq_some_iff.mp h
  obtain ⟨hd, hr, -⟩ := checkTextureDirty_spec hcheck
  cases found' with
  | false =>
    simp_all
  | true =>
    simp only [if_true, bind_eq_bind, bind_eq_some_iff, pure_def,
      Option.some.injEq, Prod.mk.injEq] at h
    obtain ⟨m2, hmark, _, rfl⟩ := h
    obtain ⟨hd', -, hr'⟩ := pgraphVkMarkTexturesPossiblyDirty_spec hmark
    exact ⟨hd'.trans hd, by rw [hr', hr], by rw [hr', hr]⟩

theorem checkTexturePossiblyDirty_frame {offset length offset' length' : Nat}
    (h : checkTexturePossiblyDirty m offset length offset' length' = some (found, m')) :
    m'.d = m.d ∧ m'.r.textureCache = m.r.textureCache ∧
      m'.r.textureBindings = m.r.textureBindings := by
  obtain ⟨texture, m1, htexture, h⟩ := checkTexturePossiblyDirty_cases h
  have hframe := checkRange_frame htexture
  rcases h with ⟨_, _, rfl⟩ | ⟨palette, hpalette, _⟩
  · exact hframe
  · have hframe' := checkRange_frame hpalette
    exact ⟨hframe'.1.trans hframe.1, hframe'.2.1.trans hframe.2.1, hframe'.2.2.trans hframe.2.2⟩

theorem createFromMemory_frame {node : N} (h : createFromMemory fastHash m node key = some m') :
    m'.d = m.d ∧ m'.r.textureCache = m.r.textureCache ∧
      m'.r.textureBindings = m.r.textureBindings := by
  obtain ⟨⟨checked, m1⟩, hcheck, h⟩ := bind_eq_some_iff.mp h
  have hframe := checkTexturePossiblyDirty_frame hcheck
  dsimp only at h
  split at h
  · split at h
    · obtain ⟨hash, _, h⟩ := bind_eq_some_iff.mp h
      split at h
      · exact Option.some.inj h ▸ hframe
      · exact Option.some.inj h ▸ hframe
    · exact Option.some.inj h ▸ hframe
  · obtain ⟨hash, _, h⟩ := bind_eq_some_iff.mp h
    exact Option.some.inj h ▸ hframe

theorem createFromSurface_frame (m : TextureState N) (node : N) (drawTime : Nat) :
    (createFromSurface m node drawTime).d = m.d ∧
      (createFromSurface m node drawTime).r.textureCache = m.r.textureCache ∧
      (createFromSurface m node drawTime).r.textureBindings = m.r.textureBindings := by
  rw [createFromSurface]
  split
  · split
    · exact ⟨rfl, rfl, rfl⟩
    · exact ⟨rfl, rfl, rfl⟩
  · exact ⟨rfl, rfl, rfl⟩

omit [DecidableEq N] in
theorem downloads_frame (writes : List (Nat × List UInt8)) (m : TextureState N) :
    (∃ vram, (writes.foldl (fun m w => m.write w.1 w.2) m).d = { m.d with vram := vram }) ∧
      (writes.foldl (fun m w => m.write w.1 w.2) m).r = m.r := by
  induction writes generalizing m with
  | nil => exact ⟨⟨m.d.vram, rfl⟩, rfl⟩
  | cons w writes ih =>
    obtain ⟨⟨vram, hd⟩, hr⟩ := ih (m.write w.1 w.2)
    exact ⟨⟨vram, hd⟩, hr⟩

/-- What `create_texture` does to the bindings. -/
structure Created (i : Fin 4) (m m' : TextureState N) : Prop where
  d : ∃ vram, m'.d = { m.d with vram := vram }
  ok : CacheOk m'.r
  described : BoundAsDescribed m' i
  others : ∀ j, j ≠ i → m'.r.textureBindings j = m.r.textureBindings j
  keys : ∀ j n, m.r.textureBindings j = .entry n →
    m'.r.textureCache.key n = m.r.textureCache.key n

theorem LookedUp.created {m m1 m' : TextureState N} {key described : TextureKey} {node : N}
    (hlooked : LookedUp key node m.r m1.r) (hd : ∃ vram, m'.d = { m.d with vram := vram })
    (hcache : m'.r.textureCache = m1.r.textureCache)
    (hbindings : m'.r.textureBindings = update m1.r.textureBindings i (.entry node))
    (hkey : key.unscaled = described) (hdescribed : textureKey m.d i = some described) :
    Created i m m' := by
  have hbound : m'.r.textureBindings i = .entry node := by rw [hbindings, update_self]
  have hok := hlooked.bind_ok i
  refine ⟨hd, ⟨hcache ▸ hok.wf, hcache ▸ hok.recent, ?_⟩, ?_, ?_, ?_⟩
  · intro j n hj
    rw [hbindings] at hj
    rw [hcache]
    exact hok.bound j n hj
  · refine ⟨node, hbound, ?_⟩
    obtain ⟨vram, hd⟩ := hd
    rw [hd, hcache, hlooked.keyed, hkey]
    exact hdescribed
  · intro j hj
    rw [hbindings, update_of_ne hj, hlooked.bindings]
  · intro j n hj
    rw [hcache]
    by_cases hn : n = node
    · -- a node that was bound has been found, not taken
      subst hn
      rcases hlooked.hit_or_miss with ⟨_, hold, _⟩ | ⟨_, hfree⟩
      · rw [hlooked.keyed, hold]
      · exact absurd hj (hfree j)
    · exact hlooked.keys n hn

theorem createTexture_created {env : CreateEnv N}
    (hok : CacheOk m.r) (h : createTexture fastHash keyHash env m i = some m') : Created i m m' := by
  obtain ⟨key, hkey, h⟩ := bind_eq_some_iff.mp h
  have hscale := textureKey_unscaled hkey
  split at h
  · obtain ⟨⟨node, m1⟩, hlookup, h⟩ := bind_eq_some_iff.mp h
    obtain ⟨hd, _, hlooked⟩ := lookupTexture_spec hok hlookup
    cases h
    obtain ⟨hd', hcache, hbindings⟩ := createFromSurface_frame (m1.bind i (.entry node)) node _
    refine hlooked.created ⟨m.d.vram, ?_⟩ hcache hbindings hscale hkey
    rw [hd']
    exact hd
  · obtain ⟨⟨vram, hvram⟩, hr⟩ := downloads_frame env.downloads m
    obtain ⟨⟨node, m1⟩, hlookup, h⟩ := bind_eq_some_iff.mp h
    obtain ⟨hd, _, hlooked⟩ := lookupTexture_spec (hr.symm ▸ hok) hlookup
    obtain ⟨hd', hcache, hbindings⟩ := createFromMemory_frame h
    rw [hr] at hlooked
    refine hlooked.created ⟨vram, ?_⟩ hcache hbindings hscale hkey
    rw [hd', ← hvram]
    exact hd

theorem bindStage_spec (hok : CacheOk m.r) (h : bindStage fastHash keyHash env m i = some m') :
    CacheOk m'.r ∧ (∀ j, enabled m' j = enabled m j) ∧
      (enabled m i = true → BoundAsDescribed m' i) ∧
      ∀ j, j ≠ i → BoundAsDescribed m j → BoundAsDescribed m' j := by
  rw [bindStage] at h
  split at h
  · obtain ⟨m1, hcreate, rfl⟩ := map_eq_some_iff.mp h
    have hcreated := createTexture_created hok hcreate
    obtain ⟨vram, hd⟩ := hcreated.d
    refine ⟨hcreated.ok, fun j => ?_, fun _ => hcreated.described, fun j hj hbound => ?_⟩
    · change pgraphIsTextureEnabled (stageRegs m1.d.pgraph j) = _
      rw [hd]
      rfl
    · obtain ⟨node, hnode, hkey⟩ := hbound
      refine ⟨node, (hcreated.others j hj).trans hnode, ?_⟩
      change textureKey m1.d j = some (m1.r.textureCache.key node).unscaled
      rw [hd, hcreated.keys j node hnode]
      exact hkey
  · rename_i hdisabled
    obtain rfl := Option.some.inj h
    refine ⟨⟨hok.wf, hok.recent, fun j n hj => ?_⟩, fun _ => rfl, fun hen => absurd hen hdisabled,
      fun j hj hbound => ?_⟩
    · change update m.r.textureBindings i .dummy j = .entry n at hj
      rw [Function.update_apply] at hj
      split at hj
      · exact nomatch hj
      · exact hok.bound j n hj
    · obtain ⟨node, hnode, hkey⟩ := hbound
      exact ⟨node, (update_of_ne hj _ _).trans hnode, hkey⟩

theorem bindStages_spec {stages : List (Fin 4)}
    (hok : CacheOk m.r) (h : stages.foldlM (bindStage fastHash keyHash env) m = some m') :
    CacheOk m'.r ∧ (∀ j, enabled m' j = enabled m j) ∧
      ∀ j, j ∈ stages ∨ BoundAsDescribed m j → enabled m j = true → BoundAsDescribed m' j := by
  induction stages generalizing m with
  | nil =>
    simp_all
  | cons i stages ih =>
    obtain ⟨m1, hstage, hrest⟩ := run_cons.mp h
    obtain ⟨hok1, henabled1, hbound1, hothers1⟩ := bindStage_spec hok hstage
    obtain ⟨hok', henabled', hbound'⟩ := ih hok1 hrest
    refine ⟨hok', fun j => (henabled' j).trans (henabled1 j), fun j hj hen => ?_⟩
    apply hbound' j _ ((henabled1 j).trans hen)
    by_cases hji : j = i
    · subst hji
      exact .inr (hbound1 hen)
    · rcases hj with hj | hj
      · exact .inl ((List.mem_cons.mp hj).resolve_left hji)
      · exact .inr (hothers1 j hji hj)

structure BindingsOk (m : TextureState N) : Prop where
  ok : CacheOk m.r
  trusted : checkTexturesDirty m = false → SamplesDescribed m

theorem pgraphVkBindTextures_spec
    (hm : BindingsOk m) (h : pgraphVkBindTextures fastHash keyHash env m = some m') :
    CacheOk m'.r ∧ SamplesDescribed m' := by
  rw [pgraphVkBindTextures] at h
  split at h
  · obtain ⟨hok', henabled', hbound'⟩ := bindStages_spec hm.ok h
    refine ⟨hok', fun j hj => ?_⟩
    exact hbound' j (.inl (List.mem_finRange j)) ((henabled' j).symm.trans hj)
  · rename_i hclean
    obtain rfl := Option.some.inj h
    exact ⟨hm.ok, hm.trusted (Bool.not_eq_true _ ▸ hclean)⟩

/-! ## Methods -/

omit [DecidableEq N] in
theorem checkTexturesDirty_of_flag
    (h : m.d.pgraph.rest.textureDirty i = true) [DecidableEq N] : checkTexturesDirty m = true := by
  rw [checkTexturesDirty, List.any_eq_true]
  exact ⟨i, List.mem_finRange i, by rw [h, Bool.or_true]⟩

def TextureMethod.flags : TextureMethod → Bool
  | .address => false
  | .borderColor => false
  | _ => true

theorem setFlaggedRegister_flags (h : setFlaggedRegister register pg slot parameter = some pg') :
    pg'.rest.textureDirty slot = true := by
  obtain ⟨pg1, _, rfl⟩ := map_eq_some_iff.mp h
  exact update_self ..

theorem textureMethod_flags (hkind : kind.flags = true)
    (h : textureMethod kind pg slot parameter = some pg') : pg'.rest.textureDirty slot = true := by
  cases kind with
  | offset | control0 | control1 | filter | imageRect => exact setFlaggedRegister_flags h
  | format =>
    simp only [textureMethod, setTextureFormat, bind_eq_bind, bind_eq_some_iff,
      pure_def, Option.some.injEq] at h
    obtain ⟨_, _, _, _, _, _, _, _, _, _, _, _, _, _, _, _, _, _, rfl⟩ := h
    exact update_self ..
  | palette =>
    simp only [textureMethod, setTexturePalette, bind_eq_bind, bind_eq_some_iff,
      pure_def, Option.some.injEq] at h
    obtain ⟨_, _, _, _, _, _, rfl⟩ := h
    exact update_self ..
  | address | borderColor => exact nomatch hkind

theorem bindingsOk_iff {m m' : TextureState N} (hm : BindingsOk m) (hr : m'.r = m.r)
    (hdirty : checkTexturesDirty m' = checkTexturesDirty m)
    (henabled : ∀ i, enabled m' i = enabled m i) :
    BindingsOk m' ↔ (checkTexturesDirty m = true ∨
      ∀ i, enabled m i = true → textureKey m'.d i = textureKey m.d i) := by
  constructor
  · intro hm'
    cases hflag : checkTexturesDirty m with
    | true => exact .inl rfl
    | false =>
      refine .inr fun i hi => ?_
      obtain ⟨node, hnode, hkey⟩ := hm.trusted hflag i hi
      obtain ⟨node', hnode', hkey'⟩ := hm'.trusted (hdirty.trans hflag) i ((henabled i).trans hi)
      rw [hr, hnode] at hnode'
      cases hnode'
      rw [hkey', hkey, hr]
  · intro h
    refine ⟨hr ▸ hm.ok, fun hflag i hi => ?_⟩
    rw [hdirty] at hflag
    rw [henabled] at hi
    obtain ⟨node, hnode, hkey⟩ := hm.trusted hflag i hi
    have hsame := h.resolve_left (fun htrue => Bool.noConfusion (htrue.symm.trans hflag)) i hi
    exact ⟨node, by rw [hr, hnode], by rw [hsame, hkey, hr]⟩

theorem setTextureRegister_eq (h : setTextureRegister register pg slot parameter = some pg') :
    pg'.rest = pg.rest ∧
      pg'.regs = update pg.regs (register + slot * 4) parameter := by
  rw [setTextureRegister, pgraphRegW, Option.ite_none_right_eq_some, Option.some.injEq] at h
  obtain ⟨_, rfl⟩ := h
  exact ⟨rfl, rfl⟩

theorem update_stage (regs : Nat → Word) (register : Nat) (slot i : Fin 4) (parameter : Word) :
    update regs (register + slot * 4) parameter (register + i * 4) =
      if i = slot then parameter else regs (register + i * 4) := by
  grind

theorem stageRegs_update (i : Fin 4) :
    (setTextureAddress pg slot parameter = some pg' → stageRegs pg' i = { stageRegs pg i with
      address := if i = slot then parameter else (stageRegs pg i).address }) ∧
    (setTextureBorderColor pg slot parameter = some pg' → stageRegs pg' i = { stageRegs pg i with
      borderColor := if i = slot then parameter else (stageRegs pg i).borderColor }) := by
  constructor
  all_goals
    intro h
    obtain ⟨_, hregs⟩ := setTextureRegister_eq h
    simp (disch := omega) only [stageRegs, hregs, update_stage, update_of_ne,
      nvPgraphTexctl00, nvPgraphTexctl10, nvPgraphTexfmt0, nvPgraphTexfilter0, nvPgraphTexaddress0,
      nvPgraphTeximagerect0, nvPgraphTexoffset0, nvPgraphTexpalette0, nvPgraphBordercolor0,
      nvPgraphShaderprog]

theorem textureKey_sampler {address borderColor : Word} (hrest : pg.rest = d.pgraph.rest)
    (hregs : stageRegs pg i = { stageRegs d.pgraph i with address, borderColor })
    (hkey : textureKey d i = some key) :
    textureKey { d with pgraph := pg } i = some key ↔
      (stageRegs d.pgraph i).address = address ∧
        (stageRegs d.pgraph i).borderColor = borderColor := by
  obtain ⟨state, offset, length, palette, hstate, hoffset, hlength, hpalette, rfl⟩ :=
    textureKey_eq_some.mp hkey
  have hdma : ∀ s : StageRegs,
      pgraphGetTexturePhysAddr { d with pgraph := pg } s = pgraphGetTexturePhysAddr d s ∧
        paletteVramOffset { d with pgraph := pg } s state = paletteVramOffset d s state := by
    intro s
    simp only [pgraphGetTexturePhysAddr, paletteVramOffset, pgraphGetTexturePalettePhysAddr, hrest]
    exact ⟨rfl, rfl⟩
  have hnew : textureKey { d with pgraph := pg } i =
      some ((stageRegs pg i).key state offset length palette) := by
    refine textureKey_eq_some.mpr ⟨state, offset, length, palette, ?_, ?_, hlength, ?_, ?_⟩
    · rw [hregs]
      exact hstate
    · rw [(hdma _).1]
      rw [hregs]
      exact hoffset
    · rw [(hdma _).2]
      rw [hregs]
      exact hpalette
    · rfl
  rw [hnew, hregs, Option.some.injEq, StageRegs.key, StageRegs.key, TextureKey.mk.injEq]
  simp only [paletteLength, true_and, and_true]
  exact and_congr eq_comm eq_comm

def DmaKept (d : NV2AState TextureFields) (selectB : Bool) (parameter : Word) (i : Fin 4) : Prop :=
  let s := stageRegs d.pgraph i
  (textureSelectsB s = selectB →
      d.dmaOffset parameter s.offset.toNat =
        d.dmaOffset (d.pgraph.rest.dma selectB) s.offset.toNat) ∧
    ((getMask s.fmt nvPgraphTexfmt0Color).toNat = szI8A8r8g8b8 → paletteSelectsB s = selectB →
      d.dmaOffset parameter (paletteOffset s) =
        d.dmaOffset (d.pgraph.rest.dma selectB) (paletteOffset s))

instance (d : NV2AState TextureFields) (selectB : Bool) (parameter : Word) (i : Fin 4) :
    Decidable (DmaKept d selectB parameter i) :=
  inferInstanceAs (Decidable (_ ∧ _))

theorem dma_setContextDma (pg : PGRAPHState TextureFields) (selectB b : Bool) (parameter : Word) :
    (setContextDma pg selectB parameter).rest.dma b =
      if b = selectB then parameter else pg.rest.dma b := by
  cases selectB <;> cases b <;> rfl

theorem dmaOffset_setContextDma (d : NV2AState TextureFields) (selectB b : Bool) (parameter : Word)
    (offset : Nat) :
    d.dmaOffset ((setContextDma d.pgraph selectB parameter).rest.dma b) offset =
        d.dmaOffset (d.pgraph.rest.dma b) offset ↔
      (b = selectB → d.dmaOffset parameter offset =
        d.dmaOffset (d.pgraph.rest.dma selectB) offset) := by
  rw [dma_setContextDma]
  by_cases hb : b = selectB
  · subst hb
    simp
  · simp [hb]

theorem shape_colorFormat {s : StageRegs} {shape : TextureShape}
    (h : pgraphGetTextureShape s i = some shape) :
    shape.colorFormat = (getMask s.fmt nvPgraphTexfmt0Color).toNat := by
  simp only [pgraphGetTextureShape, bind_eq_bind, bind_eq_some_iff] at h
  obtain ⟨_, _, _, _, _, _, h⟩ := h
  split at h
  · obtain ⟨_, _, h⟩ := bind_eq_some_iff.mp h
    rw [← Option.some.inj h]
  · obtain ⟨_, _, h⟩ := bind_eq_some_iff.mp h
    rw [← Option.some.inj h]

theorem textureKey_contextDma
    (selectB : Bool) (parameter : Word) (hkey : textureKey d i = some key) :
    textureKey { d with pgraph := setContextDma d.pgraph selectB parameter } i = some key ↔
      DmaKept d selectB parameter i := by
  obtain ⟨state, offset, length, palette, hstate, hoffset, hlength, hpalette, rfl⟩ :=
    textureKey_eq_some.mp hkey
  -- the registers are the same, so that only the two addresses can differ
  have hiff : textureKey { d with pgraph := setContextDma d.pgraph selectB parameter } i =
        some ((stageRegs d.pgraph i).key state offset length palette) ↔
      pgraphGetTexturePhysAddr { d with pgraph := setContextDma d.pgraph selectB parameter }
          (stageRegs d.pgraph i) = some offset ∧
        paletteVramOffset { d with pgraph := setContextDma d.pgraph selectB parameter }
          (stageRegs d.pgraph i) state = some palette := by
    constructor
    · intro h
      obtain ⟨state', offset', length', palette', hstate', hoffset', _, hpalette', heq⟩ :=
        textureKey_eq_some.mp h
      obtain rfl : state = state' := Option.some.inj (hstate.symm.trans hstate')
      obtain rfl : offset = offset' := congrArg TextureKey.textureVramOffset heq
      obtain rfl : palette = palette' := congrArg TextureKey.paletteVramOffset heq
      exact ⟨hoffset', hpalette'⟩
    · intro h
      exact textureKey_eq_some.mpr
        ⟨state, offset, length, palette, hstate, h.1, hlength, h.2, rfl⟩
  rw [hiff, ← hoffset, ← hpalette, DmaKept]
  refine and_congr (dmaOffset_setContextDma d selectB _ parameter _) ?_
  rw [← shape_colorFormat hstate]
  by_cases hindexed : state.colorFormat = szI8A8r8g8b8
  · simp only [paletteVramOffset, isIndexed, hindexed, decide_true, if_true, true_imp_iff]
    exact dmaOffset_setContextDma d selectB _ parameter _
  · simp [paletteVramOffset, isIndexed, hindexed]

/-! ## Runs -/

/-- What a method that raises no flag must not do. -/
def TextureEvent.KeepsKeys (m : TextureState N) : TextureEvent N → Prop
  | .method .address slot parameter => checkTexturesDirty m = true ∨ enabled m slot = false ∨
      (stageRegs m.d.pgraph slot).address = parameter
  | .method .borderColor slot parameter => checkTexturesDirty m = true ∨ enabled m slot = false ∨
      (stageRegs m.d.pgraph slot).borderColor = parameter
  | .contextDma selectB parameter => checkTexturesDirty m = true ∨
      ∀ i, enabled m i = true → DmaKept m.d selectB parameter i
  | _ => True

instance (m : TextureState N) : (e : TextureEvent N) → Decidable (e.KeepsKeys m)
  | .method .address _ _ => inferInstanceAs (Decidable (_ ∨ _ ∨ _))
  | .method .borderColor _ _ => inferInstanceAs (Decidable (_ ∨ _ ∨ _))
  | .contextDma _ _ => inferInstanceAs (Decidable (_ ∨ _))
  | .method .offset _ _ => .isTrue trivial
  | .method .format _ _ => .isTrue trivial
  | .method .control0 _ _ => .isTrue trivial
  | .method .control1 _ _ => .isTrue trivial
  | .method .filter _ _ => .isTrue trivial
  | .method .imageRect _ _ => .isTrue trivial
  | .method .palette _ _ => .isTrue trivial
  | .draw _ => .isTrue trivial

theorem bindingsOk_sampler {m : TextureState N} {pg : PGRAPHState TextureFields} {slot : Fin 4}
    {address borderColor : Fin 4 → Word} (hm : BindingsOk m) (hrest : pg.rest = m.d.pgraph.rest)
    (hregs : ∀ i, stageRegs pg i =
      { stageRegs m.d.pgraph i with address := address i, borderColor := borderColor i })
    (hothers : ∀ i, i ≠ slot → (stageRegs m.d.pgraph i).address = address i ∧
      (stageRegs m.d.pgraph i).borderColor = borderColor i) :
    BindingsOk (m.setPgraph pg) ↔ (checkTexturesDirty m = true ∨ enabled m slot = false ∨
      (stageRegs m.d.pgraph slot).address = address slot ∧
        (stageRegs m.d.pgraph slot).borderColor = borderColor slot) := by
  have hdirty : checkTexturesDirty (m.setPgraph pg) = checkTexturesDirty m := by
    simp only [checkTexturesDirty, TextureState.setPgraph, hrest]
    rfl
  have henabled : ∀ i, enabled (m.setPgraph pg) i = enabled m i := by
    intro i
    simp only [enabled, TextureState.setPgraph, hregs i]
    rfl
  rw [@bindingsOk_iff N _ m (m.setPgraph pg) hm rfl hdirty henabled]
  cases hflag : checkTexturesDirty m with
  | true => simp only [true_or]
  | false =>
    -- every enabled stage has a key now
    have hkey : ∀ i, enabled m i = true →
        (textureKey (m.setPgraph pg).d i = textureKey m.d i ↔
          (stageRegs m.d.pgraph i).address = address i ∧
            (stageRegs m.d.pgraph i).borderColor = borderColor i) := by
      intro i hi
      obtain ⟨node, _, hkey⟩ := hm.trusted hflag i hi
      rw [hkey]
      exact textureKey_sampler hrest (hregs i) hkey
    simp only [Bool.false_eq_true, false_or]
    constructor
    · intro h
      cases hslot : enabled m slot with
      | false => exact .inl rfl
      | true => exact .inr ((hkey slot hslot).mp (h slot hslot))
    · intro h i hi
      rw [hkey i hi]
      by_cases his : i = slot
      · simp_all
      · exact hothers i his

theorem textureMethod_bindingsOk (hm : BindingsOk m)
    (h : textureMethod kind m.d.pgraph slot parameter = some pg) :
    BindingsOk (m.setPgraph pg) ↔ (TextureEvent.method kind slot parameter).KeepsKeys m := by
  have hflagged : kind.flags = true → BindingsOk (m.setPgraph pg) := by
    intro hkind
    have hflag : checkTexturesDirty (m.setPgraph pg) = true :=
      checkTexturesDirty_of_flag (textureMethod_flags hkind h)
    exact ⟨hm.ok, fun hclean => Bool.noConfusion (hclean.symm.trans hflag)⟩
  cases kind with
  | address =>
    refine Iff.trans (@bindingsOk_sampler N _ m pg slot
      (fun i => if i = slot then parameter else (stageRegs m.d.pgraph i).address)
      (fun i => (stageRegs m.d.pgraph i).borderColor) hm (setTextureRegister_eq h).1
      (fun i => (stageRegs_update i).1 h) (fun i hi => ⟨(if_neg hi).symm, rfl⟩)) ?_
    simp only [if_true, and_true, TextureEvent.KeepsKeys]
  | borderColor =>
    refine Iff.trans (@bindingsOk_sampler N _ m pg slot (fun i => (stageRegs m.d.pgraph i).address)
      (fun i => if i = slot then parameter else (stageRegs m.d.pgraph i).borderColor) hm
      (setTextureRegister_eq h).1 (fun i => (stageRegs_update i).2 h)
      (fun i hi => ⟨rfl, (if_neg hi).symm⟩)) ?_
    simp only [if_true, true_and, TextureEvent.KeepsKeys]
  | _ => exact iff_of_true (hflagged rfl) trivial

theorem setContextDma_bindingsOk {selectB : Bool} (hm : BindingsOk m) :
    BindingsOk (m.setPgraph (setContextDma m.d.pgraph selectB parameter)) ↔
      (.contextDma selectB parameter : TextureEvent N).KeepsKeys m := by
  have hdirty : checkTexturesDirty (m.setPgraph (setContextDma m.d.pgraph selectB parameter)) =
      checkTexturesDirty m := by
    cases selectB <;> rfl
  rw [@bindingsOk_iff N _ m (m.setPgraph (setContextDma m.d.pgraph selectB parameter)) hm rfl hdirty
    (fun _ => rfl), TextureEvent.KeepsKeys]
  cases hflag : checkTexturesDirty m with
  | true => simp only [true_or]
  | false =>
    simp only [Bool.false_eq_true, false_or]
    refine forall_congr' fun i => imp_congr_right fun hi => ?_
    obtain ⟨node, _, hkey⟩ := hm.trusted hflag i hi
    rw [hkey]
    exact textureKey_contextDma selectB parameter hkey

theorem textureStep_bindingsOk (hm : BindingsOk m)
    (h : textureStep fastHash keyHash m e = some m') : BindingsOk m' ↔ e.KeepsKeys m := by
  cases e with
  | method kind slot parameter =>
    obtain ⟨pg, hpg, rfl⟩ := map_eq_some_iff.mp h
    exact textureMethod_bindingsOk hm hpg
  | contextDma selectB parameter =>
    obtain rfl := Option.some.inj h
    exact setContextDma_bindingsOk hm
  | draw env =>
    obtain ⟨hok, hsamples⟩ := pgraphVkBindTextures_spec hm h
    exact iff_of_true ⟨hok, fun _ => hsamples⟩ trivial

theorem textureStep_cacheOk (hm : CacheOk m.r)
    (h : textureStep fastHash keyHash m e = some m') : CacheOk m'.r := by
  cases e with
  | method kind slot parameter =>
    obtain ⟨pg, _, rfl⟩ := map_eq_some_iff.mp h
    exact hm
  | contextDma selectB parameter =>
    obtain rfl := Option.some.inj h
    exact hm
  | draw env =>
    change pgraphVkBindTextures fastHash keyHash env m = some m' at h
    grind [pgraphVkBindTextures, bindStages_spec]

variable (fastHash keyHash)

def DrawsDescribed (m : TextureState N) : Prop :=
  ∀ env m', pgraphVkBindTextures fastHash keyHash env m = some m' → SamplesDescribed m'

variable {fastHash keyHash}

theorem drawsDescribed_iff (hm : CacheOk m.r) :
    DrawsDescribed fastHash keyHash m ↔ BindingsOk m := by
  constructor
  · intro h
    refine ⟨hm, fun hclean => ?_⟩
    -- nothing is bound anew, whatever the surfaces are
    apply h (fun _ => ⟨none, 1, [], fun _ => false⟩) m
    rw [pgraphVkBindTextures, hclean]
    rfl
  · intro h env m' hbind
    exact (pgraphVkBindTextures_spec h hbind).2

/-- Along a run every draw samples the textures its registers describe, wherever it comes, exactly if no
method that raises no flag changes the key of an enabled stage while no flag is raised. -/
theorem drawnTextures_iff (m : TextureState N) (hm : BindingsOk m) (es : List (TextureEvent N)) :
    (∀ fs m', fs <+: es → fs.foldlM (textureStep fastHash keyHash) m = some m' →
        DrawsDescribed fastHash keyHash m') ↔
      Throughout (textureStep fastHash keyHash) (fun m e => e.KeepsKeys m) es m := by
  rw [← throughout_iff (fun _ _ _ hI hstep => textureStep_bindingsOk hI hstep) hm]
  refine forall_congr' fun fs => forall_congr' fun m' => imp_congr_right fun _ =>
    imp_congr_right fun hrun => ?_
  apply drawsDescribed_iff
  have hfree : Throughout (textureStep fastHash keyHash) (fun _ _ => True) fs m :=
    throughout_of_forall fun _ _ _ _ => trivial
  exact hfree.invariant (fun _ _ _ hI _ hstep => textureStep_cacheOk hI hstep) hm.ok hrun

end Bindings

def plainDraw : TextureEvent (Fin 2) := .draw fun _ => ⟨none, 1, [], fun _ => false⟩

theorem slots_pos : 0 < 4 := by decide

def oneTexel : List (TextureEvent (Fin 2)) :=
  [.method .format ⟨0, slots_pos⟩ 0x10029, .method .control0 ⟨0, slots_pos⟩ 0x40000000]

theorem drawnTextures_addressed :
    let es := oneTexel ++ [.method .address 0 3, plainDraw, .method .address 0 3, plainDraw]
    ((es.foldlM (textureStep (fun _ => 0) (fun _ => 0)) unbound).isSome = true ∧
        Throughout (textureStep (fun _ => 0) (fun _ => 0)) (fun m e => e.KeepsKeys m) es unbound) ∧
      ∀ fs m', fs <+: es → fs.foldlM (textureStep (fun _ => 0) (fun _ => 0)) unbound = some m' →
        DrawsDescribed (fun _ => 0) (fun _ => 0) m' := by
  intro es
  have hes : (es.foldlM (textureStep (fun _ => 0) (fun _ => 0)) unbound).isSome = true ∧
      Throughout (textureStep (fun _ => 0) (fun _ => 0)) (fun m e => e.KeepsKeys m) es unbound := by
    decide +kernel
  exact ⟨hes, (drawnTextures_iff unbound ⟨unbound_ok, fun h => nomatch h⟩ es).mpr hes.2⟩

theorem drawnTextures_stale :
    ∃ m, (oneTexel ++ [plainDraw, .method .address 0 3, plainDraw]).foldlM
        (textureStep (fun _ => 0) (fun _ => 0)) unbound = some m ∧
      enabled m 0 = true ∧ ¬ BoundAsDescribed m 0 := by
  have hrun : ((oneTexel ++ [plainDraw, .method .address 0 3, plainDraw]).foldlM
      (textureStep (fun _ => 0) (fun _ => 0)) unbound).any
      (fun m => enabled m 0 && !decide (BoundAsDescribed m 0)) = true := by decide +kernel
  obtain ⟨m, hm, hstale⟩ := (Option.any_eq_true _ _).mp hrun
  exact ⟨m, hm, by simpa using hstale⟩

end DukeX.Nv2a
