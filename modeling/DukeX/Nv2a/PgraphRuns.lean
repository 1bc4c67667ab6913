import DukeX.Lib.Trace
import DukeX.Nv2a.Device

/-!
# PGRAPH between the FIFO thread and the guest

What can happen to PGRAPH, one event at a time: the puller dispatches a method unless it has to
stall, the guest writes a register, the device is reset, a snapshot is loaded, the renderer clears
the map of dirty registers.
-/

namespace DukeX.Nv2a

open Lib
open Function (update update_of_ne)
open Option (bind_eq_bind bind_eq_some_iff map_eq_some_iff pure_def)

variable {K : Type}

def canFifoAccess (d : NV2AState K) : Bool := d.pgraph.regs nvPgraphFifo &&& nvPgraphFifoAccess != 0

def pfifoStallForFlip (d : NV2AState K) : Bool × NV2AState K :=
  if d.pgraph.waitingForFlip then
    let s := d.pgraph.regs nvPgraphSurface
    if getMask s nvPgraphSurfaceRead3d ≠ getMask s nvPgraphSurfaceWrite3d then
      (false, { d with pgraph.waitingForFlip := false })
    else (true, d)
  else (false, d)

def pfifoPullerShouldStall (d : NV2AState K) : Bool × NV2AState K :=
  let flip := pfifoStallForFlip d
  let d := flip.2
  (flip.1 || d.pgraph.waitingForNop || d.pgraph.waitingForContextSwitch || !canFifoAccess d, d)

def regWrites (pg : PGRAPHState K) (writes : List (Nat × Word)) : Option (PGRAPHState K) :=
  writes.foldlM (fun pg w => pgraphRegW pg w.1 w.2) pg

inductive PgraphEvent (K : Type) where
  | write (addr : Nat) (val : Word)
  | noOperation (subchannel method parameter : Word)
  | method (writes : List (Nat × Word)) (waitingForFlip : Bool) (rest : K)
  | contextSwitch (channelId : Word)
  | contextSwitchRaise
  | reset

def dispatch (d : NV2AState K) (run : NV2AState K → Option (NV2AState K)) : Option (NV2AState K) :=
  let stall := pfifoPullerShouldStall d
  if stall.1 then none else run stall.2

/-- `none` where the event cannot happen or ends the process. -/
def pgraphStep (d : NV2AState K) : PgraphEvent K → Option (NV2AState K)
  | .write addr val => pgraphWrite d addr val
  | .noOperation subchannel method parameter => dispatch d fun d =>
    if parameter = 0 then some d
    else (noOperationTrap d subchannel method parameter).map nv2aUpdateIrq
  | .method writes waitingForFlip rest => dispatch d fun d =>
    (regWrites d.pgraph writes).map fun pg => { d with pgraph := { pg with waitingForFlip, rest } }
  | .contextSwitch channelId => dispatch d fun d =>
    (pgraphContextSwitchRequest d channelId).map Prod.fst
  | .contextSwitchRaise => some (pgraphContextSwitchRaise d)
  | .reset => some (pcibusReset d)

/-! ## What a register write changes -/

/-- From one state of PGRAPH to another by register writes alone. -/
structure RegChange (pg pg' : PGRAPHState K) : Prop where
  toIntr : pg'.toIntr = pg.toIntr
  waitingForNop : pg'.waitingForNop = pg.waitingForNop
  clean : ∀ r, r % 4 = 0 → pg'.regsDirty (r / 4) = false →
    pg.regsDirty (r / 4) = false ∧ pg'.regs r = pg.regs r

theorem RegChange.refl (pg : PGRAPHState K) : RegChange pg pg := ⟨rfl, rfl, fun _ _ h => ⟨h, rfl⟩⟩

variable {pg pg' : PGRAPHState K}

theorem RegChange.trans {pg'' : PGRAPHState K} (h : RegChange pg pg')
    (h' : RegChange pg' pg'') : RegChange pg pg'' := by
  refine ⟨h'.toIntr.trans h.toIntr, h'.waitingForNop.trans h.waitingForNop, fun r hr hclean => ?_⟩
  obtain ⟨hclean', hvalue'⟩ := h'.clean r hr hclean
  obtain ⟨hclean'', hvalue⟩ := h.clean r hr hclean'
  exact ⟨hclean'', hvalue'.trans hvalue⟩

theorem pgraphRegW_change {r : Nat} {v : Word}
    (h : pgraphRegW pg r v = some pg') : RegChange pg pg' := by
  rw [pgraphRegW, Option.ite_none_right_eq_some, Option.some.injEq] at h
  obtain ⟨hr, rfl⟩ := h
  refine ⟨rfl, rfl, fun r' hr' hclean => ?_⟩
  by_cases hsame : pg.regs r = v
  · -- an unchanged value marks nothing
    simp only [hsame, ne_eq, not_true_eq_false, if_false] at hclean
    refine ⟨hclean, ?_⟩
    change update pg.regs r v r' = pg.regs r'
    rw [← hsame, Function.update_eq_self]
  · simp only [ne_eq, hsame, not_false_eq_true, if_true] at hclean
    have hne : r' / 4 ≠ r / 4 := by
      intro heq
      simp_all
    rw [update_of_ne hne] at hclean
    refine ⟨hclean, update_of_ne ?_ _ _⟩
    exact fun heq => hne (congrArg (· / 4) heq)

theorem pgSetMask_change {reg : Nat} {mask value : Word}
    (h : pgSetMask pg reg mask value = some pg') : RegChange pg pg' := by
  obtain ⟨v, _, hw⟩ := bind_eq_some_iff.mp h
  exact pgraphRegW_change hw

theorem regWrites_change {writes : List (Nat × Word)}
    (h : regWrites pg writes = some pg') : RegChange pg pg' := by
  induction writes generalizing pg with
  | nil => exact Option.some.inj h ▸ RegChange.refl pg
  | cons w writes ih =>
    obtain ⟨pg1, hw, hrest⟩ := run_cons.mp h
    exact (pgraphRegW_change hw).trans (ih hrest)

variable {val : Word}

theorem pgraphIncrement_change
    (h : pgraphIncrement pg val = some pg') : RegChange pg pg' := by
  rw [pgraphIncrement] at h
  split at h
  · exact Option.some.inj h ▸ RegChange.refl pg
  · obtain ⟨_, _, h⟩ := bind_eq_some_iff.mp h
    obtain ⟨_, _, h⟩ := bind_eq_some_iff.mp h
    split at h
    · exact nomatch h
    · exact pgSetMask_change h

theorem pgraphRdiData_change (h : pgraphRdiData pg = some pg') :
    RegChange pg pg' := by
  simp only [pgraphRdiData, pgraphRdiWrite, bind_eq_bind, bind_eq_some_iff,
    Option.ite_none_left_eq_some, Option.some.injEq] at h
  obtain ⟨_, _, _, _, pg1, ⟨-, rfl⟩, h⟩ := h
  split at h
  · exact pgSetMask_change h
  · exact nomatch h

variable {d : NV2AState K}

theorem pgraphChannelCtxTrigger_change
    (h : pgraphChannelCtxTrigger d val = some pg) : RegChange d.pgraph pg := by
  simp only [pgraphChannelCtxTrigger, bind_eq_bind, bind_eq_some_iff] at h
  obtain ⟨_, _, h⟩ := h
  split at h
  · exact Option.some.inj h ▸ RegChange.refl d.pgraph
  · split at h
    · exact pgraphRegW_change h
    · exact nomatch h

variable {d' : NV2AState K}

theorem pgraphWrite_cases {addr : Nat}
    (h : pgraphWrite d addr val = some d') :
    d'.pgraph = pgraphAcknowledge d.pgraph val ∨
      d'.pgraph = { d.pgraph with toIntr := d.pgraph.toIntr.enable val } ∨
      RegChange d.pgraph d'.pgraph := by
  obtain ⟨pg, hpg, rfl⟩ := map_eq_some_iff.mp h
  split at hpg
  · exact .inl (Option.some.inj hpg).symm
  · split at hpg
    · exact .inr (.inl (Option.some.inj hpg).symm)
    · grind [pgraphIncrement_change, pgraphRdiData_change, pgraphChannelCtxTrigger_change,
         pgraphRegW_change]

inductive PgraphChange (pg : PGRAPHState K) : PGRAPHState K → Prop where
  | acknowledge (val : Word) : PgraphChange pg (pgraphAcknowledge pg val)
  | enable (val : Word) : PgraphChange pg { pg with toIntr := pg.toIntr.enable val }
  | registers {pg' : PGRAPHState K} : RegChange pg pg' → PgraphChange pg pg'
  | contextSwitch : PgraphChange pg
      { pg with pendingInterrupts := pg.pendingInterrupts ||| nvPgraphIntrContextSwitch }
  | trap {pg' : PGRAPHState K} : RegChange pg pg' → PgraphChange pg
      { pg' with
        pendingInterrupts := pg'.pendingInterrupts ||| nvPgraphIntrError
        waitingForNop := true }

theorem noOperationTrap_cases {subchannel method parameter : Word}
    (h : noOperationTrap d subchannel method parameter = some d') :
    ∃ pg, RegChange d.pgraph pg ∧ d'.pgraph = { pg with
      pendingInterrupts := pg.pendingInterrupts ||| nvPgraphIntrError
      waitingForNop := true } := by
  simp only [noOperationTrap, bind_eq_bind, bind_eq_some_iff,
    Option.ite_none_left_eq_some, pure_def, Option.some.injEq] at h
  obtain ⟨_, _, _, pg1, h1, pg2, h2, pg3, h3, pg4, h4, pg5, h5, rfl⟩ := h
  refine ⟨pg5, ?_, rfl⟩
  exact ((((pgSetMask_change h1).trans (pgSetMask_change h2)).trans (pgSetMask_change h3)).trans
    (pgraphRegW_change h4)).trans (pgraphRegW_change h5)

theorem pgraphContextSwitchRequest_change {channelId : Word} {raise : Bool}
    (h : pgraphContextSwitchRequest d channelId = some (d', raise)) :
    RegChange d.pgraph d'.pgraph := by
  simp only [pgraphContextSwitchRequest, bind_eq_bind, bind_eq_some_iff,
    pure_def] at h
  obtain ⟨_, _, _, _, h⟩ := h
  split at h
  · obtain ⟨rfl, -⟩ := Prod.mk.inj (Option.some.inj h)
    exact RegChange.refl d.pgraph
  · obtain ⟨pg, hpg, h⟩ := bind_eq_some_iff.mp h
    obtain ⟨_, _, h⟩ := bind_eq_some_iff.mp h
    split at h
    · exact nomatch h
    · obtain ⟨rfl, -⟩ := Prod.mk.inj (Option.some.inj h)
      have hchange := pgSetMask_change hpg
      exact ⟨hchange.toIntr, hchange.waitingForNop, hchange.clean⟩

theorem pfifoPullerShouldStall_change (d : NV2AState K) :
    RegChange d.pgraph (pfifoPullerShouldStall d).2.pgraph := by
  change RegChange d.pgraph (pfifoStallForFlip d).2.pgraph
  rw [pfifoStallForFlip]
  split
  · dsimp only
    split
    · exact ⟨rfl, rfl, fun _ _ hclean => ⟨hclean, rfl⟩⟩
    · exact RegChange.refl d.pgraph
  · exact RegChange.refl d.pgraph

theorem pfifoPullerShouldStall_nop (h : d.pgraph.waitingForNop = true) :
    (pfifoPullerShouldStall d).1 = true := by
  have hnop : (pfifoStallForFlip d).2.pgraph.waitingForNop = true :=
    (pfifoPullerShouldStall_change d).waitingForNop.trans h
  simp only [pfifoPullerShouldStall, hnop, Bool.or_true, Bool.true_or]

theorem dispatch_eq_some {run : NV2AState K → Option (NV2AState K)} :
    dispatch d run = some d' ↔
      (pfifoPullerShouldStall d).1 = false ∧ run (pfifoPullerShouldStall d).2 = some d' := by
  simp only [dispatch, Option.ite_none_left_eq_some, Bool.not_eq_true]

def PgraphEvent.isReset : PgraphEvent K → Bool
  | .reset => true
  | _ => false

variable {e : PgraphEvent K}

theorem pgraphStep_change (he : e.isReset = false)
    (h : pgraphStep d e = some d') : PgraphChange d.pgraph d'.pgraph := by
  cases e with
  | write addr val =>
    obtain hpg | hpg | hpg := pgraphWrite_cases h
    · exact hpg ▸ .acknowledge val
    · exact hpg ▸ .enable val
    · exact .registers hpg
  | noOperation subchannel method parameter =>
    rw [pgraphStep, dispatch_eq_some] at h
    obtain ⟨-, hrun⟩ := h
    have hflip := pfifoPullerShouldStall_change d
    split at hrun
    · exact Option.some.inj hrun ▸ .registers hflip
    · obtain ⟨d2, htrap, rfl⟩ := map_eq_some_iff.mp hrun
      obtain ⟨pg, hpg, heq⟩ := noOperationTrap_cases htrap
      change PgraphChange d.pgraph d2.pgraph
      exact heq ▸ .trap (hflip.trans hpg)
  | method writes waitingForFlip rest =>
    rw [pgraphStep, dispatch_eq_some] at h
    obtain ⟨-, hrun⟩ := h
    have hflip := pfifoPullerShouldStall_change d
    obtain ⟨pg, hpg, rfl⟩ := map_eq_some_iff.mp hrun
    have hchange := hflip.trans (regWrites_change hpg)
    exact .registers ⟨hchange.toIntr, hchange.waitingForNop, hchange.clean⟩
  | contextSwitch channelId =>
    rw [pgraphStep, dispatch_eq_some] at h
    obtain ⟨-, hrun⟩ := h
    have hflip := pfifoPullerShouldStall_change d
    obtain ⟨⟨d2, raise⟩, hrequest, rfl⟩ := map_eq_some_iff.mp hrun
    exact .registers (hflip.trans (pgraphContextSwitchRequest_change hrequest))
  | contextSwitchRaise =>
    obtain rfl := Option.some.inj h
    exact .contextSwitch
  | reset => exact nomatch he

theorem pgraphStep_reset (he : e.isReset = true)
    (h : pgraphStep d e = some d') : d' = pcibusReset d := by
  cases e with
  | reset => exact (Option.some.inj h).symm
  | _ => exact nomatch he

/-! ## A pending error and the `NO_OPERATION` that waits for it -/

def PGRAPHState.errorPending (pg : PGRAPHState K) : Bool :=
  pg.pendingInterrupts &&& nvPgraphIntrError != 0

/-- A pending error has a waiting `NO_OPERATION`. -/
structure ErrorAwaited (d : NV2AState K) : Prop where
  waits : d.pgraph.errorPending = true → d.pgraph.waitingForNop = true
  stalls : d.pgraph.errorPending = true → ∀ run, dispatch d run = none
  asserts : (pfifoPullerShouldStall d).1 = false → ∀ subchannel method parameter,
    (noOperationTrap (pfifoPullerShouldStall d).2 subchannel method parameter).isSome = true

theorem noOperationTrap_isSome (h : d.pgraph.errorPending = false)
    (subchannel method parameter : Word) :
    (noOperationTrap d subchannel method parameter).isSome = true := by
  have hnone : d.pgraph.pendingInterrupts &&& nvPgraphIntrError = 0 := by
    simpa only [PGRAPHState.errorPending, bne_eq_false_iff_eq] using h
  simp [noOperationTrap, pgGetMask, pgSetMask, pgraphRegR, pgraphRegW, nvPgraphCtxUser,
    nvPgraphTrappedAddr, nvPgraphTrappedDataLow, nvPgraphNsource, hnone]

theorem errorAwaited_iff (d : NV2AState K) :
    ErrorAwaited d ↔ (d.pgraph.errorPending = true → d.pgraph.waitingForNop = true) := by
  refine ⟨ErrorAwaited.waits, fun h => ⟨h, ?_, ?_⟩⟩
  · intro hpending run
    simp only [dispatch, pfifoPullerShouldStall_nop (h hpending), if_true]
  · intro hgo subchannel method parameter
    apply noOperationTrap_isSome
    have hintr := (pfifoPullerShouldStall_change d).toIntr
    by_contra hpending
    rw [PGRAPHState.errorPending, hintr, Bool.not_eq_false] at hpending
    exact Bool.noConfusion ((pfifoPullerShouldStall_nop (h hpending)).symm.trans hgo)

theorem PgraphChange.awaited (h : PgraphChange pg pg')
    (hpg : pg.errorPending = true → pg.waitingForNop = true) :
    pg'.errorPending = true → pg'.waitingForNop = true := by
  cases h with
  | acknowledge val =>
    intro hpending
    -- the flag is given up only with the interrupt
    have hstill : (pg.pendingInterrupts &&& ~~~val) &&& nvPgraphIntrError ≠ 0 := by
      simpa [PGRAPHState.errorPending, pgraphAcknowledge, Intr.acknowledge] using hpending
    have hbefore : pg.errorPending = true := by
      rw [PGRAPHState.errorPending, bne_iff_ne]
      intro hzero
      apply hstill
      rw [BitVec.and_assoc, BitVec.and_comm (~~~val), ← BitVec.and_assoc, hzero]
      exact BitVec.zero_and
    exact (if_neg hstill).trans (hpg hbefore)
  | enable val => exact hpg
  | registers hchange =>
    rw [PGRAPHState.errorPending, hchange.toIntr, hchange.waitingForNop]
    exact hpg
  | contextSwitch =>
    have hbit : (pg.pendingInterrupts ||| nvPgraphIntrContextSwitch) &&& nvPgraphIntrError =
        pg.pendingInterrupts &&& nvPgraphIntrError := or_and_of_disjoint _ (by decide)
    rw [PGRAPHState.errorPending, hbit]
    exact hpg
  | trap hchange => exact fun _ => rfl

def PgraphEvent.Acknowledged (d : NV2AState K) (e : PgraphEvent K) : Prop :=
  e.isReset = true → d.pgraph.errorPending = false

instance (d : NV2AState K) (e : PgraphEvent K) : Decidable (e.Acknowledged d) :=
  inferInstanceAs (Decidable (_ → _))

theorem pgraphStep_awaited (hd : ErrorAwaited d)
    (h : pgraphStep d e = some d') : ErrorAwaited d' ↔ e.Acknowledged d := by
  rw [errorAwaited_iff] at hd ⊢
  cases he : e.isReset with
  | false =>
    have hchange := pgraphStep_change he h
    exact iff_of_true (hchange.awaited hd) (fun hreset => Bool.noConfusion (he.symm.trans hreset))
  | true =>
    obtain rfl := pgraphStep_reset he h
    -- the reset takes the flag away and leaves the interrupt
    have hflag : (pcibusReset d).pgraph.waitingForNop = false := rfl
    have hintr : (pcibusReset d).pgraph.errorPending = d.pgraph.errorPending := rfl
    rw [hflag, hintr, PgraphEvent.Acknowledged, he]
    simp

/-- Along a run there is no error without its waiting `NO_OPERATION`, and so no assertion that fails,
exactly if the device is never reset while an error waits to be acknowledged. -/
theorem errorAwaited_run_iff (d : NV2AState K) (hd : d.pgraph.errorPending = false)
    (es : List (PgraphEvent K)) :
    (∀ fs d', fs <+: es → fs.foldlM pgraphStep d = some d' → ErrorAwaited d') ↔
      Throughout pgraphStep (fun d e => e.Acknowledged d) es d := by
  have hinit : ErrorAwaited d :=
    (errorAwaited_iff d).mpr fun hpending => Bool.noConfusion (hd.symm.trans hpending)
  exact throughout_iff (fun _ _ _ hI hstep => pgraphStep_awaited hI hstep) hinit

def fifoOpen : NV2AState Unit where
  pmc := ⟨0, 0⟩
  pfifo := { pendingInterrupts := 0, enabledInterrupts := 0, regs := fun _ => 0 }
  ptimer := ⟨⟨0, 0⟩, 0, 0, 0⟩
  pcrtc := ⟨⟨0, 0⟩, 0, 0⟩
  pgraph :=
    { pendingInterrupts := 0
      enabledInterrupts := 0
      regs := update (fun _ => 0) nvPgraphFifo nvPgraphFifoAccess
      regsDirty := fun _ => false
      waitingForNop := false
      waitingForFlip := false
      waitingForContextSwitch := false
      rest := () }
  vram := fun _ => 0
  vramSize := 0
  ramin := fun _ => 0
  raminSize := 0
  irq := false

theorem errorAwaited_acknowledged :
    let es : List (PgraphEvent Unit) :=
      [.noOperation 0 0x100 1, .write nvPgraphIntr nvPgraphIntrError, .reset]
    ((es.foldlM pgraphStep fifoOpen).isSome = true ∧
        Throughout pgraphStep (fun d e => e.Acknowledged d) es fifoOpen) ∧
      ∀ fs d', fs <+: es → fs.foldlM pgraphStep fifoOpen = some d' → ErrorAwaited d' := by
  intro es
  have hes : (es.foldlM pgraphStep fifoOpen).isSome = true ∧
      Throughout pgraphStep (fun d e => e.Acknowledged d) es fifoOpen := by decide
  exact ⟨hes, (errorAwaited_run_iff fifoOpen (by decide) es).mpr hes.2⟩

/-- The reset comes before the acknowledgement. -/
theorem errorAwaited_reset :
    ∃ d, [.noOperation 0 0x100 1, .reset, .write nvPgraphFifo nvPgraphFifoAccess].foldlM pgraphStep
        fifoOpen = some d ∧
      d.pgraph.errorPending = true ∧ d.pgraph.waitingForNop = false ∧
      (pfifoPullerShouldStall d).1 = false ∧
      pgraphStep d (.noOperation 0 0x100 1) = none := by
  refine ⟨_, rfl, ?_⟩
  decide

/-! ## Dirty registers -/

def pgraphClearDirtyRegMap (pg : PGRAPHState K) : PGRAPHState K := { pg with regsDirty := fun _ => false }

structure TrackedState (K : Type) where
  device : NV2AState K
  atClear : Nat → Word

inductive TrackedEvent (K : Type) where
  | pgraph (e : PgraphEvent K)
  | clearDirtyRegMap
  | load (saved : NV2AState K)

def trackedStep (t : TrackedState K) : TrackedEvent K → Option (TrackedState K)
  | .pgraph e => (pgraphStep t.device e).map fun device => { t with device }
  | .clearDirtyRegMap => some
    { device := { t.device with pgraph := pgraphClearDirtyRegMap t.device.pgraph }
      atClear := t.device.pgraph.regs }
  -- `regs_` is a field of the snapshot; `regs_dirty` is not
  | .load saved => some
    { t with device := { saved with pgraph.regsDirty := t.device.pgraph.regsDirty } }

def TrackedState.Sound (t : TrackedState K) : Prop :=
  ∀ r, r % 4 = 0 → t.device.pgraph.regsDirty (r / 4) = false →
    t.device.pgraph.regs r = t.atClear r

def TrackedEvent.replaces : TrackedEvent K → Option (Nat → Word)
  | .pgraph e => if e.isReset then some fun _ => 0 else none
  | .clearDirtyRegMap => none
  | .load saved => some saved.pgraph.regs

def TrackedEvent.KeepsClean (t : TrackedState K) (e : TrackedEvent K) : Prop :=
  ∀ regs, e.replaces = some regs → ∀ r, r % 4 = 0 → t.device.pgraph.regsDirty (r / 4) = false →
    t.device.pgraph.regs r = regs r

theorem PgraphChange.clean (h : PgraphChange pg pg') {r : Nat}
    (hr : r % 4 = 0) (hclean : pg'.regsDirty (r / 4) = false) :
    pg.regsDirty (r / 4) = false ∧ pg'.regs r = pg.regs r := by
  cases h with
  | acknowledge val | enable val => exact ⟨hclean, rfl⟩
  | registers hchange => exact hchange.clean r hr hclean
  | contextSwitch => exact ⟨hclean, rfl⟩
  | trap hchange => exact hchange.clean r hr hclean

theorem sound_of_replaced {t t' : TrackedState K} (ht : t.Sound) (hclear : t'.atClear = t.atClear)
    (hdirty : t'.device.pgraph.regsDirty = t.device.pgraph.regsDirty) :
    t'.Sound ↔ ∀ r, r % 4 = 0 → t.device.pgraph.regsDirty (r / 4) = false →
      t.device.pgraph.regs r = t'.device.pgraph.regs r := by
  rw [TrackedState.Sound, hclear, hdirty]
  constructor
  · intro h r hr hclean
    exact (ht r hr hclean).trans (h r hr hclean).symm
  · intro h r hr hclean
    exact (h r hr hclean).symm.trans (ht r hr hclean)

theorem trackedStep_sound {t t' : TrackedState K} {e : TrackedEvent K} (ht : t.Sound)
    (h : trackedStep t e = some t') : t'.Sound ↔ e.KeepsClean t := by
  cases e with
  | pgraph e =>
    obtain ⟨d, hstep, rfl⟩ := map_eq_some_iff.mp h
    cases he : e.isReset with
    | false =>
      refine iff_of_true (fun r hr hclean => ?_) (fun regs hregs => ?_)
      · obtain ⟨hclean', hvalue⟩ := (pgraphStep_change he hstep).clean hr hclean
        exact hvalue.trans (ht r hr hclean')
      · simp [TrackedEvent.replaces, he] at hregs
    | true =>
      obtain rfl := pgraphStep_reset he hstep
      refine Iff.trans (@sound_of_replaced K t _ ht rfl rfl) ?_
      simp [TrackedEvent.KeepsClean, TrackedEvent.replaces, he, pcibusReset, nv2aReset]
  | clearDirtyRegMap =>
    obtain rfl := Option.some.inj h
    exact iff_of_true (fun _ _ _ => rfl) (fun _ hregs => nomatch hregs)
  | load saved =>
    obtain rfl := Option.some.inj h
    refine Iff.trans (@sound_of_replaced K t _ ht rfl rfl) ?_
    simp [TrackedEvent.KeepsClean, TrackedEvent.replaces]

def nvPgraphBlend : Nat := 0x1804
def nvPgraphBlendcolor : Nat := 0x1808
def nvPgraphControl0 : Nat := 0x194C
def nvPgraphControl1 : Nat := 0x1950
def nvPgraphControl2 : Nat := 0x1954
def nvPgraphControl3 : Nat := 0x1958
def nvPgraphSetupraster : Nat := 0x1990
def nvPgraphZoffsetbias : Nat := 0x1AA4
def nvPgraphZoffsetfactor : Nat := 0x1AA8

def pipelineRegs : List Nat :=
  [nvPgraphBlend, nvPgraphBlendcolor, nvPgraphControl0, nvPgraphControl1, nvPgraphControl2,
    nvPgraphControl3, nvPgraphSetupraster, nvPgraphZoffsetbias, nvPgraphZoffsetfactor]

/-- Along a run every register that is not dirty is as it was when the map was cleared, exactly if no
reset and no snapshot changes a register that is not dirty. -/
theorem dirtyTracking_sound_iff (t : TrackedState K) (ht : t.Sound) (es : List (TrackedEvent K)) :
    (∀ fs t', fs <+: es → fs.foldlM trackedStep t = some t' → t'.Sound) ↔
      Throughout trackedStep (fun t e => e.KeepsClean t) es t :=
  throughout_iff (fun _ _ _ hI hstep => trackedStep_sound hI hstep) ht

def justCleared (d : NV2AState Unit) : TrackedState Unit where
  device := { d with pgraph := pgraphClearDirtyRegMap d.pgraph }
  atClear := d.pgraph.regs

theorem dirtyTracking_written :
    let es : List (TrackedEvent Unit) :=
      [.pgraph (.write nvPgraphBlend 5), .pgraph (.write nvPgraphFifo 0), .pgraph .reset]
    ((es.foldlM trackedStep (justCleared fifoOpen)).isSome = true ∧
        Throughout trackedStep (fun t e => e.KeepsClean t) es (justCleared fifoOpen)) ∧
      ∀ fs t', fs <+: es → fs.foldlM trackedStep (justCleared fifoOpen) = some t' → t'.Sound := by
  intro es
  have hes : Throughout trackedStep (fun t e => e.KeepsClean t) es (justCleared fifoOpen) := by
    intro t ht
    obtain rfl := Option.some.inj ht
    refine ⟨fun _ hregs => (nomatch hregs), ?_⟩
    intro t' ht'
    obtain rfl := Option.some.inj ht'
    refine ⟨fun _ hregs => (nomatch hregs), ?_⟩
    intro t'' _
    refine ⟨?_, trivial⟩
    intro regs hregs r hr hclean
    obtain rfl := Option.some.inj hregs
    -- only `BLEND` is not 0 at the reset, and it is dirty
    have hne : r ≠ nvPgraphBlend := by
      rintro rfl
      exact Bool.noConfusion hclean
    change update (update (update (fun _ => (0 : Word)) nvPgraphFifo
      nvPgraphFifoAccess) nvPgraphBlend 5) nvPgraphFifo 0 r = 0
    simp only [Function.update_apply, hne, if_false]
    split_ifs <;> rfl
  exact ⟨⟨by decide, hes⟩, (dirtyTracking_sound_iff _ (fun _ _ _ => rfl) es).mpr hes⟩

/-- `BLEND` is written, the map cleared and the device reset. -/
theorem dirtyTracking_reset :
    ∃ t, [.pgraph (.write nvPgraphBlend 5), .clearDirtyRegMap, .pgraph .reset].foldlM trackedStep
        (justCleared fifoOpen) = some t ∧
      (∀ r ∈ pipelineRegs, t.device.pgraph.regsDirty (r / 4) = false) ∧
      t.atClear nvPgraphBlend = 5 ∧ t.device.pgraph.regs nvPgraphBlend = 0 := by
  refine ⟨_, rfl, ?_⟩
  decide

end DukeX.Nv2a
