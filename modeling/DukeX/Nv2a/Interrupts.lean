import DukeX.Nv2a.Device

/-!
# The interrupt line

The guest's register writes, the frame timer and the FIFO thread as one machine, and when its
interrupt line says what the blocks have pending.
-/

namespace DukeX.Nv2a

open Option (bind_eq_bind bind_eq_some_iff map_eq_some_iff)

section Settled

variable {K : Type}

def NV2AState.Settled (d : NV2AState K) : Prop :=
  (nv2aUpdateIrq d).pmc.pendingInterrupts = d.pmc.pendingInterrupts ∧ (nv2aUpdateIrq d).irq = d.irq

instance (d : NV2AState K) : Decidable d.Settled :=
  inferInstanceAs (Decidable (_ ∧ _))

theorem getLsbD_follow (i : Intr) (k : Nat) (hk : k < 32) (pending : Word) (j : Nat) :
    (follow i (1#32 <<< k) pending).getLsbD j = if j = k then i.raised else pending.getLsbD j := by
  have hbit : (1#32 <<< k).getLsbD j = decide (j = k) := by
    rw [← BitVec.twoPow_eq, BitVec.getLsbD_twoPow]
    grind
  rw [follow]
  by_cases hj : j < 32
  · cases i.raised with
    | true =>
      rw [if_pos rfl, BitVec.getLsbD_or, hbit]
      by_cases hjk : j = k <;> simp [hjk]
    | false =>
      rw [if_neg Bool.false_ne_true, BitVec.getLsbD_and, BitVec.getLsbD_not, hbit]
      by_cases hjk : j = k <;> simp [hjk, hj]
  · simp_all

theorem NV2AState.settled_iff (d : NV2AState K) :
    d.Settled ↔
      d.pmc.pendingInterrupts.getLsbD 8 = d.pfifo.raised ∧
      d.pmc.pendingInterrupts.getLsbD 24 = d.pcrtc.raised ∧
      d.pmc.pendingInterrupts.getLsbD 12 = d.pgraph.raised ∧
      d.irq = (d.pmc.pendingInterrupts != 0 && d.pmc.enabledInterrupts != 0) := by
  have hbits : ∀ j, (nv2aUpdateIrq d).pmc.pendingInterrupts.getLsbD j =
      if j = 12 then d.pgraph.raised else if j = 24 then d.pcrtc.raised
      else if j = 8 then d.pfifo.raised else d.pmc.pendingInterrupts.getLsbD j := by
    intro j
    simp only [nv2aUpdateIrq, nvPmcIntr0Pfifo, nvPmcIntr0Pcrtc, nvPmcIntr0Pgraph]
    rw [getLsbD_follow _ 12 (by decide), getLsbD_follow _ 24 (by decide),
      getLsbD_follow _ 8 (by decide)]
  constructor
  · intro h
    obtain ⟨hp, hirq⟩ := h
    rw [hp] at hbits
    refine ⟨hbits 8, hbits 24, hbits 12, ?_⟩
    rw [← hirq, ← hp]
    rfl
  · intro h
    obtain ⟨h8, h24, h12, hirq⟩ := h
    have hp : (nv2aUpdateIrq d).pmc.pendingInterrupts = d.pmc.pendingInterrupts := by
      apply BitVec.eq_of_getLsbD_eq
      intro j _
      rw [hbits j]
      split_ifs with h1 h2 h3
      · rw [h1, h12]
      · rw [h2, h24]
      · rw [h3, h8]
      · rfl
    refine ⟨hp, ?_⟩
    rw [hirq, ← hp]
    rfl

theorem settled_nv2aUpdateIrq (d : NV2AState K) : (nv2aUpdateIrq d).Settled := by
  rw [NV2AState.settled_iff]
  have hbit : ∀ k, k < 32 → ∀ i p, (follow i (1#32 <<< k) p).getLsbD k = i.raised := by
    intro k hk i p
    rw [getLsbD_follow i k hk, if_pos rfl]
  simp only [nv2aUpdateIrq, nvPmcIntr0Pfifo, nvPmcIntr0Pcrtc, nvPmcIntr0Pgraph]
  refine ⟨?_, ?_, ?_, trivial⟩
  · rw [getLsbD_follow _ 12 (by decide), if_neg (by decide), getLsbD_follow _ 24 (by decide),
      if_neg (by decide), hbit 8 (by decide)]
  · rw [getLsbD_follow _ 12 (by decide), if_neg (by decide), hbit 24 (by decide)]
  · rw [hbit 12 (by decide)]

theorem NV2AState.settled_congr {d d' : NV2AState K} (hpmc : d'.pmc = d.pmc)
    (hirq : d'.irq = d.irq) (hpfifo : d'.pfifo.raised = d.pfifo.raised)
    (hpcrtc : d'.pcrtc.raised = d.pcrtc.raised) (hpgraph : d'.pgraph.raised = d.pgraph.raised) :
    d'.Settled ↔ d.Settled := by
  rw [settled_iff, settled_iff, hpmc, hirq, hpfifo, hpcrtc, hpgraph]

theorem NV2AState.Settled.pgraph_iff {d : NV2AState K} (h : d.Settled) (pg : PGRAPHState K) :
    ({ d with pgraph := pg } : NV2AState K).Settled ↔ pg.raised = d.pgraph.raised := by
  rw [settled_iff] at h
  obtain ⟨h8, h24, h12, hirq⟩ := h
  rw [settled_iff]
  constructor
  · intro h'
    exact h'.2.2.1.symm.trans h12
  · intro hr
    exact ⟨h8, h24, h12.trans hr.symm, hirq⟩

end Settled

inductive Raising where
  | nothing
  | nop
  | contextSwitch
  deriving DecidableEq, Repr

structure Machine (K : Type) where
  device : NV2AState K
  raising : Raising

inductive Block where
  | pmc
  | pfifo
  | pcrtc
  | ptimer
  | pgraph
  deriving DecidableEq, Repr

inductive Event (K : Type) where
  | mmio (block : Block) (addr : Nat) (val : Word)
  | vblank
  | contextSwitch (channelId : Word)
  | noOperation (subchannel method parameter : Word)
  /-- Any other method; none of them has access to an interrupt register. -/
  | method (run : PGRAPHState K → PGRAPHState K)
  | fifo (regs : Nat → Word)
  /-- The FIFO thread gets the big lock and ends what it is raising. -/
  | bigLock
  | reset

section Machine

variable {K : Type}

def write (d : NV2AState K) : Block → Nat → Word → Option (NV2AState K)
  | .pmc, addr, val => some (pmcWrite d addr val)
  | .pfifo, addr, val => some (pfifoWrite d addr val)
  | .pcrtc, addr, val => some (pcrtcWrite d addr val)
  | .ptimer, addr, val => some (ptimerWrite d addr val)
  | .pgraph, addr, val => pgraphWrite d addr val

def Machine.Quiet (m : Machine K) : Prop := m.raising = .nothing

instance (m : Machine K) : Decidable m.Quiet :=
  inferInstanceAs (Decidable (_ = _))

/-- `none` where the event cannot happen or ends the process. -/
def step (m : Machine K) : Event K → Option (Machine K)
  | .mmio block addr val => (fun d => { m with device := d }) <$> write m.device block addr val
  | .vblank => some { m with device := nv2aVgaGfxUpdate m.device }
  | .contextSwitch channelId =>
    if m.Quiet then do
      let (d, raise) ← pgraphContextSwitchRequest m.device channelId
      return ⟨d, if raise then .contextSwitch else .nothing⟩
    else none
  | .noOperation subchannel method parameter =>
    if m.Quiet then
      if parameter = 0 then some m
      else do
        let d ← noOperationTrap m.device subchannel method parameter
        return ⟨d, .nop⟩
    else none
  | .method run =>
    if m.Quiet then
      let pg := { run m.device.pgraph with toIntr := m.device.pgraph.toIntr }
      some { m with device := { m.device with pgraph := pg } }
    else none
  | .fifo regs =>
    if m.Quiet then some { m with device := { m.device with pfifo.regs := regs } } else none
  | .bigLock =>
    match m.raising with
    | .nothing => none
    | .nop => some ⟨nv2aUpdateIrq m.device, .nothing⟩
    | .contextSwitch => some ⟨pgraphContextSwitchRaise m.device, .nothing⟩
  | .reset => if m.Quiet then some { m with device := pcibusReset m.device } else none

/-- The event does not change what PGRAPH reports by a register write, and a reset finds PGRAPH
reporting nothing: `nv2a_reset` leaves its interrupts, and the bus has lowered the line. -/
def Event.Keeps (d : NV2AState K) : Event K → Prop
  | .mmio .pgraph addr val =>
    (addr = nvPgraphIntr → (d.pgraph.toIntr.acknowledge val).raised = d.pgraph.raised) ∧
    (addr = nvPgraphIntrEn → (d.pgraph.toIntr.enable val).raised = d.pgraph.raised)
  | .reset => d.pgraph.raised = false
  | _ => True

/-! ## What the writes leave alone -/

variable {pg pg' : PGRAPHState K}

theorem pgraphRegW_toIntr {r : Nat} {v : Word}
    (h : pgraphRegW pg r v = some pg') : pg'.toIntr = pg.toIntr := by
  rw [pgraphRegW] at h
  split at h
  · cases h
    rfl
  · cases h

theorem pgSetMask_toIntr {reg : Nat} {mask value : Word}
    (h : pgSetMask pg reg mask value = some pg') : pg'.toIntr = pg.toIntr := by
  obtain ⟨v, _, hw⟩ := bind_eq_some_iff.mp h
  exact pgraphRegW_toIntr hw

theorem pgraphRdiWrite_toIntr {select : Word}
    (h : pgraphRdiWrite pg select = some pg') : pg'.toIntr = pg.toIntr := by
  grind [pgraphRdiWrite]

variable {val : Word}

theorem pgraphIncrement_toIntr
    (h : pgraphIncrement pg val = some pg') : pg'.toIntr = pg.toIntr := by
  rw [pgraphIncrement] at h
  split at h
  · cases h
    rfl
  · obtain ⟨_, _, h⟩ := bind_eq_some_iff.mp h
    obtain ⟨_, _, h⟩ := bind_eq_some_iff.mp h
    split at h
    · cases h
    · exact pgSetMask_toIntr h

theorem pgraphRdiData_toIntr (h : pgraphRdiData pg = some pg') :
    pg'.toIntr = pg.toIntr := by
  simp only [pgraphRdiData, bind_eq_bind, bind_eq_some_iff] at h
  obtain ⟨_, _, _, _, pg1, hrdi, h⟩ := h
  split at h
  · exact (pgSetMask_toIntr h).trans (pgraphRdiWrite_toIntr hrdi)
  · cases h

variable {d : NV2AState K}

theorem pgraphChannelCtxTrigger_toIntr
    (h : pgraphChannelCtxTrigger d val = some pg) : pg.toIntr = d.pgraph.toIntr := by
  simp only [pgraphChannelCtxTrigger, bind_eq_bind, bind_eq_some_iff] at h
  obtain ⟨_, _, h⟩ := h
  split at h
  · cases h
    rfl
  · split at h
    · exact pgraphRegW_toIntr h
    · cases h

variable {d' : NV2AState K} {m m' : Machine K}

theorem pgraphWrite_spec {addr : Nat} (h : pgraphWrite d addr val = some d') :
    ∃ pg, d' = { d with pgraph := pg } ∧
      pg.toIntr = if addr = nvPgraphIntr then d.pgraph.toIntr.acknowledge val
        else if addr = nvPgraphIntrEn then d.pgraph.toIntr.enable val else d.pgraph.toIntr := by
  rw [pgraphWrite] at h
  obtain ⟨pg, h, hd⟩ := map_eq_some_iff.mp h
  refine ⟨pg, hd.symm, ?_⟩
  split_ifs at h ⊢ with h1 h2 h3 h4 h5
  · cases h
    rfl
  · cases h
    rfl
  · exact pgraphIncrement_toIntr h
  · exact pgraphRdiData_toIntr h
  · exact pgraphChannelCtxTrigger_toIntr h
  · exact pgraphRegW_toIntr h

theorem pgraphContextSwitchRequest_quiet {channelId : Word}
    (h : pgraphContextSwitchRequest d channelId = some (d', false)) : d' = d := by
  simp only [pgraphContextSwitchRequest, bind_eq_bind, bind_eq_some_iff] at h
  obtain ⟨_, _, _, _, h⟩ := h
  split at h
  · cases h
    rfl
  · simp only [bind_eq_some_iff] at h
    obtain ⟨_, _, _, _, h⟩ := h
    split at h <;> cases h

theorem write_settled_iff {block : Block} {addr : Nat}
    (hs : d.Settled) (h : write d block addr val = some d') :
    d'.Settled ↔ (Event.mmio block addr val : Event K).Keeps d := by
  cases block with
  | pmc =>
    cases h
    refine iff_of_true ?_ trivial
    grind [pmcWrite, settled_nv2aUpdateIrq]
  | pfifo =>
    cases h
    refine iff_of_true ?_ trivial
    rw [pfifoWrite]
    split_ifs
    · exact settled_nv2aUpdateIrq _
    · exact settled_nv2aUpdateIrq _
    · exact (NV2AState.settled_congr rfl rfl rfl rfl rfl).mpr hs
  | pcrtc =>
    cases h
    refine iff_of_true ?_ trivial
    rw [pcrtcWrite]
    split_ifs
    · exact settled_nv2aUpdateIrq _
    · exact settled_nv2aUpdateIrq _
    · exact (NV2AState.settled_congr rfl rfl rfl rfl rfl).mpr hs
    · exact hs
  | ptimer =>
    cases h
    refine iff_of_true ?_ trivial
    rw [ptimerWrite]
    split_ifs
    · exact settled_nv2aUpdateIrq _
    · exact settled_nv2aUpdateIrq _
    all_goals exact (NV2AState.settled_congr rfl rfl rfl rfl rfl).mpr hs
  | pgraph =>
    obtain ⟨pg, hd, hpg⟩ := pgraphWrite_spec h
    rw [hd, hs.pgraph_iff, hpg, Event.Keeps]
    grind [nvPgraphIntr, nvPgraphIntrEn]

theorem pcibusReset_settled_iff (d : NV2AState K) :
    (pcibusReset d).Settled ↔ d.pgraph.raised = false := by
  have hcleared : ∀ e : Word, (Intr.mk 0 e).raised = false := by
    intro e
    simp [Intr.raised]
  have hpfifo : (pcibusReset d).pfifo.raised = false := hcleared d.pfifo.enabledInterrupts
  have hpcrtc : (pcibusReset d).pcrtc.raised = false := hcleared d.pcrtc.enabledInterrupts
  have hpending : (pcibusReset d).pmc.pendingInterrupts = 0 := rfl
  have hpgraph : (pcibusReset d).pgraph.raised = d.pgraph.raised := rfl
  have hirq : (pcibusReset d).irq = false := rfl
  rw [NV2AState.settled_iff, hpfifo, hpcrtc, hpending, hpgraph, hirq]
  simp

theorem step_settled_iff {e : Event K} (hm : m.Quiet) (hs : m.device.Settled)
    (h : step m e = some m') (hm' : m'.Quiet) : m'.device.Settled ↔ e.Keeps m.device := by
  cases e with
  | mmio block addr val =>
    obtain ⟨d, hd, rfl⟩ := map_eq_some_iff.mp h
    exact write_settled_iff hs hd
  | vblank =>
    cases h
    exact iff_of_true (settled_nv2aUpdateIrq _) trivial
  | contextSwitch channelId =>
    rw [step, if_pos hm] at h
    obtain ⟨⟨d, raise⟩, hd, h⟩ := bind_eq_some_iff.mp h
    cases h
    cases raise with
    | true => cases hm'
    | false =>
      rw [pgraphContextSwitchRequest_quiet hd]
      exact iff_of_true hs trivial
  | noOperation subchannel method parameter =>
    rw [step, if_pos hm] at h
    split at h
    · cases h
      exact iff_of_true hs trivial
    · obtain ⟨d, _, h⟩ := bind_eq_some_iff.mp h
      cases h
      cases hm'
  | method run =>
    rw [step, if_pos hm] at h
    cases h
    exact iff_of_true ((NV2AState.settled_congr rfl rfl rfl rfl rfl).mpr hs) trivial
  | fifo regs =>
    rw [step, if_pos hm] at h
    cases h
    exact iff_of_true ((NV2AState.settled_congr rfl rfl rfl rfl rfl).mpr hs) trivial
  | bigLock =>
    rw [step, hm] at h
    cases h
  | reset =>
    rw [step, if_pos hm] at h
    cases h
    exact pcibusReset_settled_iff m.device

def Machine.Kept (m m' : Machine K) : Prop :=
  ∃ e : Event K, e.Keeps m.device ∧ step m e = some m'

theorem Machine.Kept.settled (h : m.Kept m')
    (hs : m.Quiet → m.device.Settled) : m'.Quiet → m'.device.Settled := by
  intro hm'
  obtain ⟨e, hkeeps, hstep⟩ := h
  by_cases hm : m.Quiet
  · exact (step_settled_iff hm (hs hm) hstep hm').mpr hkeeps
  · cases e with
    | mmio block addr val =>
      obtain ⟨d, _, rfl⟩ := map_eq_some_iff.mp hstep
      exact absurd hm' hm
    | vblank =>
      cases hstep
      exact absurd hm' hm
    | bigLock =>
      rw [step] at hstep
      split at hstep
      · cases hstep
      · cases hstep
        exact settled_nv2aUpdateIrq _
      · cases hstep
        exact settled_nv2aUpdateIrq _
    | contextSwitch | noOperation | method | fifo | reset =>
      rw [step, if_neg hm] at hstep
      cases hstep

end Machine

def powerOn : Machine Unit where
  device :=
    { pmc := ⟨0, 0⟩
      pfifo := { pendingInterrupts := 0, enabledInterrupts := 0, regs := fun _ => 0 }
      ptimer :=
        { pendingInterrupts := 0, enabledInterrupts := 0, numerator := 0, denominator := 0
          alarmTime := 0 }
      pcrtc := { pendingInterrupts := 0, enabledInterrupts := 0, start := 0, raster := 0 }
      pgraph :=
        { pendingInterrupts := 0, enabledInterrupts := 0, regs := fun _ => 0
          regsDirty := fun _ => false, waitingForNop := false, waitingForFlip := false
          waitingForContextSwitch := false, rest := () }
      vram := fun _ => 0
      vramSize := 0
      ramin := fun _ => 0
      raminSize := 0
      irq := false }
  raising := .nothing

/-- The vertical blank is enabled and comes, and then the machine is reset with the line high. -/
def frame : List (Event Unit) :=
  [.mmio .pmc nvPmcIntrEn0 1, .mmio .pcrtc nvPcrtcIntrEn0 nvPcrtcIntr0Vblank, .vblank, .reset]

end DukeX.Nv2a
