import DukeX.Lib.BitField
import DukeX.Lib.Store

/-!
# The device and its registers

The state of the NV2A as the front end sees it (`nv2a_int.h`, `pgraph.h`), the register writes of
the blocks that own interrupts (`pmc.c`, `pfifo.c`, `pcrtc.c`, `ptimer.c`, `pgraph.c`), the
interrupt line and the reset (`nv2a.c`).
-/

namespace DukeX.Nv2a

open Lib

abbrev Word := BitVec 32

def ldlLeP (memory : Store) (address : Nat) : Word :=
  (memory (address + 3)).toBitVec ++ (memory (address + 2)).toBitVec ++
    (memory (address + 1)).toBitVec ++ (memory address).toBitVec

structure Intr where
  pendingInterrupts : Word
  enabledInterrupts : Word

structure Pfifo extends Intr where
  regs : Nat → Word

structure Ptimer extends Intr where
  numerator : Word
  denominator : Word
  alarmTime : Word

structure Pcrtc extends Intr where
  start : Word
  raster : Word

structure PGRAPHState (K : Type) extends Intr where
  regs : Nat → Word
  regsDirty : Nat → Bool
  waitingForNop : Bool
  waitingForFlip : Bool
  waitingForContextSwitch : Bool
  rest : K

structure NV2AState (K : Type) where
  pmc : Intr
  pfifo : Pfifo
  ptimer : Ptimer
  pcrtc : Pcrtc
  pgraph : PGRAPHState K
  vram : Store
  vramSize : Nat
  ramin : Store
  raminSize : Nat
  irq : Bool

/-! ## Registers -/

def nvPmcIntr0 : Nat := 0x100
def nvPmcIntr0Pfifo : Word := 1#32 <<< 8
def nvPmcIntr0Pgraph : Word := 1#32 <<< 12
def nvPmcIntr0Pcrtc : Word := 1#32 <<< 24
def nvPmcIntrEn0 : Nat := 0x140

def nvPfifoIntr0 : Nat := 0x100
def nvPfifoIntrEn0 : Nat := 0x140
def nvPfifoCache1Status : Nat := 0x1214
def nvPfifoCache1StatusLowMark : Word := 1#32 <<< 4

def nvPcrtcIntr0 : Nat := 0x100
def nvPcrtcIntr0Vblank : Word := 1
def nvPcrtcIntrEn0 : Nat := 0x140
def nvPcrtcStart : Nat := 0x800

def nvPtimerIntr0 : Nat := 0x100
def nvPtimerIntrEn0 : Nat := 0x140
def nvPtimerNumerator : Nat := 0x200
def nvPtimerDenominator : Nat := 0x210
def nvPtimerAlarm0 : Nat := 0x420

def nvPgraphDebug3 : Nat := 0x8C
def nvPgraphDebug3HwContextSwitch : Word := 1#32 <<< 2
def nvPgraphIntr : Nat := 0x100
def nvPgraphIntrContextSwitch : Word := 1#32 <<< 12
def nvPgraphIntrError : Word := 1#32 <<< 20
def nvPgraphNsource : Nat := 0x108
def nvPgraphNsourceNotification : Word := 1
def nvPgraphIntrEn : Nat := 0x140
def nvPgraphCtxControl : Nat := 0x144
def nvPgraphCtxControlChid : Word := 1#32 <<< 16
def nvPgraphCtxUser : Nat := 0x148
def nvPgraphCtxUserChid : Word := 0x1F000000
def nvPgraphTrappedAddr : Nat := 0x704
def nvPgraphTrappedAddrMthd : Word := 0x1FFF
def nvPgraphTrappedAddrSubch : Word := 0x70000
def nvPgraphTrappedAddrChid : Word := 0x1F00000
def nvPgraphTrappedDataLow : Nat := 0x708
def nvPgraphSurface : Nat := 0x710
def nvPgraphSurfaceWrite3d : Word := 0x700000
def nvPgraphSurfaceRead3d : Word := 0x7000000
def nvPgraphSurfaceModulo3d : Word := 0x70000000
def nvPgraphIncrement : Nat := 0x71C
def nvPgraphIncrementRead3d : Word := 1#32 <<< 1
def nvPgraphFifo : Nat := 0x720
def nvPgraphFifoAccess : Word := 1
def nvPgraphRdiIndex : Nat := 0x750
def nvPgraphRdiIndexAddress : Word := 0x1FFC
def nvPgraphRdiIndexSelect : Word := 0x1FF0000
def nvPgraphRdiData : Nat := 0x754
def nvPgraphChannelCtxPointer : Nat := 0x784
def nvPgraphChannelCtxPointerInst : Word := 0xFFFF
def nvPgraphChannelCtxTrigger : Nat := 0x788
def nvPgraphChannelCtxTriggerReadIn : Word := 1

def rdiIndexVtxConstants0 : Word := 0x17
def rdiIndexVtxConstants1 : Word := 0xCC

section Registers

variable {K : Type}

def pgraphRegR (pg : PGRAPHState K) (r : Nat) : Option Word :=
  if r % 4 = 0 then some (pg.regs r) else none

def pgraphRegW (pg : PGRAPHState K) (r : Nat) (v : Word) : Option (PGRAPHState K) :=
  if r % 4 = 0 then
    some { pg with
      regsDirty := if pg.regs r ≠ v then Function.update pg.regsDirty (r / 4) true else pg.regsDirty
      regs := Function.update pg.regs r v }
  else none

def pgGetMask (pg : PGRAPHState K) (reg : Nat) (mask : Word) : Option Word := do
  return getMask (← pgraphRegR pg reg) mask

def pgSetMask (pg : PGRAPHState K) (reg : Nat) (mask value : Word) : Option (PGRAPHState K) := do
  pgraphRegW pg reg (setMask (← pgraphRegR pg reg) mask value)

def pgraphRdiWrite (pg : PGRAPHState K) (select : Word) : Option (PGRAPHState K) :=
  if select = rdiIndexVtxConstants0 ∨ select = rdiIndexVtxConstants1 then none else some pg

end Registers

/-! ## Interrupts -/

def Intr.raised (i : Intr) : Bool :=
  i.pendingInterrupts &&& i.enabledInterrupts != 0

def Intr.acknowledge (i : Intr) (val : Word) : Intr :=
  { i with pendingInterrupts := i.pendingInterrupts &&& ~~~val }

def Intr.enable (i : Intr) (val : Word) : Intr :=
  { i with enabledInterrupts := val }

def follow (i : Intr) (bit pending : Word) : Word :=
  if i.raised then pending ||| bit else pending &&& ~~~bit

section Writes

variable {K : Type}

def nv2aUpdateIrq (d : NV2AState K) : NV2AState K :=
  let pending := follow d.pfifo.toIntr nvPmcIntr0Pfifo d.pmc.pendingInterrupts
  let pending := follow d.pcrtc.toIntr nvPmcIntr0Pcrtc pending
  let pending := follow d.pgraph.toIntr nvPmcIntr0Pgraph pending
  { d with
    pmc := { d.pmc with pendingInterrupts := pending }
    irq := pending != 0 && d.pmc.enabledInterrupts != 0 }

def pmcWrite (d : NV2AState K) (addr : Nat) (val : Word) : NV2AState K :=
  if addr = nvPmcIntr0 then nv2aUpdateIrq { d with pmc := d.pmc.acknowledge val }
  else if addr = nvPmcIntrEn0 then nv2aUpdateIrq { d with pmc := d.pmc.enable val }
  else d

def pfifoWrite (d : NV2AState K) (addr : Nat) (val : Word) : NV2AState K :=
  if addr = nvPfifoIntr0 then
    nv2aUpdateIrq { d with pfifo.toIntr := d.pfifo.toIntr.acknowledge val }
  else if addr = nvPfifoIntrEn0 then
    nv2aUpdateIrq { d with pfifo.toIntr := d.pfifo.toIntr.enable val }
  else { d with pfifo.regs := Function.update d.pfifo.regs addr val }

def pcrtcWrite (d : NV2AState K) (addr : Nat) (val : Word) : NV2AState K :=
  if addr = nvPcrtcIntr0 then
    nv2aUpdateIrq { d with pcrtc.toIntr := d.pcrtc.toIntr.acknowledge val }
  else if addr = nvPcrtcIntrEn0 then
    nv2aUpdateIrq { d with pcrtc.toIntr := d.pcrtc.toIntr.enable val }
  else if addr = nvPcrtcStart then { d with pcrtc.start := val &&& 0x07FFFFFF }
  else d

def ptimerWrite (d : NV2AState K) (addr : Nat) (val : Word) : NV2AState K :=
  if addr = nvPtimerIntr0 then
    nv2aUpdateIrq { d with ptimer.toIntr := d.ptimer.toIntr.acknowledge val }
  else if addr = nvPtimerIntrEn0 then
    nv2aUpdateIrq { d with ptimer.toIntr := d.ptimer.toIntr.enable val }
  else if addr = nvPtimerDenominator then { d with ptimer.denominator := val }
  else if addr = nvPtimerNumerator then { d with ptimer.numerator := val }
  else if addr = nvPtimerAlarm0 then { d with ptimer.alarmTime := val }
  else d

def pgraphAcknowledge (pg : PGRAPHState K) (val : Word) : PGRAPHState K :=
  let pg := { pg with toIntr := pg.toIntr.acknowledge val }
  { pg with
    waitingForNop :=
      if pg.pendingInterrupts &&& nvPgraphIntrError = 0 then false else pg.waitingForNop
    waitingForContextSwitch :=
      if pg.pendingInterrupts &&& nvPgraphIntrContextSwitch = 0 then false
      else pg.waitingForContextSwitch }

def pgraphIncrement (pg : PGRAPHState K) (val : Word) : Option (PGRAPHState K) :=
  if val &&& nvPgraphIncrementRead3d = 0 then some pg
  else do
    let read ← pgGetMask pg nvPgraphSurface nvPgraphSurfaceRead3d
    let modulo ← pgGetMask pg nvPgraphSurface nvPgraphSurfaceModulo3d
    if modulo = 0 then none
    else pgSetMask pg nvPgraphSurface nvPgraphSurfaceRead3d ((read + 1) % modulo)

def pgraphRdiData (pg : PGRAPHState K) : Option (PGRAPHState K) := do
  let select ← pgGetMask pg nvPgraphRdiIndex nvPgraphRdiIndexSelect
  let address ← pgGetMask pg nvPgraphRdiIndex nvPgraphRdiIndexAddress
  let pg ← pgraphRdiWrite pg select
  if address < getMask nvPgraphRdiIndexAddress nvPgraphRdiIndexAddress then
    pgSetMask pg nvPgraphRdiIndex nvPgraphRdiIndexAddress (address + 1)
  else none

def pgraphChannelCtxTrigger (d : NV2AState K) (val : Word) : Option (PGRAPHState K) := do
  let instance' ← pgGetMask d.pgraph nvPgraphChannelCtxPointer nvPgraphChannelCtxPointerInst
  let contextAddress := instance'.toNat <<< 4
  if val &&& nvPgraphChannelCtxTriggerReadIn = 0 then some d.pgraph
  else if contextAddress < d.raminSize then
    pgraphRegW d.pgraph nvPgraphCtxUser (ldlLeP d.ramin contextAddress)
  else none

def pgraphWrite (d : NV2AState K) (addr : Nat) (val : Word) : Option (NV2AState K) :=
  (fun pg => { d with pgraph := pg }) <$>
    if addr = nvPgraphIntr then some (pgraphAcknowledge d.pgraph val)
    else if addr = nvPgraphIntrEn then
      some { d.pgraph with toIntr := d.pgraph.toIntr.enable val }
    else if addr = nvPgraphIncrement then pgraphIncrement d.pgraph val
    else if addr = nvPgraphRdiData then pgraphRdiData d.pgraph
    else if addr = nvPgraphChannelCtxTrigger then pgraphChannelCtxTrigger d val
    else pgraphRegW d.pgraph addr val

def nv2aVgaGfxUpdate (d : NV2AState K) : NV2AState K :=
  nv2aUpdateIrq { d with
    pcrtc.pendingInterrupts := d.pcrtc.pendingInterrupts ||| nvPcrtcIntr0Vblank
    pcrtc.raster := 0 }

def nv2aReset (d : NV2AState K) : NV2AState K :=
  let status := Function.update (fun _ => 0) nvPfifoCache1Status nvPfifoCache1StatusLowMark
  { d with
    pmc.pendingInterrupts := 0
    pfifo.regs := status
    pfifo.pendingInterrupts := 0
    ptimer.pendingInterrupts := 0
    pcrtc.start := 0
    pcrtc.pendingInterrupts := 0
    pgraph.regs := fun _ => 0
    pgraph.waitingForNop := false
    pgraph.waitingForFlip := false
    pgraph.waitingForContextSwitch := false }

/-- A reset of the bus: the device's own reset, after which `pcibus_reset_hold` lowers its line. -/
def pcibusReset (d : NV2AState K) : NV2AState K := { nv2aReset d with irq := false }

end Writes

/-! ## Interrupts raised by the FIFO thread

Both functions give up `pg->lock` and wait for the big lock before the line changes, so the guest can
run in between. Each is modelled by what it does before and what it does after. -/

section Raising

variable {K : Type}

def pgraphContextSwitchRequest (d : NV2AState K) (channelId : Word) :
    Option (NV2AState K × Bool) := do
  let pg := d.pgraph
  let channelValid := (← pgraphRegR pg nvPgraphCtxControl) &&& nvPgraphCtxControlChid != 0
  let pgraphChannelId ← pgGetMask pg nvPgraphCtxUser nvPgraphCtxUserChid
  if channelValid && pgraphChannelId = channelId then return (d, false)
  else
    let pg ← pgSetMask pg nvPgraphTrappedAddr nvPgraphTrappedAddrChid channelId
    let hardware ← pgGetMask pg nvPgraphDebug3 nvPgraphDebug3HwContextSwitch
    if hardware ≠ 0 then none
    else return ({ d with pgraph := { pg with waitingForContextSwitch := true } }, true)

def pgraphContextSwitchRaise (d : NV2AState K) : NV2AState K :=
  nv2aUpdateIrq { d with
    pgraph.pendingInterrupts := d.pgraph.pendingInterrupts ||| nvPgraphIntrContextSwitch }

def noOperationTrap (d : NV2AState K) (subchannel method parameter : Word) :
    Option (NV2AState K) := do
  let channelId ← pgGetMask d.pgraph nvPgraphCtxUser nvPgraphCtxUserChid
  if d.pgraph.pendingInterrupts &&& nvPgraphIntrError ≠ 0 then none
  else
    let pg ← pgSetMask d.pgraph nvPgraphTrappedAddr nvPgraphTrappedAddrChid channelId
    let pg ← pgSetMask pg nvPgraphTrappedAddr nvPgraphTrappedAddrSubch subchannel
    let pg ← pgSetMask pg nvPgraphTrappedAddr nvPgraphTrappedAddrMthd method
    let pg ← pgraphRegW pg nvPgraphTrappedDataLow parameter
    let pg ← pgraphRegW pg nvPgraphNsource nvPgraphNsourceNotification
    return { d with
      pgraph := { pg with
        pendingInterrupts := pg.pendingInterrupts ||| nvPgraphIntrError
        waitingForNop := true } }

end Raising

end DukeX.Nv2a
