import DukeX.Lib.BitField
import DukeX.Lib.Store

/-!
# The network adapter

`hw/xbox/mcpx/nvnet/nvnet.c`: the register file, the two descriptor rings in guest memory, the PHY
and the interrupt line.
-/

namespace DukeX.Nvnet

open Lib

abbrev Word := BitVec 32

/-! ## Registers -/

def mmioSize : Nat := 0x400

def nvnetIrqStatus : Nat := 0x000
def nvnetIrqStatusRx : Word := 0x2
def nvnetIrqStatusTx : Word := 0x10
def nvnetIrqStatusMiievent : Word := 0x40
def nvnetIrqMask : Nat := 0x004
def nvnetTransmitterControl : Nat := 0x084
def nvnetTransmitterControlStart : Word := 0x1
def nvnetPacketFilter : Nat := 0x08C
def nvnetPacketFilterMyaddr : Word := 0x20
def nvnetReceiverControl : Nat := 0x094
def nvnetReceiverControlStart : Word := 0x1
def nvnetMacAddrA : Nat := 0x0A8
def nvnetMacAddrB : Nat := 0x0AC
def nvnetMulticastAddrA : Nat := 0x0B0
def nvnetMulticastAddrB : Nat := 0x0B4
def nvnetMulticastMaskA : Nat := 0x0B8
def nvnetMulticastMaskB : Nat := 0x0BC
def nvnetTxRingPhysAddr : Nat := 0x100
def nvnetRxRingPhysAddr : Nat := 0x104
def nvnetRingSize : Nat := 0x108
def nvnetRingSizeTx : Word := 0x0000FFFF
def nvnetRingSizeRx : Word := 0xFFFF0000
def nvnetTxRingCurrentDescPhysAddr : Nat := 0x11C
def nvnetRxRingCurrentDescPhysAddr : Nat := 0x120
def nvnetUnknownSetupReg5 : Nat := 0x130
def nvnetUnknownSetupReg5Bit31 : Word := 0x80000000
def nvnetTxRingNextDescPhysAddr : Nat := 0x134
def nvnetRxRingNextDescPhysAddr : Nat := 0x138
def nvnetTxRxControl : Nat := 0x144
def nvnetTxRxControlKick : Word := 0x1
def nvnetTxRxControlBit1 : Word := 0x2
def nvnetTxRxControlBit2 : Word := 0x4
def nvnetTxRxControlIdle : Word := 0x8
def nvnetTxRxControlReset : Word := 0x10
def nvnetMiiStatus : Nat := 0x180
def nvnetMiiStatusLinkchange : Word := 0x8
def nvnetAdapterControl : Nat := 0x188
def nvnetAdapterControlLinkup : Word := 0x4
def nvnetMdioAddr : Nat := 0x190
def nvnetMdioAddrInuse : Word := 0x8000
def nvnetMdioAddrWrite : Word := 0x400
def nvnetMdioAddrPhyaddr : Word := 0x3E0
def nvnetMdioAddrPhyreg : Word := 0x1F
def nvnetMdioData : Nat := 0x194

def miiBmcr : Nat := 0
def miiBmcrAutoen : Word := 0x1000
def miiBmcrFd : Word := 0x100
def miiBmsr : Nat := 1
def miiBmsrAnComp : Word := 0x20
def miiBmsrAutoneg : Word := 0x8
def miiBmsrLinkSt : Word := 0x4
def miiAnar : Nat := 4
def miiAnlpar : Nat := 5
def miiAnlparAck : Word := 0x4000
def miiAnlparAbilities : Word := 0x3E0
def phyAddr : Word := 1

def nvTxLastpacket : BitVec 16 := 0x1
def nvTxValid : BitVec 16 := 0x8000
def nvTxStatus : BitVec 16 := 0xFC08
def nvRxDescriptorvalid : BitVec 16 := 0x1
def nvRxBit4 : BitVec 16 := 0x10
def nvRxAvail : BitVec 16 := 0x8000

def rxAllocBufsize : Nat := 1628
def txAllocBufsize : Nat := 1628

structure NvNetState where
  regs : Nat → Word
  phyRegs : Nat → Word
  txDmaBufOffset : Nat
  txDmaBuf : Store
  /-- Whether the timer is armed. Its deadline is left out: an armed timer may fire at any time. -/
  autonegTimer : Bool
  linkDown : Bool
  irq : Bool
  txRingIndex : UInt8
  rxRingIndex : UInt8

structure Machine where
  nic : NvNetState
  ram : Store
  sent : List (List UInt8)

/-! ## Register access -/

def getReg (s : NvNetState) (addr : Nat) : Word := s.regs addr

def setReg (s : NvNetState) (addr : Nat) (val : Word) : NvNetState :=
  { s with regs := Function.update s.regs addr val }

def narrow (size : Nat) (val : Word) : Word := val &&& BitVec.ofNat 32 (2 ^ (8 * size) - 1)

def getRegExt (s : NvNetState) (addr size : Nat) : Option Word :=
  if addr < mmioSize ∧ size ∈ [1, 2, 4] then some (narrow size (getReg s addr)) else none

def setRegExt (s : NvNetState) (addr : Nat) (val : Word) (size : Nat) : Option NvNetState :=
  if addr < mmioSize ∧ size ∈ [1, 2, 4] then
    let keep := getReg s addr &&& ~~~BitVec.ofNat 32 (2 ^ (8 * size) - 1)
    some (setReg s addr (keep ||| narrow size val))
  else none

def orReg (s : NvNetState) (addr : Nat) (val : Word) : NvNetState :=
  setReg s addr (getReg s addr ||| val)

def andReg (s : NvNetState) (addr : Nat) (val : Word) : NvNetState :=
  setReg s addr (getReg s addr &&& val)

def setRegWithMask (s : NvNetState) (addr : Nat) (val wMask : Word) : NvNetState :=
  setReg s addr ((getReg s addr &&& (val ||| ~~~wMask)) ||| (val &&& wMask))

def updateIrq (s : NvNetState) : NvNetState :=
  { s with irq := getReg s nvnetIrqMask &&& getReg s nvnetIrqStatus != 0 }

def setIntrStatus (s : NvNetState) (status : Word) : NvNetState :=
  updateIrq (orReg s nvnetIrqStatus status)

def setMiiIntrStatus (s : NvNetState) (status : Word) : NvNetState :=
  setIntrStatus (orReg s nvnetMiiStatus status) nvnetIrqStatusMiievent

/-! ## Descriptor rings -/

structure Ring where
  base : Nat
  current : Nat
  next : Nat
  sizeMask : Word

def txRing : Ring :=
  ⟨nvnetTxRingPhysAddr, nvnetTxRingCurrentDescPhysAddr, nvnetTxRingNextDescPhysAddr, nvnetRingSizeTx⟩

def rxRing : Ring :=
  ⟨nvnetRxRingPhysAddr, nvnetRxRingCurrentDescPhysAddr, nvnetRxRingNextDescPhysAddr, nvnetRingSizeRx⟩

def getRingSize (s : NvNetState) (ring : Ring) : Nat :=
  ((getMask (getReg s nvnetRingSize) ring.sizeMask).toNat + 1) % 2 ^ 16

def maxDescAddr (s : NvNetState) (ring : Ring) : Nat :=
  ((getReg s ring.base).toNat + getRingSize s ring * 8) % 2 ^ 32

def updateCurrentRingDescAddr (s : NvNetState) (ring : Ring) : Nat × NvNetState :=
  let base := (getReg s ring.base).toNat
  let cur := (getReg s ring.next).toNat
  let cur := if cur < base ∨ cur + 8 > maxDescAddr s ring then base else cur
  (cur, setReg s ring.current (BitVec.ofNat 32 cur))

def advanceNextRingDescAddr (s : NvNetState) (ring : Ring) : NvNetState :=
  let base := (getReg s ring.base).toNat
  let next := ((getReg s ring.current).toNat + 8) % 2 ^ 32
  let next := if next ≥ maxDescAddr s ring then base else next
  setReg s ring.next (BitVec.ofNat 32 next)

def resetDescriptorRingPointers (s : NvNetState) : NvNetState :=
  let rewind (s : NvNetState) (ring : Ring) : NvNetState :=
    setReg (setReg s ring.current (getReg s ring.base)) ring.next (getReg s ring.base)
  rewind (rewind s txRing) rxRing

structure RingDesc where
  bufferAddr : Nat
  length : Nat
  flags : BitVec 16
  deriving DecidableEq, Repr

def loadRingDesc (ram : Store) (descAddr : Nat) : RingDesc where
  bufferAddr := leNat (ram.read descAddr 4)
  length := leNat (ram.read (descAddr + 4) 2)
  flags := BitVec.ofNat 16 (leNat (ram.read (descAddr + 6) 2))

def storeRingDesc (ram : Store) (descAddr : Nat) (desc : RingDesc) : Store :=
  ram.write descAddr
    (leBytes 4 desc.bufferAddr ++ leBytes 2 desc.length ++ leBytes 2 desc.flags.toNat)

/-! ## Link and PHY -/

def linkUp (s : NvNetState) : Bool := s.phyRegs miiBmsr &&& miiBmsrLinkSt != 0

def haveAutoneg (s : NvNetState) : Bool := s.phyRegs miiBmcr &&& miiBmcrAutoen != 0

def autonegComplete (s : NvNetState) : Bool := s.phyRegs miiBmsr &&& miiBmsrAnComp != 0

def setPhy (s : NvNetState) (reg : Nat) (val : Word) : NvNetState :=
  { s with phyRegs := Function.update s.phyRegs reg val }

def updateRegsOnLinkDown (s : NvNetState) : NvNetState :=
  let s := setPhy s miiBmsr (s.phyRegs miiBmsr &&& ~~~miiBmsrLinkSt)
  let s := setPhy s miiBmsr (s.phyRegs miiBmsr &&& ~~~miiBmsrAnComp)
  let s := setPhy s miiAnlpar (s.phyRegs miiAnlpar &&& ~~~miiAnlparAck)
  andReg s nvnetAdapterControl (~~~nvnetAdapterControlLinkup)

def setLinkDown (s : NvNetState) : NvNetState :=
  setMiiIntrStatus (updateRegsOnLinkDown s) nvnetMiiStatusLinkchange

def updateRegsOnLinkUp (s : NvNetState) : NvNetState :=
  orReg (setPhy s miiBmsr (s.phyRegs miiBmsr ||| miiBmsrLinkSt)) nvnetAdapterControl
    nvnetAdapterControlLinkup

def setLinkUp (s : NvNetState) : NvNetState :=
  setMiiIntrStatus (updateRegsOnLinkUp s) nvnetMiiStatusLinkchange

def restartAutoneg (s : NvNetState) : NvNetState := { s with autonegTimer := true }

def autonegDone (s : NvNetState) : NvNetState :=
  let s := setPhy s miiAnlpar (s.phyRegs miiAnlpar ||| miiAnlparAck)
  setLinkUp (setPhy s miiBmsr (s.phyRegs miiBmsr ||| miiBmsrAnComp))

def autonegTimerFires (s : NvNetState) : NvNetState :=
  if s.autonegTimer then
    let s := { s with autonegTimer := false }
    if s.linkDown then s else autonegDone s
  else s

def nvnetSetLinkStatus (s : NvNetState) : NvNetState :=
  if s.linkDown then setLinkDown s
  else if haveAutoneg s && !autonegComplete s then restartAutoneg s
  else setLinkUp s

def phyRegRead (s : NvNetState) (reg : Nat) : Word :=
  if reg < 6 then s.phyRegs reg &&& 0xFFFF else 0

def phyRegWrite (s : NvNetState) (reg : Nat) (value : Word) : NvNetState :=
  if reg < 6 then setPhy s reg (value &&& 0xFFFF) else s

def mdioRead (s : NvNetState) : NvNetState :=
  let addr := getReg s nvnetMdioAddr
  let data :=
    if getMask addr nvnetMdioAddrPhyaddr = phyAddr then
      phyRegRead s (getMask addr nvnetMdioAddrPhyreg).toNat
    else -1
  andReg (setReg s nvnetMdioData data) nvnetMdioAddr (~~~nvnetMdioAddrInuse)

def mdioWrite (s : NvNetState) : NvNetState :=
  let addr := getReg s nvnetMdioAddr
  let s :=
    if getMask addr nvnetMdioAddrPhyaddr = phyAddr then
      phyRegWrite s (getMask addr nvnetMdioAddrPhyreg).toNat (getReg s nvnetMdioData)
    else s
  andReg s nvnetMdioAddr (~~~nvnetMdioAddrInuse)

/-! ## Transmission -/

def dmaEnabled (s : NvNetState) : Bool := getReg s nvnetTxRxControl &&& nvnetTxRxControlBit2 == 0

def setDmaIdle (s : NvNetState) (idle : Bool) : NvNetState :=
  if idle then orReg s nvnetTxRxControl nvnetTxRxControlIdle
  else andReg s nvnetTxRxControl (~~~nvnetTxRxControlIdle)

def canTransmit (s : NvNetState) : Bool :=
  getReg s nvnetTransmitterControl &&& nvnetTransmitterControlStart != 0 && dmaEnabled s && linkUp s

/-- What the host's network answers before `qemu_send_packet` returns is added by `dmaLoopWith`. -/
def sendPacket (m : Machine) (packet : List UInt8) : Machine :=
  if m.nic.linkDown then m else { m with sent := m.sent ++ [packet] }

def RingDesc.isLastPacket (desc : RingDesc) : Bool := desc.flags &&& nvTxLastpacket != 0

def takeDesc (m : Machine) (cur : Nat) (desc : RingDesc) (length : Nat) : Machine :=
  let data := m.ram.read desc.bufferAddr length
  let m := { m with
    nic.txDmaBuf := m.nic.txDmaBuf.write m.nic.txDmaBufOffset data
    nic.txDmaBufOffset := m.nic.txDmaBufOffset + length }
  let m :=
    if desc.isLastPacket then
      let m := sendPacket m (m.nic.txDmaBuf.read 0 m.nic.txDmaBufOffset)
      { m with nic.txDmaBufOffset := 0 }
    else m
  { m with
    ram := storeRingDesc m.ram cur { desc with flags := desc.flags &&& ~~~nvTxStatus }
    nic := advanceNextRingDescAddr m.nic txRing }

def dmaLoop : Nat → Machine → Option (Machine × Bool)
  | 0, m => some (m, false)
  | n + 1, m =>
    let (cur, nic) := updateCurrentRingDescAddr m.nic txRing
    let m := { m with nic := nic }
    let desc := loadRingDesc m.ram cur
    let length := (desc.length + 1) % 2 ^ 16
    if desc.flags &&& nvTxValid = 0 then some (m, false)
    else if m.nic.txDmaBufOffset + length ≤ txAllocBufsize then
      let m := takeDesc m cur desc length
      if desc.isLastPacket then some (m, true) else dmaLoop n m
    else none

def dmaPacketFromGuest (m : Machine) : Option Machine :=
  if canTransmit m.nic then do
    let m := { m with nic := setDmaIdle m.nic false }
    let (m, packetSent) ← dmaLoop (getRingSize m.nic txRing) m
    let nic := setDmaIdle m.nic true
    return { m with nic := if packetSent then setIntrStatus nic nvnetIrqStatusTx else nic }
  else some m

def rxBufAvailable (m : Machine) : Bool × NvNetState :=
  let (cur, nic) := updateCurrentRingDescAddr m.nic rxRing
  ((loadRingDesc m.ram cur).flags &&& nvRxAvail != 0, nic)

def nvnetCanReceive (m : Machine) : Bool × NvNetState :=
  let rxEn := getReg m.nic nvnetReceiverControl &&& nvnetReceiverControlStart != 0
  let (bufAvail, nic) := rxBufAvailable m
  (rxEn && dmaEnabled m.nic && linkUp m.nic && bufAvail, nic)

def dmaPacketToGuest (m : Machine) (packet : List UInt8) : Option (Machine × Bool) :=
  let (canReceive, nic) := nvnetCanReceive m
  let m := { m with nic := nic }
  if canReceive then
    let (cur, nic) := updateCurrentRingDescAddr (setDmaIdle m.nic false) rxRing
    let desc := loadRingDesc m.ram cur
    if desc.flags &&& nvRxAvail = 0 then some ({ m with nic := setDmaIdle nic true }, false)
    else if packet.length ≤ desc.length + 1 then
      let ram := m.ram.write desc.bufferAddr packet
      let desc := { desc with length := packet.length, flags := nvRxBit4 ||| nvRxDescriptorvalid }
      let nic := advanceNextRingDescAddr (setIntrStatus nic nvnetIrqStatusRx) rxRing
      some ({ m with nic := setDmaIdle nic true, ram := storeRingDesc ram cur desc }, true)
    else none
  else some (m, false)

def macBytes (s : NvNetState) (a b : Nat) : List UInt8 :=
  leBytes 4 (getReg s a).toNat ++ leBytes 2 (getReg s b).toNat

def isBroadcastEtherAddr (addr : List UInt8) : Bool := addr.take 6 == List.replicate 6 0xFF

def receiveFilter (s : NvNetState) (packet : List UInt8) : Bool :=
  if packet.length < 6 then false
  else if isBroadcastEtherAddr packet then true
  else if getReg s nvnetPacketFilter &&& nvnetPacketFilterMyaddr = 0 then true
  else
    let multicast := macBytes s nvnetMulticastAddrA nvnetMulticastAddrB
    let mask := macBytes s nvnetMulticastMaskA nvnetMulticastMaskB
    let masked := List.zipWith (· &&& ·) (packet.take 6) mask
    (!isBroadcastEtherAddr multicast && masked == multicast) ||
      packet.take 6 == macBytes s nvnetMacAddrA nvnetMacAddrB

def nvnetReceive (m : Machine) (packet : List UInt8) : Option (Machine × Bool) :=
  if packet.length > rxAllocBufsize then some (m, true)
  else if receiveFilter m.nic packet then dmaPacketToGuest m packet
  else some (m, true)

/-! ## Kicks that are answered

`qemu_send_packet` hands a packet to the host's network at once, and what the network answers is
received before it returns. `answers` stands for that network.
-/

/-- A network that answers nothing before the packet is handed on. -/
def silent : List UInt8 → List (List UInt8) := fun _ => []

section Answered

variable (answers : List UInt8 → List (List UInt8))

def sendPacketWith (m : Machine) (packet : List UInt8) : Option Machine :=
  if m.nic.linkDown then some m
  else (answers packet).foldlM (fun m answer => Prod.fst <$> nvnetReceive m answer)
    { m with sent := m.sent ++ [packet] }

def takeDescWith (m : Machine) (cur : Nat) (desc : RingDesc) (length : Nat) : Option Machine :=
  let data := m.ram.read desc.bufferAddr length
  let m := { m with
    nic.txDmaBuf := m.nic.txDmaBuf.write m.nic.txDmaBufOffset data
    nic.txDmaBufOffset := m.nic.txDmaBufOffset + length }
  let sent :=
    if desc.isLastPacket then
      (sendPacketWith answers m (m.nic.txDmaBuf.read 0 m.nic.txDmaBufOffset)).map
        fun m => { m with nic.txDmaBufOffset := 0 }
    else some m
  sent.map fun m => { m with
    ram := storeRingDesc m.ram cur { desc with flags := desc.flags &&& ~~~nvTxStatus }
    nic := advanceNextRingDescAddr m.nic txRing }

def dmaLoopWith : Nat → Machine → Option (Machine × Bool)
  | 0, m => some (m, false)
  | n + 1, m =>
    let (cur, nic) := updateCurrentRingDescAddr m.nic txRing
    let m := { m with nic := nic }
    let desc := loadRingDesc m.ram cur
    let length := (desc.length + 1) % 2 ^ 16
    if desc.flags &&& nvTxValid = 0 then some (m, false)
    else if m.nic.txDmaBufOffset + length ≤ txAllocBufsize then
      (takeDescWith answers m cur desc length).bind fun m =>
        if desc.isLastPacket then some (m, true) else dmaLoopWith n m
    else none

def dmaPacketFromGuestWith (m : Machine) : Option Machine :=
  if canTransmit m.nic then do
    let m := { m with nic := setDmaIdle m.nic false }
    let (m, packetSent) ← dmaLoopWith answers (getRingSize m.nic txRing) m
    let nic := setDmaIdle m.nic true
    return { m with nic := if packetSent then setIntrStatus nic nvnetIrqStatusTx else nic }
  else some m

end Answered

/-! ## Guest access, reset and snapshots -/

def afterKick (val : Word) (m : Machine) : Machine :=
  let nic :=
    if val &&& nvnetTxRxControlReset = 0 then m.nic
    else { resetDescriptorRingPointers m.nic with txDmaBufOffset := 0 }
  let nic :=
    if val &&& nvnetTxRxControlBit1 ≠ 0 then setReg nic nvnetIrqStatus 0
    else if val = 0 then setReg nic nvnetUnknownSetupReg5 nvnetUnknownSetupReg5Bit31
    else nic
  { m with nic := nic }

def writeTxRxControl (m : Machine) (val : Word) : Option Machine :=
  let m := { m with nic := setRegWithMask m.nic nvnetTxRxControl val (~~~nvnetTxRxControlIdle) }
  (if val &&& nvnetTxRxControlKick = 0 then some m else dmaPacketFromGuest m).map (afterKick val)

/-- The write of `NVNET_TX_RX_CONTROL` up to the end of its kick. -/
def kickWith (answers : List UInt8 → List (List UInt8)) (m : Machine) (val : Word) :
    Option Machine :=
  let m := { m with nic := setRegWithMask m.nic nvnetTxRxControl val (~~~nvnetTxRxControlIdle) }
  if val &&& nvnetTxRxControlKick = 0 then some m else dmaPacketFromGuestWith answers m

def nvnetMmioWrite (m : Machine) (addr : Nat) (val : Word) (size : Nat) : Option Machine :=
  if addr % 4 ≠ 0 then none
  else if addr = nvnetMdioAddr then
    if size = 4 then do
      let nic ← setRegExt m.nic addr val size
      return { m with nic := if val &&& nvnetMdioAddrWrite ≠ 0 then mdioWrite nic else mdioRead nic }
    else none
  else if addr = nvnetTxRxControl then writeTxRxControl m val
  else if addr = nvnetIrqStatus ∨ addr = nvnetMiiStatus then do
    let nic ← setRegExt m.nic addr ((← getRegExt m.nic addr size) &&& ~~~val) size
    return { m with nic := updateIrq nic }
  else if addr = nvnetIrqMask then do
    let nic ← setRegExt m.nic addr val size
    return { m with nic := updateIrq nic }
  else do
    let nic ← setRegExt m.nic addr val size
    return { m with nic := nic }

def phyRegInit : Nat → Word := fun reg =>
  if reg = miiBmcr then miiBmcrFd ||| miiBmcrAutoen
  else if reg = miiBmsr then miiBmsrAutoneg ||| miiBmsrAnComp ||| miiBmsrLinkSt
  else if reg = miiAnar ∨ reg = miiAnlpar then miiAnlparAbilities
  else 0

def NvNetState.cleared (s : NvNetState) : NvNetState :=
  { s with
    regs := fun _ => 0
    phyRegs := phyRegInit
    txDmaBuf := fun _ => 0
    txDmaBufOffset := 0
    autonegTimer := false
    txRingIndex := 0
    rxRingIndex := 0 }

def nvnetReset (s : NvNetState) : NvNetState :=
  let s := orReg s.cleared nvnetTxRxControl nvnetTxRxControlIdle
  if s.linkDown then updateRegsOnLinkDown s else s

def migrateRing (s : NvNetState) (ring : Ring) (index : UInt8) : Option NvNetState :=
  if getRingSize s ring = 0 then none
  else
    let next := (getReg s ring.base).toNat + index.toNat % getRingSize s ring * 8
    some (setReg s ring.next (BitVec.ofNat 32 next))

def nvnetPostLoad (s : NvNetState) (versionId : Nat) : Option NvNetState := do
  let s ← if versionId < 2 then do
      let s := { s with phyRegs := phyRegInit }
      let s ← migrateRing s txRing s.txRingIndex
      let s ← migrateRing { s with txRingIndex := 0 } rxRing s.rxRingIndex
      pure { s with rxRingIndex := 0 }
    else pure s
  let s := { s with linkDown := !linkUp s }
  return if haveAutoneg s && !autonegComplete s then restartAutoneg { s with linkDown := false } else s

structure Snapshot where
  regs : Nat → Word
  phyRegs : Nat → Word
  txRingIndex : UInt8
  rxRingIndex : UInt8
  irq : Bool

def save (s : NvNetState) : Snapshot := ⟨s.regs, s.phyRegs, s.txRingIndex, s.rxRingIndex, s.irq⟩

def load (fresh : NvNetState) (snapshot : Snapshot) : Option NvNetState :=
  nvnetPostLoad
    { fresh with
      regs := snapshot.regs
      phyRegs := snapshot.phyRegs
      txRingIndex := snapshot.txRingIndex
      rxRingIndex := snapshot.rxRingIndex
      irq := snapshot.irq } 2

/-- Every reset comes from the bus, which lowers the device's line once the device has reset. -/
def pcibusReset (s : NvNetState) : NvNetState := { nvnetReset s with irq := false }

inductive Event where
  | mmioWrite (addr : Nat) (val : Word) (size : Nat)
  | guest (change : Store → Store)
  | receive (packet : List UInt8)
  | timer
  | link (down : Bool)
  | reset

def step (m : Machine) : Event → Option Machine
  | .mmioWrite addr val size => nvnetMmioWrite m addr val size
  | .guest change => some { m with ram := change m.ram }
  | .receive packet => if m.nic.linkDown then some m else Prod.fst <$> nvnetReceive m packet
  | .timer => some { m with nic := autonegTimerFires m.nic }
  | .link down => some { m with nic := nvnetSetLinkStatus { m.nic with linkDown := down } }
  | .reset => some { m with nic := pcibusReset m.nic }

/-- A step in which the kicks are answered. -/
def stepWith (answers : List UInt8 → List (List UInt8)) (m : Machine) : Event → Option Machine
  | .mmioWrite addr val size =>
    if addr = nvnetTxRxControl then (kickWith answers m val).map (afterKick val)
    else nvnetMmioWrite m addr val size
  | e => step m e

end DukeX.Nvnet
