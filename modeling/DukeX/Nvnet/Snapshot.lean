import DukeX.Nvnet.Interrupts

/-!
# Snapshots

What a device restored from a snapshot does, against the one the snapshot was taken of. The snapshot
leaves out the transmit buffer, the host's side of the link and the timer. Two machines are alike when
they differ only in what the buffer holds behind its offset; every event keeps them alike, whatever
the network answers.
-/

namespace DukeX.Nvnet

open Lib
open Option (bind_eq_bind bind_some)

def observe (m : Option Machine) : Option (List (List UInt8) × Store) :=
  m.map fun m => (m.sent, m.ram)

/-! ## What the buffer cannot influence -/

def NvNetState.withBuffer (s : NvNetState) (b : Store) (offset : Nat) : NvNetState :=
  { s with txDmaBuf := b, txDmaBufOffset := offset }

def Machine.withBuffer (m : Machine) (b : Store) (offset : Nat) : Machine :=
  { m with nic := m.nic.withBuffer b offset }

def Blind (f : NvNetState → NvNetState) : Prop :=
  ∀ s b o, f (s.withBuffer b o) = (f s).withBuffer b o

def BlindM (f : Machine → Option Machine) : Prop :=
  ∀ m b o, f (m.withBuffer b o) = (f m).map fun m' => m'.withBuffer b o

def Alike (m m' : Machine) : Prop :=
  ∃ b, m' = m.withBuffer b m.nic.txDmaBufOffset ∧ pending m'.nic = pending m.nic

theorem Alike.refl (m : Machine) : Alike m m := ⟨m.nic.txDmaBuf, rfl, rfl⟩

variable {m m' : Machine}

theorem Alike.observe_eq (h : Alike m m') :
    (m'.sent, m'.ram) = (m.sent, m.ram) := by
  obtain ⟨b, rfl, _⟩ := h
  rfl

theorem BlindM.rel {f : Machine → Option Machine} (hf : BlindM f)
    (h : Alike m m') : Option.Rel Alike (f m) (f m') := by
  obtain ⟨b, rfl, hb⟩ := h
  have hself := hf m m.nic.txDmaBuf m.nic.txDmaBufOffset
  change f m = _ at hself
  rw [hf]
  cases hfm : f m with
  | none => exact .none
  | some m1 =>
    rw [hfm] at hself
    refine .some ⟨b, ?_, ?_⟩
    · rw [Option.some.inj hself]
      rfl
    · rw [Option.some.inj hself]
      exact hb

variable {f : NvNetState → NvNetState}

theorem Blind.blindM (hf : Blind f) :
    BlindM fun m => some { m with nic := f m.nic } := by
  intro m b o
  exact congrArg (fun s => some { m with nic := s }) (hf m.nic b o)

theorem blind_setDmaIdle (idle : Bool) : Blind fun s => setDmaIdle s idle := by
  intro s b o
  cases idle with
  | true | false => rfl

@[simp] theorem andReg_withBuffer (s : NvNetState) (b : Store) (o a : Nat) (v : Word) :
    andReg (s.withBuffer b o) a v = (andReg s a v).withBuffer b o := rfl

@[simp] theorem getReg_withBuffer (s : NvNetState) (b : Store) (o a : Nat) :
    getReg (s.withBuffer b o) a = getReg s a := rfl

theorem phyRegWrite_withBuffer (s : NvNetState) (b : Store) (o reg : Nat) (v : Word) :
    phyRegWrite (s.withBuffer b o) reg v = (phyRegWrite s reg v).withBuffer b o := by
  rw [phyRegWrite, phyRegWrite]
  split
  · rfl
  · rfl

variable {s : NvNetState}

theorem mdioWrite_pos
    (h : getMask (getReg s nvnetMdioAddr) nvnetMdioAddrPhyaddr = phyAddr) :
    mdioWrite s = andReg (phyRegWrite s (getMask (getReg s nvnetMdioAddr) nvnetMdioAddrPhyreg).toNat
      (getReg s nvnetMdioData)) nvnetMdioAddr (~~~nvnetMdioAddrInuse) :=
  congrArg (fun t => andReg t nvnetMdioAddr (~~~nvnetMdioAddrInuse)) (if_pos h)

theorem mdioWrite_neg
    (h : ¬ getMask (getReg s nvnetMdioAddr) nvnetMdioAddrPhyaddr = phyAddr) :
    mdioWrite s = andReg s nvnetMdioAddr (~~~nvnetMdioAddrInuse) :=
  congrArg (fun t => andReg t nvnetMdioAddr (~~~nvnetMdioAddrInuse)) (if_neg h)

theorem blind_mdioWrite : Blind mdioWrite := by
  intro s b o
  by_cases h : getMask (getReg s nvnetMdioAddr) nvnetMdioAddrPhyaddr = phyAddr
  · simp [mdioWrite_pos, phyRegWrite_withBuffer, h]
  · rw [mdioWrite_neg h, mdioWrite_neg (s := s.withBuffer b o) h, andReg_withBuffer]

theorem blind_mdioRead : Blind mdioRead := by
  intro s b o
  rfl

theorem blind_timer : Blind autonegTimerFires := by
  intro s b o
  change (if s.autonegTimer then if s.linkDown then _ else autonegDone _ else s.withBuffer b o) = _
  rw [autonegTimerFires]
  dsimp only
  split
  · split
    · rfl
    · rfl
  · rfl

theorem blind_setLinkStatus (down : Bool) :
    Blind fun s => nvnetSetLinkStatus { s with linkDown := down } := by
  intro s b o
  cases down with
  | true => rfl
  | false =>
    change (if haveAutoneg s && !autonegComplete s then _ else _) = NvNetState.withBuffer
      (if haveAutoneg s && !autonegComplete s then _ else _) b o
    split
    · rfl
    · rfl

theorem setRegExt_withBuffer (s : NvNetState) (b : Store) (o a size : Nat) (v : Word) :
    setRegExt (s.withBuffer b o) a v size =
      (setRegExt s a v size).map fun s => s.withBuffer b o := by
  rw [setRegExt, setRegExt]
  split
  · rfl
  · rfl

theorem blind_updateIrq : Blind updateIrq := fun _ _ _ => rfl

theorem blindM_setRegExt (addr size : Nat) (val : NvNetState → Option Word) (g : Word → Word)
    (hval : ∀ s b o, val (s.withBuffer b o) = val s) (hf : Blind f) :
    BlindM fun m => do
      let v ← val m.nic
      let nic ← setRegExt m.nic addr (g v) size
      return { m with nic := f nic } := by
  intro m b o
  have hnic : (m.withBuffer b o).nic = m.nic.withBuffer b o := rfl
  simp only [hnic, hval, setRegExt_withBuffer]
  cases val m.nic with
  | none => rfl
  | some v =>
    cases hset : setRegExt m.nic addr (g v) size with
    | none => simp [hset]
    | some s =>
      simp only [bind_eq_bind, bind_some, hset, Option.map_some, hf s b o]
      rfl

theorem blind_mmioWrite {addr : Nat} (haddr : addr ≠ nvnetTxRxControl) (val : Word) (size : Nat) :
    BlindM fun m => nvnetMmioWrite m addr val size := by
  have hplain (f : NvNetState → NvNetState) (hf : Blind f) :=
    blindM_setRegExt addr size (fun _ => some val) id (fun _ _ _ => rfl) hf
  intro m b o
  simp only [nvnetMmioWrite, if_neg haddr]
  split
  · rfl
  split
  · split
    · by_cases hw : val &&& nvnetMdioAddrWrite ≠ 0
      · simp only [if_pos hw]
        exact hplain _ blind_mdioWrite m b o
      · simp only [if_neg hw]
        exact hplain _ blind_mdioRead m b o
    · rfl
  split
  · exact blindM_setRegExt addr size (fun s => getRegExt s addr size) (· &&& ~~~val)
      (fun _ _ _ => rfl) blind_updateIrq m b o
  split
  · exact hplain _ blind_updateIrq m b o
  · exact hplain id (fun _ _ _ => rfl) m b o

theorem dmaPacketToGuest_withBuffer (m : Machine) (b : Store) (o : Nat) (packet : List UInt8) :
    dmaPacketToGuest (m.withBuffer b o) packet =
      (dmaPacketToGuest m packet).map fun r => (r.1.withBuffer b o, r.2) := by
  have hcan : nvnetCanReceive (m.withBuffer b o) =
      ((nvnetCanReceive m).1, (nvnetCanReceive m).2.withBuffer b o) := rfl
  simp only [dmaPacketToGuest, hcan]
  generalize nvnetCanReceive m = r
  obtain ⟨can, s⟩ := r
  have hcur : updateCurrentRingDescAddr (setDmaIdle (s.withBuffer b o) false) rxRing =
      ((updateCurrentRingDescAddr (setDmaIdle s false) rxRing).1,
        (updateCurrentRingDescAddr (setDmaIdle s false) rxRing).2.withBuffer b o) := rfl
  have hram : (m.withBuffer b o).ram = m.ram := rfl
  simp only [hcur, hram]
  split
  · split
    · rfl
    · split
      · rfl
      · rfl
  · rfl

theorem blind_receive (packet : List UInt8) :
    BlindM fun m => Prod.fst <$> nvnetReceive m packet := by
  intro m b o
  have hfilter : receiveFilter (m.withBuffer b o).nic packet = receiveFilter m.nic packet := rfl
  simp only [nvnetReceive, hfilter, dmaPacketToGuest_withBuffer]
  split
  · rfl
  · split
    · cases dmaPacketToGuest m packet with
      | none | some r => rfl
    · rfl

/-! ## Kicks -/

theorem Alike.map_blind (hf : Blind f)
    (h : Alike m m') : Alike { m with nic := f m.nic } { m' with nic := f m'.nic } := by
  have hrel := hf.blindM.rel h
  cases hrel with
  | some hrel => exact hrel

theorem rel_map {g : Machine → Machine} (hg : ∀ {a a'}, Alike a a' → Alike (g a) (g a'))
    {r r' : Option Machine} (h : Option.Rel Alike r r') :
    Option.Rel Alike (r.map g) (r'.map g) := by
  cases h with
  | none => exact .none
  | some hrel => exact .some (hg hrel)

variable (answers : List UInt8 → List (List UInt8))

theorem Alike.received (packets : List (List UInt8)) (h : Alike m m') :
    Option.Rel Alike (packets.foldlM (fun m answer => Prod.fst <$> nvnetReceive m answer) m)
      (packets.foldlM (fun m answer => Prod.fst <$> nvnetReceive m answer) m') := by
  induction packets generalizing m m' with
  | nil => exact .some h
  | cons packet packets ih =>
    have hfirst := (blind_receive packet).rel h
    rw [List.foldlM_cons, List.foldlM_cons]
    generalize Prod.fst <$> nvnetReceive m packet = r at hfirst ⊢
    generalize Prod.fst <$> nvnetReceive m' packet = r' at hfirst ⊢
    cases hfirst with
    | none => exact .none
    | some hrel => exact ih hrel

theorem Alike.linkDown (h : Alike m m') : m'.nic.linkDown = m.nic.linkDown := by
  obtain ⟨b, rfl, _⟩ := h
  rfl

theorem Alike.sendPacketWith (packet : List UInt8) (h : Alike m m') :
    Option.Rel Alike (sendPacketWith answers m packet) (sendPacketWith answers m' packet) := by
  rw [Nvnet.sendPacketWith, Nvnet.sendPacketWith, h.linkDown]
  split
  · exact .some h
  · refine Alike.received _ ?_
    obtain ⟨b, rfl, hb⟩ := h
    exact ⟨b, rfl, hb⟩

theorem Alike.takeDescWith (h : Alike m m') (cur : Nat) (desc : RingDesc) (length : Nat) :
    Option.Rel Alike (takeDescWith answers m cur desc length)
      (takeDescWith answers m' cur desc length) := by
  obtain ⟨b, rfl, hb⟩ := h
  have hb' : b.read 0 m.nic.txDmaBufOffset = m.nic.txDmaBuf.read 0 m.nic.txDmaBufOffset := hb
  have hdata : (m.ram.read desc.bufferAddr length).length = length := Store.length_read _ _ _
  have hpacket : (b.write m.nic.txDmaBufOffset (m.ram.read desc.bufferAddr length)).read 0
        (m.nic.txDmaBufOffset + length) =
      (m.nic.txDmaBuf.write m.nic.txDmaBufOffset (m.ram.read desc.bufferAddr length)).read 0
        (m.nic.txDmaBufOffset + length) := by
    grind [read_write_append]
  have hloaded : Alike
      { m with nic := m.nic.withBuffer (m.nic.txDmaBuf.write m.nic.txDmaBufOffset
        (m.ram.read desc.bufferAddr length)) (m.nic.txDmaBufOffset + length) }
      { m with nic := m.nic.withBuffer (b.write m.nic.txDmaBufOffset
        (m.ram.read desc.bufferAddr length)) (m.nic.txDmaBufOffset + length) } :=
    ⟨_, rfl, hpacket⟩
  rw [Nvnet.takeDescWith, Nvnet.takeDescWith]
  refine rel_map (fun {a a'} hsent => ?_) ?_
  · -- the descriptor is written back as it was loaded, whatever was received
    obtain ⟨b, rfl, hb⟩ := hsent
    exact ⟨b, rfl, hb⟩
  · split
    · refine rel_map (fun {a a'} hsent => ?_) ?_
      · obtain ⟨b, rfl, _⟩ := hsent
        exact ⟨b, rfl, rfl⟩
      · have hsend := hloaded.sendPacketWith answers
          ((m.nic.txDmaBuf.write m.nic.txDmaBufOffset (m.ram.read desc.bufferAddr length)).read 0
            (m.nic.txDmaBufOffset + length))
        nth_rewrite 2 [← hpacket] at hsend
        exact hsend
    · exact .some hloaded

theorem Alike.dmaLoopWith (k : Nat) (h : Alike m m') :
    Option.Rel (fun r r' => Alike r.1 r'.1 ∧ r.2 = r'.2) (dmaLoopWith answers k m)
      (dmaLoopWith answers k m') := by
  induction k generalizing m m' with
  | zero => exact .some ⟨h, rfl⟩
  | succ k ih =>
    have hcur : Blind fun s => (updateCurrentRingDescAddr s txRing).2 := fun _ _ _ => rfl
    have h1 := h.map_blind hcur
    have haddr : (updateCurrentRingDescAddr m'.nic txRing).1 =
        (updateCurrentRingDescAddr m.nic txRing).1 := by
      obtain ⟨b, rfl, _⟩ := h
      rfl
    have hram : m'.ram = m.ram := (Prod.mk.inj h.observe_eq).2
    have hoff : (updateCurrentRingDescAddr m'.nic txRing).2.txDmaBufOffset =
        (updateCurrentRingDescAddr m.nic txRing).2.txDmaBufOffset := by
      obtain ⟨b, rfl, _⟩ := h
      rfl
    rw [Nvnet.dmaLoopWith, Nvnet.dmaLoopWith]
    simp only [haddr, hram, hoff]
    simp only [hram] at h1
    split
    · exact .some ⟨h1, rfl⟩
    · split
      · have htake := h1.takeDescWith answers
          (updateCurrentRingDescAddr m.nic txRing).1
          (loadRingDesc m.ram (updateCurrentRingDescAddr m.nic txRing).1)
          (((loadRingDesc m.ram (updateCurrentRingDescAddr m.nic txRing).1).length + 1) % 2 ^ 16)
        generalize Nvnet.takeDescWith _ _ _ _ _ = r at htake ⊢
        generalize Nvnet.takeDescWith _ _ _ _ _ = r' at htake ⊢
        cases htake with
        | none => exact .none
        | some hrel =>
          rw [Option.bind_some, Option.bind_some]
          split
          · exact .some ⟨hrel, rfl⟩
          · exact ih hrel
      · exact .none

section

variable (h : Alike m m')

include h

theorem Alike.kick :
    Option.Rel Alike (dmaPacketFromGuestWith answers m) (dmaPacketFromGuestWith answers m') := by
  have hcan : canTransmit m'.nic = canTransmit m.nic := by
    obtain ⟨b, rfl, _⟩ := h
    rfl
  have h1 := h.map_blind (blind_setDmaIdle false)
  have hsize : getRingSize (setDmaIdle m'.nic false) txRing =
      getRingSize (setDmaIdle m.nic false) txRing := by
    obtain ⟨b, rfl, _⟩ := h
    rfl
  rw [dmaPacketFromGuestWith, dmaPacketFromGuestWith, hcan]
  split
  case isFalse => exact .some h
  case isTrue =>
    have hloop := h1.dmaLoopWith answers (getRingSize (setDmaIdle m.nic false) txRing)
    dsimp only
    rw [hsize]
    generalize Nvnet.dmaLoopWith _ _ _ = r at hloop ⊢
    generalize Nvnet.dmaLoopWith _ _ _ = r' at hloop ⊢
    cases hloop with
    | none => exact .none
    | @some a a' hrel =>
      obtain ⟨m1, packetSent⟩ := a
      obtain ⟨m1', packetSent'⟩ := a'
      obtain ⟨hm, rfl⟩ : Alike m1 m1' ∧ packetSent = packetSent' := hrel
      cases packetSent with
      | true =>
        have hintr : Blind fun s => setIntrStatus (setDmaIdle s true) nvnetIrqStatusTx :=
          fun _ _ _ => rfl
        exact .some (hm.map_blind hintr)
      | false => exact .some (hm.map_blind (blind_setDmaIdle true))

theorem Alike.afterKick (val : Word) :
    Alike (afterKick val m) (afterKick val m') := by
  have hbits : Blind fun s =>
      if val &&& nvnetTxRxControlBit1 ≠ 0 then setReg s nvnetIrqStatus 0
      else if val = 0 then setReg s nvnetUnknownSetupReg5 nvnetUnknownSetupReg5Bit31 else s := by
    intro s b o
    split
    · rfl
    · split
      · rfl
      · rfl
  rw [Nvnet.afterKick, Nvnet.afterKick]
  by_cases hreset : val &&& nvnetTxRxControlReset = 0
  · simp only [if_pos hreset]
    exact h.map_blind hbits
  · simp only [if_neg hreset]
    have hrewound : Alike
        { m with nic := { resetDescriptorRingPointers m.nic with txDmaBufOffset := 0 } }
        { m' with nic := { resetDescriptorRingPointers m'.nic with txDmaBufOffset := 0 } } := by
      obtain ⟨b, rfl, _⟩ := h
      exact ⟨b, rfl, rfl⟩
    exact hrewound.map_blind hbits

theorem Alike.kickWith (val : Word) :
    Option.Rel Alike (kickWith answers m val) (kickWith answers m' val) := by
  have hctl : Blind fun s => setRegWithMask s nvnetTxRxControl val (~~~nvnetTxRxControlIdle) :=
    fun _ _ _ => rfl
  have h1 := h.map_blind hctl
  rw [Nvnet.kickWith, Nvnet.kickWith]
  split
  · exact .some h1
  · exact h1.kick answers

theorem Alike.step (e : Event) :
    Option.Rel Alike (stepWith answers m e) (stepWith answers m' e) := by
  cases e with
  | mmioWrite addr val size =>
    by_cases haddr : addr = nvnetTxRxControl
    · subst haddr
      rw [stepWith_txRxControl, stepWith_txRxControl]
      exact rel_map (fun hrel => hrel.afterKick val) (h.kickWith answers val)
    · rw [stepWith, stepWith, if_neg haddr, if_neg haddr]
      exact (blind_mmioWrite haddr val size).rel h
  | guest change =>
    refine BlindM.rel (f := fun m => some { m with ram := change m.ram }) ?_ h
    exact fun _ _ _ => rfl
  | receive packet =>
    change Option.Rel Alike (if m.nic.linkDown then _ else _) (if m'.nic.linkDown then _ else _)
    rw [h.linkDown]
    split
    · exact .some h
    · exact (blind_receive packet).rel h
  | timer => exact .some (h.map_blind blind_timer)
  | link down => exact .some (h.map_blind (blind_setLinkStatus down))
  | reset =>
    obtain ⟨b, rfl, _⟩ := h
    exact .some (Alike.refl _)

/-- A run, with what the network answers to the kick of each step. -/
def runWith (m : Machine) (events : List ((List UInt8 → List (List UInt8)) × Event)) :
    Option Machine :=
  events.foldlM (fun m e => stepWith e.1 m e.2) m

/-- **Bisimulation**: alike machines are seen alike, whatever happens to them. -/
theorem Alike.run (events : List ((List UInt8 → List (List UInt8)) × Event)) :
    observe (runWith m events) = observe (runWith m' events) := by
  induction events generalizing m m' with
  | nil => exact congrArg some h.observe_eq.symm
  | cons e events ih =>
    have hstep := h.step e.1 e.2
    rw [runWith, runWith, List.foldlM_cons, List.foldlM_cons]
    generalize stepWith e.1 m e.2 = r at hstep ⊢
    generalize stepWith e.1 m' e.2 = r' at hstep ⊢
    cases hstep with
    | none => rfl
    | some hrel => exact ih hrel

end

def negotiating (s : NvNetState) : Bool := haveAutoneg s && !autonegComplete s

def restored (s : NvNetState) : NvNetState :=
  { s with
    txDmaBuf := fun _ => 0
    txDmaBufOffset := 0
    linkDown := if negotiating s then false else !linkUp s
    autonegTimer := negotiating s }

theorem load_save (fresh s : NvNetState) :
    load (nvnetReset fresh) (save s) = some (restored s) := by
  have hreset : (nvnetReset fresh).txDmaBuf = (fun _ => 0) ∧ (nvnetReset fresh).txDmaBufOffset = 0 ∧
      (nvnetReset fresh).autonegTimer = false := by
    rw [nvnetReset]
    split
    · exact ⟨rfl, rfl, rfl⟩
    · exact ⟨rfl, rfl, rfl⟩
  obtain ⟨hbuf, hoff, htimer⟩ := hreset
  rw [load, nvnetPostLoad, if_neg (by decide), restored, ← hbuf, ← hoff]
  change some (if negotiating s then _ else _) = some _
  split
  case isTrue h => rw [h]; rfl
  case isFalse h => rw [Bool.of_not_eq_true h, ← htimer]; rfl

/-- Nothing the snapshot leaves out mattered. -/
def Lossless (s : NvNetState) : Prop :=
  s.txDmaBufOffset = 0 ∧ s.linkDown = (restored s).linkDown ∧
    s.autonegTimer = (restored s).autonegTimer

theorem Lossless.alike (h : Lossless m.nic) :
    Alike m { m with nic := restored m.nic } := by
  obtain ⟨hoff, hdown, htimer⟩ := h
  refine ⟨fun _ => 0, ?_, ?_⟩
  · rw [Machine.withBuffer, NvNetState.withBuffer, hoff]
    conv_rhs => rw [hdown, htimer]
    rfl
  · rw [pending, pending, hoff]
    rfl

/-- From power on, the driver enables transmission and makes the first descriptor of a ring of two
valid; it does not end its packet. -/
def firstHalf : List ((List UInt8 → List (List UInt8)) × Event) :=
  [.guest fun ram => storeRingDesc (ram.write 0x2000 [7, 8]) 0x1000 ⟨0x2000, 0, nvTxValid⟩,
    .mmioWrite nvnetTxRingPhysAddr 0x1000 4, .mmioWrite nvnetRingSize 1 4,
    .mmioWrite nvnetTxRingNextDescPhysAddr 0x1000 4,
    .mmioWrite nvnetTransmitterControl nvnetTransmitterControlStart 4,
    .mmioWrite nvnetTxRxControl nvnetTxRxControlKick 4].map (silent, ·)

def secondHalf : List ((List UInt8 → List (List UInt8)) × Event) :=
  [.guest fun ram => storeRingDesc ram 0x1008 ⟨0x2001, 0, nvTxValid ||| nvTxLastpacket⟩,
    .mmioWrite nvnetTxRxControl nvnetTxRxControlKick 4].map (silent, ·)

end DukeX.Nvnet
