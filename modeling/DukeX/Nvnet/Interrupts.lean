import DukeX.Nvnet.Transmit

/-!
# The interrupt line of the network device

When the line says what the status and mask registers say. A kick may be answered before it ends, so
that packets are received, and the receive interrupt raised, in the middle of it. All of that keeps
the line right; what does not is the control register's way to clear the status.
-/

namespace DukeX.Nvnet

open Lib

def Settled (s : NvNetState) : Prop :=
  s.irq = (getReg s nvnetIrqMask &&& getReg s nvnetIrqStatus != 0)

instance (s : NvNetState) : Decidable (Settled s) := inferInstanceAs (Decidable (_ = _))

theorem settled_updateIrq (s : NvNetState) : Settled (updateIrq s) := rfl

theorem settled_setIntrStatus (s : NvNetState) (status : Word) :
    Settled (setIntrStatus s status) := rfl

theorem settled_setMiiIntrStatus (s : NvNetState) (status : Word) :
    Settled (setMiiIntrStatus s status) := rfl

/-! ## Paths that do not touch interrupts -/

structure SameLine (s s' : NvNetState) : Prop where
  irq : s'.irq = s.irq
  mask : getReg s' nvnetIrqMask = getReg s nvnetIrqMask
  status : getReg s' nvnetIrqStatus = getReg s nvnetIrqStatus

theorem SameLine.refl (s : NvNetState) : SameLine s s := ⟨rfl, rfl, rfl⟩

variable {s : NvNetState}

theorem SameLine.trans {s' s'' : NvNetState} (h : SameLine s s') (h' : SameLine s' s'') :
    SameLine s s'' :=
  ⟨h'.irq.trans h.irq, h'.mask.trans h.mask, h'.status.trans h.status⟩

theorem SameLine.settled_iff {s' : NvNetState} (h : SameLine s s') : Settled s' ↔ Settled s := by
  rw [Settled, Settled, h.irq, h.mask, h.status]

theorem sameLine_setReg (s : NvNetState) {a : Nat} (hm : a ≠ nvnetIrqMask)
    (hs : a ≠ nvnetIrqStatus) (v : Word) : SameLine s (setReg s a v) where
  irq := rfl
  mask := by rw [getReg_setReg, if_neg hm.symm]
  status := by rw [getReg_setReg, if_neg hs.symm]

theorem sameLine_setDmaIdle (s : NvNetState) (idle : Bool) : SameLine s (setDmaIdle s idle) := by
  cases idle with
  | true | false => exact sameLine_setReg s (by decide) (by decide) _

def IsRing (ring : Ring) : Prop := ring = txRing ∨ ring = rxRing

theorem sameLine_updateCurrent (s : NvNetState) {ring : Ring} (h : IsRing ring) :
    SameLine s (updateCurrentRingDescAddr s ring).2 := by
  cases h with
  | inl h | inr h => subst h; exact sameLine_setReg s (by decide) (by decide) _

theorem sameLine_advanceNext (s : NvNetState) {ring : Ring} (h : IsRing ring) :
    SameLine s (advanceNextRingDescAddr s ring) := by
  cases h with
  | inl h | inr h => subst h; exact sameLine_setReg s (by decide) (by decide) _

theorem sameLine_resetPointers (s : NvNetState) :
    SameLine s (resetDescriptorRingPointers s) := by
  refine (sameLine_setReg s ?_ ?_ _).trans <| (sameLine_setReg _ ?_ ?_ _).trans <|
    (sameLine_setReg _ ?_ ?_ _).trans (sameLine_setReg _ ?_ ?_ _)
  all_goals decide

variable {m m' : Machine}

theorem sameLine_setPhy (s : NvNetState) (reg : Nat) (val : Word) : SameLine s (setPhy s reg val) :=
  ⟨rfl, rfl, rfl⟩

theorem sameLine_mdioRead (s : NvNetState) : SameLine s (mdioRead s) := by
  refine (sameLine_setReg s ?_ ?_ _).trans (sameLine_setReg _ ?_ ?_ _)
  all_goals decide

theorem sameLine_mdioWrite (s : NvNetState) : SameLine s (mdioWrite s) := by
  rw [mdioWrite]
  refine SameLine.trans ?_ (sameLine_setReg _ (by decide) (by decide) _)
  split
  · rw [phyRegWrite]
    split
    · exact sameLine_setPhy s _ _
    · exact SameLine.refl s
  · exact SameLine.refl s

theorem sameLine_setRegExt {s' : NvNetState} {a size : Nat} {v : Word} (hm : a ≠ nvnetIrqMask)
    (hs : a ≠ nvnetIrqStatus) (h : setRegExt s a v size = some s') : SameLine s s' := by
  rw [setRegExt] at h
  split at h
  · cases h
    exact sameLine_setReg s hm hs _
  · cases h

variable {packet : List UInt8} {taken : Bool}

theorem settled_toGuest
    (hs : Settled m.nic) (h : dmaPacketToGuest m packet = some (m', taken)) : Settled m'.nic := by
  have hring : IsRing rxRing := Or.inr rfl
  have hlook := sameLine_updateCurrent m.nic hring
  rw [dmaPacketToGuest] at h
  dsimp only [nvnetCanReceive, rxBufAvailable] at h
  have hcur := (hlook.trans (sameLine_setDmaIdle _ false)).trans (sameLine_updateCurrent _ hring)
  split at h
  · split at h
    · cases h
      exact (hcur.trans (sameLine_setDmaIdle _ true)).settled_iff.mpr hs
    · split at h
      · cases h
        exact ((sameLine_advanceNext _ hring).trans (sameLine_setDmaIdle _ true)).settled_iff.mpr
          (settled_setIntrStatus _ _)
      · cases h
  · cases h
    exact hlook.settled_iff.mpr hs

theorem settled_receive
    (hs : Settled m.nic) (h : nvnetReceive m packet = some (m', taken)) : Settled m'.nic := by
  grind [nvnetReceive, settled_toGuest]

/-! ## Kicks -/

section Kicks

variable {answers : List UInt8 → List (List UInt8)}

theorem settled_answers {packets : List (List UInt8)} (hs : Settled m.nic)
    (h : packets.foldlM (fun m answer => Prod.fst <$> nvnetReceive m answer) m = some m') :
    Settled m'.nic := by
  induction packets generalizing m with
  | nil =>
    cases h
    exact hs
  | cons packet packets ih =>
    rw [List.foldlM_cons] at h
    obtain ⟨m1, hfirst, hrest⟩ := Option.bind_eq_some_iff.mp h
    obtain ⟨⟨_, taken⟩, hreceive, rfl⟩ := Option.map_eq_some_iff.mp hfirst
    exact ih (settled_receive hs hreceive) hrest

theorem settled_sendPacketWith (hs : Settled m.nic)
    (h : sendPacketWith answers m packet = some m') : Settled m'.nic := by
  rw [sendPacketWith] at h
  split at h
  · cases h
    exact hs
  · exact settled_answers (m := { m with sent := m.sent ++ [packet] }) hs h

theorem settled_takeDescWith {cur length : Nat} {desc : RingDesc} (hs : Settled m.nic)
    (h : takeDescWith answers m cur desc length = some m') : Settled m'.nic := by
  obtain ⟨m1, hsend, rfl⟩ := Option.map_eq_some_iff.mp h
  refine (sameLine_advanceNext m1.nic (Or.inl rfl)).settled_iff.mpr ?_
  split at hsend
  · obtain ⟨m2, hsent, rfl⟩ := Option.map_eq_some_iff.mp hsend
    have hs2 : Settled m2.nic := by
      refine settled_sendPacketWith ?_ hsent
      exact hs
    exact hs2
  · cases hsend
    exact hs

/-- The loop over the descriptors, with what is received in between, keeps the line right. -/
theorem settled_dmaLoopWith (k : Nat) {packetSent : Bool} (hs : Settled m.nic)
    (h : dmaLoopWith answers k m = some (m', packetSent)) : Settled m'.nic := by
  induction k generalizing m with
  | zero =>
    cases h
    exact hs
  | succ k ih =>
    have hcur := (sameLine_updateCurrent m.nic (Or.inl rfl : IsRing txRing)).settled_iff.mpr hs
    rw [dmaLoopWith] at h
    dsimp only at h
    split at h
    · cases h
      exact hcur
    · split at h
      · obtain ⟨m1, htake, hrest⟩ := Option.bind_eq_some_iff.mp h
        have hs1 : Settled m1.nic := by
          refine settled_takeDescWith (m := { m with nic := _ }) ?_ htake
          exact hcur
        split at hrest
        · cases hrest
          exact hs1
        · exact ih hs1 hrest
      · cases h

theorem settled_kick (hs : Settled m.nic) (h : dmaPacketFromGuestWith answers m = some m') :
    Settled m'.nic := by
  rw [dmaPacketFromGuestWith] at h
  split at h
  · obtain ⟨⟨m1, packetSent⟩, hloop, hm'⟩ := Option.bind_eq_some_iff.mp h
    have hs1 : Settled m1.nic := by
      refine settled_dmaLoopWith (m := { m with nic := setDmaIdle m.nic false }) _ ?_ hloop
      exact (sameLine_setDmaIdle m.nic false).settled_iff.mpr hs
    cases packetSent with
    | false =>
      cases hm'
      exact (sameLine_setDmaIdle m1.nic true).settled_iff.mpr hs1
    | true =>
      cases hm'
      exact settled_setIntrStatus _ _
  · cases h
    exact hs

theorem settled_kickWith {val : Word} (hs : Settled m.nic)
    (h : kickWith answers m val = some m') : Settled m'.nic := by
  have hctl :
      SameLine m.nic (setRegWithMask m.nic nvnetTxRxControl val (~~~nvnetTxRxControlIdle)) :=
    sameLine_setReg m.nic (by decide) (by decide) _
  rw [kickWith] at h
  split at h
  · cases h
    exact hctl.settled_iff.mpr hs
  · refine settled_kick (m := { m with nic := _ }) ?_ h
    exact hctl.settled_iff.mpr hs

end Kicks

/-! ## Events -/

/-- The event does not clear pending interrupts behind the line's back: when a write of
`NVNET_TX_RX_CONTROL` has its second bit, the line is low once the kick of that write is done. -/
def Event.Keeps (answers : List UInt8 → List (List UInt8)) (m : Machine) : Event → Prop
  | .mmioWrite addr val _ =>
    addr = nvnetTxRxControl → val &&& nvnetTxRxControlBit1 ≠ 0 →
      ∀ kicked, kickWith answers m val = some kicked → kicked.nic.irq = false
  | .guest _ | .receive _ | .timer | .link _ | .reset => True

theorem settled_clearStatus_iff (s : NvNetState) :
    Settled (setReg s nvnetIrqStatus 0) ↔ s.irq = false := by
  have hmask : getReg (setReg s nvnetIrqStatus 0) nvnetIrqMask = getReg s nvnetIrqMask := by
    rw [getReg_setReg, if_neg (by decide)]
  rw [Settled, hmask, getReg_setReg, if_pos rfl]
  change s.irq = (getReg s nvnetIrqMask &&& 0#32 != 0) ↔ _
  rw [BitVec.and_zero]
  exact Iff.rfl

variable {val : Word}

theorem settled_afterKick (hs : Settled m.nic) :
    Settled (afterKick val m).nic ↔ (val &&& nvnetTxRxControlBit1 ≠ 0 → m.nic.irq = false) := by
  have hreset : SameLine m.nic (if val &&& nvnetTxRxControlReset = 0 then m.nic
      else { resetDescriptorRingPointers m.nic with txDmaBufOffset := 0 }) := by
    split
    · exact SameLine.refl _
    · exact (sameLine_resetPointers m.nic).trans ⟨rfl, rfl, rfl⟩
  rw [afterKick]
  dsimp only
  by_cases hbit : val &&& nvnetTxRxControlBit1 = 0
  · rw [if_neg (not_not.mpr hbit)]
    refine iff_of_true ?_ fun h => absurd hbit h
    split
    · exact (hreset.trans (sameLine_setReg _ (by decide) (by decide) _)).settled_iff.mpr hs
    · exact hreset.settled_iff.mpr hs
  · rw [if_pos hbit, settled_clearStatus_iff, hreset.irq]
    exact ⟨fun h _ => h, fun h => h hbit⟩

theorem settled_mmioWrite {addr size : Nat} (hs : Settled m.nic)
    (haddr : addr ≠ nvnetTxRxControl) (h : nvnetMmioWrite m addr val size = some m') :
    Settled m'.nic := by
  rw [nvnetMmioWrite] at h
  split at h
  · cases h
  split at h
  case isTrue hmdio =>
    split at h
    · obtain ⟨s, hset, hm'⟩ := Option.bind_eq_some_iff.mp h
      cases hm'
      subst hmdio
      have hline := sameLine_setRegExt (by decide) (by decide) hset
      dsimp only
      split
      · exact (hline.trans (sameLine_mdioWrite s)).settled_iff.mpr hs
      · exact (hline.trans (sameLine_mdioRead s)).settled_iff.mpr hs
    · cases h
  split at h
  · obtain ⟨v, _, hrest⟩ := Option.bind_eq_some_iff.mp h
    obtain ⟨s, _, hm'⟩ := Option.bind_eq_some_iff.mp hrest
    cases hm'
    exact settled_updateIrq s
  case isFalse hstatus =>
    split at h
    · obtain ⟨s, _, hm'⟩ := Option.bind_eq_some_iff.mp h
      cases hm'
      exact settled_updateIrq s
    case isFalse hmask =>
      obtain ⟨s, hset, hm'⟩ := Option.bind_eq_some_iff.mp h
      cases hm'
      exact (sameLine_setRegExt hmask (fun h => hstatus (Or.inl h)) hset).settled_iff.mpr hs

theorem settled_timer (hs : Settled s) : Settled (autonegTimerFires s) := by
  rw [autonegTimerFires]
  split
  · dsimp only
    split
    · exact hs
    · exact settled_setMiiIntrStatus _ _
  · exact hs

theorem settled_setLinkStatus (hs : Settled s) :
    Settled (nvnetSetLinkStatus s) := by
  rw [nvnetSetLinkStatus]
  split
  · exact settled_setMiiIntrStatus _ _
  · split
    · exact hs
    · exact settled_setMiiIntrStatus _ _

/-- The device's own reset clears both registers and leaves the line to the bus. -/
theorem settled_pcibusReset (s : NvNetState) : Settled (pcibusReset s) := by
  have hcleared : Settled { s.cleared with irq := false } := by
    change false = ((0 : Word) &&& 0 != 0)
    decide
  have hidle := sameLine_setReg { s.cleared with irq := false } (a := nvnetTxRxControl) (by decide)
    (by decide) (getReg s.cleared nvnetTxRxControl ||| nvnetTxRxControlIdle)
  rw [pcibusReset, nvnetReset]
  split
  · exact (hidle.trans (sameLine_setReg _ (by decide) (by decide) _)).settled_iff.mpr hcleared
  · exact hidle.settled_iff.mpr hcleared

theorem stepWith_txRxControl (answers : List UInt8 → List (List UInt8)) (m : Machine) (val : Word)
    (size : Nat) : stepWith answers m (.mmioWrite nvnetTxRxControl val size) =
      (kickWith answers m val).map (afterKick val) := by
  rw [stepWith, if_pos rfl]

/-- **One event** keeps the line right exactly if it keeps to the condition. -/
theorem stepWith_settled {answers : List UInt8 → List (List UInt8)} {e : Event}
    (hs : Settled m.nic) (h : stepWith answers m e = some m') :
    Settled m'.nic ↔ e.Keeps answers m := by
  cases e with
  | mmioWrite addr val size =>
    by_cases haddr : addr = nvnetTxRxControl
    · subst haddr
      rw [stepWith_txRxControl] at h
      obtain ⟨kicked, hkick, rfl⟩ := Option.map_eq_some_iff.mp h
      rw [settled_afterKick (settled_kickWith hs hkick)]
      constructor
      · intro hlow _ hbit kicked' hkick'
        cases hkick.symm.trans hkick'
        exact hlow hbit
      · exact fun hkeeps hbit => hkeeps rfl hbit kicked hkick
    · rw [stepWith, if_neg haddr] at h
      exact iff_of_true (settled_mmioWrite hs haddr h) fun ha => absurd ha haddr
  | guest change =>
    cases h
    exact iff_of_true hs trivial
  | receive packet =>
    refine iff_of_true ?_ trivial
    rw [stepWith, step] at h
    · split at h
      · cases h
        exact hs
      · obtain ⟨⟨m1, taken⟩, hrec, hm'⟩ := Option.map_eq_some_iff.mp h
        cases hm'
        exact settled_receive hs hrec
    · intro _ _ _ heq
      cases heq
  | timer =>
    cases h
    exact iff_of_true (settled_timer hs) trivial
  | link down =>
    cases h
    exact iff_of_true (settled_setLinkStatus hs) trivial
  | reset =>
    cases h
    exact iff_of_true (settled_pcibusReset m.nic) trivial

def Machine.Kept (m m' : Machine) : Prop :=
  ∃ answers, ∃ e : Event, e.Keeps answers m ∧ stepWith answers m e = some m'

def powerOn : Machine where
  nic := nvnetReset
    { regs := fun _ => 0, phyRegs := fun _ => 0, txDmaBufOffset := 0, txDmaBuf := fun _ => 0
      autonegTimer := false, linkDown := false, irq := false, txRingIndex := 0, rxRingIndex := 0 }
  ram := fun _ => 0
  sent := []

end DukeX.Nvnet
