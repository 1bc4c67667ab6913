import DukeX.Nvnet.Transmit

/-!
# The limits of the rings

The sizes of the rings are kept in sixteen bits, the packets of both directions in buffers whose
room is asserted, and a kick ends with the first packet it sends.
-/

namespace DukeX.Nvnet

open Lib

def sizeField (s : NvNetState) (ring : Ring) : Nat :=
  (getMask (getReg s nvnetRingSize) ring.sizeMask).toNat

/-- The sizes are the fields plus one; loading a snapshot of any version succeeds, and the positions
it converts are descriptors of their rings, in the 32-bit address space. -/
structure RingArithmetic (s : NvNetState) : Prop where
  size : ∀ ring ∈ [txRing, rxRing], getRingSize s ring = sizeField s ring + 1
  postLoad : ∀ versionId, ∃ s', nvnetPostLoad s versionId = some s' ∧
    (versionId < 2 → ∀ ring ∈ [txRing, rxRing], ∃ i ≤ sizeField s ring,
      (getReg s' ring.next).toNat = ((getReg s ring.base).toNat + i * 8) % 2 ^ 32)

theorem sizeField_lt (s : NvNetState) : ∀ ring ∈ [txRing, rxRing], sizeField s ring < 2 ^ 16 := by
  intro ring hring
  rw [sizeField, getMask, BitVec.toNat_ushiftRight, BitVec.toNat_and, Nat.shiftRight_eq_div_pow]
  have hle : (getReg s nvnetRingSize).toNat &&& ring.sizeMask.toNat ≤ _ := Nat.and_le_right
  rcases List.mem_pair.mp hring with rfl | rfl
  · change _ ≤ 0xFFFF at hle
    exact Nat.lt_of_le_of_lt (Nat.div_le_self _ _) (by omega)
  · have hctz : rxRing.sizeMask.ctz.toNat = 16 := by decide +kernel
    change _ ≤ 0xFFFF0000 at hle
    rw [hctz]
    omega

variable {s : NvNetState}

variable {ring : Ring} {p : List UInt8} {ts : List Taken}

theorem getRingSize_eq (hring : ring ∈ [txRing, rxRing])
    (h : sizeField s ring ≠ 0xFFFF) : getRingSize s ring = sizeField s ring + 1 := by
  have hlt := sizeField_lt s ring hring
  exact Nat.mod_eq_of_lt (by change sizeField s ring + 1 < _; omega)

theorem migrateRing_eq (h : getRingSize s ring = sizeField s ring + 1) (index : UInt8) :
    ∃ i ≤ sizeField s ring, migrateRing s ring index = some (setReg s ring.next
      (BitVec.ofNat 32 ((getReg s ring.base).toNat + i * 8))) := by
  refine ⟨index.toNat % getRingSize s ring, ?_, ?_⟩
  · rw [h]
    exact Nat.le_of_lt_succ (Nat.mod_lt _ (Nat.succ_pos _))
  · rw [migrateRing, if_neg (by omega)]

/-- **Ring arithmetic** is well defined exactly when neither size field is all ones. -/
theorem ringArithmetic_iff (s : NvNetState) :
    RingArithmetic s ↔ ∀ ring ∈ [txRing, rxRing], sizeField s ring ≠ 0xFFFF := by
  constructor
  · intro h ring hring hfull
    have hsize := h.size ring hring
    change (sizeField s ring + 1) % 2 ^ 16 = _ at hsize
    rw [hfull] at hsize
    exact absurd hsize (by decide)
  · intro h
    have hsize := fun ring hring => getRingSize_eq (s := s) hring (h ring hring)
    refine ⟨hsize, ?_⟩
    intro versionId
    by_cases hold : versionId < 2
    · -- The first ring's new position is in none of the registers the second one is read from.
      let s₁ : NvNetState := { s with phyRegs := phyRegInit }
      obtain ⟨i, hi, htx⟩ := migrateRing_eq (s := s₁) (hsize txRing (by simp)) s.txRingIndex
      let s₂ : NvNetState := { setReg s₁ txRing.next
        (BitVec.ofNat 32 ((getReg s txRing.base).toNat + i * 8)) with txRingIndex := 0 }
      obtain ⟨j, hj, hrx⟩ := migrateRing_eq (s := s₂) (hsize rxRing (by simp)) s.rxRingIndex
      have hload : ∃ s', nvnetPostLoad s versionId = some s' ∧ s'.regs =
          (setReg s₂ rxRing.next
            (BitVec.ofNat 32 ((getReg s₂ rxRing.base).toNat + j * 8))).regs := by
        simp only [nvnetPostLoad, if_pos hold]
        rw [htx, Option.bind_eq_bind, Option.bind_some]
        erw [hrx]
        refine ⟨_, rfl, ?_⟩
        split <;> rfl
      obtain ⟨s', hs', hregs⟩ := hload
      refine ⟨s', hs', ?_⟩
      intro _ ring hring
      rcases List.mem_pair.mp hring with rfl | rfl
      · refine ⟨i, hi, ?_⟩
        rw [getReg, hregs]
        exact BitVec.toNat_ofNat _ _
      · refine ⟨j, hj, ?_⟩
        rw [getReg, hregs]
        exact BitVec.toNat_ofNat _ _
    · rw [nvnetPostLoad, if_neg hold]
      exact ⟨_, rfl, fun hnew => absurd hnew hold⟩

def sized (ringSize : Word) : NvNetState :=
  setReg halfFilled.nic nvnetRingSize ringSize

theorem ringArithmetic_small : RingArithmetic (sized 0x00030007) :=
  (ringArithmetic_iff _).mpr (by decide +kernel)

/-- With 65536 descriptors the transmit ring counts as empty, and an old snapshot divides by zero. -/
theorem ringArithmetic_full :
    sizeField (sized 0xFFFF) txRing = 0xFFFF ∧ getRingSize (sized 0xFFFF) txRing = 0 ∧
      (nvnetPostLoad (sized 0xFFFF) 1).isNone := by
  decide +kernel

/-! ## Room for a packet -/

variable {m : Machine} {base n : Nat}

/-- The descriptors fit behind what the buffer holds. -/
def Room (offset : Nat) (ts : List Taken) : Prop :=
  ts ≠ [] → offset + (ts.map fun t => t.data.length % 2 ^ 16).sum ≤ txAllocBufsize

theorem room_nil (offset : Nat) : Room offset [] := fun h => absurd rfl h

theorem room_cons (offset : Nat) (t : Taken) (ts : List Taken) :
    Room offset (t :: ts) ↔ offset + t.data.length % 2 ^ 16 ≤ txAllocBufsize ∧
      Room (offset + t.data.length % 2 ^ 16) ts := by
  cases ts with
  | nil => simp [Room]
  | cons t' ts =>
    simp only [Room, List.map_cons, List.sum_cons]
    constructor
    · intro h
      have := h (by simp)
      exact ⟨by omega, fun _ => by omega⟩
    · intro h _
      have := h.2 (by simp)
      omega

theorem isSome_ite_none {α : Type} {c : Prop} [Decidable c] {x : Option α} :
    (if c then x else none).isSome ↔ c ∧ x.isSome := by
  split <;> simp [*]

theorem assemble_single (p : List UInt8) (t : Taken) :
    assemble p [t] = if t.last then ([], [p ++ t.data]) else (p ++ t.data, []) := rfl

theorem dmaLoop_succ (k : Nat) (hr : TxRing m.nic base n)
    (hvalid : Valid m.ram (position m.nic base n)) :
    let t := taken m.ram (position m.nic base n)
    let length := m.nic.txDmaBufOffset + t.data.length % 2 ^ 16
    ∃ m1 packets, m1.ram = giveBack m.ram (position m.nic base n) ∧ TxRing m1.nic base n ∧
      position m1.nic base n = nextSlot base n (position m.nic base n) ∧
      m1.sent = m.sent ++ packets ∧
      (t.last = false → m1.nic.txDmaBufOffset = length ∧ packets = []) ∧
      packets.length ≤ 1 ∧ (∀ p ∈ packets, p.length = length) ∧
      dmaLoop (k + 1) m = if length ≤ txAllocBufsize then
        if t.last then some (m1, true) else dmaLoop k m1 else none := by
  intro t length
  obtain ⟨hram, hsends, hunt⟩ := takeDesc_sends hr (t.data.length % 2 ^ 16)
  have hlast : (takenAs m.ram (position m.nic base n) (t.data.length % 2 ^ 16)).last = t.last := rfl
  have hlength : (pending m.nic ++ (takenAs m.ram (position m.nic base n)
      (t.data.length % 2 ^ 16)).data).length = length := by
    rw [List.length_append, length_pending]
    exact congrArg (m.nic.txDmaBufOffset + ·) (Store.length_read _ _ _)
  have hoffset := congrArg List.length hsends.pending
  have hsent := hsends.sent
  rw [assemble_single, hlast] at hoffset hsent
  rw [length_pending] at hoffset
  rw [updateCurrent_txRing hr] at hram hunt hoffset hsends hsent
  refine ⟨_, _, hram, hunt.txRing hr, hsends.position, hsent, ?_, ?_, ?_, ?_⟩
  · intro hmore
    rw [hmore] at hoffset ⊢
    exact ⟨hoffset.trans hlength, ite_self _⟩
  · split
    · simp
    · split <;> simp
  · intro p hp
    split at hp
    · cases hp
    · split at hp
      · rw [List.mem_singleton.mp hp, hlength]
      · cases hp
  · have hlen : t.data.length = (loadRingDesc m.ram (position m.nic base n)).length + 1 :=
      Store.length_read _ _ _
    rw [dmaLoop, updateCurrent_txRing hr]
    dsimp only
    rw [if_neg hvalid, ← hlen]
    rfl

theorem dmaLoop_invalid (k : Nat) (hr : TxRing m.nic base n)
    (hvalid : ¬ Valid m.ram (position m.nic base n)) :
    ∃ nic, dmaLoop (k + 1) m = some ({ m with nic := nic }, false) := by
  rw [dmaLoop, updateCurrent_txRing hr]
  exact ⟨_, if_pos (not_not.mp hvalid)⟩

theorem dmaLoop_isSome_iff (k : Nat) (hr : TxRing m.nic base n) :
    (dmaLoop k m).isSome ↔
      Room m.nic.txDmaBufOffset (ready base n k m.ram (position m.nic base n)).1 := by
  induction k generalizing m with
  | zero => exact ⟨fun _ => room_nil _, fun _ => rfl⟩
  | succ k ih =>
    rw [ready]
    by_cases hvalid : Valid m.ram (position m.nic base n)
    case neg =>
      obtain ⟨nic, hloop⟩ := dmaLoop_invalid k hr hvalid
      rw [hloop, if_neg hvalid]
      exact ⟨fun _ => room_nil _, fun _ => rfl⟩
    case pos =>
      obtain ⟨m1, _, hram, hring, hnext, -, hmore, -, -, hloop⟩ := dmaLoop_succ k hr hvalid
      rw [hloop, if_pos hvalid]
      cases hlast : (taken m.ram (position m.nic base n)).last with
      | true => simp only [if_true, room_cons, isSome_ite_none, Option.isSome_some, room_nil]
      | false =>
        -- The packet goes on: the next turn starts with a longer buffer.
        have hrest := ih hring
        rw [hram, (hmore hlast).1, hnext] at hrest
        simp only [Bool.false_eq_true, if_false, room_cons, isSome_ite_none, hrest]

theorem updateCurrent_congr {s s' : NvNetState}
    (h : ∀ a ∈ [ring.base, ring.next, nvnetRingSize], getReg s' a = getReg s a) :
    (updateCurrentRingDescAddr s' ring).1 = (updateCurrentRingDescAddr s ring).1 := by
  simp only [List.forall_mem_cons] at h
  simp only [updateCurrentRingDescAddr, maxDescAddr, getRingSize, h.1, h.2.1, h.2.2.1]
  rfl

def rxDesc (m : Machine) : RingDesc :=
  loadRingDesc m.ram (updateCurrentRingDescAddr m.nic rxRing).1

theorem dmaPacketToGuest_isSome_iff (m : Machine) (packet : List UInt8) :
    (dmaPacketToGuest m packet).isSome ↔
      ((nvnetCanReceive m).1 → packet.length ≤ (rxDesc m).length + 1) := by
  -- The address is worked out twice, from registers that nothing has written in between.
  have hcur : (updateCurrentRingDescAddr (setDmaIdle (nvnetCanReceive m).2 false) rxRing).1 =
      (updateCurrentRingDescAddr m.nic rxRing).1 := by
    simp only [nvnetCanReceive, rxBufAvailable, setDmaIdle, Bool.false_eq_true, if_false, andReg]
    apply updateCurrent_congr
    intro a ha
    have hregs : a ≠ nvnetTxRxControl ∧ a ≠ rxRing.current := by
      revert a
      decide
    rw [getReg_setReg, if_neg hregs.1]
    exact (getReg_setReg _ _ _ _).trans (if_neg hregs.2)
  rw [dmaPacketToGuest]
  dsimp only
  rw [hcur]
  by_cases hcan : (nvnetCanReceive m).1
  · have havail : ¬ (rxDesc m).flags &&& nvRxAvail = 0 := by
      simp only [nvnetCanReceive, rxBufAvailable, Bool.and_eq_true, bne_iff_ne] at hcan
      exact hcan.2
    rw [if_pos hcan]
    change (if (rxDesc m).flags &&& nvRxAvail = 0 then _ else if packet.length ≤ (rxDesc m).length + 1
      then _ else _ : Option (Machine × Bool)).isSome ↔ _
    rw [if_neg havail]
    split
    next hfit => exact ⟨fun _ _ => hfit, fun _ => rfl⟩
    next hfit => exact ⟨fun h => absurd h (by simp), fun h => absurd (h hcan) hfit⟩
  · simp [hcan]

/-! Without answers the kick is the plain one. -/

theorem sendPacketWith_silent (m : Machine) (packet : List UInt8) :
    sendPacketWith silent m packet = some (sendPacket m packet) := by
  rw [sendPacketWith, sendPacket]
  split
  · rfl
  · rfl

theorem takeDescWith_silent (m : Machine) (cur : Nat) (desc : RingDesc) (length : Nat) :
    takeDescWith silent m cur desc length = some (takeDesc m cur desc length) := by
  rw [takeDescWith, takeDesc]
  dsimp only
  split
  · rw [sendPacketWith_silent]
    rfl
  · rfl

theorem dmaLoopWith_silent (k : Nat) (m : Machine) : dmaLoopWith silent k m = dmaLoop k m := by
  induction k generalizing m with
  | zero => rfl
  | succ k ih => simp only [dmaLoopWith, dmaLoop, takeDescWith_silent, Option.bind_some, ih]

theorem dmaPacketFromGuestWith_silent (m : Machine) :
    dmaPacketFromGuestWith silent m = dmaPacketFromGuest m := by
  simp only [dmaPacketFromGuestWith, dmaPacketFromGuest, dmaLoopWith_silent]

theorem dmaPacketFromGuest_isSome_iff (m : Machine) :
    (dmaPacketFromGuest m).isSome ↔ (canTransmit m.nic →
      (dmaLoop (getRingSize m.nic txRing) { m with nic := setDmaIdle m.nic false }).isSome) := by
  rw [dmaPacketFromGuest]
  split
  next hon =>
    have hsize : getRingSize (setDmaIdle m.nic false) txRing = getRingSize m.nic txRing := rfl
    dsimp only
    rw [hsize]
    cases dmaLoop (getRingSize m.nic txRing) { m with nic := setDmaIdle m.nic false } with
    | none => simp [hon]
    | some r => simp
  next hon => simp [hon]

def oneEach (tx rx : RingDesc) : Machine where
  nic := setReg (setReg (setReg halfFilled.nic nvnetRingSize 0)
    nvnetReceiverControl nvnetReceiverControlStart) nvnetRxRingPhysAddr 0x3000
  ram := storeRingDesc (storeRingDesc (fun _ => 0) 0x1000 tx) 0x3000 rx
  sent := []

def takeAll (base n : Nat) : Nat → Store → Nat → List Taken × Store
  | 0, ram, _ => ([], ram)
  | k + 1, ram, a =>
    let rest := takeAll base n k (giveBack ram a) (nextSlot base n a)
    (taken ram a :: rest.1, rest.2)

/-- The `k` descriptors from `a` on are all that is valid before the ring's end or an invalid one. -/
def Queued (base n : Nat) : Nat → Nat → Store → Nat → Prop
  | 0, left, ram, a => left ≠ 0 → ¬ Valid ram a
  | k + 1, left, ram, a => left ≠ 0 ∧ Valid ram a ∧
    Queued base n k (left - 1) (giveBack ram a) (nextSlot base n a)

def OnePacket (ts : List Taken) : Prop :=
  (∀ t ∈ ts.dropLast, t.last = false) ∧ (ts.flatMap Taken.data).length ≤ txAllocBufsize

theorem ready_eq_takeAll (k left : Nat) (ram : Store) (a : Nat) (hq : Queued base n k left ram a)
    (hone : ∀ t ∈ (takeAll base n k ram a).1.dropLast, t.last = false) :
    ready base n left ram a = takeAll base n k ram a := by
  induction k generalizing left ram a with
  | zero =>
    cases left with
    | zero => rfl
    | succ left => rw [ready, if_neg (hq (Nat.succ_ne_zero left)), takeAll]
  | succ k ih =>
    obtain ⟨hleft, hvalid, hrest⟩ := hq
    obtain ⟨left, rfl⟩ := Nat.exists_eq_succ_of_ne_zero hleft
    rw [ready, if_pos hvalid, takeAll] at *
    cases hlast : (taken ram a).last with
    | true =>
      -- Only the last descriptor of the run may end a packet.
      cases k with
      | zero => rfl
      | succ k =>
        have hfirst := hone (taken ram a) (by simp [takeAll])
        rw [hlast] at hfirst
        cases hfirst
    | false =>
      rw [if_neg Bool.false_ne_true]
      rw [ih left _ _ hrest fun t ht => hone t (by
        cases h : (takeAll base n k (giveBack ram a) (nextSlot base n a)).1 <;> simp_all)]

theorem dmaLoop_sent (k : Nat) (hr : TxRing m.nic base n) {m' : Machine} {packetSent : Bool}
    (h : dmaLoop k m = some (m', packetSent)) :
    ∃ packets, m'.sent = m.sent ++ packets ∧ packets.length ≤ 1 ∧
      ∀ p ∈ packets, p.length ≤ txAllocBufsize := by
  induction k generalizing m with
  | zero =>
    cases h
    exact ⟨[], by simp⟩
  | succ k ih =>
    by_cases hvalid : Valid m.ram (position m.nic base n)
    case neg =>
      obtain ⟨nic, hloop⟩ := dmaLoop_invalid k hr hvalid
      cases hloop.symm.trans h
      exact ⟨[], by simp⟩
    case pos =>
      obtain ⟨m1, packets, -, hring, -, hsent, hmore, hcount, hlength, hloop⟩ :=
        dmaLoop_succ k hr hvalid
      obtain ⟨hfit, h⟩ := Option.ite_none_right_eq_some.mp (hloop.symm.trans h)
      cases hlast : (taken m.ram (position m.nic base n)).last with
      | true =>
        rw [if_pos hlast] at h
        cases h
        exact ⟨packets, hsent, hcount, fun p hp => (hlength p hp).le.trans hfit⟩
      | false =>
        rw [if_neg (Bool.eq_false_iff.mp hlast)] at h
        obtain ⟨rest, hrest, hbounds⟩ := ih hring h
        rw [hsent, (hmore hlast).2, List.append_nil] at hrest
        exact ⟨rest, hrest, hbounds⟩

theorem assemble_unfinished (h : (assemble p ts).2 = []) :
    (∀ t ∈ ts, t.last = false) ∧ (assemble p ts).1 = p ++ ts.flatMap Taken.data := by
  induction ts generalizing p with
  | nil => simp [assemble]
  | cons t ts ih =>
    rw [assemble_cons] at h ⊢
    rw [assemble_single] at h ⊢
    cases hlast : t.last with
    | true => simp [hlast] at h
    | false =>
      simp only [hlast, Bool.false_eq_true, if_false, List.nil_append] at h ⊢
      obtain ⟨hnone, hall⟩ := ih h
      exact ⟨List.forall_mem_cons.mpr ⟨hlast, hnone⟩, by rw [hall]; simp⟩

theorem fits_of_room (hone : ∀ t ∈ ts.dropLast, t.last = false)
    (h : p.length + (ts.flatMap Taken.data).length ≤ txAllocBufsize) : Fits p ts := by
  induction ts generalizing p with
  | nil => trivial
  | cons t ts ih =>
    rw [List.flatMap_cons, List.length_append] at h
    refine ⟨by omega, ?_⟩
    cases ts with
    | nil => trivial
    | cons t' ts =>
      obtain ⟨hlast, hone⟩ := List.forall_mem_cons.mp hone
      rw [assemble_single, hlast]
      exact ih hone (by simp only [Bool.false_eq_true, if_false, List.length_append]; omega)

/-- **One kick** sends a queue of complete packets and leaves none of it valid exactly when the queue
is at most one packet, with room for it in the buffer. -/
theorem kick_transmits_iff (m : Machine) (base n k : Nat) (hr : TxRing m.nic base n)
    (hon : canTransmit m.nic = true) (hlink : m.nic.linkDown = false)
    (hempty : m.nic.txDmaBufOffset = 0)
    (hqueue : Queued base n k n m.ram (position m.nic base n))
    (hwhole : ∀ t ∈ (takeAll base n k m.ram (position m.nic base n)).1.getLast?, t.last = true) :
    let run := (takeAll base n k m.ram (position m.nic base n)).1
    (∃ m', dmaPacketFromGuest m = some m' ∧ m'.sent = m.sent ++ (assemble [] run).2 ∧
      ∀ t ∈ run, ¬ Valid m'.ram t.addr) ↔ OnePacket run := by
  intro run
  have hpending : pending m.nic = [] := by rw [pending, hempty]; rfl
  constructor
  · rintro ⟨m', hkick, hsent, -⟩
    rw [dmaPacketFromGuest, if_pos hon] at hkick
    obtain ⟨⟨m₁, packetSent⟩, hloop, hm'⟩ := Option.bind_eq_some_iff.mp hkick
    cases hm'
    obtain ⟨packets, hpackets, hcount, hmax⟩ :=
      dmaLoop_sent _ ((keeps_setDmaIdle m.nic false).txRing hr) hloop
    have heq : (assemble [] run).2 = packets := List.append_cancel_left (hsent.symm.trans hpackets)
    rcases List.eq_nil_or_concat' run with hnil | ⟨init, t, hrun⟩
    · rw [hnil]
      exact ⟨by simp, by simp⟩
    · -- At most one packet was sent, and the last descriptor ended one.
      have hlast : t.last = true := hwhole t ((congrArg List.getLast? hrun).trans (by simp))
      rw [hrun, assemble_append, assemble_single, if_pos hlast] at heq
      dsimp only at heq
      rw [← heq, List.length_append] at hcount
      have hinit : (assemble [] init).2 = [] := by
        apply List.length_eq_zero_iff.mp
        simp only [List.length_singleton] at hcount
        omega
      obtain ⟨hnone, hall⟩ := assemble_unfinished hinit
      have hlen := hmax _ (heq ▸ List.mem_append_right _ (List.mem_singleton_self _))
      rw [hall] at hlen
      rw [hrun]
      refine ⟨by rwa [List.dropLast_concat], ?_⟩
      simpa using hlen
  · rintro ⟨hone, hroom⟩
    have hready := ready_eq_takeAll k n m.ram _ hqueue hone
    have hfits : Fits (pending m.nic) run := by
      rw [hpending]
      exact fits_of_room hone ((Nat.zero_add _).le.trans hroom)
    have hvalid := (ready_valid base n n m.ram (position m.nic base n)).2
    have hkick := dmaPacketFromGuest_sends hr hon
    rw [hready] at hvalid hkick
    obtain ⟨m₁, heq, hram, hsends, -⟩ := hkick hfits
    refine ⟨_, heq, ?_, fun t ht => ?_⟩
    · apply hsends.sent.trans
      change _ ++ (if m.nic.linkDown then [] else (assemble (pending m.nic) run).2) = _
      rw [hlink, hpending]
      rfl
    · change ¬ Valid m₁.ram t.addr
      rw [hram]
      exact (hvalid t ht).2

def twoPackets (k : Nat) : Machine :=
  { halfFilled with
    ram := (List.range k).foldl (fun ram i => storeRingDesc ram (0x1008 - 8 * i)
      ⟨0x2000, 0, nvTxValid ||| nvTxLastpacket⟩) (Store.write (fun _ => 0) 0x2000 [7]) }

theorem kick_transmits_one :
    ∃ m', dmaPacketFromGuest (twoPackets 1) = some m' ∧ m'.sent = [[7]] := by
  obtain ⟨m', hkick, hsent, -⟩ := (kick_transmits_iff (twoPackets 1) 0x1000 2 1
    ⟨rfl, by decide +kernel, by decide, by decide⟩ (by decide) rfl rfl
    ⟨by decide, by decide +kernel, fun _ => by decide +kernel⟩ (by decide +kernel)).mpr
    ⟨by decide +kernel, by decide +kernel⟩
  exact ⟨m', hkick, hsent.trans (by decide +kernel)⟩

/-- Of two packets that are ready the first is sent and the second stays. -/
theorem kick_leaves_second :
    (dmaPacketFromGuest (twoPackets 2)).map (fun m => (m.sent, decide (Valid m.ram 0x1000))) =
      some ([[7]], true) := by
  decide +kernel

end DukeX.Nvnet
