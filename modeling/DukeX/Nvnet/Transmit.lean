import DukeX.Nvnet.Device

/-!
# Transmission

The transmit ring as the guest sees it: a circle of descriptors, walked from the current one.
-/

namespace DukeX.Nvnet

open Lib

structure TxRing (s : NvNetState) (base n : Nat) : Prop where
  base_eq : (getReg s nvnetTxRingPhysAddr).toNat = base
  size_eq : getRingSize s txRing = n
  pos : 0 < n
  bound : base + 8 * n < 2 ^ 32

def slot (base n a : Nat) : Nat := if a < base ∨ a + 8 > base + 8 * n then base else a

def nextSlot (base n a : Nat) : Nat := slot base n (a + 8)

def InRing (base n a : Nat) : Prop := base ≤ a ∧ a + 8 ≤ base + 8 * n

variable {n base : Nat}

theorem inRing_slot (hn : 0 < n) (a : Nat) : InRing base n (slot base n a) := by
  rw [slot]
  split
  · exact ⟨Nat.le_refl _, by omega⟩
  · exact ⟨by omega, by omega⟩

def position (s : NvNetState) (base n : Nat) : Nat :=
  slot base n (getReg s nvnetTxRingNextDescPhysAddr).toNat

/-! ## What a kick should do -/

structure Taken where
  addr : Nat
  data : List UInt8
  last : Bool
  deriving DecidableEq, Repr

def Valid (ram : Store) (a : Nat) : Prop := (loadRingDesc ram a).flags &&& nvTxValid ≠ 0

instance (ram : Store) (a : Nat) : Decidable (Valid ram a) := inferInstanceAs (Decidable (_ ≠ _))

def taken (ram : Store) (a : Nat) : Taken :=
  let desc := loadRingDesc ram a
  ⟨a, ram.read desc.bufferAddr (desc.length + 1), desc.isLastPacket⟩

def giveBack (ram : Store) (a : Nat) : Store :=
  let desc := loadRingDesc ram a
  storeRingDesc ram a { desc with flags := desc.flags &&& ~~~nvTxStatus }

/-- The valid descriptors from `a` on, up to the end of a packet and at most `k` of them, and the
memory once they are given back. -/
def ready (base n : Nat) : Nat → Store → Nat → List Taken × Store
  | 0, ram, _ => ([], ram)
  | k + 1, ram, a =>
    if Valid ram a then
      if (taken ram a).last then ([taken ram a], giveBack ram a)
      else
        let rest := ready base n k (giveBack ram a) (nextSlot base n a)
        (taken ram a :: rest.1, rest.2)
    else ([], ram)

def accept (p : List UInt8 × List (List UInt8)) (t : Taken) : List UInt8 × List (List UInt8) :=
  if t.last then ([], p.2 ++ [p.1 ++ t.data]) else (p.1 ++ t.data, p.2)

def assemble (pending : List UInt8) (ts : List Taken) : List UInt8 × List (List UInt8) :=
  ts.foldl accept (pending, [])

theorem foldl_accept (ts : List Taken) (pending : List UInt8) (packets : List (List UInt8)) :
    ts.foldl accept (pending, packets) =
      ((assemble pending ts).1, packets ++ (assemble pending ts).2) := by
  induction ts generalizing pending packets with
  | nil => simp [assemble]
  | cons t ts ih =>
    rw [assemble, List.foldl_cons, List.foldl_cons, accept, accept]
    split
    · rw [ih, ih [] ([] ++ _)]
      simp
    · rw [ih, ih _ []]
      simp

theorem assemble_append (pending : List UInt8) (ts ts' : List Taken) :
    assemble pending (ts ++ ts') =
      ((assemble (assemble pending ts).1 ts').1,
        (assemble pending ts).2 ++ (assemble (assemble pending ts).1 ts').2) := by
  rw [assemble, List.foldl_append]
  exact foldl_accept ts' _ _

theorem assemble_cons (pending : List UInt8) (t : Taken) (ts : List Taken) :
    assemble pending (t :: ts) =
      ((assemble (assemble pending [t]).1 ts).1,
        (assemble pending [t]).2 ++ (assemble (assemble pending [t]).1 ts).2) :=
  assemble_append pending [t] ts

/-! ## Registers -/

@[simp] theorem getReg_setReg (s : NvNetState) (a b : Nat) (v : Word) :
    getReg (setReg s a v) b = if b = a then v else getReg s b := by
  simp only [getReg, setReg, Function.update_apply]

@[simp] theorem setReg_txDmaBufOffset (s : NvNetState) (a : Nat) (v : Word) :
    (setReg s a v).txDmaBufOffset = s.txDmaBufOffset := rfl

structure Untouched (s s' : NvNetState) : Prop where
  regs : ∀ a, a ≠ nvnetTxRingCurrentDescPhysAddr → a ≠ nvnetTxRingNextDescPhysAddr →
    getReg s' a = getReg s a
  phyRegs : s'.phyRegs = s.phyRegs
  autonegTimer : s'.autonegTimer = s.autonegTimer
  linkDown : s'.linkDown = s.linkDown
  irq : s'.irq = s.irq

theorem Untouched.refl (s : NvNetState) : Untouched s s := ⟨fun _ _ _ => rfl, rfl, rfl, rfl, rfl⟩

variable {s s' : NvNetState}

variable {s'' : NvNetState} {ts' : List Taken}

theorem Untouched.trans (h : Untouched s s') (h' : Untouched s' s'') :
    Untouched s s'' where
  regs a ha hb := (h'.regs a ha hb).trans (h.regs a ha hb)
  phyRegs := h'.phyRegs.trans h.phyRegs
  autonegTimer := h'.autonegTimer.trans h.autonegTimer
  linkDown := h'.linkDown.trans h.linkDown
  irq := h'.irq.trans h.irq

theorem Untouched.txRing (h : Untouched s s')
    (hr : TxRing s base n) : TxRing s' base n where
  base_eq := by rw [h.regs _ (by decide) (by decide)]; exact hr.base_eq
  size_eq := by
    rw [getRingSize, h.regs _ (by decide) (by decide)]
    exact hr.size_eq
  pos := hr.pos
  bound := hr.bound

theorem TxRing.maxDescAddr_eq (hr : TxRing s base n) :
    maxDescAddr s txRing = base + 8 * n := by
  have hbound := hr.bound
  rw [maxDescAddr, hr.size_eq]
  change ((getReg s nvnetTxRingPhysAddr).toNat + n * 8) % 2 ^ 32 = _
  rw [hr.base_eq, Nat.mul_comm n 8, Nat.mod_eq_of_lt hbound]

theorem updateCurrent_txRing (hr : TxRing s base n) :
    updateCurrentRingDescAddr s txRing =
      (position s base n,
        setReg s nvnetTxRingCurrentDescPhysAddr (BitVec.ofNat 32 (position s base n))) := by
  have hbase : (getReg s txRing.base).toNat = base := hr.base_eq
  simp only [updateCurrentRingDescAddr, hr.maxDescAddr_eq, hbase]
  rfl

theorem position_advanceNext {cur : Nat} (hr : TxRing s base n)
    (hcur : (getReg s nvnetTxRingCurrentDescPhysAddr).toNat = cur) (hin : InRing base n cur) :
    position (advanceNextRingDescAddr s txRing) base n = nextSlot base n cur := by
  have hbound := hr.bound
  have hle := hin.2
  have hmod : (cur + 8) % 2 ^ 32 = cur + 8 := Nat.mod_eq_of_lt (by omega)
  have hbase : (getReg s txRing.base).toNat = base := hr.base_eq
  have hcurrent : (getReg s txRing.current).toNat = cur := hcur
  simp only [position, advanceNextRingDescAddr, hr.maxDescAddr_eq, hbase, hcurrent, hmod]
  change slot base n (getReg (setReg s nvnetTxRingNextDescPhysAddr _) _).toNat = _
  rw [getReg_setReg, if_pos rfl, BitVec.toNat_ofNat]
  by_cases hwrap : cur + 8 ≥ base + 8 * n
  · have hover : cur + 8 < base ∨ cur + 8 + 8 > base + 8 * n := Or.inr (by omega)
    rw [if_pos hwrap, Nat.mod_eq_of_lt (by omega), nextSlot, slot, slot, if_pos hover]
    exact ite_self _
  · rw [if_neg hwrap, hmod, nextSlot]

theorem untouched_advanceNext (s : NvNetState) :
    Untouched s (advanceNextRingDescAddr s txRing) where
  regs a _ hnext := by
    change getReg (setReg s nvnetTxRingNextDescPhysAddr _) a = _
    rw [getReg_setReg, if_neg hnext]
  phyRegs := rfl
  autonegTimer := rfl
  linkDown := rfl
  irq := rfl

theorem untouched_setCurrent (s : NvNetState) (v : Word) :
    Untouched s (setReg s nvnetTxRingCurrentDescPhysAddr v) where
  regs a hcur _ := by rw [getReg_setReg, if_neg hcur]
  phyRegs := rfl
  autonegTimer := rfl
  linkDown := rfl
  irq := rfl

/-! ## Giving a descriptor back -/

section

variable (ram : Store) (a : Nat)

theorem giveBack_eq :
    giveBack ram a = ram.write (a + 6)
      (leBytes 2 ((loadRingDesc ram a).flags &&& ~~~nvTxStatus).toNat) := by
  have haddr : leBytes 4 (loadRingDesc ram a).bufferAddr = ram.read a 4 := by
    have h := leBytes_leNat (ram.read a 4)
    rwa [Store.length_read] at h
  have hlen : leBytes 2 (loadRingDesc ram a).length = ram.read (a + 4) 2 := by
    have h := leBytes_leNat (ram.read (a + 4) 2)
    rwa [Store.length_read] at h
  rw [giveBack, storeRingDesc]
  simp only [haddr, hlen]
  rw [Store.read_append, ← Store.write_append, Store.write_read, Store.length_read]

theorem toNat_flags :
    (loadRingDesc ram a).flags.toNat = (ram (a + 6)).toNat + 256 * (ram (a + 7)).toNat := by
  have hread : ram.read (a + 6) 2 = [ram (a + 6), ram (a + 7)] := rfl
  have h6 := (ram (a + 6)).toNat_lt
  have h7 := (ram (a + 7)).toNat_lt
  simp only [loadRingDesc, hread, leNat_cons, leNat_nil, BitVec.toNat_ofNat]
  omega

theorem toNat_cleared :
    ((loadRingDesc ram a).flags &&& ~~~nvTxStatus).toNat =
      ((ram (a + 6)).toNat &&& 0xF7) + 256 * ((ram (a + 7)).toNat &&& 0x3) := by
  have hmask : (~~~nvTxStatus).toNat = 0x3F7 := by decide
  have h6 := (ram (a + 6)).toNat_lt
  have hsplit := Nat.div_add_mod ((loadRingDesc ram a).flags.toNat &&& 0x3F7) (2 ^ 8)
  rw [Nat.and_mod_two_pow, Nat.and_div_two_pow, toNat_flags] at hsplit
  rw [BitVec.toNat_and, hmask, toNat_flags, ← hsplit]
  have hmod : ((ram (a + 6)).toNat + 256 * (ram (a + 7)).toNat) % 2 ^ 8 = (ram (a + 6)).toNat := by
    omega
  have hdiv : ((ram (a + 6)).toNat + 256 * (ram (a + 7)).toNat) / 2 ^ 8 = (ram (a + 7)).toNat := by
    omega
  rw [hmod, hdiv]
  exact Nat.add_comm _ _

theorem giveBack_low : (giveBack ram a (a + 6)).toNat = (ram (a + 6)).toNat &&& 0xF7 := by
  have hle : (ram (a + 6)).toNat &&& 0xF7 ≤ 0xF7 := Nat.and_le_right
  rw [giveBack_eq]
  refine (congrArg UInt8.toNat (Store.write_inside (i := 0) (by simp))).trans ?_
  simp only [leBytes, List.getD_cons_zero, UInt8.toNat_ofNat', toNat_cleared]
  omega

theorem giveBack_high : (giveBack ram a (a + 7)).toNat = (ram (a + 7)).toNat &&& 0x3 := by
  have hle : (ram (a + 6)).toNat &&& 0xF7 ≤ 0xF7 := Nat.and_le_right
  have hle' : (ram (a + 7)).toNat &&& 0x3 ≤ 0x3 := Nat.and_le_right
  rw [giveBack_eq]
  refine (congrArg UInt8.toNat (Store.write_inside (i := 1) (by simp))).trans ?_
  simp only [leBytes, List.getD_cons_succ, List.getD_cons_zero, UInt8.toNat_ofNat', toNat_cleared]
  omega

end

theorem giveBack_le (ram : Store) (a c : Nat) : (giveBack ram a c).toNat ≤ (ram c).toNat := by
  by_cases h : c < a + 6 ∨ a + 6 + 2 ≤ c
  · rw [giveBack_eq, Store.write_outside (by simpa using h)]
  · obtain rfl | rfl : c = a + 6 ∨ c = a + 7 := by omega
    · rw [giveBack_low]
      exact Nat.and_le_left
    · rw [giveBack_high]
      exact Nat.and_le_left

theorem valid_iff (ram : Store) (a : Nat) : Valid ram a ↔ 128 ≤ (ram (a + 7)).toNat := by
  have h6 := (ram (a + 6)).toNat_lt
  have hbit : nvTxValid = BitVec.twoPow 16 15 := by decide
  have hmsb := BitVec.msb_eq_decide (loadRingDesc ram a).flags
  rw [BitVec.msb_eq_getLsbD_last, toNat_flags] at hmsb
  rw [Valid, hbit, BitVec.and_twoPow, hmsb]
  split
  case isTrue h =>
    have := of_decide_eq_true h
    exact ⟨fun _ => by omega, fun _ => by decide⟩
  case isFalse h =>
    grind

theorem Valid.of_giveBack {ram : Store} {a b : Nat} (h : Valid (giveBack ram a) b) :
    Valid ram b :=
  (valid_iff ram b).mpr (((valid_iff _ b).mp h).trans (giveBack_le ram a (b + 7)))

theorem not_valid_giveBack (ram : Store) (a : Nat) : ¬ Valid (giveBack ram a) a := by
  grind [valid_iff, giveBack_high, Nat.and_le_right]

theorem ready_valid (base n : Nat) (k : Nat) (ram : Store) (a : Nat) :
    (∀ b, Valid (ready base n k ram a).2 b → Valid ram b) ∧
      ∀ t ∈ (ready base n k ram a).1,
        Valid ram t.addr ∧ ¬ Valid (ready base n k ram a).2 t.addr := by
  induction k generalizing ram a with
  | zero => exact ⟨fun _ h => h, fun _ ht => absurd ht List.not_mem_nil⟩
  | succ k ih =>
    rw [ready]
    split
    case isFalse => exact ⟨fun _ h => h, fun _ ht => absurd ht List.not_mem_nil⟩
    case isTrue hvalid =>
      split
      · refine ⟨fun b h => h.of_giveBack, fun t ht => ?_⟩
        cases List.mem_singleton.mp ht
        exact ⟨hvalid, not_valid_giveBack ram a⟩
      · obtain ⟨hkeep, hmem⟩ := ih (giveBack ram a) (nextSlot base n a)
        refine ⟨fun b h => (hkeep b h).of_giveBack, fun t ht => ?_⟩
        cases List.mem_cons.mp ht with
        | inl heq =>
          rw [heq]
          exact ⟨hvalid, fun h => not_valid_giveBack ram a (hkeep a h)⟩
        | inr hrest => exact ⟨(hmem t hrest).1.of_giveBack, (hmem t hrest).2⟩

theorem ready_addrs (base n : Nat) (k : Nat) (ram : Store) (a : Nat) :
    (ready base n k ram a).1.map Taken.addr =
      List.iterate (nextSlot base n) a (ready base n k ram a).1.length := by
  induction k generalizing ram a with
  | zero => rfl
  | succ k ih =>
    rw [ready]
    split
    · split
      · rfl
      · rw [List.map_cons, ih, List.length_cons, List.iterate]
        rfl
    · rfl

/-! ## The loop -/

def pending (s : NvNetState) : List UInt8 := s.txDmaBuf.read 0 s.txDmaBufOffset

def Fits : List UInt8 → List Taken → Prop
  | _, [] => True
  | p, t :: ts => p.length + t.data.length ≤ txAllocBufsize ∧ Fits (assemble p [t]).1 ts

structure Sends (base n : Nat) (m : Machine) (ts : List Taken) (m' : Machine) : Prop where
  linkDown : m'.nic.linkDown = m.nic.linkDown
  pending : pending m'.nic = (assemble (pending m.nic) ts).1
  sent : m'.sent = m.sent ++ if m.nic.linkDown then [] else (assemble (Nvnet.pending m.nic) ts).2
  position : position m'.nic base n = (nextSlot base n)^[ts.length] (position m.nic base n)

variable {m : Machine} {ts : List Taken}

theorem Sends.trans {m' m'' : Machine} (h : Sends base n m ts m') (h' : Sends base n m' ts' m'') :
    Sends base n m (ts ++ ts') m'' where
  linkDown := h'.linkDown.trans h.linkDown
  pending := by rw [h'.pending, h.pending, assemble_append]
  sent := by
    rw [h'.sent, h.sent, h.pending, h.linkDown, assemble_append]
    split
    · simp
    · simp
  position := by
    rw [h'.position, h.position, List.length_append, Nat.add_comm, Function.iterate_add_apply]

theorem read_write_append (b : Store) (count : Nat) (data : List UInt8) :
    (b.write count data).read 0 (count + data.length) = b.read 0 count ++ data := by
  rw [← Store.read_append, Store.read_write_disjoint b (Or.inl (by omega)), Nat.zero_add,
    Store.read_write_same]

def buffered (s : NvNetState) (data : List UInt8) (pos : Nat) : NvNetState :=
  { s with txDmaBuf := s.txDmaBuf.write s.txDmaBufOffset data, txDmaBufOffset := pos }

theorem untouched_buffered (s : NvNetState) (data : List UInt8) (pos : Nat) :
    Untouched s (buffered s data pos) :=
  ⟨fun _ _ _ => rfl, rfl, rfl, rfl, rfl⟩

theorem pending_buffered (s : NvNetState) (t : Taken) :
    pending (buffered s t.data (if t.last then 0 else s.txDmaBufOffset + t.data.length)) =
      (assemble (pending s) [t]).1 := by
  change _ = (accept (pending s, []) t).1
  rw [accept]
  split
  · rfl
  · exact read_write_append _ _ _

theorem sendPacket_eq (m : Machine) (packet : List UInt8) :
    sendPacket m packet =
      { m with sent := m.sent ++ if m.nic.linkDown then [] else [packet] } := by
  rw [sendPacket]
  split
  · rw [List.append_nil]
  · rfl

def takenAs (ram : Store) (a length : Nat) : Taken :=
  ⟨a, ram.read (loadRingDesc ram a).bufferAddr length, (loadRingDesc ram a).isLastPacket⟩

theorem takeDesc_eq (m : Machine) (a length : Nat) :
    takeDesc m a (loadRingDesc m.ram a) length =
      { nic := advanceNextRingDescAddr (buffered m.nic (takenAs m.ram a length).data
          (if (takenAs m.ram a length).last then 0
            else m.nic.txDmaBufOffset + (takenAs m.ram a length).data.length)) txRing
        ram := giveBack m.ram a
        sent := m.sent ++ if m.nic.linkDown then [] else
          (assemble (pending m.nic) [takenAs m.ram a length]).2 } := by
  have hlen : (takenAs m.ram a length).data.length = length := Store.length_read _ _ _
  have hlast : (takenAs m.ram a length).last = (loadRingDesc m.ram a).isLastPacket := rfl
  have hpacket : (m.nic.txDmaBuf.write m.nic.txDmaBufOffset (takenAs m.ram a length).data).read 0
      (m.nic.txDmaBufOffset + (takenAs m.ram a length).data.length) =
      pending m.nic ++ (takenAs m.ram a length).data := read_write_append _ _ _
  rw [hlen] at hpacket
  rw [takeDesc, assemble, List.foldl_cons, List.foldl_nil, accept, hlast, hlen]
  by_cases h : (loadRingDesc m.ram a).isLastPacket
  · simp only [h, if_true]
    rw [sendPacket_eq, List.nil_append, ← hpacket]
    rfl
  · simp only [h, Bool.false_eq_true, if_false, ite_self, List.append_nil]
    rfl

theorem takeDesc_sends (hr : TxRing m.nic base n) (length : Nat) :
    let a := position m.nic base n
    let m' := takeDesc { m with nic := (updateCurrentRingDescAddr m.nic txRing).2 } a
      (loadRingDesc m.ram a) length
    m'.ram = giveBack m.ram a ∧ Sends base n m [takenAs m.ram a length] m' ∧
      Untouched m.nic m'.nic := by
  intro a
  have hin : InRing base n a := inRing_slot hr.pos _
  rw [updateCurrent_txRing hr]
  have hunt := untouched_setCurrent m.nic (BitVec.ofNat 32 a)
  have hcur : (getReg (setReg m.nic nvnetTxRingCurrentDescPhysAddr (BitVec.ofNat 32 a))
      nvnetTxRingCurrentDescPhysAddr).toNat = a := by
    have := hin.2
    have := hr.bound
    rw [getReg_setReg, if_pos rfl, BitVec.toNat_ofNat, Nat.mod_eq_of_lt (by omega)]
  have hpend : pending (setReg m.nic nvnetTxRingCurrentDescPhysAddr (BitVec.ofNat 32 a)) =
      pending m.nic := rfl
  generalize setReg m.nic nvnetTxRingCurrentDescPhysAddr (BitVec.ofNat 32 a) = s
    at hunt hcur hpend ⊢
  have heq := takeDesc_eq { m with nic := s } a length
  rw [heq]
  have hbuf := untouched_buffered s (takenAs m.ram a length).data
    (if (takenAs m.ram a length).last then 0
      else s.txDmaBufOffset + (takenAs m.ram a length).data.length)
  have hadv := untouched_advanceNext (buffered s (takenAs m.ram a length).data
    (if (takenAs m.ram a length).last then 0
      else s.txDmaBufOffset + (takenAs m.ram a length).data.length))
  refine ⟨rfl, ⟨((hunt.trans hbuf).trans hadv).linkDown, ?_, ?_, ?_⟩,
    (hunt.trans hbuf).trans hadv⟩
  · rw [← hpend]
    exact pending_buffered s (takenAs m.ram a length)
  · rw [hunt.linkDown, hpend]
  · refine position_advanceNext ((hunt.trans hbuf).txRing hr) ?_ hin
    exact hcur

theorem length_pending (s : NvNetState) : (pending s).length = s.txDmaBufOffset :=
  Store.length_read _ _ _

theorem dmaLoop_sends (base n k : Nat) (m : Machine) (hr : TxRing m.nic base n)
    (hfits : Fits (pending m.nic) (ready base n k m.ram (position m.nic base n)).1) :
    ∃ m', dmaLoop k m = some (m', (ready base n k m.ram (position m.nic base n)).1.any Taken.last) ∧
      m'.ram = (ready base n k m.ram (position m.nic base n)).2 ∧
      Sends base n m (ready base n k m.ram (position m.nic base n)).1 m' ∧
      Untouched m.nic m'.nic := by
  induction k generalizing m with
  | zero => exact ⟨m, rfl, rfl, ⟨rfl, rfl, by simp [ready, assemble], rfl⟩, Untouched.refl _⟩
  | succ k ih =>
    obtain ⟨hram, hsends, hunt⟩ :=
      takeDesc_sends hr ((loadRingDesc m.ram (position m.nic base n)).length + 1)
    rw [updateCurrent_txRing hr] at hram hsends hunt
    rw [dmaLoop, updateCurrent_txRing hr]
    rw [ready] at hfits ⊢
    by_cases hvalid : Valid m.ram (position m.nic base n)
    case neg =>
      have hflags :=
        not_not.mp hvalid
      rw [if_neg hvalid]
      refine ⟨_, if_pos hflags, rfl, ⟨rfl, rfl, ?_, rfl⟩, untouched_setCurrent _ _⟩
      simp [assemble]
    case pos =>
      rw [if_pos hvalid] at hfits ⊢
      have hfit : m.nic.txDmaBufOffset + ((loadRingDesc m.ram (position m.nic base n)).length + 1) ≤
          txAllocBufsize := by
        rw [← length_pending m.nic]
        split at hfits
        · exact (Store.length_read m.ram _ _ ▸ hfits.1 : _)
        · exact (Store.length_read m.ram _ _ ▸ hfits.1 : _)
      have hlength : ((loadRingDesc m.ram (position m.nic base n)).length + 1) % 2 ^ 16 =
          (loadRingDesc m.ram (position m.nic base n)).length + 1 := by
        have hsize : txAllocBufsize = 1628 := rfl
        exact Nat.mod_eq_of_lt (by omega)
      dsimp only
      rw [if_neg hvalid, hlength, setReg_txDmaBufOffset, if_pos hfit]
      generalize takeDesc _ _ _ _ = m1 at hram hsends hunt ⊢
      by_cases hlast : (taken m.ram (position m.nic base n)).last
      · rw [if_pos hlast] at hfits ⊢
        refine ⟨m1, (if_pos hlast).trans ?_, hram, hsends, hunt⟩
        rw [List.any_cons, hlast]
        rfl
      · rw [if_neg hlast] at hfits ⊢
        have hpos :=
          hsends.position
        obtain ⟨m', hloop, hram', hsends', hunt'⟩ := ih m1 (hunt.txRing hr) (by
          rw [hram, hpos, hsends.pending]
          exact hfits.2)
        rw [hram, hpos] at hloop hram' hsends'
        refine ⟨m', (if_neg hlast).trans ?_, hram', hsends.trans hsends', hunt.trans hunt'⟩
        rw [hloop, List.any_cons, Bool.of_not_eq_true hlast]
        rfl

/-! ## Kicks -/

structure Keeps (s s' : NvNetState) : Prop where
  regs : ∀ a, a ≠ nvnetTxRxControl → a ≠ nvnetIrqStatus → getReg s' a = getReg s a
  dmaEnabled : dmaEnabled s' = dmaEnabled s
  phyRegs : s'.phyRegs = s.phyRegs
  linkDown : s'.linkDown = s.linkDown
  autonegTimer : s'.autonegTimer = s.autonegTimer
  buffer : pending s' = pending s

theorem Keeps.txRing (h : Keeps s s')
    (hr : TxRing s base n) : TxRing s' base n where
  base_eq := by rw [h.regs _ (by decide) (by decide)]; exact hr.base_eq
  size_eq := by
    rw [getRingSize, h.regs _ (by decide) (by decide)]
    exact hr.size_eq
  pos := hr.pos
  bound := hr.bound

theorem Keeps.position_eq (h : Keeps s s') (base n : Nat) :
    position s' base n = position s base n := by
  rw [position, position, h.regs _ (by decide) (by decide)]

theorem Keeps.canTransmit_eq (h : Keeps s s') :
    canTransmit s' = canTransmit s := by
  rw [canTransmit, canTransmit, linkUp, linkUp, h.regs _ (by decide) (by decide), h.dmaEnabled,
    h.phyRegs]

theorem Untouched.canTransmit_eq (h : Untouched s s') :
    canTransmit s' = canTransmit s := by
  rw [canTransmit, canTransmit, linkUp, linkUp, dmaEnabled, dmaEnabled,
    h.regs _ (by decide) (by decide), h.regs _ (by decide) (by decide), h.phyRegs]

theorem keeps_setDmaIdle (s : NvNetState) (idle : Bool) : Keeps s (setDmaIdle s idle) := by
  have hidle : nvnetTxRxControlIdle &&& nvnetTxRxControlBit2 = 0 := by decide
  have hbusy : ~~~nvnetTxRxControlIdle &&& nvnetTxRxControlBit2 = nvnetTxRxControlBit2 := by decide
  cases idle with
  | true =>
    refine ⟨fun a ha _ => (getReg_setReg s _ a _).trans (if_neg ha), ?_, rfl, rfl, rfl, rfl⟩
    change (getReg (setReg s nvnetTxRxControl _) nvnetTxRxControl &&& _ == 0) = _
    rw [getReg_setReg, if_pos rfl, or_and_of_disjoint _ hidle, dmaEnabled]
  | false =>
    refine ⟨fun a ha _ => (getReg_setReg s _ a _).trans (if_neg ha), ?_, rfl, rfl, rfl, rfl⟩
    change (getReg (setReg s nvnetTxRxControl _) nvnetTxRxControl &&& _ == 0) = _
    rw [getReg_setReg, if_pos rfl, BitVec.and_assoc, hbusy, dmaEnabled]

theorem keeps_setIntrStatus (s : NvNetState) (status : Word) :
    Keeps s (setIntrStatus s status) where
  regs a _ ha := (getReg_setReg s _ a _).trans (if_neg ha)
  dmaEnabled := rfl
  phyRegs := rfl
  linkDown := rfl
  autonegTimer := rfl
  buffer := rfl

theorem Keeps.trans (h : Keeps s s') (h' : Keeps s' s'') :
    Keeps s s'' where
  regs a ha hb := (h'.regs a ha hb).trans (h.regs a ha hb)
  dmaEnabled := h'.dmaEnabled.trans h.dmaEnabled
  phyRegs := h'.phyRegs.trans h.phyRegs
  linkDown := h'.linkDown.trans h.linkDown
  autonegTimer := h'.autonegTimer.trans h.autonegTimer
  buffer := h'.buffer.trans h.buffer

theorem Sends.keeps {m1 : Machine}
    (hs : Keeps m.nic s) (hsends : Sends base n { m with nic := s } ts m1) (hs' : Keeps m1.nic s') :
    Sends base n m ts { m1 with nic := s' } where
  linkDown := (hs'.linkDown.trans hsends.linkDown).trans hs.linkDown
  pending := by
    rw [← hs.buffer]
    exact hs'.buffer.trans hsends.pending
  sent := by
    rw [← hs.buffer, ← hs.linkDown]
    exact hsends.sent
  position := by
    rw [← hs.position_eq]
    exact (hs'.position_eq base n).trans hsends.position

def finish (s : NvNetState) (packetSent : Bool) : NvNetState :=
  if packetSent then setIntrStatus (setDmaIdle s true) nvnetIrqStatusTx else setDmaIdle s true

theorem keeps_finish (s : NvNetState) (packetSent : Bool) : Keeps s (finish s packetSent) := by
  cases packetSent with
  | true => exact (keeps_setDmaIdle s true).trans (keeps_setIntrStatus _ _)
  | false => exact keeps_setDmaIdle s true

/-- **One kick**: it returns, takes what is ready, and keeps the ring and transmission enabled. -/
theorem dmaPacketFromGuest_sends (hr : TxRing m.nic base n)
    (hon : canTransmit m.nic = true)
    (hfits : Fits (pending m.nic) (ready base n n m.ram (position m.nic base n)).1) :
    ∃ m1, dmaPacketFromGuest m = some { m1 with
        nic := finish m1.nic ((ready base n n m.ram (position m.nic base n)).1.any Taken.last) } ∧
      m1.ram = (ready base n n m.ram (position m.nic base n)).2 ∧
      Sends base n { m with nic := setDmaIdle m.nic false }
        (ready base n n m.ram (position m.nic base n)).1 m1 ∧
      Untouched (setDmaIdle m.nic false) m1.nic := by
  have hidle := keeps_setDmaIdle m.nic false
  have hloop := dmaLoop_sends base n n { m with nic := setDmaIdle m.nic false } (hidle.txRing hr)
  have hsize := (hidle.txRing hr).size_eq
  obtain ⟨m1, heq, hram, hsends, hunt⟩ := hloop hfits
  refine ⟨m1, ?_, hram, hsends, hunt⟩
  rw [dmaPacketFromGuest, if_pos hon]
  dsimp only
  rw [hsize, heq]
  rfl

/-! ## Runs -/

inductive Turn where
  | kick
  | guest (change : Store → Store)

def turn (m : Machine) : Turn → Option Machine
  | .kick => dmaPacketFromGuest m
  | .guest change => some { m with ram := change m.ram }

structure Walk where
  ram : Store
  at' : Nat
  log : List Taken

def Walk.turn (base n : Nat) (w : Walk) : Turn → Walk
  | .kick =>
    let r := ready base n n w.ram w.at'
    { ram := r.2, at' := (nextSlot base n)^[r.1.length] w.at', log := w.log ++ r.1 }
  | .guest change => { w with ram := change w.ram }

def Walk.run (base n : Nat) (w : Walk) (turns : List Turn) : Walk := turns.foldl (Walk.turn base n) w

def Machine.walk (m : Machine) (base n : Nat) : Walk := ⟨m.ram, position m.nic base n, []⟩

theorem Fits.append_iff {p : List UInt8} :
    Fits p (ts ++ ts') ↔ Fits p ts ∧ Fits (assemble p ts).1 ts' := by
  induction ts generalizing p with
  | nil => simp [Fits, assemble]
  | cons t ts ih =>
    rw [List.cons_append, Fits, Fits, ih, assemble_cons p t ts, and_assoc]

theorem Walk.run_concat (base n : Nat) (w : Walk) (turns : List Turn) (t : Turn) :
    w.run base n (turns ++ [t]) = (w.run base n turns).turn base n t := by
  rw [Walk.run, List.foldl_append]
  rfl

/-- **Whole runs**: the device sends what the walk takes. -/
theorem run_sends (hr : TxRing m.nic base n)
    (hon : canTransmit m.nic = true) (turns : List Turn)
    (hfits : Fits (pending m.nic) ((m.walk base n).run base n turns).log) :
    ∃ m', turns.foldlM turn m = some m' ∧
      Sends base n m ((m.walk base n).run base n turns).log m' ∧
      m'.ram = ((m.walk base n).run base n turns).ram ∧
      position m'.nic base n = ((m.walk base n).run base n turns).at' ∧
      TxRing m'.nic base n ∧ canTransmit m'.nic = true := by
  induction turns using List.reverseRecOn with
  | nil =>
    refine ⟨m, rfl, ⟨rfl, rfl, ?_, rfl⟩, rfl, rfl, hr, hon⟩
    simp [Walk.run, Machine.walk, assemble]
  | append_singleton turns t ih =>
    rw [Walk.run_concat] at hfits ⊢
    generalize (m.walk base n).run base n turns = w at ih hfits
    cases t with
    | guest change =>
      obtain ⟨m', hrun, hsends, hram, hpos, hr', hon'⟩ := ih hfits
      refine ⟨{ m' with ram := change m'.ram }, ?_, ⟨hsends.linkDown, hsends.pending, hsends.sent,
        hsends.position⟩, ?_, hpos, hr', hon'⟩
      · rw [List.foldlM_append, hrun]
        rfl
      · rw [hram]
        rfl
    | kick =>
      obtain ⟨hfits1, hfits2⟩ := Fits.append_iff.mp hfits
      obtain ⟨m', hrun, hsends, hram, hpos, hr', hon'⟩ := ih hfits1
      have hready : ready base n n m'.ram (position m'.nic base n) = ready base n n w.ram w.at' := by
        rw [hram, hpos]
      rw [← hsends.pending, ← hready] at hfits2
      obtain ⟨m1, hkick, hram1, hsends1, hunt⟩ := dmaPacketFromGuest_sends hr' hon' hfits2
      rw [hready] at hkick hram1 hsends1
      have hidle := keeps_setDmaIdle m'.nic false
      have hfin := keeps_finish m1.nic ((ready base n n w.ram w.at').1.any Taken.last)
      have hall := hsends1.keeps hidle hfin
      refine ⟨_, ?_, hsends.trans hall, hram1, ?_, hfin.txRing (hunt.txRing (hidle.txRing hr')), ?_⟩
      · rw [List.foldlM_append, hrun]
        exact (bind_pure _).trans hkick
      · rw [hall.position, hpos]
        rfl
      · rw [hfin.canTransmit_eq, hunt.canTransmit_eq, hidle.canTransmit_eq]
        exact hon'

theorem Walk.run_addrs (base n : Nat) (m : Machine) (turns : List Turn) :
    ((m.walk base n).run base n turns).at' =
        (nextSlot base n)^[((m.walk base n).run base n turns).log.length]
          (position m.nic base n) ∧
      ((m.walk base n).run base n turns).log.map Taken.addr =
        List.iterate (nextSlot base n) (position m.nic base n)
          ((m.walk base n).run base n turns).log.length := by
  induction turns using List.reverseRecOn with
  | nil => exact ⟨rfl, rfl⟩
  | append_singleton turns t ih =>
    rw [Walk.run_concat]
    generalize (m.walk base n).run base n turns = w at ih ⊢
    cases t with
    | guest change => exact ih
    | kick =>
      simp only [Walk.turn, List.length_append, List.map_append]
      constructor
      · rw [ih.1, Nat.add_comm, Function.iterate_add_apply]
      · rw [ih.2, ready_addrs, List.iterate_add, ← ih.1]

theorem inRing_iterate (hn : 0 < n) (s : NvNetState) (i : Nat) :
    InRing base n ((nextSlot base n)^[i] (position s base n)) := by
  cases i with
  | zero => exact inRing_slot hn _
  | succ i =>
    rw [Function.iterate_succ_apply']
    exact inRing_slot hn _

/-- **Transmission.** However kicks and changes of guest memory follow each other, the packets sent
are those the walk around the ring spells, the buffer holds the part of the packet it has not
finished, and each kick takes valid descriptors of the ring and leaves them invalid. -/
theorem transmission_exact (m : Machine) (base n : Nat) (turns : List Turn)
    (hr : TxRing m.nic base n) (hon : canTransmit m.nic = true)
    (hfits : Fits (pending m.nic) ((m.walk base n).run base n turns).log) :
    ∃ m', turns.foldlM turn m = some m' ∧
      let w := (m.walk base n).run base n turns
      m'.sent = m.sent ++ (if m.nic.linkDown then [] else (assemble (pending m.nic) w.log).2) ∧
      pending m'.nic = (assemble (pending m.nic) w.log).1 ∧
      m'.ram = w.ram ∧ position m'.nic base n = w.at' ∧
      w.log.map Taken.addr =
        List.iterate (nextSlot base n) (position m.nic base n) w.log.length ∧
      (∀ i, InRing base n ((nextSlot base n)^[i] (position m.nic base n))) ∧
      ∀ before after, turns = before ++ .kick :: after →
        let v := (m.walk base n).run base n before
        ∀ t ∈ (ready base n n v.ram v.at').1,
          Valid v.ram t.addr ∧ ¬ Valid (v.turn base n .kick).ram t.addr := by
  obtain ⟨m', hrun, hsends, hram, hpos, -, -⟩ := run_sends hr hon turns hfits
  refine ⟨m', hrun, hsends.sent, hsends.pending, hram, hpos, (Walk.run_addrs base n m turns).2,
    inRing_iterate hr.pos m.nic, ?_⟩
  intro before after _ v t ht
  exact (ready_valid base n n v.ram v.at').2 t ht

instance decidableFits : (p : List UInt8) → (ts : List Taken) → Decidable (Fits p ts)
  | _, [] => isTrue trivial
  | p, t :: ts =>
    have := decidableFits (assemble p [t]).1 ts
    inferInstanceAs (Decidable (_ ∧ _))

/-- A ring of two descriptors at `0x1000`, the second of them current and valid; it does not end its
packet. -/
def halfFilled : Machine where
  nic :=
    { regs := fun a =>
        if a = nvnetTxRingPhysAddr then 0x1000
        else if a = nvnetRingSize then 0x1
        else if a = nvnetTxRingNextDescPhysAddr then 0x1008
        else if a = nvnetTransmitterControl then nvnetTransmitterControlStart else 0
      phyRegs := fun _ => miiBmsrLinkSt
      txDmaBufOffset := 0, txDmaBuf := fun _ => 0, autonegTimer := false, linkDown := false
      irq := false, txRingIndex := 0, rxRingIndex := 0 }
  ram := storeRingDesc (Store.write (fun _ => 0) 0x2000 [7, 8]) 0x1008 ⟨0x2000, 0, nvTxValid⟩
  sent := []

def refill (ram : Store) : Store :=
  storeRingDesc ram 0x1000 ⟨0x2001, 0, nvTxValid ||| nvTxLastpacket⟩

theorem transmission_exact_halfFilled :
    ∃ m', [.kick, .guest refill, .kick, .kick].foldlM turn halfFilled = some m' ∧
      m'.sent = [[7, 8]] := by
  obtain ⟨m', hrun, hsent, -⟩ := transmission_exact halfFilled 0x1000 2
    [.kick, .guest refill, .kick, .kick] ⟨rfl, by decide +kernel, by decide, by decide⟩ (by decide)
    (by decide +kernel)
  exact ⟨m', hrun, hsent.trans (by decide +kernel)⟩

end DukeX.Nvnet
